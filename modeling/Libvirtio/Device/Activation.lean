import Libvirtio.Device.QueueIndices
import Libvirtio.Device.Service
import Libvirtio.Device.Spec

namespace Libvirtio

theorem Block.BlockSpec.config_of_opened {F : Type} {host : HostImages F} {path : List UInt8} {queueCount : Nat}
    {maximumQueueSize : UInt16} {spec : BlockSpec} (opened : openSpec host path queueCount maximumQueueSize = .ok spec) :
    ∃ config, spec.config = .ok config ∧ config.queueCount.toNat = spec.queueCount := by
  obtain ⟨metadata, -, opened⟩ := except_bind_eq_ok.mp opened
  simp only at opened
  split at opened
  · cases opened
  split at opened
  · cases opened
  rename_i bounded
  cases opened
  have fits : queueCount < 2 ^ 16 := by omega
  refine ⟨_, by simp only [config, expectU16, if_pos fits]; rfl, ?_⟩
  exact UInt16.toNat_ofNat_of_lt' fits

theorem Fs.FsSpec.config_of_opened {host : HostRoots} {root tag : Bytes} {requestQueueCount : Nat}
    {maximumQueueSize : UInt16} {spec : FsSpec}
    (opened : openSpec host root tag requestQueueCount maximumQueueSize = .ok spec) :
    ∃ config, spec.config = .ok config ∧ config.requestQueueCount.toNat = spec.requestQueueCount := by
  obtain ⟨path, -, opened⟩ := except_bind_eq_ok.mp opened
  split at opened
  · cases opened
  split at opened
  · cases opened
  split at opened
  · cases opened
  rename_i bounded
  cases opened
  have fits : requestQueueCount < 2 ^ 32 := by omega
  exact ⟨_, if_pos fits, UInt32.toNat_ofNat_of_lt' fits⟩

section
variable {β : Type} {sound : β → Prop} {resources : Resources} {index : Nat}

theorem Safe.seq {α γ : Type} {queues : Nat} {next : γ → Prop} {m : DeviceM β α} {f : α → DeviceM β γ}
    (first : Safe queues sound (fun _ => True) m) (rest : ∀ a, Safe queues sound next (f a)) :
    Safe queues sound next (m >>= f) := .bind first fun a _ => rest a

theorem Safe.seq_option {α γ : Type} {queues : Nat} {next : γ → Prop} {m : DeviceM β (Option α)}
    {f : Option α → DeviceM β γ} (first : Safe queues sound (fun _ => True) m) (absent : Safe queues sound next (f none))
    (present : ∀ a, Safe queues sound next (f (some a))) : Safe queues sound next (m >>= f) := by
  refine .seq first fun found => ?_
  cases found with
  | none => exact absent
  | some a => exact present a

theorem onDma_returns {α : Type} (access : DmaM α) {queues : Nat} :
    Safe queues sound (fun _ => True) (onDma access : DeviceM β α) := onDma_safe fun _ _ _ _ => trivial

theorem ofResult_returns {α : Type} (result : Except DeviceError α) {queues : Nat} :
    Safe queues sound (fun _ => True) (ofResult result : DeviceM β α) := ofResult_safe fun _ _ => trivial

theorem storeHost_safe {queues : Nat} (f : GuestMemory → GuestMemory) :
    Safe queues sound (fun _ => True) (Fallible.update fun view : DeviceView β => { view with guest := f view.guest }) :=
  update_safe fun _ steady => ⟨steady.states, steady.backend⟩

theorem onBackend_returns {α : Type} {queues : Nat} {call : β → α × β} (kept : ∀ state, sound state → sound (call state).2) :
    Safe queues sound (fun _ => True) (onBackend call : DeviceM β α) :=
  onBackend_safe fun state holds => ⟨trivial, kept state holds⟩

theorem notifyConfigured_safe {queues : Nat} (missing vectorReason : String) :
    Safe queues sound (fun _ => True) (notifyConfigured resources index missing vectorReason : DeviceM β Unit) := by
  refine .ite (fun inside => .bind (indexed_safe inside) fun notifier _ => .seq ?_ fun interrupt => ?_) fun _ => raise_safe _
  · by_cases fits : index < 2 ^ 16
    · simp only [fitsU16, if_pos fits]
      exact .pure trivial
    · simp only [fitsU16, if_neg fits]
      exact raise_safe _
  · exact .bind .read fun _ _ => .seq (ofResult_returns _) fun _ => emit_safe _

theorem pop_returns (inside : index < resources.queues.length) :
    Safe resources.queues.length sound (fun _ => True) (pop resources index : DeviceM β (Option DescriptorChain)) :=
  .bind (queueAt_safe inside) fun _ _ => onState_safe inside fun _ _ _ _ => trivial

/-- A round that serves a queue does not unwind if its work and its announcement do not. -/
theorem serve_safe (inside : index < resources.queues.length) {work : DescriptorChain → DeviceM β UInt32}
    {announce : DeviceM β Unit} (works : ∀ chain, Safe resources.queues.length sound (fun _ => True) (work chain))
    (announces : Safe resources.queues.length sound (fun _ => True) announce) :
    Safe resources.queues.length sound (fun _ => True) (serve resources index work announce) := by
  refine .seq_option (pop_returns inside) (.pure trivial) fun chain => .seq (works chain) fun usedLength => ?_
  exact .seq (completeQueue_safe inside chain usedLength) fun _ => .seq announces fun _ => .pure trivial

theorem once_safe {queues : Nat} {round : DeviceM β Bool} (safe : Safe queues sound (fun _ => True) round) :
    Safe queues sound (fun _ => True) (once round) := .seq safe fun _ => .pure trivial

theorem changed_safe {queues : Nat} {change : β → β} (kept : ∀ state, sound state → sound (change state)) :
    Safe queues sound (fun _ => True) (changed change) := onBackend_returns kept

end

section
variable {β : Type} {sound : β → Prop} {queues : Nat}

theorem Console.transmitWork_safe {backend : Console.Backend β} (kept : ∀ state, sound state) (chain : DescriptorChain) :
    Safe queues sound (fun _ => True) (Console.transmitWork backend chain) :=
  .seq (onDma_returns _) fun _ => .seq (tryBackend_safe fun _ _ => kept _) fun _ => .pure trivial

theorem Console.receiveWork_safe {backend : Console.Backend β} (kept : ∀ state, sound state) (chain : DescriptorChain) :
    Safe queues sound (fun _ => True) (Console.receiveWork backend chain) := by
  refine .seq (ofResult_returns _) fun capacity => .seq ?_ fun bytes => ?_
  · exact .seq_option (onBackend_returns fun _ _ => kept _) (raise_safe _) fun _ => .pure trivial
  · exact .seq (onDma_returns _) fun _ => ofResult_returns _

theorem Rng.fillParts_safe {entropy : Rng.Entropy β} (kept : ∀ state, sound state) (parts : List DmaPart) (length : Nat) :
    Safe queues sound (fun _ => True) (Rng.fillParts entropy parts length) := by
  induction parts generalizing length with
  | nil => exact .pure trivial
  | cons part rest ih =>
      refine .seq (onBackend_returns fun _ _ => kept _) fun bytes => ?_
      refine .seq (storeHost_safe fun guest => { guest with host := Store.save guest.host part.base bytes }) fun _ => ?_
      cases checkedAdd length part.length with
      | none => exact raise_safe _
      | some total => exact ih total

theorem Rng.fillDescriptors_safe {entropy : Rng.Entropy β} (kept : ∀ state, sound state) (descriptors : List Descriptor)
    (length : Nat) : Safe queues sound (fun _ => True) (Rng.fillDescriptors entropy descriptors length) := by
  induction descriptors generalizing length with
  | nil => exact .pure trivial
  | cons descriptor rest ih =>
      refine .ite (fun _ => raise_safe _) fun _ => .seq (onDma_returns _) fun parts => ?_
      exact .seq (fillParts_safe kept parts length) fun total => ih total

theorem Rng.fillChain_safe {entropy : Rng.Entropy β} (kept : ∀ state, sound state) (chain : DescriptorChain) :
    Safe queues sound (fun _ => True) (Rng.fillChain entropy chain) :=
  .seq (fillDescriptors_safe kept chain.descriptors 0) fun _ => .ite (fun _ => .pure trivial) fun _ => raise_safe _

theorem Memory.parseRequest_two {chain : DescriptorChain} {guest after : GuestMemory} {request : Memory.Request}
    (run : Memory.parseRequest chain guest = (.ok request, after)) : chain.descriptors.length = 2 := by
  unfold Memory.parseRequest at run
  rcases descriptors : chain.descriptors with _ | ⟨first, _ | ⟨second, _ | ⟨third, rest⟩⟩⟩
  · rw [descriptors] at run
    cases run
  · rw [descriptors] at run
    cases run
  · rfl
  · rw [descriptors] at run
    cases run

theorem Memory.requestWork_safe {backend : Memory.Backend β} (kept : ∀ state, sound state) (chain : DescriptorChain) :
    Safe queues sound (fun _ => True) (Memory.requestWork backend chain) := by
  refine .bind (onDma_safe fun _ _ _ => Memory.parseRequest_two) fun request two => ?_
  refine .seq (tryBackend_safe fun _ _ => kept _) fun response => .seq ?_ fun _ => .pure trivial
  obtain ⟨descriptor, found⟩ : ∃ descriptor, chain.descriptors[1]? = some descriptor :=
    ⟨_, List.getElem?_eq_getElem (by omega)⟩
  simp only [Memory.writeResponse, found]
  exact .seq (onDma_returns _) fun parts =>
    storeHost_safe fun guest => { guest with host := scatter guest.host parts response.bytes }

theorem Vsock.txWork_safe {resources : Resources} {backend : Vsock.Backend β} (kept : ∀ state, sound state)
    (chain : DescriptorChain) : Safe queues sound (fun _ => True) (Vsock.txWork resources backend chain) :=
  .seq (onDma_returns _) fun _ => .seq (ofResult_returns _) fun _ =>
    .seq (tryBackend_safe fun _ _ => kept _) fun _ => .pure trivial

theorem Vsock.rxWork_safe {resources : Resources} {backend : Vsock.Backend β} (kept : ∀ state, sound state)
    (chain : DescriptorChain) : Safe queues sound (fun _ => True) (Vsock.rxWork resources backend chain) := by
  refine .seq ?_ fun packet => ?_
  · exact .seq_option (onBackend_returns fun _ _ => kept _) (raise_safe _) fun _ => .pure trivial
  · exact .seq (ofResult_returns _) fun _ => .seq (ofResult_returns _) fun _ =>
      .seq (onDma_returns _) fun _ => ofResult_returns _

theorem Vsock.notifyQueue_safe {resources : Resources} {index : Nat} (inside : index < resources.interrupts.length)
    (fits : index < 2 ^ 16) : Safe queues sound (fun _ => True) (Vsock.notifyQueue resources index : DeviceM β Unit) := by
  refine notify_safe inside (show _ = Except.ok (.queue (UInt16.ofNat index) (UInt16.ofNat index)) from ?_)
  simp only [expectU16, if_pos fits]
  rfl

end

theorem eraseIdx_forall {α : Type} {items : List α} {p : α → Prop} (holds : ∀ item ∈ items, p item) (position : Nat) :
    (∀ item, items[position]? = some item → p item) ∧ ∀ item ∈ items.eraseIdx position, p item :=
  ⟨fun item found => holds item (List.mem_of_getElem? found), fun item member => holds item (List.mem_of_mem_eraseIdx member)⟩

namespace Block
variable {F : Type} {resources : Resources}

/-- Every request in flight is on a queue that the device has. -/
def State.Known (queues : Nat) (state : State F) : Prop := ∀ work ∈ state.pending, work.queueIndex < queues

theorem takeWork_safe (index : Nat) :
    Safe resources.queues.length (State.Known resources.queues.length)
      (fun taken => ∀ work, taken = some work → work.queueIndex < resources.queues.length)
      (takeWork resources index : DeviceM (State F) (Option Work)) := by
  have guard : Safe resources.queues.length (State.Known resources.queues.length)
      (fun _ => index < resources.queues.length) (configured resources index : DeviceM (State F) Unit) :=
    .ite (fun inside => .pure inside) fun _ => raise_safe _
  refine .bind guard fun _ inside => .seq_option (pop_returns inside) (.pure fun _ absent => by cases absent) fun chain => ?_
  refine .seq (onDma_returns _) fun request => .pure fun work same => ?_
  cases same
  exact inside

theorem takeRound_safe (index : Nat) :
    Safe resources.queues.length (State.Known resources.queues.length) (fun _ => True)
      (takeRound resources index : DeviceM (State F) Bool) := by
  refine .bind (takeWork_safe index) fun taken known => ?_
  cases taken with
  | none => exact .pure trivial
  | some work =>
      refine onBackend_returns fun state holds => List.forall_mem_append.mpr ⟨holds, fun other member => ?_⟩
      cases List.mem_singleton.mp member
      exact known work rfl

theorem executeWork_safe {host : HostFile F} {device : Device} {queues : Nat} (down : Bool) (work : Work) :
    Safe queues (State.Known queues) (fun _ => True) (executeWork host device down work) := by
  intro view steady
  unfold executeWork onIo
  rcases execute host device down work.request ⟨view.guest, view.backend.file⟩ with ⟨error | completion, after⟩
  · exact ⟨⟨steady.states, steady.backend⟩, trivial⟩
  · exact ⟨⟨steady.states, steady.backend⟩, trivial⟩

theorem finishRound_safe {host : HostFile F} {device : Device} (down : Bool) (position : Nat) :
    Safe resources.queues.length (State.Known resources.queues.length) (fun _ => True)
      (finishRound resources host device down position) := by
  have ready : Safe resources.queues.length (State.Known resources.queues.length)
      (fun ready => ∀ work, ready = some work → work.queueIndex < resources.queues.length)
      (onBackend fun state : State F =>
        (state.pending[position]?, { state with pending := state.pending.eraseIdx position })) :=
    onBackend_safe fun state holds => eraseIdx_forall holds position
  refine .bind ready fun ready known => ?_
  cases ready with
  | none => exact .pure trivial
  | some work =>
      refine .seq (executeWork_safe down work) fun completion => .seq ?_ fun _ => .pure trivial
      exact .seq (completeQueue_safe (known work rfl) _ _) fun _ => notifyConfigured_safe _ _

end Block

namespace Fs
variable {resources : Resources}

def State.Known (queues : Nat) (state : State) : Prop := ∀ work ∈ state.pending, work.queueIndex < queues

theorem takeRound_safe {index : Nat} (inside : index < resources.queues.length) :
    Safe resources.queues.length (State.Known resources.queues.length) (fun _ => True) (takeRound resources index) := by
  have taken : Safe resources.queues.length (State.Known resources.queues.length)
      (fun taken => ∀ work, taken = some work → work.queueIndex < resources.queues.length)
      (takeWork resources index) := by
    refine .seq_option (pop_returns inside) (.pure fun _ absent => by cases absent) fun chain => ?_
    refine .seq (onDma_returns _) fun parsed => .pure fun work same => ?_
    cases same
    exact inside
  refine .bind taken fun taken known => ?_
  cases taken with
  | none => exact .pure trivial
  | some work =>
      refine onBackend_returns fun state holds => List.forall_mem_append.mpr ⟨holds, fun other member => ?_⟩
      cases List.mem_singleton.mp member
      exact known work rfl

theorem executeWork_safe {root : Path} {host : Host} {queues : Nat} (down : Bool) (request : Bytes) :
    Safe queues (State.Known queues) (fun _ => True) (executeWork down root host request) :=
  .seq (.ite (fun _ => raise_safe _) fun _ => .pure trivial) fun _ => tryBackend_safe fun _ holds => holds

theorem finishRound_safe {root : Path} {host : Host} (down : Bool) (position : Nat) :
    Safe resources.queues.length (State.Known resources.queues.length) (fun _ => True)
      (finishRound resources down root host position) := by
  have ready : Safe resources.queues.length (State.Known resources.queues.length)
      (fun ready => ∀ work, ready = some work → work.queueIndex < resources.queues.length)
      (onBackend fun state : State =>
        (state.pending[position]?, { state with pending := state.pending.eraseIdx position })) :=
    onBackend_safe fun state holds => eraseIdx_forall holds position
  refine .bind ready fun ready known => ?_
  cases ready with
  | none => exact .pure trivial
  | some work =>
      refine .seq (executeWork_safe down work.request) fun reply => .seq ?_ fun _ => .pure trivial
      refine .seq (.seq (onDma_returns _) fun usedLength => ?_) fun _ => notifyConfigured_safe _ _
      exact completeQueue_safe (known work rfl) _ _

end Fs

/-- A machine with what its loop asks for and what its state keeps. -/
structure Guarded where
  machine : Machine
  resources : Resources
  asks : machine.Port → Prop
  sound : machine.State → Prop

namespace Guarded

def block {F : Type} (host : Block.HostFile F) (device : Block.Device) (resources : Resources) : Guarded where
  machine := Block.machine host device resources
  resources := resources
  asks _ := True
  sound := Block.State.Known resources.queues.length

/-- The loop goes round the queues that the device has. -/
def fs (root : Fs.Path) (resources : Resources) : Guarded where
  machine := Fs.machine root resources
  resources := resources
  asks
    | .take index => index < resources.queues.length
    | .finish _ _ _ => True
  sound := Fs.State.Known resources.queues.length

def serial (machine : Machine) (resources : Resources) : Guarded where
  machine := machine
  resources := resources
  asks _ := True
  sound _ := True

/-- Devices as their specs activate them. -/
inductive Activated : (guarded : Guarded) → DeviceView guarded.machine.State → Prop
  | block {F : Type} {images : Block.HostImages F} {host : Block.HostFile F} {spec : Block.BlockSpec}
      {resources : Resources} {guest : GuestMemory} {device : Block.Device} {view : DeviceView (Block.State F)}
      (activated : spec.activate images resources guest = .ok (device, view)) :
      Activated (block host device resources) view
  | fs {spec : Fs.FsSpec} {resources : Resources} {guest : GuestMemory} {view : DeviceView Fs.State}
      (activated : spec.activate resources guest = .ok view) : Activated (fs spec.root resources) view
  | vsock {β : Type} {backend : Vsock.Backend β} {spec : Vsock.VsockSpec} {resources : Resources} {guest : GuestMemory}
      {state : β} {view : DeviceView β} (activated : spec.activate resources guest state = .ok view) :
      Activated (serial (Vsock.machine resources backend) resources) view
  | console {β : Type} {backend : Console.Backend β} {spec : Console.ConsoleSpec} {resources : Resources}
      {guest : GuestMemory} {state : β} {view : DeviceView β}
      (activated : spec.activate resources guest state = .ok view) :
      Activated (serial (Console.machine resources backend) resources) view
  | rng {β : Type} {entropy : Rng.Entropy β} {spec : Rng.RngSpec} {resources : Resources} {guest : GuestMemory}
      {state : β} {view : DeviceView β} (activated : spec.activate resources guest state = .ok view) :
      Activated (serial (Rng.machine resources entropy) resources) view
  | memory {β : Type} {backend : Memory.Backend β} {spec : Memory.MemorySpec} {resources : Resources}
      {guest : GuestMemory} {snapshot : Memory.MemoryConfig} {state : β} {view : DeviceView β}
      (activated : spec.activate resources guest snapshot state = .ok view) :
      Activated (serial (Memory.machine resources backend) resources) view

variable {guarded : Guarded} {start view : DeviceView guarded.machine.State}

theorem Activated.steady (activated : Activated guarded start) :
    Steady guarded.resources.queues.length guarded.sound start := by
  cases activated with
  | block activated =>
      obtain ⟨_, -, opened⟩ := except_bind_eq_ok.mp activated
      obtain ⟨file, -, opened⟩ := except_bind_eq_ok.mp opened
      obtain ⟨capacity, -, opened⟩ := except_bind_eq_ok.mp opened
      split at opened
      · cases opened
      · cases opened
        exact ⟨List.length_replicate, fun _ member => absurd member List.not_mem_nil⟩
  | fs activated =>
      obtain ⟨_, -, made⟩ := except_bind_eq_ok.mp activated
      cases made
      exact ⟨List.length_replicate, fun _ member => absurd member List.not_mem_nil⟩
  | vsock activated | console activated | rng activated =>
      obtain ⟨_, valid, made⟩ := except_bind_eq_ok.mp activated
      cases made
      exact ⟨List.length_replicate.trans (Resources.validate_eq_ok.mp valid).queues.symm, trivial⟩
  | memory activated =>
      obtain ⟨_, valid, made⟩ := except_bind_eq_ok.mp activated
      obtain ⟨_, -, made⟩ := except_bind_eq_ok.mp made
      cases made
      exact ⟨List.length_replicate.trans (Resources.validate_eq_ok.mp valid).queues.symm, trivial⟩

theorem Activated.safe (activated : Activated guarded start) (port : guarded.machine.Port) (asked : guarded.asks port) :
    Safe guarded.resources.queues.length guarded.sound (fun _ => True) (guarded.machine.round port) := by
  cases activated with
  | @block F images host spec resources guest device view activated =>
      cases port with
      | take index => exact once_safe (Block.takeRound_safe index)
      | finish down position => exact once_safe (Block.finishRound_safe down position)
      | host change =>
          have kept (state : Block.State F) (known : state.Known resources.queues.length) :
              ({ state with file := change state.file } : Block.State F).Known resources.queues.length := known
          exact changed_safe kept
  | fs activated =>
      cases port with
      | take index => exact once_safe (Fs.takeRound_safe asked)
      | finish down host position => exact once_safe (Fs.finishRound_safe down position)
  | @vsock β backend spec resources guest state view activated =>
      obtain ⟨_, valid, -⟩ := except_bind_eq_ok.mp activated
      obtain ⟨queues, interrupts, -, -⟩ := Resources.validate_eq_ok.mp valid
      have queues : resources.queues.length = 3 := queues
      have interrupts : 4 ≤ resources.interrupts.length := interrupts
      cases port with
      | tx =>
          refine once_safe ?_
          rw [Vsock.txRound_serve]
          exact serve_safe (show 1 < resources.queues.length by omega) (Vsock.txWork_safe fun _ => trivial)
            (Vsock.notifyQueue_safe (show 1 < resources.interrupts.length by omega) (by decide))
      | rx =>
          refine once_safe ?_
          rw [Vsock.rxRound_serve]
          refine .bind .read fun _ _ => .ite (fun _ => ?_) fun _ => .pure trivial
          exact serve_safe (show 0 < resources.queues.length by omega) (Vsock.rxWork_safe fun _ => trivial)
            (Vsock.notifyQueue_safe (show 0 < resources.interrupts.length by omega) (by decide))
      | event =>
          refine once_safe ?_
          rw [Vsock.eventRound_serve]
          exact serve_safe (show 2 < resources.queues.length by omega) (fun _ => .pure trivial) (.pure trivial)
      | host change => exact changed_safe fun _ holds => holds
  | @console β backend spec resources guest state view activated =>
      obtain ⟨_, valid, -⟩ := except_bind_eq_ok.mp activated
      obtain ⟨queues, interrupts, -, -⟩ := Resources.validate_eq_ok.mp valid
      have queues : resources.queues.length = 2 := queues
      have interrupts : 2 ≤ resources.interrupts.length := interrupts
      cases port with
      | transmit =>
          refine once_safe ?_
          rw [Console.processTransmit_serve]
          exact serve_safe (show 1 < resources.queues.length by omega) (Console.transmitWork_safe fun _ => trivial)
            (notify_safe (show 1 < resources.interrupts.length by omega) rfl)
      | receive =>
          refine once_safe ?_
          rw [Console.processReceive_serve]
          refine .bind .read fun _ _ => .ite (fun _ => ?_) fun _ => .pure trivial
          exact serve_safe (show 0 < resources.queues.length by omega) (Console.receiveWork_safe fun _ => trivial)
            (notify_safe (show 0 < resources.interrupts.length by omega) rfl)
      | host change => exact changed_safe fun _ holds => holds
  | @rng β entropy spec resources guest state view activated =>
      obtain ⟨_, valid, -⟩ := except_bind_eq_ok.mp activated
      obtain ⟨queues, interrupts, -, -⟩ := Resources.validate_eq_ok.mp valid
      have queues : resources.queues.length = 1 := queues
      have interrupts : 1 ≤ resources.interrupts.length := interrupts
      refine once_safe ?_
      rw [Rng.processQueue_serve]
      exact serve_safe (show 0 < resources.queues.length by omega) (Rng.fillChain_safe fun _ => trivial)
        (notify_safe (show 0 < resources.interrupts.length by omega) rfl)
  | @memory β backend spec resources guest snapshot state view activated =>
      obtain ⟨_, valid, -⟩ := except_bind_eq_ok.mp activated
      obtain ⟨queues, interrupts, -, -⟩ := Resources.validate_eq_ok.mp valid
      have queues : resources.queues.length = 1 := queues
      have interrupts : 2 ≤ resources.interrupts.length := interrupts
      cases port with
      | request =>
          refine once_safe ?_
          rw [Memory.processRequest_serve]
          exact serve_safe (show 0 < resources.queues.length by omega) (Memory.requestWork_safe fun _ => trivial)
            (notify_safe (show 0 < resources.interrupts.length by omega) rfl)
      | host change => exact changed_safe fun _ holds => holds

/-- The loop asks for the round. -/
def Asked (guarded : Guarded) : Machine.Label guarded.machine → Prop
  | .guest _ _ => True
  | .round port => guarded.asks port

theorem steady_along (activated : Activated guarded start) {labels : List (Machine.Label guarded.machine)}
    (asked : ∀ label ∈ labels, guarded.Asked label) (run : exec guarded.machine.step start labels = some view) :
    Steady guarded.resources.queues.length guarded.sound view := by
  have safe := activated.safe
  have steady := activated.steady
  clear activated
  induction labels generalizing start with
  | nil =>
      cases run
      exact steady
  | cons label rest ih =>
      obtain ⟨next, first, others⟩ := Execution.exec_cons_eq_some.mp run
      obtain ⟨asks, later⟩ := List.forall_mem_cons.mp asked
      refine ih later others ?_
      cases label with
      | guest host leasesLeft =>
          cases first
          exact ⟨steady.states, steady.backend⟩
      | round port =>
          cases first
          have done := safe port asks start steady
          rcases ran : guarded.machine.round port start with ⟨fault | _, after⟩ <;> rw [ran] at done <;> exact done.1

/-- Whatever the guest writes and whatever the backend answers, no round of an activated device unwinds, after a round
that failed no more than after others. -/
theorem rounds_never_unwind (activated : Activated guarded start) {labels : List (Machine.Label guarded.machine)}
    (asked : ∀ label ∈ labels, guarded.Asked label) (run : exec guarded.machine.step start labels = some view)
    {port : guarded.machine.Port} (asks : guarded.asks port) (message : String) :
    (guarded.machine.round port view).1 ≠ .error (.panic message) := by
  intro unwinds
  have done := activated.safe port asks view (steady_along activated asked run)
  rcases ran : guarded.machine.round port view with ⟨fault | _, after⟩
  · rw [ran] at unwinds done
    cases unwinds
    exact done.2
  · rw [ran] at unwinds
    cases unwinds

def hotplugResources : Resources where
  queues := [⟨0, 1, ⟨0, 16⟩, ⟨16, 6⟩, ⟨32, 12⟩⟩]
  interrupts := [fun _ _ => .ok (), fun _ _ => .ok ()]
  negotiatedFeatures := Memory.virtioFVersion1

/-- One chain is available, of one descriptor without a length. -/
def hotplugGuest : GuestMemory where
  memory := DmaMemory.single ⟨0, 0, 152⟩ (by decide)
  distinct := List.pairwise_singleton _ _
  host := fun a => if a = 18 then 1 else 0
  leasesLeft := none

def hotplugBackend : Memory.Backend Unit := ⟨fun _ _ => (.ok .ack, ())⟩

def hotplugConfig : Memory.MemoryConfig := ⟨4096, 0, 0, 8192, 4096, 0, 4096⟩

theorem hotplug_activated : Memory.MemorySpec.activate ⟨1, Memory.virtioMemFUnpluggedInaccessible⟩ hotplugResources
    hotplugGuest hotplugConfig () = .ok (.fresh hotplugGuest 1 ()) := by
  have valid : hotplugResources.validate hotplugGuest.memory
      (Memory.MemorySpec.layout ⟨1, Memory.virtioMemFUnpluggedInaccessible⟩) = .ok () := by decide +kernel
  have config : hotplugConfig.validate = .ok hotplugConfig := by decide +kernel
  rw [Memory.MemorySpec.activate, valid, config]
  rfl

theorem rounds_never_unwind_hotplug :
    ∃ view, exec (Memory.machine hotplugResources hotplugBackend).step (.fresh hotplugGuest 1 ()) [.round .request] =
        some view ∧
      ((Memory.machine hotplugResources hotplugBackend).round .request (.fresh hotplugGuest 1 ())).1 =
        .error (.error (.descriptor "virtio-mem request must have two descriptors")) ∧
      ∀ message, ((Memory.machine hotplugResources hotplugBackend).round .request view).1 ≠ .error (.panic message) := by
  have asked : ∀ label ∈ [Machine.Label.round Memory.Port.request],
      (serial (Memory.machine hotplugResources hotplugBackend) hotplugResources).Asked label := by
    intro label member
    cases List.mem_singleton.mp member
    trivial
  refine ⟨_, rfl, by decide +kernel, ?_⟩
  exact @rounds_never_unwind _ _ _ (.memory hotplug_activated) _ asked rfl .request trivial

end Guarded

end Libvirtio
