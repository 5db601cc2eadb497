import Libvirtio.Device.Access
import Libvirtio.Device.Network
import Libvirtio.Library.Execution

namespace Libvirtio

def Fault.IsError : Fault → Prop
  | .error _ => True
  | .panic _ => False

structure Steady {β : Type} (queues : Nat) (sound : β → Prop) (view : DeviceView β) : Prop where
  states : view.states.length = queues
  backend : sound view.backend

/-- It keeps the device steady and fails with errors only. -/
def Safe {α β : Type} (queues : Nat) (sound : β → Prop) (post : α → Prop) (m : DeviceM β α) : Prop :=
  Fallible.Triple (Steady queues sound) m (fun a view => Steady queues sound view ∧ post a)
    fun fault view => Steady queues sound view ∧ fault.IsError

section
variable {α β : Type} {queues : Nat} {sound : β → Prop} {post : α → Prop}

theorem Safe.bind {γ : Type} {next : γ → Prop} {m : DeviceM β α} {f : α → DeviceM β γ} (first : Safe queues sound post m)
    (rest : ∀ a, post a → Safe queues sound next (f a)) : Safe queues sound next (m >>= f) :=
  Fallible.Triple.bind first fun a view both => rest a both.2 view both.1

theorem Safe.pure {a : α} (holds : post a) : Safe queues sound post (Pure.pure a : DeviceM β α) :=
  Fallible.Triple.pure fun _ steady => ⟨steady, holds⟩

theorem Safe.read : Safe queues sound (Steady queues sound) (Fallible.read : DeviceM β (DeviceView β)) :=
  Fallible.Triple.read fun _ steady => ⟨steady, steady⟩

theorem Safe.ite {c : Prop} [Decidable c] {m n : DeviceM β α} (yes : c → Safe queues sound post m)
    (no : ¬c → Safe queues sound post n) : Safe queues sound post (if c then m else n) :=
  Fallible.Triple.ite yes no

theorem raise_safe (error : DeviceError) : Safe queues sound post (raise error : DeviceM β α) :=
  Fallible.Triple.fail fun _ steady => ⟨steady, trivial⟩

theorem ofResult_safe {result : Except DeviceError α} (holds : ∀ a, result = .ok a → post a) :
    Safe queues sound post (ofResult result : DeviceM β α) := by
  intro view steady
  cases result with
  | error e => exact ⟨steady, trivial⟩
  | ok a => exact ⟨steady, holds a rfl⟩

theorem onDma_safe {access : DmaM α} (holds : ∀ guest a after, access guest = (.ok a, after) → post a) :
    Safe queues sound post (onDma access : DeviceM β α) := by
  intro view steady
  rcases run : access view.guest with ⟨e | a, after⟩
  · rw [onDma_of_error run]
    exact ⟨⟨steady.states, steady.backend⟩, trivial⟩
  · rw [onDma_of_ok run]
    exact ⟨⟨steady.states, steady.backend⟩, holds view.guest a after run⟩

theorem onBackend_safe {call : β → α × β} (kept : ∀ state, sound state → post (call state).1 ∧ sound (call state).2) :
    Safe queues sound post (onBackend call : DeviceM β α) := by
  intro view steady
  have done := kept view.backend steady.backend
  exact ⟨⟨steady.states, done.2⟩, done.1⟩

theorem tryBackend_safe {call : β → Except DeviceError α × β} (kept : ∀ state, sound state → sound (call state).2) :
    Safe queues sound (fun _ => True) (tryBackend call : DeviceM β α) :=
  .bind (onBackend_safe fun state holds => ⟨trivial, kept state holds⟩) fun _ (_ : True) =>
    ofResult_safe fun _ _ => trivial

theorem update_safe {f : DeviceView β → DeviceView β} (kept : ∀ view, Steady queues sound view → Steady queues sound (f view)) :
    Safe queues sound (fun _ => True) (Fallible.update f : DeviceM β Unit) :=
  Fallible.Triple.update fun view steady => ⟨kept view steady, trivial⟩

theorem indexed_of_lt {items : List α} {index : Nat} (inside : index < items.length) :
    ∃ item ∈ items, indexed items index = .ok item := by
  refine ⟨items[index], List.getElem_mem inside, ?_⟩
  rw [indexed, List.getElem?_eq_getElem inside]

theorem indexed_safe {items : List α} {index : Nat} (inside : index < items.length) :
    Safe queues sound (fun item => item ∈ items) (Fallible.ofExcept (indexed items index) : DeviceM β α) := by
  obtain ⟨item, member, found⟩ := indexed_of_lt inside
  intro view steady
  rw [Fallible.ofExcept_apply, found]
  exact ⟨steady, member⟩

theorem onState_safe {index : Nat} (inside : index < queues) {access : QueueM α}
    (holds : ∀ view a after, access view = (.ok a, after) → post a) :
    Safe queues sound post (onState index access : DeviceM β α) := by
  intro view steady
  obtain ⟨state, -, found⟩ := indexed_of_lt (by rw [steady.states]; exact inside)
  rcases run : access ⟨state, view.guest⟩ with ⟨e | a, after⟩
  · simp only [onState, found, run, Except.mapError]
    exact ⟨⟨by rw [List.length_set]; exact steady.states, steady.backend⟩, trivial⟩
  · simp only [onState, found, run, Except.mapError]
    exact ⟨⟨by rw [List.length_set]; exact steady.states, steady.backend⟩, holds _ a after run⟩

end

namespace VirtQueue
variable {queue : VirtQueue}

theorem pop_length {view after : QueueView} {chain : DescriptorChain}
    (run : queue.pop view = (.ok (some chain), after)) : chain.descriptors.length ≤ queue.layout.size.toNat := by
  obtain ⟨-, -, ⟨-, none⟩ | ⟨-, _, _, found, _, read, same⟩⟩ := pop_eq_ok run
  · cases none
  · cases same
    exact (readChain_shape read).2

end VirtQueue

section
variable {β : Type} {sound : β → Prop} {resources : Resources} {index : Nat}

theorem queueAt_safe (inside : index < resources.queues.length) :
    Safe resources.queues.length sound (fun queue => queue.layout ∈ resources.queues)
      (queueAt resources index : DeviceM β VirtQueue) := by
  refine .bind (indexed_safe inside) fun layout member => ?_
  refine .bind .read fun view _ => ofResult_safe fun queue built => ?_
  obtain ⟨_, -, made⟩ := except_bind_eq_ok.mp built
  cases made
  exact member

theorem pop_safe (inside : index < resources.queues.length) {maximum : Nat}
    (sizes : ∀ layout ∈ resources.queues, layout.size.toNat ≤ maximum) :
    Safe resources.queues.length sound (fun popped => ∀ chain, popped = some chain → chain.descriptors.length ≤ maximum)
      (pop resources index : DeviceM β (Option DescriptorChain)) := by
  refine .bind (queueAt_safe inside) fun queue member => onState_safe inside fun view popped after run chain found => ?_
  rw [found] at run
  exact (VirtQueue.pop_length run).trans (sizes _ member)

theorem emit_safe (event : Event) {queues : Nat} :
    Safe queues sound (fun _ => True) (emit event : DeviceM β Unit) :=
  update_safe fun _ steady => ⟨steady.states, steady.backend⟩

theorem completeQueue_safe (inside : index < resources.queues.length) (chain : DescriptorChain) (usedLength : UInt32) :
    Safe resources.queues.length sound (fun _ => True)
      (completeQueue resources index chain usedLength : DeviceM β Unit) :=
  .bind (queueAt_safe inside) fun _ _ => .bind (onState_safe inside fun _ _ _ _ => trivial) fun _ (_ : True) =>
    emit_safe _

theorem notify_safe (inside : index < resources.interrupts.length) {queues : Nat} {interrupt : Interrupt}
    {made : Except Fault Interrupt} (fits : made = .ok interrupt) :
    Safe queues sound (fun _ => True) (notify resources index made : DeviceM β Unit) := by
  refine .bind (indexed_safe inside) fun notifier _ => ?_
  have given : Safe queues sound (fun _ => True) (Fallible.ofExcept made : DeviceM β Interrupt) := by
    rw [fits]
    exact .pure trivial
  refine .bind given fun interrupt _ => .bind .read fun view _ => ?_
  exact .bind (ofResult_safe fun _ _ => trivial) fun _ (_ : True) => emit_safe _

end

namespace Network
variable {γ : Type} {resources : Resources} {backend : Backend γ} {limit : Nat}

def ActiveWithin (limit : Nat) (state : State γ) : Prop :=
  1 ≤ state.activeQueuePairs ∧ state.activeQueuePairs ≤ limit

/-- An index for which `complete` has a queue, a notifier and 16 bits. -/
structure Addressable (resources : Resources) (index : Nat) : Prop where
  queue : index < resources.queues.length
  notifier : index < resources.interrupts.length
  fits : index < 2 ^ 16

theorem complete_safe {index : Nat} (addressable : Addressable resources index) {sound : State γ → Prop}
    (chain : DescriptorChain) (usedLength : UInt32) :
    Safe resources.queues.length sound (fun _ => True) (complete resources index chain usedLength) := by
  have fits (message : String) : expectU16 index message = .ok (UInt16.ofNat index) := if_pos addressable.fits
  refine .bind (completeQueue_safe addressable.queue chain usedLength) fun _ _ => ?_
  rw [fits, fits]
  exact notify_safe addressable.notifier rfl

theorem txRound_safe {pair : Nat} (addressable : Addressable resources (txQueue pair)) :
    Safe resources.queues.length (ActiveWithin limit) (fun _ => True) (txRound resources backend pair) := by
  refine .bind (pop_safe addressable.queue fun layout _ => Nat.le_of_lt layout.size.toNat_lt) fun popped _ => ?_
  cases popped with
  | none => exact .pure trivial
  | some chain =>
      refine .bind (onDma_safe fun _ _ _ _ => trivial) fun frame (_ : True) => ?_
      refine .bind (tryBackend_safe fun _ holds => holds) fun _ _ => ?_
      exact .bind (complete_safe addressable chain 0) fun _ _ => .pure trivial

theorem nextPair_safe :
    Safe resources.queues.length (ActiveWithin limit) (fun pair => pair < limit)
      (nextPair : DeviceM (State γ) Nat) := by
  refine .bind .read fun view steady => .bind (onBackend_safe fun _ holds => ⟨trivial, holds⟩) fun _ (_ : True) => ?_
  have within := steady.backend
  refine Safe.ite (fun none => absurd none (by unfold ActiveWithin at within; omega)) fun _ => .pure ?_
  exact Nat.lt_of_lt_of_le (Nat.mod_lt _ within.1) within.2

theorem takeFrame_safe :
    Safe resources.queues.length (ActiveWithin limit) (fun _ => True) (takeFrame backend) := by
  refine .bind (onBackend_safe fun _ holds => ⟨trivial, holds⟩) fun taken (_ : True) => ?_
  cases taken with
  | none => exact raise_safe _
  | some frame => exact .pure trivial

theorem rxRound_safe (addressable : ∀ pair < limit, Addressable resources (rxQueue pair)) :
    Safe resources.queues.length (ActiveWithin limit) (fun _ => True) (rxRound resources backend) := by
  refine .bind .read fun view _ => .ite (fun _ => ?_) fun _ => .pure trivial
  refine .bind nextPair_safe fun pair below => ?_
  refine .bind (pop_safe (addressable pair below).queue fun layout _ => Nat.le_of_lt layout.size.toNat_lt) fun popped _ => ?_
  cases popped with
  | none => exact .pure trivial
  | some chain =>
      refine .bind takeFrame_safe fun frame _ => .bind (onDma_safe fun _ _ _ _ => trivial) fun usedLength (_ : True) => ?_
      exact .bind (complete_safe (addressable pair below) chain usedLength) fun _ _ => .pure trivial

theorem handleControl_safe {chain : DescriptorChain}
    (enough : 2 ≤ chain.descriptors.length → maximumQueuePairs resources ≤ limit) :
    Safe resources.queues.length (ActiveWithin limit) (fun _ => 2 ≤ chain.descriptors.length)
      (handleControl resources chain : DeviceM (State γ) UInt8) := by
  unfold handleControl
  split
  · rename_i header data rest descriptors
    have long : 2 ≤ chain.descriptors.length := by
      rw [descriptors, List.length_cons, List.length_cons]
      omega
    refine .ite (fun _ => raise_safe _) fun _ => .bind (onDma_safe fun _ _ _ _ => trivial) fun _ (_ : True) => ?_
    refine .ite (fun _ => .pure long) fun _ => .ite (fun _ => raise_safe _) fun _ => ?_
    refine .bind (onDma_safe fun _ _ _ _ => trivial) fun bytes (_ : True) => .ite (fun _ => .pure long) fun legal => ?_
    refine .bind (onBackend_safe fun _ _ => ⟨trivial, ?_⟩) fun _ (_ : True) => .pure long
    simp only [not_or] at legal
    exact ⟨Nat.pos_of_ne_zero legal.1, (Nat.le_of_not_lt legal.2).trans (enough long)⟩
  · exact raise_safe _

theorem lease_first {address : Nat} {guest after : GuestMemory} {parts : List DmaPart}
    (run : lease ⟨address, 1⟩ guest = (.ok parts, after)) : ∃ part rest, parts = part :: rest ∧ 0 < part.length := by
  have covers := guest.memory.translate_covers (lease_eq_ok run).1
  cases parts with
  | nil =>
      have empty : address = address + 1 := covers
      omega
  | cons part rest => exact ⟨part, rest, rfl, covers.2.1⟩

theorem writeControlStatus_safe {chain : DescriptorChain} (long : 2 ≤ chain.descriptors.length) (status : UInt8)
    {sound : State γ → Prop} {queues : Nat} :
    Safe queues sound (fun _ => True) (writeControlStatus chain status) := by
  unfold writeControlStatus
  split
  · rename_i empty
    rw [List.getLast?_eq_none_iff] at empty
    rw [empty] at long
    cases long
  · refine .ite (fun _ => raise_safe _) fun _ => .bind (onDma_safe fun _ _ _ run => lease_first run) fun parts first => ?_
    obtain ⟨part, rest, rfl, positive⟩ := first
    refine .ite (fun empty => absurd empty (Nat.ne_of_gt positive)) fun _ => ?_
    exact update_safe fun _ steady => ⟨steady.states, steady.backend⟩

theorem controlPass_safe {chain : DescriptorChain}
    (fits : 2 ≤ chain.descriptors.length → maximumQueuePairs resources ≤ limit ∧
      Addressable resources (controlQueue (maximumQueuePairs resources))) :
    Safe resources.queues.length (ActiveWithin limit) (fun _ => True)
      (controlPass resources chain : DeviceM (State γ) UInt8) := by
  refine .bind (handleControl_safe fun long => (fits long).1) fun status long => ?_
  refine .bind (writeControlStatus_safe long status) fun _ _ => ?_
  exact .bind (complete_safe (fits long).2 chain 1) fun _ _ => .pure trivial

/-- What a command needs matters only if the queues are large enough for a command. -/
theorem controlRound_safe {maximum : Nat} (sizes : ∀ layout ∈ resources.queues, layout.size.toNat ≤ maximum)
    (inside : controlQueue (maximumQueuePairs resources) < resources.queues.length)
    (large : 2 ≤ maximum → maximumQueuePairs resources ≤ limit ∧
      Addressable resources (controlQueue (maximumQueuePairs resources))) :
    Safe resources.queues.length (ActiveWithin limit) (fun _ => True)
      (controlRound resources : DeviceM (State γ) Bool) := by
  refine .bind (pop_safe inside sizes) fun popped short => ?_
  cases popped with
  | none => exact .pure trivial
  | some chain =>
      exact .bind (controlPass_safe fun long => large (long.trans (short chain rfl))) fun _ _ => .pure trivial

/-- What the rounds need of a device whose active pairs stay below `limit`. -/
structure Fitted (resources : Resources) (maximum limit : Nat) : Prop where
  sizes : ∀ layout ∈ resources.queues, layout.size.toNat ≤ maximum
  rx : ∀ pair < limit, Addressable resources (rxQueue pair)
  tx : ∀ pair < limit, Addressable resources (txQueue pair)
  control : controlQueue (maximumQueuePairs resources) < resources.queues.length
  large : 2 ≤ maximum → maximumQueuePairs resources ≤ limit ∧
    Addressable resources (controlQueue (maximumQueuePairs resources))

def Pc.Within (limit : Nat) : Pc → Prop
  | .tx _ active => active ≤ limit
  | .returned fault => fault.IsError
  | _ => True

structure Inv (resources : Resources) (limit : Nat) (s : Device γ) : Prop where
  steady : Steady resources.queues.length (ActiveWithin limit) s.view
  pc : s.pc.Within limit

variable {s t : Device γ} {maximum : Nat}

theorem ran_inv {round : DeviceM (State γ) Bool} {again finished : DeviceView (State γ) → Pc}
    (safe : Safe resources.queues.length (ActiveWithin limit) (fun _ => True) round) (inv : Inv resources limit s)
    (repeats : ∀ view, (again view).Within limit)
    (ends : ∀ view, Steady resources.queues.length (ActiveWithin limit) view → (finished view).Within limit) :
    Inv resources limit (ran again finished (round s.view)) := by
  have done := safe s.view inv.steady
  rcases run : round s.view with ⟨fault | more, view⟩
  · rw [run] at done
    exact ⟨done.1, done.2⟩
  · rw [run] at done
    cases more with
    | true => exact ⟨done.1, repeats view⟩
    | false => exact ⟨done.1, ends view done.1⟩

theorem round_inv (fitted : Fitted resources maximum limit) (inv : Inv resources limit s)
    (stepped : round resources backend s = some t) : Inv resources limit t := by
  unfold round at stepped
  split at stepped
  · cases stepped
  · cases stepped
  · cases stepped
    exact ran_inv (controlRound_safe fitted.sizes fitted.control fitted.large) inv (fun _ => trivial)
      fun _ steady => steady.backend.2
  · rename_i pair active pc
    have within : active ≤ limit := by simpa only [pc, Pc.Within] using inv.pc
    split at stepped
    · rename_i more
      cases stepped
      exact ran_inv (txRound_safe (fitted.tx pair (Nat.lt_of_lt_of_le more within))) inv (fun _ => within)
        fun _ _ => within
    · cases stepped
      exact ⟨inv.steady, trivial⟩
  · cases stepped
    exact ran_inv (rxRound_safe fitted.rx) inv (fun _ => trivial) fun _ _ => trivial

theorem step_inv (fitted : Fitted resources maximum limit) (inv : Inv resources limit s) {label : Label γ}
    (stepped : step resources backend s label = some t) : Inv resources limit t := by
  cases label with
  | guest _ _ | host _ =>
      cases stepped
      exact ⟨⟨inv.steady.states, inv.steady.backend⟩, inv.pc⟩
  | kick =>
      simp only [step] at stepped
      split at stepped
      · cases stepped
        exact ⟨inv.steady, trivial⟩
      · cases stepped
        exact inv
  | round => exact round_inv fitted inv stepped

theorem NetworkSpec.new_ok {mac : Vector UInt8 6} {queuePairs : Nat} {maximumQueueSize : UInt16} {spec : NetworkSpec}
    (accepted : NetworkSpec.new mac queuePairs maximumQueueSize = .ok spec) :
    1 ≤ spec.queuePairs ∧ spec.queuePairs ≤ 65535 ∧ 1 ≤ spec.maximumQueueSize.toNat := by
  unfold NetworkSpec.new at accepted
  split at accepted
  · cases accepted
  · rename_i pairs
    split at accepted
    · cases accepted
    · rename_i size
      split at accepted
      · cases accepted
      · cases accepted
        simp only [not_or] at pairs size
        have positive : maximumQueueSize.toNat ≠ 0 := fun zero => size.1 (UInt16.toNat_inj.mp zero)
        exact ⟨Nat.pos_of_ne_zero pairs.1, Nat.le_of_not_lt pairs.2, Nat.pos_of_ne_zero positive⟩

theorem activate_ok {spec : NetworkSpec} {guest : GuestMemory} {host : γ}
    (activated : spec.activate resources guest host = .ok s) :
    resources.Checked guest.memory spec.layout ∧ ∀ limit, 1 ≤ limit → Inv resources limit s := by
  obtain ⟨_, valid, made⟩ := except_bind_eq_ok.mp activated
  cases made
  refine ⟨Resources.validate_eq_ok.mp valid, fun limit positive => ?_⟩
  exact ⟨⟨List.length_replicate, Nat.le_refl 1, positive⟩, trivial⟩

/-- What the queue indices have to satisfy in a state. -/
structure InRange (spec : NetworkSpec) (resources : Resources) (s : Device γ) : Prop where
  active : 1 ≤ s.view.backend.activeQueuePairs ∧ s.view.backend.activeQueuePairs ≤ spec.queuePairs
  control : controlQueue (maximumQueuePairs resources) < resources.queues.length ∧
    controlQueue (maximumQueuePairs resources) < resources.interrupts.length
  tx : ∀ pair active, s.pc = .tx pair active → pair < active →
    txQueue pair < resources.queues.length ∧ txQueue pair < resources.interrupts.length
  rx : ∀ n, rxQueue (n % s.view.backend.activeQueuePairs) < resources.queues.length ∧
    rxQueue (n % s.view.backend.activeQueuePairs) < resources.interrupts.length
  apart : ∀ i < s.view.backend.activeQueuePairs, ∀ j < s.view.backend.activeQueuePairs,
    rxQueue i ≠ txQueue j ∧ rxQueue i ≠ controlQueue (maximumQueuePairs resources) ∧
      txQueue j ≠ controlQueue (maximumQueuePairs resources)
  returned : ∀ message, s.pc ≠ .returned (.panic message)

section
variable {spec : NetworkSpec} {memory : DmaMemory}

theorem maximumQueuePairs_eq (checked : resources.Checked memory spec.layout) :
    maximumQueuePairs resources = spec.queuePairs := by
  have queues : resources.queues.length = spec.queuePairs * 2 + 1 := checked.queues
  rw [maximumQueuePairs, queues]
  omega

theorem Inv.inRange (checked : resources.Checked memory spec.layout) (inv : Inv resources limit s)
    (within : limit ≤ spec.queuePairs) : InRange spec resources s := by
  have queues : resources.queues.length = spec.queuePairs * 2 + 1 := checked.queues
  have interrupts : spec.queuePairs * 2 + 2 ≤ resources.interrupts.length := checked.interrupts
  obtain ⟨positive, bounded⟩ := inv.steady.backend
  refine {
    active := ⟨positive, bounded.trans within⟩
    control := ?_
    tx := fun pair active pc more => ?_
    rx := fun n => ?_
    apart := fun i below j inside => ?_
    returned := fun message pc => ?_ }
  · rw [maximumQueuePairs_eq checked, controlQueue]
    omega
  · have := inv.pc
    simp only [pc, Pc.Within] at this
    rw [txQueue]
    omega
  · have := Nat.mod_lt n positive
    rw [rxQueue]
    omega
  · rw [maximumQueuePairs_eq checked, rxQueue, txQueue, controlQueue]
    omega
  · have := inv.pc
    simp only [pc, Pc.Within, Fault.IsError] at this

theorem fitted_of_checked (checked : resources.Checked memory spec.layout) (small : spec.queuePairs ≤ 32767) :
    Fitted resources spec.maximumQueueSize.toNat spec.queuePairs := by
  have queues : resources.queues.length = spec.queuePairs * 2 + 1 := checked.queues
  have interrupts : spec.queuePairs * 2 + 2 ≤ resources.interrupts.length := checked.interrupts
  have addressable {index : Nat} (below : index < spec.queuePairs * 2 + 1) : Addressable resources index :=
    ⟨by omega, by omega, by omega⟩
  exact {
    sizes := fun layout member => UInt16.le_iff_toNat_le.mp (checked.layouts layout member).1
    rx := fun pair below => addressable (by rw [rxQueue]; omega)
    tx := fun pair below => addressable (by rw [txQueue]; omega)
    control := by rw [maximumQueuePairs_eq checked, controlQueue]; omega
    large := fun _ => by
      rw [maximumQueuePairs_eq checked]
      exact ⟨Nat.le_refl _, addressable (by rw [controlQueue]; omega)⟩ }

/-- On queues of one descriptor no control command fits, and only the first pair is ever active. -/
theorem fitted_single (checked : resources.Checked memory spec.layout) (positive : 1 ≤ spec.queuePairs)
    (single : spec.maximumQueueSize = 1) : Fitted resources 1 1 := by
  have queues : resources.queues.length = spec.queuePairs * 2 + 1 := checked.queues
  have interrupts : spec.queuePairs * 2 + 2 ≤ resources.interrupts.length := checked.interrupts
  exact {
    sizes := fun layout member => by
      have size : layout.size.toNat ≤ spec.maximumQueueSize.toNat :=
        UInt16.le_iff_toNat_le.mp (checked.layouts layout member).1
      rwa [single] at size
    rx := fun pair below => ⟨by rw [rxQueue]; omega, by rw [rxQueue]; omega, by rw [rxQueue]; omega⟩
    tx := fun pair below => ⟨by rw [txQueue]; omega, by rw [txQueue]; omega, by rw [txQueue]; omega⟩
    control := by rw [maximumQueuePairs_eq checked, controlQueue]; omega
    large := fun two => by omega }

end

theorem complete_panics {view : DeviceView (State γ)} {index : Nat} {layout : QueueLayout} {state : QueueState}
    (configured : resources.queues[index]? = some layout) (known : view.states[index]? = some state)
    (ready : VirtQueue.Ready ⟨layout⟩ view.guest) (notifier : index < resources.interrupts.length)
    (wide : 2 ^ 16 ≤ index) (chain : DescriptorChain) (usedLength : UInt32) :
    (complete resources index chain usedLength view).1 = .error (.panic "fixed queue index") := by
  obtain ⟨after, completes, -⟩ := completeQueue_ready configured known ready chain usedLength
  obtain ⟨notify, -, found⟩ := indexed_of_lt notifier
  have none (message : String) : expectU16 index message = .error (.panic message) := if_neg (Nat.not_lt.mpr wide)
  rw [complete, Fallible.bind_of_ok completes, Libvirtio.notify, found,
    Fallible.bind_of_ok (Fallible.ofExcept_apply _ _), none]
  rfl

def commandLayout : QueueLayout := ⟨0, 2, ⟨0, 32⟩, ⟨32, 8⟩, ⟨64, 20⟩⟩

-- An unknown command: two bytes at 96, and a status byte at 98.
def commandGuest : GuestMemory where
  memory := .single ⟨0, 0, 112⟩ (by decide)
  distinct := List.pairwise_singleton _ _
  host := fun a => ([(0, 96), (8, 2), (12, 1), (14, 1), (16, 98), (24, 1), (28, 2), (34, 1)].lookup a).getD 0
  leasesLeft := none

def commandChain : DescriptorChain := ⟨0, [⟨96, 2, 1, 1⟩, ⟨98, 1, 2, 0⟩]⟩

theorem command_popped :
    VirtQueue.pop ⟨commandLayout⟩ ⟨QueueState.new, commandGuest⟩ =
      (.ok (some commandChain), ⟨⟨1, 0⟩, commandGuest⟩) := by
  rfl

def commandResources (queuePairs : Nat) : Resources where
  queues := List.replicate (queuePairs * 2 + 1) commandLayout
  interrupts := List.replicate (queuePairs * 2 + 2) fun _ _ => .ok ()
  negotiatedFeatures := virtioFVersion1

def idleBackend : Backend Unit where
  transmit _ host := (.ok (), host)
  hasFrame _ := false
  takeFrame host := (none, host)

def commandDevice (queuePairs : Nat) : Device Unit where
  view := {
    guest := commandGuest
    states := List.replicate (queuePairs * 2 + 1) QueueState.new
    backend := { backend := (), activeQueuePairs := 1, nextRxPair := 0 }
    log := [] }
  pc := .parked

theorem command_activated {spec : NetworkSpec} (large : 2 ≤ spec.maximumQueueSize.toNat) :
    spec.activate (commandResources spec.queuePairs) commandGuest () = .ok (commandDevice spec.queuePairs) := by
  have checked : checkQueues commandGuest.memory spec.maximumQueueSize (commandResources spec.queuePairs).queues =
      .ok () := by
    refine checkQueues_eq_ok.mpr fun layout member => ?_
    rw [(List.mem_replicate.mp member).2]
    exact ⟨UInt16.le_iff_toNat_le.mpr large, by rfl⟩
  have valid : (commandResources spec.queuePairs).validate commandGuest.memory spec.layout = .ok () := by
    rw [Resources.validate, if_neg, if_neg, if_neg]
    · exact checked
    · simp [commandResources, NetworkSpec.layout]
    · simp [commandResources, NetworkSpec.layout]
    · simp [commandResources, NetworkSpec.layout]
  rw [NetworkSpec.activate, valid]
  simp only [commandResources, List.length_replicate]
  rfl

theorem command_panics {queuePairs : Nat} (many : 32768 ≤ queuePairs) :
    (controlRound (commandResources queuePairs) (commandDevice queuePairs).view).1 =
      .error (.panic "fixed queue index") := by
  have maximum : maximumQueuePairs (commandResources queuePairs) = queuePairs := by
    simp [maximumQueuePairs, commandResources]
  have configured : (commandResources queuePairs).queues[queuePairs * 2]? = some commandLayout := by
    simp [commandResources]
  have known : (commandDevice queuePairs).view.states[queuePairs * 2]? = some QueueState.new := by
    simp [commandDevice]
  have ready (guest : GuestMemory) (memory : guest.memory = commandGuest.memory) (live : guest.leasesLeft = none) :
      VirtQueue.Ready ⟨commandLayout⟩ guest := ⟨live, by rw [memory]; rfl⟩
  let popped : DeviceView (State Unit) := { (commandDevice queuePairs).view with
    states := (commandDevice queuePairs).view.states.set (queuePairs * 2) ⟨1, 0⟩ }
  let answered : DeviceView (State Unit) := { popped with
    guest := { popped.guest with host := Store.save popped.guest.host 98 [virtioNetErr] } }
  have pops : pop (commandResources queuePairs) (queuePairs * 2) (commandDevice queuePairs).view =
      (.ok (some commandChain), popped) := by
    rw [pop, Fallible.bind_of_ok (queueAt_ready configured (ready commandGuest rfl rfl)), onState_of_ok known command_popped]
    rfl
  have handles : handleControl (commandResources queuePairs) commandChain popped = (.ok virtioNetErr, popped) := by rfl
  have writes : writeControlStatus commandChain virtioNetErr popped = (.ok (), answered) := by rfl
  have states : answered.states[queuePairs * 2]? = some ⟨1, 0⟩ := by
    simp [answered, popped, commandDevice]
  have panics := complete_panics configured states (ready answered.guest rfl rfl)
    (by simp [commandResources]) (by omega) commandChain 1
  have passes : (controlPass (commandResources queuePairs) commandChain popped).1 =
      .error (.panic "fixed queue index") := by
    rw [controlPass, maximum, controlQueue, Fallible.bind_of_ok handles, Fallible.bind_of_ok writes,
      Fallible.bind_of_error (Prod.ext panics rfl)]
  rw [controlRound, maximum, controlQueue, Fallible.bind_of_ok pops]
  simp only
  rw [Fallible.bind_of_error (Prod.ext passes rfl)]

theorem command_reaches_panic {queuePairs : Nat} (many : 32768 ≤ queuePairs) :
    ∃ s, exec (step (commandResources queuePairs) idleBackend) (commandDevice queuePairs) [.kick, .round] = some s ∧
      s.pc = .returned (.panic "fixed queue index") := by
  have panics := command_panics many
  rcases run : controlRound (commandResources queuePairs) (commandDevice queuePairs).view with ⟨result, view⟩
  rw [run] at panics
  simp only at panics
  have kicked : step (commandResources queuePairs) idleBackend (commandDevice queuePairs) .kick =
      some { commandDevice queuePairs with pc := .control } := rfl
  have left : step (commandResources queuePairs) idleBackend { commandDevice queuePairs with pc := .control } .round =
      some ⟨view, .returned (.panic "fixed queue index")⟩ := by
    simp only [step, round, run, panics, ran]
  exact ⟨_, Execution.exec_cons_eq_some.mpr ⟨_, kicked, Execution.exec_cons_eq_some.mpr ⟨_, left, rfl⟩⟩, rfl⟩

/-- The queue indices are in range in every run exactly when the control queue has a 16-bit index, or no queue can hold
a control command. -/
theorem indices_in_range_iff {mac : Vector UInt8 6} {queuePairs : Nat} {maximumQueueSize : UInt16} {spec : NetworkSpec}
    (accepted : NetworkSpec.new mac queuePairs maximumQueueSize = .ok spec) :
    (∀ (γ : Type) (resources : Resources) (backend : Backend γ) (guest : GuestMemory) (host : γ) (s₀ : Device γ),
      spec.activate resources guest host = .ok s₀ →
      ∀ labels s, exec (step resources backend) s₀ labels = some s → InRange spec resources s) ↔
    spec.queuePairs ≤ 32767 ∨ spec.maximumQueueSize = 1 := by
  obtain ⟨positive, -, size⟩ := NetworkSpec.new_ok accepted
  constructor
  · intro safe
    by_contra neither
    obtain ⟨many, several⟩ := not_or.mp neither
    have large : spec.maximumQueueSize.toNat ≠ 1 := fun one => several (UInt16.toNat_inj.mp one)
    obtain ⟨s, run, panics⟩ := command_reaches_panic (show 32768 ≤ spec.queuePairs by omega)
    have inRange := safe Unit _ idleBackend commandGuest () _ (command_activated (by omega)) _ s run
    exact inRange.returned _ panics
  · intro small γ resources backend guest host s₀ activated labels s run
    obtain ⟨checked, start⟩ := activate_ok activated
    rcases small with few | single
    · have inv : Inv resources spec.queuePairs s := Execution.invariant _
        (fun _ _ _ inv stepped => step_inv (fitted_of_checked checked few) inv stepped) (start _ positive) run
      exact inv.inRange checked (Nat.le_refl _)
    · have inv : Inv resources 1 s := Execution.invariant _
        (fun _ _ _ inv stepped => step_inv (fitted_single checked positive single) inv stepped)
        (start _ (Nat.le_refl 1)) run
      exact inv.inRange checked positive

def localMac : Vector UInt8 6 := #v[2, 0, 0, 0, 0, 1]

theorem indices_in_range_iff_four_pairs :
    ∃ s, exec (step (commandResources 4) idleBackend) (commandDevice 4) [.kick, .round] = some s ∧ s.pc = .control ∧
      InRange ⟨localMac, 4, 2⟩ (commandResources 4) s := by
  have accepted : NetworkSpec.new localMac 4 2 = .ok ⟨localMac, 4, 2⟩ := by rfl
  have activated := @command_activated ⟨localMac, 4, 2⟩ (by decide)
  have ends : (exec (step (commandResources 4) idleBackend) (commandDevice 4) [.kick, .round]).map Device.pc =
      some .control := by decide +kernel
  obtain ⟨s, run, pc⟩ := Option.map_eq_some_iff.mp ends
  have inRange := (indices_in_range_iff accepted).mpr (Or.inl (by decide)) Unit _ idleBackend commandGuest () _ activated
  exact ⟨s, run, pc, inRange _ s run⟩

-- The specification is accepted, and its device unwinds on the first control command.
theorem indices_too_wide :
    NetworkSpec.new localMac 32768 2 = .ok ⟨localMac, 32768, 2⟩ ∧
    NetworkSpec.activate (commandResources 32768) ⟨localMac, 32768, 2⟩ commandGuest () = .ok (commandDevice 32768) ∧
    ∃ s, exec (step (commandResources 32768) idleBackend) (commandDevice 32768) [.kick, .round] = some s ∧
      s.pc = .returned (.panic "fixed queue index") ∧ ¬InRange ⟨localMac, 32768, 2⟩ (commandResources 32768) s := by
  obtain ⟨s, run, panics⟩ := command_reaches_panic (Nat.le_refl 32768)
  refine ⟨by rfl, @command_activated ⟨localMac, 32768, 2⟩ (by decide), s, run, panics, fun inRange => ?_⟩
  exact inRange.returned _ panics

end Network

end Libvirtio
