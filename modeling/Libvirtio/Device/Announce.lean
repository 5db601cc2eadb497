import Libvirtio.Device.Access
import Libvirtio.Device.Machine
import Libvirtio.Device.UsedLength
import Libvirtio.Library.Execution

namespace Libvirtio

/-- Each completion is followed by an interrupt that names its queue. -/
def Announced : List Event → Prop
  | [] => True
  | .completed queue _ _ :: rest =>
      (∃ vector, .notified queue (.queue (UInt16.ofNat queue) vector) ∈ rest) ∧ Announced rest
  | .notified _ _ :: rest => Announced rest

def Event.completes (queue : Nat) : Event → Bool
  | .completed index _ _ => index == queue
  | .notified _ _ => false

def Event.interrupts (queue : Nat) : Event → Bool
  | .notified index (.queue _ _) => index == queue
  | _ => false

def Balanced (log : List Event) : Prop :=
  ∀ queue, log.countP (Event.completes queue) = log.countP (Event.interrupts queue)

theorem announced_append {first second : List Event} (before : Announced first) (after : Announced second) :
    Announced (first ++ second) := by
  induction first with
  | nil => exact after
  | cons event rest ih =>
      cases event with
      | completed queue chain usedLength =>
          obtain ⟨⟨vector, later⟩, others⟩ := before
          exact ⟨⟨vector, List.mem_append_left _ later⟩, ih others⟩
      | notified notifier interrupt => exact ih before

theorem Announced.of_mem {log : List Event} (announced : Announced log) {queue : Nat} {chain : DescriptorChain}
    {usedLength : UInt32} (member : .completed queue chain usedLength ∈ log) :
    ∃ vector, .notified queue (.queue (UInt16.ofNat queue) vector) ∈ log := by
  induction log with
  | nil => cases member
  | cons event rest ih =>
      cases event with
      | completed other chain' usedLength' =>
          rcases List.mem_cons.mp member with here | later
          · cases here
            obtain ⟨vector, found⟩ := announced.1
            exact ⟨vector, List.mem_cons_of_mem _ found⟩
          · obtain ⟨vector, found⟩ := ih announced.2 later
            exact ⟨vector, List.mem_cons_of_mem _ found⟩
      | notified notifier interrupt =>
          rcases List.mem_cons.mp member with here | later
          · cases here
          · obtain ⟨vector, found⟩ := ih announced later
            exact ⟨vector, List.mem_cons_of_mem _ found⟩

/-- A completion and its interrupt. -/
def Pair (queue : Nat) (more : List Event) : Prop :=
  ∃ chain usedLength vector,
    more = [.completed queue chain usedLength, .notified queue (.queue (UInt16.ofNat queue) vector)]

theorem Pair.announced {queue : Nat} {more : List Event} (pair : Pair queue more) : Announced more := by
  obtain ⟨chain, usedLength, vector, rfl⟩ := pair
  exact ⟨⟨vector, List.mem_singleton_self _⟩, trivial⟩

theorem Pair.balanced {queue : Nat} {more : List Event} (pair : Pair queue more) : Balanced more := by
  obtain ⟨chain, usedLength, vector, rfl⟩ := pair
  intro other
  simp [List.countP_cons, Event.completes, Event.interrupts]

theorem Balanced.append {first second : List Event} (before : Balanced first) (after : Balanced second) :
    Balanced (first ++ second) := by
  intro queue
  rw [List.countP_append, List.countP_append, before queue, after queue]

/-- The log grew by nothing, or by a completion on an `allowed` queue and its interrupt. -/
def Served (allowed : Nat → Prop) (before after : List Event) : Prop :=
  after = before ∨ ∃ queue more, allowed queue ∧ Pair queue more ∧ after = before ++ more

theorem Served.keeps {allowed : Nat → Prop} {before after : List Event} (served : Served allowed before after)
    (kept : Announced before ∧ Balanced before) : Announced after ∧ Balanced after := by
  rcases served with rfl | ⟨queue, more, -, pair, rfl⟩
  · exact kept
  · exact ⟨announced_append kept.1 pair.announced, kept.2.append pair.balanced⟩

theorem Served.isPrefix {allowed : Nat → Prop} {before after : List Event} (served : Served allowed before after) :
    before <+: after := by
  rcases served with rfl | ⟨queue, more, -, -, rfl⟩
  · exact List.prefix_refl _
  · exact List.prefix_append _ _

section
variable {α β : Type}

/-- It leaves the log as it is. -/
def Quiet (m : DeviceM β α) : Prop := ∀ view, (m view).2.log = view.log

/-- When it succeeds, it has completed nothing, or one chain with its interrupt. -/
def Announces (allowed : Nat → Prop) (m : DeviceM β α) : Prop :=
  ∀ view a after, m view = (.ok a, after) → Served allowed view.log after.log

theorem Quiet.pure (a : α) : Quiet (Pure.pure a : DeviceM β α) := fun _ => rfl

theorem Quiet.fail (fault : Fault) : Quiet (Fallible.fail fault : DeviceM β α) := fun _ => rfl

theorem Quiet.read : Quiet (Fallible.read : DeviceM β (DeviceView β)) := fun _ => rfl

theorem Quiet.ofExcept (result : Except Fault α) : Quiet (Fallible.ofExcept result : DeviceM β α) := fun _ => rfl

theorem Quiet.update {f : DeviceView β → DeviceView β} (kept : ∀ view, (f view).log = view.log) :
    Quiet (Fallible.update f : DeviceM β Unit) := kept

theorem Quiet.log {m : DeviceM β α} (quiet : Quiet m) {view after : DeviceView β} {result : Except Fault α}
    (run : m view = (result, after)) : after.log = view.log := by
  have kept := quiet view
  rwa [run] at kept

theorem Quiet.bind {γ : Type} {m : DeviceM β α} {f : α → DeviceM β γ} (first : Quiet m) (rest : ∀ a, Quiet (f a)) :
    Quiet (m >>= f) := by
  intro view
  rw [Fallible.bind_apply]
  rcases run : m view with ⟨fault | a, after⟩
  · exact first.log run
  · exact (rest a after).trans (first.log run)

theorem Quiet.bind_option {γ : Type} {m : DeviceM β (Option α)} {f : Option α → DeviceM β γ} (first : Quiet m)
    (absent : Quiet (f none)) (present : ∀ a, Quiet (f (some a))) : Quiet (m >>= f) := by
  refine first.bind fun result => ?_
  cases result with
  | none => exact absent
  | some a => exact present a

theorem Quiet.ite {c : Prop} [Decidable c] {m n : DeviceM β α} (yes : Quiet m) (no : Quiet n) :
    Quiet (if c then m else n) := by
  split
  · exact yes
  · exact no

theorem onDma_quiet (access : DmaM α) : Quiet (onDma access : DeviceM β α) := fun _ => rfl

theorem onBackend_quiet (call : β → α × β) : Quiet (onBackend call : DeviceM β α) := fun _ => rfl

theorem tryBackend_quiet (call : β → Except DeviceError α × β) : Quiet (tryBackend call : DeviceM β α) :=
  .bind (onBackend_quiet call) fun _ => .ofExcept _

theorem onState_quiet (index : Nat) (access : QueueM α) : Quiet (onState index access : DeviceM β α) := by
  intro view
  unfold onState
  split
  · rfl
  · rfl

theorem queueAt_quiet (resources : Resources) (index : Nat) : Quiet (queueAt resources index : DeviceM β VirtQueue) :=
  .bind (.ofExcept _) fun _ => .bind .read fun _ => .ofExcept _

theorem pop_quiet (resources : Resources) (index : Nat) :
    Quiet (pop resources index : DeviceM β (Option DescriptorChain)) :=
  .bind (queueAt_quiet resources index) fun _ => onState_quiet index _

theorem raise_quiet (error : DeviceError) : Quiet (raise error : DeviceM β α) := .fail _

section
variable {allowed : Nat → Prop}

theorem Quiet.announces {m : DeviceM β α} (quiet : Quiet m) : Announces allowed m :=
  fun _ _ _ run => Or.inl (quiet.log run)

theorem Announces.after {γ : Type} {m : DeviceM β α} {f : α → DeviceM β γ} (quiet : Quiet m)
    (rest : ∀ a, Announces allowed (f a)) : Announces allowed (m >>= f) := by
  intro view b after run
  obtain ⟨a, next, first, last⟩ := Fallible.bind_eq_ok.mp run
  rw [← quiet.log first]
  exact rest a next b after last

theorem Announces.after_option {γ : Type} {m : DeviceM β (Option α)} {f : Option α → DeviceM β γ} (quiet : Quiet m)
    (absent : Announces allowed (f none)) (present : ∀ a, Announces allowed (f (some a))) :
    Announces allowed (m >>= f) := by
  refine .after quiet fun result => ?_
  cases result with
  | none => exact absent
  | some a => exact present a

theorem Announces.before {γ : Type} {m : DeviceM β α} {f : α → DeviceM β γ} (announces : Announces allowed m)
    (quiet : ∀ a, Quiet (f a)) : Announces allowed (m >>= f) := by
  intro view b after run
  obtain ⟨a, next, first, last⟩ := Fallible.bind_eq_ok.mp run
  rw [(quiet a).log last]
  exact announces view a next first

theorem Announces.ite {c : Prop} [Decidable c] {m n : DeviceM β α} (yes : Announces allowed m)
    (no : Announces allowed n) : Announces allowed (if c then m else n) := by
  split
  · exact yes
  · exact no

end

section
variable {resources : Resources} {index : Nat} {chain : DescriptorChain} {usedLength : UInt32}
  {made : Except Fault Interrupt} {view after : DeviceView β}

theorem completeQueue_logs (run : completeQueue resources index chain usedLength view = (.ok (), after)) :
    after.log = view.log ++ [.completed index chain usedLength] := by
  obtain ⟨queue, first, built, run⟩ := Fallible.bind_eq_ok.mp run
  obtain ⟨_, second, entered, run⟩ := Fallible.bind_eq_ok.mp run
  cases run
  rw [← (queueAt_quiet resources index).log built, ← (onState_quiet index _).log entered]

theorem notify_logs (run : notify resources index made view = (.ok (), after)) :
    ∃ interrupt, made = .ok interrupt ∧ after.log = view.log ++ [.notified index interrupt] := by
  obtain ⟨notifier, first, found, run⟩ := Fallible.bind_eq_ok.mp run
  obtain ⟨interrupt, second, given, run⟩ := Fallible.bind_eq_ok.mp run
  obtain ⟨_, third, here, run⟩ := Fallible.bind_eq_ok.mp run
  obtain ⟨_, fourth, sent, run⟩ := Fallible.bind_eq_ok.mp run
  cases run
  refine ⟨interrupt, (Fallible.ofExcept_eq_ok.mp given).1, ?_⟩
  rw [← (Quiet.ofExcept _).log found, ← (Quiet.ofExcept _).log given, ← Quiet.read.log here,
    ← (Quiet.ofExcept _).log sent]

/-- The interrupt that is made names the queue. -/
def Names (index : Nat) (made : Except Fault Interrupt) : Prop :=
  ∀ interrupt, made = .ok interrupt → ∃ vector, interrupt = .queue (UInt16.ofNat index) vector

theorem Names.literal {queueIndex vector : UInt16} (named : queueIndex = UInt16.ofNat index) :
    Names index (.ok (.queue queueIndex vector)) := by
  intro interrupt made
  cases made
  exact ⟨vector, named ▸ rfl⟩

theorem Names.of_first {first second : Except Fault UInt16}
    (named : ∀ queueIndex, first = .ok queueIndex → queueIndex = UInt16.ofNat index) :
    Names index (do
      let queueIndex ← first
      let vector ← second
      pure (.queue queueIndex vector)) := by
  intro interrupt made
  obtain ⟨queueIndex, here, made⟩ := except_bind_eq_ok.mp made
  obtain ⟨vector, -, made⟩ := except_bind_eq_ok.mp made
  cases made
  exact ⟨vector, named queueIndex here ▸ rfl⟩

theorem expectU16_names (message message' : String) :
    Names index (do
      let queueIndex ← expectU16 index message
      let vector ← expectU16 index message'
      pure (.queue queueIndex vector)) := by
  refine .of_first fun queueIndex made => ?_
  rw [expectU16] at made
  split at made
  · cases made
    rfl
  · cases made

theorem fitsU16_names (reason reason' : String) :
    Names index (do
      let queueIndex ← fitsU16 index reason
      let vector ← fitsU16 index reason'
      pure (.queue queueIndex vector)) := by
  refine .of_first fun queueIndex made => ?_
  rw [fitsU16] at made
  split at made
  · cases made
    rfl
  · cases made

theorem completed_served {allowed : Nat → Prop} {first : DeviceView β} (queue : allowed index)
    (names : Names index made) (completes : completeQueue resources index chain usedLength view = (.ok (), first))
    (notifies : notify resources index made first = (.ok (), after)) : Served allowed view.log after.log := by
  obtain ⟨interrupt, given, notified⟩ := notify_logs notifies
  obtain ⟨vector, rfl⟩ := names interrupt given
  refine Or.inr ⟨index, _, queue, ⟨chain, usedLength, vector, rfl⟩, ?_⟩
  rw [notified, completeQueue_logs completes, List.append_assoc]
  rfl

theorem completed_announces {allowed : Nat → Prop} (queue : allowed index) (names : Names index made) :
    Announces allowed (do
      completeQueue resources index chain usedLength
      notify resources index made : DeviceM β Unit) := by
  intro view _ after run
  obtain ⟨_, first, completes, notifies⟩ := Fallible.bind_eq_ok.mp run
  exact completed_served queue names completes notifies

theorem completed_returns {allowed : Nat → Prop} (queue : allowed index) (names : Names index made) (result : α) :
    Announces allowed (do
      completeQueue resources index chain usedLength
      notify resources index made
      pure result : DeviceM β α) := by
  intro view _ after run
  obtain ⟨_, first, completes, run⟩ := Fallible.bind_eq_ok.mp run
  obtain ⟨_, second, notifies, run⟩ := Fallible.bind_eq_ok.mp run
  cases run
  exact completed_served queue names completes notifies

end

end

abbrev AnnouncesAll {β : Type} (round : DeviceM β Bool) : Prop := Announces (fun _ => True) round

namespace Network
variable {γ : Type} {resources : Resources} {backend : Backend γ}

theorem complete_announces {index : Nat} {chain : DescriptorChain} {usedLength : UInt32} :
    AnnouncesAll (do
      complete resources index chain usedLength
      pure true : DeviceM (State γ) Bool) :=
  .before (completed_announces trivial (expectU16_names _ _)) fun _ => .pure _

theorem txRound_announces (pair : Nat) : AnnouncesAll (txRound resources backend pair) := by
  refine .after_option (pop_quiet _ _) (Quiet.pure _).announces fun chain => ?_
  exact .after (onDma_quiet _) fun frame => .after (tryBackend_quiet _) fun _ => complete_announces

theorem nextPair_quiet : Quiet (nextPair : DeviceM (State γ) Nat) :=
  .bind .read fun _ => .bind (onBackend_quiet _) fun _ => .ite (.fail _) (.pure _)

theorem takeFrame_quiet : Quiet (takeFrame backend) :=
  .bind_option (onBackend_quiet _) (raise_quiet _) .pure

theorem rxRound_announces : AnnouncesAll (rxRound resources backend) := by
  refine .after .read fun view => .ite ?_ (Quiet.pure _).announces
  refine .after nextPair_quiet fun pair => .after_option (pop_quiet _ _) (Quiet.pure _).announces fun chain => ?_
  exact .after takeFrame_quiet fun frame => .after (onDma_quiet _) fun usedLength => complete_announces

theorem handleControl_quiet (chain : DescriptorChain) :
    Quiet (handleControl resources chain : DeviceM (State γ) UInt8) := by
  unfold handleControl
  split
  · refine .ite (raise_quiet _) (.bind (onDma_quiet _) fun command => .ite (.pure _) (.ite (raise_quiet _) ?_))
    exact .bind (onDma_quiet _) fun bytes => .ite (.pure _) (.bind (onBackend_quiet _) fun _ => .pure _)
  · exact raise_quiet _

theorem writeControlStatus_quiet (chain : DescriptorChain) (status : UInt8) :
    Quiet (writeControlStatus chain status : DeviceM (State γ) Unit) := by
  unfold writeControlStatus
  split
  · exact .fail _
  · refine .ite (raise_quiet _) (.bind (onDma_quiet _) fun parts => ?_)
    cases parts with
    | nil => exact .fail _
    | cons part rest => exact .ite (.fail _) (.update fun _ => rfl)

theorem controlRound_announces : AnnouncesAll (controlRound resources : DeviceM (State γ) Bool) := by
  refine .after_option (pop_quiet _ _) (Quiet.pure _).announces fun chain => ?_
  simp only [controlPass, Fallible.bind_assoc, Fallible.pure_bind]
  exact .after (handleControl_quiet chain) fun status => .after (writeControlStatus_quiet chain status) fun _ =>
    complete_announces

end Network

namespace Console
variable {β : Type} {resources : Resources} {backend : Backend β}

theorem processTransmit_announces : AnnouncesAll (processTransmit resources backend) := by
  refine .after_option (pop_quiet _ _) (Quiet.pure _).announces fun chain => ?_
  exact .after (onDma_quiet _) fun bytes => .after (tryBackend_quiet _) fun _ =>
    completed_returns trivial (.literal rfl) _

theorem readInput_quiet (capacity : Nat) : Quiet (readInput backend capacity) :=
  .bind_option (onBackend_quiet _) (raise_quiet _) .pure

theorem processReceive_announces : AnnouncesAll (processReceive resources backend) := by
  refine .after .read fun view => .ite ?_ (Quiet.pure _).announces
  refine .after_option (pop_quiet _ _) (Quiet.pure _).announces fun chain => ?_
  refine .after (.ofExcept _) fun capacity => .after (readInput_quiet capacity) fun bytes => ?_
  exact .after (onDma_quiet _) fun _ => .after (.ofExcept _) fun usedLength =>
    completed_returns trivial (.literal rfl) _

end Console

namespace Rng
variable {β : Type} {resources : Resources} {entropy : Entropy β}

theorem fillParts_quiet (parts : List DmaPart) (length : Nat) : Quiet (fillParts entropy parts length) := by
  induction parts generalizing length with
  | nil => exact .pure length
  | cons part rest ih =>
      refine .bind (onBackend_quiet _) fun bytes => .bind (.update fun _ => rfl) fun _ => ?_
      cases checkedAdd length part.length with
      | none => exact raise_quiet _
      | some next => exact ih next

theorem fillDescriptors_quiet (descriptors : List Descriptor) (length : Nat) :
    Quiet (fillDescriptors entropy descriptors length) := by
  induction descriptors generalizing length with
  | nil => exact .pure length
  | cons descriptor rest ih =>
      exact .ite (raise_quiet _) (.bind (onDma_quiet _) fun parts => .bind (fillParts_quiet parts length) ih)

theorem processQueue_announces : AnnouncesAll (processQueue entropy resources) := by
  refine .after_option (pop_quiet _ _) (Quiet.pure _).announces fun chain => ?_
  have filled : Quiet (fillChain entropy chain) :=
    .bind (fillDescriptors_quiet _ _) fun length => .ite (.pure _) (raise_quiet _)
  exact .after filled fun usedLength => completed_returns trivial (.literal rfl) _

end Rng

namespace Memory
variable {β : Type} {resources : Resources} {backend : Backend β}

theorem writeResponse_quiet (chain : DescriptorChain) (response : Response) :
    Quiet (writeResponse chain response : DeviceM β Unit) := by
  unfold writeResponse
  split
  · exact .fail _
  · exact .bind (onDma_quiet _) fun parts => .update fun _ => rfl

theorem processRequest_announces : AnnouncesAll (processRequest resources backend) := by
  refine .after_option (pop_quiet _ _) (Quiet.pure _).announces fun chain => ?_
  refine .after (onDma_quiet _) fun request => .after (tryBackend_quiet _) fun response => ?_
  exact .after (writeResponse_quiet chain response) fun _ => completed_returns trivial (.literal rfl) _

end Memory

theorem notifyConfigured_announces {β : Type} {resources : Resources} {index : Nat} {chain : DescriptorChain}
    {usedLength : UInt32} (missing vectorReason : String) :
    Announces (fun _ => True) (do
      completeQueue resources index chain usedLength
      notifyConfigured resources index missing vectorReason : DeviceM β Unit) := by
  unfold notifyConfigured
  split
  · exact completed_announces trivial (fitsU16_names _ _)
  · intro view _ after run
    obtain ⟨_, first, -, raised⟩ := Fallible.bind_eq_ok.mp run
    cases raised

namespace Block
variable {F : Type} {host : HostFile F} {device : Device} {resources : Resources}

theorem takeRound_announces (index : Nat) : AnnouncesAll (takeRound resources index : DeviceM (State F) Bool) := by
  have taken : Quiet (takeWork resources index : DeviceM (State F) (Option Work)) := by
    refine .bind (.ite (.pure _) (raise_quiet _)) fun _ => .bind_option (pop_quiet _ _) (.pure _) fun chain => ?_
    exact .bind (onDma_quiet _) fun request => .pure _
  exact .after_option taken (Quiet.pure _).announces fun work => (onBackend_quiet _).announces

theorem finishRound_announces (down : Bool) (position : Nat) :
    AnnouncesAll (finishRound resources host device down position) := by
  refine .after_option (onBackend_quiet _) (Quiet.pure _).announces fun work => ?_
  have executed : Quiet (executeWork host device down work) := fun view => rfl
  exact .after executed fun completion => .before (notifyConfigured_announces _ _) fun _ => .pure _

end Block

namespace Fs
variable {root : Path} {resources : Resources}

theorem takeRound_announces (index : Nat) : AnnouncesAll (takeRound resources index) := by
  have taken : Quiet (takeWork resources index) := by
    refine .bind_option (pop_quiet _ _) (.pure _) fun chain => ?_
    exact .bind (onDma_quiet _) fun parsed => .pure _
  exact .after_option taken (Quiet.pure _).announces fun work => (onBackend_quiet _).announces

theorem completeWork_announces (work : Work) (reply : Bytes) :
    Announces (fun _ => True) (completeWork resources work reply) := by
  intro view _ after run
  obtain ⟨_, second, finished, notified⟩ := Fallible.bind_eq_ok.mp run
  obtain ⟨usedLength, first, written, completed⟩ := Fallible.bind_eq_ok.mp finished
  rw [← (onDma_quiet _).log written]
  exact notifyConfigured_announces _ _ first () after (Fallible.bind_eq_ok.mpr ⟨(), second, completed, notified⟩)

theorem finishRound_announces (down : Bool) (host : Host) (position : Nat) :
    AnnouncesAll (finishRound resources down root host position) := by
  refine .after_option (onBackend_quiet _) (Quiet.pure _).announces fun work => ?_
  have executed : Quiet (executeWork down root host work.request) :=
    .bind (.ite (raise_quiet _) (.pure _)) fun _ => tryBackend_quiet _
  exact .after executed fun reply => .before (completeWork_announces work reply) fun _ => .pure _

end Fs

/-- The driver has made nothing available on the queue since the chain that the device took last. -/
def Drained {β : Type} (resources : Resources) (index : Nat) (view : DeviceView β) : Prop :=
  ∃ layout state, resources.queues[index]? = some layout ∧ view.states[index]? = some state ∧
    wordAt view.guest.flat (layout.available.gpa + 2) = some state.lastAvailable

theorem pop_drained {β : Type} {resources : Resources} {index : Nat} {view after : DeviceView β}
    {popped : Option DescriptorChain} (run : pop resources index view = (.ok popped, after)) :
    popped = none ↔ Drained resources index view := by
  obtain ⟨queue, first, built, taken⟩ := Fallible.bind_eq_ok.mp run
  obtain ⟨configured, -, rfl⟩ := queueAt_eq_ok built
  obtain ⟨state, next, known, popped, -⟩ := onState_eq_ok taken
  refine (VirtQueue.pop_eq_none_iff popped).trans
    ⟨fun seen => ⟨queue.layout, state, configured, known, seen⟩, fun drained => ?_⟩
  obtain ⟨layout, state', configured', known', seen⟩ := drained
  cases configured.symm.trans configured'
  cases known.symm.trans known'
  exact seen

namespace Vsock
variable {β : Type} {resources : Resources} {backend : Backend β}

theorem txRound_announces : Announces (· ≠ queueEvent) (txRound resources backend) := by
  refine .after_option (pop_quiet _ _) (Quiet.pure _).announces fun chain => ?_
  refine .after (onDma_quiet _) fun packet => .after (.ofExcept _) fun _ => .after (tryBackend_quiet _) fun _ => ?_
  exact completed_returns (by decide) (expectU16_names _ _) _

theorem takePacket_quiet : Quiet (takePacket backend) :=
  .bind_option (onBackend_quiet _) (raise_quiet _) .pure

theorem rxRound_announces : Announces (· ≠ queueEvent) (rxRound resources backend) := by
  refine .after .read fun view => .ite ?_ (Quiet.pure _).announces
  refine .after_option (pop_quiet _ _) (Quiet.pure _).announces fun chain => ?_
  refine .after takePacket_quiet fun packet => .after (.ofExcept _) fun _ => .after (.ofExcept _) fun bytes => ?_
  refine .after (onDma_quiet _) fun _ => .after (.ofExcept _) fun usedLength => ?_
  exact completed_returns (by decide) (expectU16_names _ _) _

theorem eventRound_logs {view after : DeviceView β} {again : Bool}
    (run : eventRound resources view = (.ok again, after)) :
    (Drained resources queueEvent view ∧ after.log = view.log) ∨
      (¬Drained resources queueEvent view ∧ ∃ chain, after.log = view.log ++ [.completed queueEvent chain 0]) := by
  obtain ⟨popped, next, taken, run⟩ := Fallible.bind_eq_ok.mp run
  have drained := pop_drained taken
  cases popped with
  | none =>
      cases run
      exact Or.inl ⟨drained.mp rfl, (pop_quiet _ _).log taken⟩
  | some chain =>
      obtain ⟨_, last, completes, run⟩ := Fallible.bind_eq_ok.mp run
      cases run
      refine Or.inr ⟨fun empty => absurd (drained.mpr empty) (Option.some_ne_none chain), chain, ?_⟩
      rw [completeQueue_logs completes, (pop_quiet _ _).log taken]

end Vsock

namespace Machine

/-- No notifier fails, and no error ends the run. -/
def Succeeds (machine : Machine) (view : DeviceView machine.State) : Label machine → Prop
  | .guest _ _ => True
  | .round port => (machine.round port view).1 = .ok ()

instance (machine : Machine) (view : DeviceView machine.State) : (label : Label machine) →
    Decidable (Succeeds machine view label)
  | .guest _ _ => isTrue trivial
  | .round port => inferInstanceAs (Decidable ((machine.round port view).1 = .ok ()))

theorem once_announces {β : Type} {allowed : Nat → Prop} {round : DeviceM β Bool} (announces : Announces allowed round) :
    Announces allowed (once round) := .before announces fun _ => .pure _

theorem changed_announces {β : Type} {allowed : Nat → Prop} (change : β → β) : Announces allowed (changed change) :=
  (onBackend_quiet _).announces

theorem round_announces {machine : Machine} (shipped : Shipped machine) (other : machine.kind ≠ .vsock)
    (port : machine.Port) : Announces (fun _ => True) (machine.round port) := by
  cases shipped with
  | block host device resources =>
      cases port with
      | take index => exact once_announces (Block.takeRound_announces index)
      | finish down position => exact once_announces (Block.finishRound_announces down position)
      | host change => exact changed_announces (fun state : Block.State _ => { state with file := change state.file })
  | fs root resources =>
      cases port with
      | take index => exact once_announces (Fs.takeRound_announces index)
      | finish down host position => exact once_announces (Fs.finishRound_announces down host position)
  | network resources backend =>
      cases port with
      | tx pair => exact once_announces (Network.txRound_announces pair)
      | rx => exact once_announces Network.rxRound_announces
      | control => exact once_announces Network.controlRound_announces
      | host change => exact changed_announces (fun state : Network.State _ => { state with backend := change state.backend })
  | vsock resources backend => exact absurd rfl other
  | console resources backend =>
      cases port with
      | transmit => exact once_announces Console.processTransmit_announces
      | receive => exact once_announces Console.processReceive_announces
      | host change => exact changed_announces change
  | rng resources entropy => exact once_announces Rng.processQueue_announces
  | memory resources backend =>
      cases port with
      | request => exact once_announces Memory.processRequest_announces
      | host change => exact changed_announces change

theorem step_round {machine : Machine} {port : machine.Port} {view after : DeviceView machine.State}
    (succeeds : Succeeds machine view (.round port)) (stepped : machine.step view (.round port) = some after) :
    machine.round port view = (.ok (), after) :=
  Prod.ext succeeds (Option.some.inj stepped)

theorem step_served {machine : Machine} {allowed : Nat → Prop}
    (rounds : ∀ port, Announces allowed (machine.round port)) {view after : DeviceView machine.State}
    {label : Label machine} (succeeds : Succeeds machine view label) (stepped : machine.step view label = some after) :
    Served allowed view.log after.log := by
  cases label with
  | guest host leasesLeft =>
      cases stepped
      exact Or.inl rfl
  | round port => exact rounds port view () after (step_round succeeds stepped)

end Machine

namespace Vsock
variable {β : Type} {resources : Resources} {backend : Backend β}

/-- A round of the event loop finds no chain. -/
def NoEvent (resources : Resources) (backend : Backend β) (view : DeviceView β) :
    Machine.Label (machine resources backend) → Prop
  | .round .event => Drained resources queueEvent view
  | _ => True

theorem step_logs {view after : DeviceView β} {label : Machine.Label (machine resources backend)}
    (succeeds : Machine.Succeeds (machine resources backend) view label)
    (stepped : (machine resources backend).step view label = some after) :
    (NoEvent resources backend view label ∧ Served (· ≠ queueEvent) view.log after.log) ∨
      (¬NoEvent resources backend view label ∧
        ∃ chain, after.log = view.log ++ [.completed queueEvent chain 0]) := by
  cases label with
  | guest host leasesLeft =>
      cases stepped
      exact Or.inl ⟨trivial, Or.inl rfl⟩
  | round port =>
      have ran := Machine.step_round succeeds stepped
      cases port with
      | tx => exact Or.inl ⟨trivial, Machine.once_announces txRound_announces view () after ran⟩
      | rx => exact Or.inl ⟨trivial, Machine.once_announces rxRound_announces view () after ran⟩
      | host change => exact Or.inl ⟨trivial, Machine.changed_announces change view () after ran⟩
      | event =>
          obtain ⟨again, last, round, returned⟩ := Fallible.bind_eq_ok.mp ran
          cases returned
          rcases eventRound_logs round with ⟨drained, same⟩ | completed
          · exact Or.inl ⟨drained, Or.inl same⟩
          · exact Or.inr completed

/-- No interrupt for the event queue was sent. -/
def Silent (log : List Event) : Prop := ∀ interrupt, .notified queueEvent interrupt ∉ log

theorem step_grows {view after : DeviceView β} {label : Machine.Label (machine resources backend)}
    (succeeds : Machine.Succeeds (machine resources backend) view label)
    (stepped : (machine resources backend).step view label = some after) (silent : Silent view.log) :
    view.log <+: after.log ∧ Silent after.log := by
  rcases step_logs succeeds stepped with ⟨-, served⟩ | ⟨-, chain, logged⟩
  · refine ⟨served.isPrefix, ?_⟩
    rcases served with same | ⟨queue, more, other, ⟨chain, usedLength, vector, rfl⟩, logged⟩
    · rwa [same]
    · intro interrupt member
      rw [logged, List.mem_append] at member
      rcases member with earlier | new
      · exact silent interrupt earlier
      · simp only [List.mem_cons, reduceCtorEq, Event.notified.injEq, List.not_mem_nil, or_false, false_or] at new
        exact other new.1.symm
  · rw [logged]
    refine ⟨List.prefix_append _ _, fun interrupt member => ?_⟩
    rcases List.mem_append.mp member with earlier | new
    · exact silent interrupt earlier
    · cases List.mem_singleton.mp new

theorem run_grows {start view : DeviceView β} {labels : List (Machine.Label (machine resources backend))}
    (succeed : Execution.Along (machine resources backend).step (Machine.Succeeds _) start labels)
    (run : exec (machine resources backend).step start labels = some view) (silent : Silent start.log) :
    start.log <+: view.log ∧ Silent view.log := by
  refine Execution.invariant_along (fun later => start.log <+: later.log ∧ Silent later.log) ?_
    ⟨List.prefix_refl _, silent⟩ succeed run
  intro before label after kept succeeds stepped
  obtain ⟨grows, still⟩ := step_grows succeeds stepped kept.2
  exact ⟨kept.1.trans grows, still⟩

-- A chain that the event loop completed stays in the log, with no interrupt for it.
theorem noEvent_of_announced {start view : DeviceView β} {labels : List (Machine.Label (machine resources backend))}
    (succeed : Execution.Along (machine resources backend).step (Machine.Succeeds _) start labels)
    (run : exec (machine resources backend).step start labels = some view) (silent : Silent start.log)
    (announced : Announced view.log) :
    Execution.Along (machine resources backend).step (NoEvent resources backend) start labels := by
  induction labels generalizing start with
  | nil => trivial
  | cons label rest ih =>
      obtain ⟨next, stepped, tail⟩ := Execution.exec_cons_eq_some.mp run
      obtain ⟨-, still⟩ := step_grows succeed.1 stepped silent
      have others := succeed.2 next stepped
      refine ⟨?_, fun after stepped' => ?_⟩
      · rcases step_logs succeed.1 stepped with ⟨holds, -⟩ | ⟨-, chain, logged⟩
        · exact holds
        · obtain ⟨grows, quiet⟩ := run_grows others tail still
          have completed : .completed queueEvent chain 0 ∈ next.log := by simp [logged]
          obtain ⟨vector, notified⟩ := announced.of_mem (grows.subset completed)
          exact absurd notified (quiet _)
      · cases stepped.symm.trans stepped'
        exact ih others tail still

end Vsock

namespace Machine

/-- If the device is vsock, its event loop finds no chain along the run. -/
inductive NoEvents : (machine : Machine) → DeviceView machine.State → List (Label machine) → Prop
  | vsock {β : Type} (resources : Resources) (backend : Vsock.Backend β) {start : DeviceView β}
      {labels : List (Label (Vsock.machine resources backend))}
      (along : Execution.Along (Vsock.machine resources backend).step (Vsock.NoEvent resources backend) start labels) :
      NoEvents (Vsock.machine resources backend) start labels
  | other {machine : Machine} {start : DeviceView machine.State} {labels : List (Label machine)}
      (kind : machine.kind ≠ .vsock) : NoEvents machine start labels

theorem announced_of_fresh {log : List Event} (fresh : log = []) : Announced log ∧ Balanced log := by
  cases fresh
  exact ⟨trivial, fun _ => rfl⟩

section
variable {machine : Machine} {start view : DeviceView machine.State} {labels : List (Label machine)}

/-- In a run whose rounds all succeed, each completion on a queue is followed by an interrupt for it, and the two
are as many: for every device but vsock, and for vsock exactly when its event loop finds no chain. -/
theorem announced_iff (shipped : Shipped machine) (fresh : start.log = [])
    (succeed : Execution.Along machine.step (Succeeds machine) start labels)
    (run : exec machine.step start labels = some view) :
    (Announced view.log ∧ Balanced view.log) ↔ NoEvents machine start labels := by
  constructor
  · intro announced
    cases shipped with
    | vsock resources backend =>
        refine .vsock resources backend
          (Vsock.noEvent_of_announced succeed run (fun interrupt member => ?_) announced.1)
        rw [fresh] at member
        cases member
    | _ => exact .other fun vsock => by cases vsock
  · intro quiet
    cases quiet with
    | vsock resources backend along =>
        refine Execution.invariant_along (fun view => Announced view.log ∧ Balanced view.log) ?_
          (announced_of_fresh fresh) (succeed.and along) run
        intro before label after kept allowed stepped
        rcases Vsock.step_logs allowed.1 stepped with ⟨-, served⟩ | ⟨event, -⟩
        · exact served.keeps kept
        · exact absurd allowed.2 event
    | other kind =>
        refine Execution.invariant_along (fun view => Announced view.log ∧ Balanced view.log) ?_
          (announced_of_fresh fresh) succeed run
        intro before label after kept succeeds stepped
        exact (step_served (round_announces shipped kind) succeeds stepped).keeps kept

end

/-- The event queue has the ring of `ringLayout`, the other two rings lie apart from it. -/
def eventResources : Resources where
  queues := [⟨0, 1, ⟨64, 16⟩, ⟨80, 6⟩, ⟨88, 12⟩⟩, ⟨1, 1, ⟨100, 16⟩, ⟨44, 6⟩, ⟨52, 12⟩⟩, { ringLayout with index := 2 }]
  interrupts := List.replicate 4 fun _ _ => .ok ()
  negotiatedFeatures := 0x100000000

theorem announced_iff_transmit :
    ∃ view, exec (step (Vsock.machine ringResources silentPeer)) (ringView ⟨64, 44, 0, 0⟩ emptyPacket)
        [.round .tx] = some view ∧
      view.log = [.completed 1 ⟨0, [⟨64, 44, 0, 0⟩]⟩ 44, .notified 1 (.queue 1 1)] ∧
      Announced view.log ∧ Balanced view.log := by
  have ends : (exec (step (Vsock.machine ringResources silentPeer)) (ringView ⟨64, 44, 0, 0⟩ emptyPacket)
      [.round .tx]).map DeviceView.log =
      some [.completed 1 ⟨0, [⟨64, 44, 0, 0⟩]⟩ 44, .notified 1 (.queue 1 1)] := by decide +kernel
  obtain ⟨view, run, log⟩ := Option.map_eq_some_iff.mp ends
  refine ⟨view, run, log, (announced_iff (.vsock ringResources silentPeer) rfl ?_ run).mpr ?_⟩
  · exact @of_decide_eq_true _ (Execution.Along.decidable _ _) (by decide +kernel)
  · exact .vsock ringResources silentPeer ⟨trivial, fun _ _ => trivial⟩

-- A whole pass of `run` over one buffer on the event queue: the buffer is used, and the driver never hears of it.
theorem vsock_event_unannounced :
    Execution.Along (step (Vsock.machine eventResources silentPeer)) (Succeeds _)
      (ringView ⟨116, 8, virtqDescFWrite, 0⟩ []) [.round .tx, .round .rx, .round .event, .round .event] ∧
    (exec (step (Vsock.machine eventResources silentPeer)) (ringView ⟨116, 8, virtqDescFWrite, 0⟩ [])
        [.round .tx, .round .rx, .round .event, .round .event]).map DeviceView.log =
      some [.completed 2 ⟨0, [⟨116, 8, virtqDescFWrite, 0⟩]⟩ 0] ∧
    ¬Announced [.completed 2 ⟨0, [⟨116, 8, virtqDescFWrite, 0⟩]⟩ 0] ∧
    ¬Balanced [.completed 2 ⟨0, [⟨116, 8, virtqDescFWrite, 0⟩]⟩ 0] := by
  refine ⟨?_, by decide +kernel, ?_, ?_⟩
  · exact @of_decide_eq_true _ (Execution.Along.decidable _ _) (by decide +kernel)
  · rintro ⟨⟨vector, later⟩, -⟩
    cases later
  · intro balanced
    exact absurd (balanced 2) (by decide)

end Machine

end Libvirtio
