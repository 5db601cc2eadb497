import Libvirtio.Device.Basic
import Libvirtio.Queue.Access

namespace Libvirtio

section
variable {α β : Type}

theorem onDma_of_ok {access : DmaM α} {view : DeviceView β} {a : α} {after : GuestMemory}
    (run : access view.guest = (.ok a, after)) : onDma access view = (.ok a, { view with guest := after }) := by
  simp [onDma, run, Except.mapError]

theorem onDma_of_error {access : DmaM α} {view : DeviceView β} {e : DeviceError} {after : GuestMemory}
    (run : access view.guest = (.error e, after)) :
    onDma access view = (.error (.error e), { view with guest := after }) := by
  simp [onDma, run, Except.mapError]

theorem ofResult_of_ok {result : Except DeviceError α} {a : α} (ok : result = .ok a) (view : DeviceView β) :
    ofResult result view = (.ok a, view) := by
  rw [ok]
  rfl

theorem ofResult_of_error {result : Except DeviceError α} {e : DeviceError} (error : result = .error e)
    (view : DeviceView β) : ofResult result view = (.error (.error e), view) := by
  rw [error]
  rfl

theorem states_set_known {states : List QueueState} {index : Nat} {state : QueueState}
    (known : states[index]? = some state) : states.set index state = states := by
  obtain ⟨bound, rfl⟩ := List.getElem?_eq_some_iff.mp known
  exact List.set_getElem_self bound

theorem tryBackend_of_ok {call : β → Except DeviceError α × β} {view : DeviceView β} {a : α}
    (returned : (call view.backend).1 = .ok a) :
    tryBackend call view = (.ok a, { view with backend := (call view.backend).2 }) := by
  have called : onBackend call view = (.ok (.ok a), { view with backend := (call view.backend).2 }) := by
    rw [onBackend, returned]
  rw [tryBackend, Fallible.bind_of_ok called]
  rfl

theorem queueAt_valid {resources : Resources} {view : DeviceView β} {index : Nat} {layout : QueueLayout}
    (configured : resources.queues[index]? = some layout) (valid : layout.validate view.guest.memory = .ok ()) :
    queueAt resources index view = (.ok ⟨layout⟩, view) := by
  rw [queueAt, indexed, configured, Fallible.bind_of_ok (Fallible.ofExcept_apply _ view),
    Fallible.bind_of_ok (Fallible.read_apply view), VirtQueue.new, valid]
  rfl

theorem queueAt_ready {resources : Resources} {view : DeviceView β} {index : Nat} {layout : QueueLayout}
    (configured : resources.queues[index]? = some layout) (ready : VirtQueue.Ready ⟨layout⟩ view.guest) :
    queueAt resources index view = (.ok ⟨layout⟩, view) :=
  queueAt_valid configured ready.valid

theorem onState_of_ok {view : DeviceView β} {index : Nat} {state : QueueState} {access : QueueM α} {a : α}
    {after : QueueView} (known : view.states[index]? = some state) (run : access ⟨state, view.guest⟩ = (.ok a, after)) :
    onState index access view =
      (.ok a, { view with guest := after.guest, states := view.states.set index after.state }) := by
  rw [onState, indexed, known]
  simp only [run, Except.mapError]

theorem onState_of_error {view : DeviceView β} {index : Nat} {state : QueueState} {access : QueueM α} {e : DeviceError}
    {after : QueueView} (known : view.states[index]? = some state)
    (run : access ⟨state, view.guest⟩ = (.error e, after)) :
    onState index access view =
      (.error (.error e), { view with guest := after.guest, states := view.states.set index after.state }) := by
  rw [onState, indexed, known]
  simp only [run, Except.mapError]

theorem notify_of_ok {resources : Resources} {view : DeviceView β} {index : Nat} {interrupt : Interrupt}
    {notifier : List Event → Interrupt → Except DeviceError Unit}
    (found : resources.interrupts[index]? = some notifier) (sent : notifier view.log interrupt = .ok ()) :
    notify resources index (.ok interrupt) view =
      (.ok (), { view with log := view.log ++ [.notified index interrupt] }) := by
  rw [notify, indexed, found, Fallible.bind_of_ok (Fallible.ofExcept_apply _ view),
    Fallible.bind_of_ok (Fallible.ofExcept_apply _ view), Fallible.bind_of_ok (Fallible.read_apply view), sent]
  rfl

/-- The interrupt of a queue that is not looked up. -/
theorem expectQueue_iff {index : Nat} {message message' : String} {interrupt : Interrupt} :
    (do
      let queueIndex ← expectU16 index message
      let vector ← expectU16 index message'
      pure (.queue queueIndex vector)) = Except.ok interrupt ↔
      index < 2 ^ 16 ∧ Interrupt.queue (UInt16.ofNat index) (UInt16.ofNat index) = interrupt := by
  by_cases fits : index < 2 ^ 16
  · have narrow (message : String) : expectU16 index message = .ok (UInt16.ofNat index) := if_pos fits
    rw [narrow, narrow, and_iff_right fits]
    change Except.ok (Interrupt.queue _ _) = .ok interrupt ↔ _
    rw [Except.ok.injEq]
  · have wide : expectU16 index message = .error (.panic message) := if_neg fits
    rw [wide]
    exact iff_of_false (fun same => by cases same) fun both => fits both.1

theorem emit_apply (event : Event) (view : DeviceView β) :
    emit event view = (.ok (), { view with log := view.log ++ [event] }) := rfl

theorem indexed_eq_ok {items : List α} {index : Nat} {item : α} :
    indexed items index = .ok item ↔ items[index]? = some item := by
  unfold indexed
  cases items[index]? with
  | none => simp
  | some found => simp

theorem ofResult_eq_ok {result : Except DeviceError α} {view after : DeviceView β} {a : α}
    (run : ofResult result view = (.ok a, after)) : result = .ok a ∧ after = view := by
  obtain ⟨returned, rfl⟩ := Prod.mk.inj run
  cases result with
  | error e => cases returned
  | ok b =>
      cases returned
      exact ⟨rfl, rfl⟩

theorem queueAt_eq_ok {resources : Resources} {view after : DeviceView β} {index : Nat} {queue : VirtQueue}
    (run : queueAt resources index view = (.ok queue, after)) :
    resources.queues[index]? = some queue.layout ∧ queue.layout.validate view.guest.memory = .ok () ∧
      after = view := by
  obtain ⟨layout, first, found, run⟩ := Fallible.bind_eq_ok.mp run
  obtain ⟨located, rfl⟩ := Fallible.ofExcept_eq_ok.mp found
  obtain ⟨_, second, here, run⟩ := Fallible.bind_eq_ok.mp run
  cases here
  obtain ⟨built, rfl⟩ := ofResult_eq_ok run
  obtain ⟨_, valid, made⟩ := except_bind_eq_ok.mp built
  cases made
  exact ⟨indexed_eq_ok.mp located, valid, rfl⟩

theorem onState_eq_ok {view after : DeviceView β} {index : Nat} {access : QueueM α} {a : α}
    (run : onState index access view = (.ok a, after)) :
    ∃ state next, view.states[index]? = some state ∧ access ⟨state, view.guest⟩ = (.ok a, next) ∧
      after = { view with guest := next.guest, states := view.states.set index next.state } := by
  unfold onState at run
  split at run
  · cases run
  · rename_i state known
    rcases ran : access ⟨state, view.guest⟩ with ⟨e | b, next⟩
    · rw [ran] at run
      cases run
    · rw [ran] at run
      cases run
      exact ⟨state, next, indexed_eq_ok.mp known, ran, rfl⟩

theorem notify_eq_ok {resources : Resources} {view after : DeviceView β} {index : Nat} {made : Except Fault Interrupt}
    (run : notify resources index made view = (.ok (), after)) :
    ∃ notifier interrupt, resources.interrupts[index]? = some notifier ∧ made = .ok interrupt ∧
      notifier view.log interrupt = .ok () ∧ after = { view with log := view.log ++ [.notified index interrupt] } := by
  obtain ⟨notifier, _, located, rest⟩ := Fallible.bind_eq_ok.mp run
  obtain ⟨found, rfl⟩ := Fallible.ofExcept_eq_ok.mp located
  obtain ⟨interrupt, _, built, asked⟩ := Fallible.bind_eq_ok.mp rest
  obtain ⟨ok, rfl⟩ := Fallible.ofExcept_eq_ok.mp built
  rw [Fallible.bind_of_ok (Fallible.read_apply _)] at asked
  obtain ⟨_, _, answered, recorded⟩ := Fallible.bind_eq_ok.mp asked
  obtain ⟨sent, rfl⟩ := ofResult_eq_ok answered
  cases recorded
  exact ⟨notifier, interrupt, indexed_eq_ok.mp found, ok, sent, rfl⟩

theorem completeQueue_ready {resources : Resources} {view : DeviceView β} {index : Nat} {layout : QueueLayout}
    {state : QueueState} (configured : resources.queues[index]? = some layout)
    (known : view.states[index]? = some state) (ready : VirtQueue.Ready ⟨layout⟩ view.guest) (chain : DescriptorChain)
    (usedLength : UInt32) :
    ∃ after, completeQueue resources index chain usedLength view =
        (.ok (), { view with
          guest := after
          states := view.states.set index { state with nextUsed := state.nextUsed + 1 }
          log := view.log ++ [.completed index chain usedLength] }) ∧
      view.guest.Updated (VirtQueue.completed ⟨layout⟩ state.nextUsed chain.head usedLength view.guest.flat) after := by
  obtain ⟨after, complete, updated⟩ := @VirtQueue.complete_ready ⟨layout⟩ state view.guest ready chain usedLength
  refine ⟨after, ?_, updated⟩
  rw [completeQueue, Fallible.bind_of_ok (queueAt_ready configured ready),
    Fallible.bind_of_ok (onState_of_ok known complete)]
  rfl

theorem copyParts_eq (bytes : List UInt8) (parts : List DmaPart) {offset : Nat} (below : offset ≤ bytes.length)
    (host : Nat → UInt8) :
    copyParts bytes parts offset host =
      (min bytes.length (offset + (parts.map DmaPart.length).sum), scatter host parts (bytes.drop offset)) := by
  induction parts generalizing offset host with
  | nil => simp [copyParts, scatter, Nat.min_eq_right below]
  | cons part rest ih =>
      rw [copyParts, List.map_cons, List.sum_cons]
      split
      · rename_i all
        rw [all, List.drop_length, scatter_nil, Nat.min_eq_left (by omega)]
      · have chunk : (bytes.drop offset).take (min part.length (bytes.length - offset)) =
            (bytes.drop offset).take part.length := by
          rw [List.take_eq_take_iff, List.length_drop]
          omega
        simp only [chunk]
        rw [ih (by omega), scatter, List.drop_drop]
        by_cases whole : part.length ≤ bytes.length - offset
        · rw [Nat.min_eq_left whole, Nat.add_assoc]
        · have short : offset + min part.length (bytes.length - offset) = bytes.length := by omega
          have past : bytes.drop (offset + part.length) = [] := List.drop_eq_nil_of_le (by omega)
          rw [short, List.drop_length, past, Nat.min_eq_left (by omega), Nat.min_eq_left (by omega)]

theorem copyDescriptors_leased {bytes : List UInt8} {descriptors : List Descriptor} {leases : List (List DmaPart)}
    {guest : GuestMemory} (live : guest.leasesLeft = none)
    (leased : guest.memory.Leased (descriptors.map Descriptor.range) leases) {offset : Nat}
    (below : offset ≤ bytes.length) :
    copyDescriptors bytes descriptors offset guest =
      (.ok (), { guest with host := scatter guest.host leases.flatten (bytes.drop offset) }) := by
  induction descriptors generalizing guest leases offset with
  | nil =>
      cases leased
      rfl
  | cons descriptor rest ih =>
      cases leased with
      | @cons _ parts _ others translated tail =>
          rw [copyDescriptors, Fallible.ite_apply]
          split
          · rename_i all
            rw [all, List.drop_length, scatter_nil, Fallible.pure_apply]
          · have given : lease descriptor.range guest = (.ok parts, guest) := by
              rw [GuestMemory.lease_live live, translated]
            have total := guest.memory.length_of_translate translated
            rw [Fallible.bind_of_ok given, Fallible.bind_of_ok (Fallible.read_apply guest),
              copyParts_eq bytes parts below, total]
            simp only
            rw [Fallible.bind_of_ok (Fallible.update_apply _ guest)]
            have left : bytes.drop (min bytes.length (offset + descriptor.range.length)) =
                bytes.drop (offset + descriptor.range.length) := by
              rw [List.drop_eq_drop_iff]
              omega
            rw [List.flatten_cons, scatter_append, scatter_take, total, List.drop_drop, ← left]
            exact @ih others { guest with host := scatter guest.host parts (bytes.drop offset) } live tail _ (by omega)

theorem capacityFrom_eq {reason : String} {descriptors : List Descriptor} {total : Nat}
    (fits : total + (descriptors.map fun d => d.length.toNat).sum < 2 ^ 64) :
    capacityFrom reason descriptors total = .ok (total + (descriptors.map fun d => d.length.toNat).sum) := by
  induction descriptors generalizing total with
  | nil => rfl
  | cons descriptor rest ih =>
      rw [List.map_cons, List.sum_cons] at fits ⊢
      rw [capacityFrom, checkedAdd, if_pos (by omega)]
      simp only
      rw [ih (by omega), Nat.add_assoc]

/-- Every event so far has `lawful`, and the backend's state `sound`. -/
structure Within (lawful : Event → Prop) (sound : β → Prop) (view : DeviceView β) : Prop where
  log : ∀ event ∈ view.log, lawful event
  backend : sound view.backend

variable {lawful : Event → Prop} {sound : β → Prop} {post : α → Prop}

theorem raise_keeps (error : DeviceError) : Fallible.Keeps (Within lawful sound) post (raise error : DeviceM β α) :=
  .fail _

theorem ofResult_keeps {result : Except DeviceError α} (holds : ∀ a, result = .ok a → post a) :
    Fallible.Keeps (Within lawful sound) post (ofResult result : DeviceM β α) := by
  refine .ofExcept fun a returned => ?_
  cases result with
  | error e => cases returned
  | ok b =>
      cases returned
      exact holds a rfl

theorem onDma_keeps {access : DmaM α} (holds : ∀ guest a after, access guest = (.ok a, after) → post a) :
    Fallible.Keeps (Within lawful sound) post (onDma access : DeviceM β α) := by
  intro view within
  refine ⟨⟨within.log, within.backend⟩, fun a returned => ?_⟩
  rcases run : access view.guest with ⟨e | b, after⟩
  · rw [onDma_of_error run] at returned
    cases returned
  · rw [onDma_of_ok run] at returned
    cases returned
    exact holds view.guest a after run

theorem updateGuest_keeps (f : DeviceView β → GuestMemory) :
    Fallible.Keeps (Within lawful sound) (fun _ => True)
      (Fallible.update fun view => { view with guest := f view } : DeviceM β Unit) :=
  .update fun _ within => ⟨within.log, within.backend⟩

theorem onBackend_keeps {call : β → α × β} (kept : ∀ state, sound state → post (call state).1 ∧ sound (call state).2) :
    Fallible.Keeps (Within lawful sound) post (onBackend call : DeviceM β α) := by
  intro view within
  refine ⟨⟨within.log, (kept _ within.backend).2⟩, fun a returned => ?_⟩
  cases returned
  exact (kept _ within.backend).1

theorem tryBackend_keeps {call : β → Except DeviceError α × β} (kept : ∀ state, sound state → sound (call state).2) :
    Fallible.Keeps (Within lawful sound) (fun _ => True) (tryBackend call : DeviceM β α) := by
  have called : Fallible.Keeps (Within lawful sound) (fun _ => True) (onBackend call) :=
    onBackend_keeps fun state holds => ⟨trivial, kept state holds⟩
  exact .bind called fun _ _ => ofResult_keeps fun _ _ => trivial

theorem emit_keeps {event : Event} (holds : lawful event) :
    Fallible.Keeps (Within lawful sound) (fun _ => True) (emit event : DeviceM β Unit) := by
  refine .update fun view within => ⟨fun other member => ?_, within.backend⟩
  rcases List.mem_append.mp member with earlier | new
  · exact within.log other earlier
  · rw [List.mem_singleton] at new
    exact new ▸ holds

theorem onState_keeps (index : Nat) (access : QueueM α) :
    Fallible.Keeps (Within lawful sound) (fun _ => True) (onState index access : DeviceM β α) := by
  intro view within
  refine ⟨?_, fun _ _ => trivial⟩
  unfold onState
  split
  · exact within
  · exact ⟨within.log, within.backend⟩

section
variable (resources : Resources)

theorem queueAt_keeps (index : Nat) :
    Fallible.Keeps (Within lawful sound) (fun _ => True) (queueAt resources index : DeviceM β VirtQueue) :=
  .bind (.ofExcept fun _ _ => trivial) fun _ (_ : True) =>
    .bind .read fun _ _ => ofResult_keeps fun _ _ => trivial

theorem pop_keeps (index : Nat) :
    Fallible.Keeps (Within lawful sound) (fun _ => True) (pop resources index : DeviceM β (Option DescriptorChain)) :=
  .bind (queueAt_keeps resources index) fun _ _ => onState_keeps index _

theorem completeQueue_keeps {index : Nat} {chain : DescriptorChain} {usedLength : UInt32}
    (holds : lawful (.completed index chain usedLength)) :
    Fallible.Keeps (Within lawful sound) (fun _ => True)
      (completeQueue resources index chain usedLength : DeviceM β Unit) :=
  .bind (queueAt_keeps resources index) fun _ _ => .bind (onState_keeps index _) fun _ _ => emit_keeps holds

theorem notify_keeps (holds : ∀ notifier interrupt, lawful (.notified notifier interrupt)) (index : Nat)
    (interrupt : Except Fault Interrupt) :
    Fallible.Keeps (Within lawful sound) (fun _ => True) (notify resources index interrupt : DeviceM β Unit) :=
  .bind (.ofExcept fun _ _ => trivial) fun _ (_ : True) => .bind (.ofExcept fun _ _ => trivial) fun _ (_ : True) =>
    .bind .read fun _ _ => .bind (ofResult_keeps fun _ _ => trivial) fun _ (_ : True) => emit_keeps (holds _ _)

theorem notifyConfigured_keeps (holds : ∀ notifier interrupt, lawful (.notified notifier interrupt)) (index : Nat)
    (missing vectorReason : String) :
    Fallible.Keeps (Within lawful sound) (fun _ => True)
      (notifyConfigured resources index missing vectorReason : DeviceM β Unit) :=
  .ite (fun _ => notify_keeps resources holds index _) fun _ => raise_keeps _

end

end

theorem checkQueues_eq_ok {memory : DmaMemory} {maximumQueueSize : UInt16} {layouts : List QueueLayout} :
    checkQueues memory maximumQueueSize layouts = .ok () ↔
      ∀ layout ∈ layouts, layout.size ≤ maximumQueueSize ∧ layout.validate memory = .ok () := by
  induction layouts with
  | nil => exact iff_of_true rfl fun _ member => absurd member List.not_mem_nil
  | cons layout rest ih =>
      rw [checkQueues, List.forall_mem_cons, ← ih]
      split
      · rename_i large
        exact iff_of_false (by simp) fun small => UInt16.not_le.mpr large small.1.1
      · rename_i small
        rw [except_bind_eq_ok]
        constructor
        · rintro ⟨_, valid, others⟩
          exact ⟨⟨UInt16.not_lt.mp small, valid⟩, others⟩
        · rintro ⟨⟨-, valid⟩, others⟩
          exact ⟨(), valid, others⟩

/-- What the checks of the resources establish. -/
structure Resources.Checked (resources : Resources) (memory : DmaMemory) (layout : DeviceLayout) : Prop where
  queues : resources.queues.length = layout.queueCount
  interrupts : layout.notifierCount ≤ resources.interrupts.length
  features : resources.negotiatedFeatures &&& layout.requiredFeatures = layout.requiredFeatures
  layouts : ∀ queue ∈ resources.queues, queue.size ≤ layout.maximumQueueSize ∧ queue.validate memory = .ok ()

theorem Resources.validate_eq_ok {resources : Resources} {memory : DmaMemory} {layout : DeviceLayout} :
    resources.validate memory layout = .ok () ↔ resources.Checked memory layout := by
  unfold Resources.validate
  split
  · rename_i count
    exact iff_of_false (by simp) fun checked => count checked.queues
  · rename_i count
    split
    · rename_i missing
      exact iff_of_false (by simp) fun checked => Nat.not_lt.mpr checked.interrupts missing
    · rename_i notifiers
      split
      · rename_i features
        exact iff_of_false (by simp) fun checked => features checked.features
      · rename_i features
        rw [checkQueues_eq_ok]
        exact ⟨fun layouts => ⟨not_not.mp count, Nat.not_lt.mp notifiers, not_not.mp features, layouts⟩,
          fun checked => checked.layouts⟩

/-- `take` takes what `holds` sees, in the order of the queue. -/
structure Fifo {α β : Type} (holds : β → Bool) (take : β → Option α × β) (queued : β → List α) : Prop where
  has : ∀ host, holds host = !(queued host).isEmpty
  taken : ∀ host, (take host).1 = (queued host).head?
  left : ∀ host, queued (take host).2 = (queued host).tail

end Libvirtio
