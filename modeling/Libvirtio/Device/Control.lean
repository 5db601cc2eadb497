import Libvirtio.Device.QueueIndices
import Libvirtio.Device.UsedLength
import Libvirtio.Queue.Faults

namespace Libvirtio.Network

section
variable {γ : Type} (resources : Resources)

/-- The command in the chain is one that sets `pairs`, and the device can read it. -/
inductive SetsPairs (guest : GuestMemory) : DescriptorChain → Nat → Prop
  | mk {head : UInt16} {header data : Descriptor} {rest : List Descriptor} {bytes : List UInt8}
      (headerSound : header.writable = false ∧ header.length = 2)
      (command : Store.read guest.flat header.address.toNat 2 = some [virtioNetCtrlMq, virtioNetCtrlMqVqPairsSet])
      (dataSound : data.writable = false ∧ data.length = 2)
      (value : Store.read guest.flat data.address.toNat 2 = some bytes)
      (positive : 1 ≤ LittleEndian.decode bytes) (bounded : LittleEndian.decode bytes ≤ maximumQueuePairs resources)
      (granted : guest.Grants 2) :
      SetsPairs guest ⟨head, header :: data :: rest⟩ (LittleEndian.decode bytes)

/-- The last descriptor of the chain takes a status. -/
structure TakesStatus (guest : GuestMemory) (chain : DescriptorChain) (descriptor : Descriptor) : Prop where
  last : chain.descriptors.getLast? = some descriptor
  sound : descriptor.writable = true ∧ descriptor.length = 1
  mapped : (Store.read guest.flat descriptor.address.toNat 1).isSome

/-- Nothing but a revocation stops `complete`. -/
structure Completable (view : DeviceView (State γ)) (index : Nat) (chain : DescriptorChain) (usedLength : UInt32) :
    Prop where
  queue : ∃ layout, resources.queues[index]? = some layout ∧ layout.validate view.guest.memory = .ok ()
  known : index < view.states.length
  fits : index < 2 ^ 16
  notified : ∃ notifier, resources.interrupts[index]? = some notifier ∧
    notifier (view.log ++ [.completed index chain usedLength]) (.queue (UInt16.ofNat index) (UInt16.ofNat index)) = .ok ()

/-- The device can answer the command and complete its chain: two leases to read the command, one to answer it and
three to complete it. -/
structure Answerable (view : DeviceView (State γ)) (chain : DescriptorChain) : Prop where
  status : ∃ descriptor, TakesStatus view.guest chain descriptor
  completable : Completable resources view (controlQueue (maximumQueuePairs resources)) chain 1
  granted : view.guest.Grants 6

/-- All three steps of the pass succeed, and the status byte receives `VIRTIO_NET_OK`. -/
def Acknowledged (view : DeviceView (State γ)) (chain : DescriptorChain) : Prop :=
  ∃ handled stored completed descriptor,
    handleControl resources chain view = (.ok virtioNetOk, handled) ∧ TakesStatus view.guest chain descriptor ∧
    writeControlStatus chain virtioNetOk handled = (.ok (), stored) ∧
    stored.guest.flat = Store.write view.guest.flat descriptor.address.toNat [virtioNetOk] ∧
    complete resources (controlQueue (maximumQueuePairs resources)) chain 1 stored = (.ok (), completed)

/-- A pass changes the number of active pairs only if it acknowledges the command. With an error or another status
the number is what it was. -/
structure Atomic (view : DeviceView (State γ)) (chain : DescriptorChain) : Prop where
  acknowledged : (controlPass resources chain view).2.backend.activeQueuePairs ≠ view.backend.activeQueuePairs →
    Acknowledged resources view chain
  kept : (controlPass resources chain view).1 ≠ .ok virtioNetOk →
    (controlPass resources chain view).2.backend.activeQueuePairs = view.backend.activeQueuePairs

end

variable {γ : Type} {resources : Resources} {view : DeviceView (State γ)} {chain : DescriptorChain}

theorem readChainRange_ok_iff {address length : Nat} {bytes : List UInt8} {guest after : GuestMemory}
    (positive : 0 < length) :
    readChainRange address length guest = (.ok bytes, after) ↔
      guest.leasesLeft ≠ some 0 ∧ Store.read guest.flat address length = some bytes ∧ guest.spent = after := by
  constructor
  · intro run
    obtain ⟨parts, next, leased, run⟩ := Fallible.bind_eq_ok.mp run
    obtain ⟨granted, translated, rfl⟩ := GuestMemory.lease_ok_iff.mp leased
    rw [Fallible.bind_of_ok (Fallible.read_apply _), Fallible.ite_apply] at run
    split at run
    · cases run
    · cases run
      exact ⟨granted, guest.read_of_translate translated, rfl⟩
  · rintro ⟨granted, read, rfl⟩
    obtain ⟨parts, translated⟩ := guest.translate_of_read positive (Option.isSome_of_eq_some read)
    obtain rfl : gather guest.host parts = bytes := Option.some.inj ((guest.read_of_translate translated).symm.trans read)
    have leased := GuestMemory.lease_ok_iff.mpr ⟨granted, translated, rfl⟩
    have whole : ¬(gather guest.spent.host parts).length ≠ length := not_not.mpr (Store.length_of_read read)
    rw [readChainRange, Fallible.bind_of_ok leased, Fallible.bind_of_ok (Fallible.read_apply _), if_neg whole]
    rfl

theorem SetsPairs.granted {guest : GuestMemory} {pairs : Nat} (sets : SetsPairs resources guest chain pairs) :
    guest.Grants 2 := by
  cases sets with
  | mk _ _ _ _ _ _ granted => exact granted

def commanded (view : DeviceView (State γ)) (pairs : Nat) : DeviceView (State γ) :=
  { view with guest := view.guest.spent.spent, backend := { view.backend with activeQueuePairs := pairs } }

theorem handleControl_of_sets {pairs : Nat} (sets : SetsPairs resources view.guest chain pairs) :
    handleControl resources chain view = (.ok virtioNetOk, commanded view pairs) := by
  cases sets with
  | @mk head header data rest bytes headerSound command dataSound value positive bounded granted =>
      obtain ⟨once, granted⟩ := GuestMemory.grants_succ.mp granted
      have twice := (GuestMemory.grants_succ.mp granted).1
      have first := (readChainRange_ok_iff (by omega)).mpr ⟨once, command, rfl⟩
      have second := (readChainRange_ok_iff (by omega)).mpr ⟨twice, value, rfl⟩
      unfold handleControl
      simp only [headerSound, dataSound, ne_eq, not_true_eq_false, Bool.false_eq_true, or_self, if_false]
      rw [Fallible.bind_of_ok (onDma_of_ok first)]
      simp only [not_true_eq_false, if_false]
      rw [Fallible.bind_of_ok (onDma_of_ok second)]
      rw [if_neg (by omega)]
      rfl

theorem handleControl_refuses (refused : ∀ pairs, ¬SetsPairs resources view.guest chain pairs) :
    (handleControl resources chain view).1 ≠ .ok virtioNetOk ∧
      (handleControl resources chain view).2.backend = view.backend := by
  rcases chain with ⟨head, descriptors⟩
  rcases descriptors with _ | ⟨header, _ | ⟨data, rest⟩⟩
  · exact ⟨by simp [handleControl, raise], rfl⟩
  · exact ⟨by simp [handleControl, raise], rfl⟩
  unfold handleControl
  simp only [Fallible.ite_apply]
  split
  · exact ⟨by simp [raise], rfl⟩
  rename_i headerSound
  rcases first : readChainRange header.address.toNat 2 view.guest with ⟨e | command, next⟩
  · rw [Fallible.bind_of_error (onDma_of_error first)]
    exact ⟨by simp, rfl⟩
  obtain ⟨granted, commandRead, rfl⟩ := (readChainRange_ok_iff (by omega)).mp first
  rw [Fallible.bind_of_ok (onDma_of_ok first)]
  simp only [Fallible.ite_apply]
  split
  · exact ⟨by simp [virtioNetErr, virtioNetOk], rfl⟩
  rename_i known
  split
  · exact ⟨by simp [raise], rfl⟩
  rename_i dataSound
  rcases second : readChainRange data.address.toNat 2 view.guest.spent with ⟨e | bytes, last⟩
  · rw [Fallible.bind_of_error (onDma_of_error second)]
    exact ⟨by simp, rfl⟩
  obtain ⟨grantedAgain, value, rfl⟩ := (readChainRange_ok_iff (by omega)).mp second
  rw [Fallible.bind_of_ok (onDma_of_ok second)]
  simp only [Fallible.ite_apply]
  split
  · exact ⟨by simp [virtioNetErr, virtioNetOk], rfl⟩
  rename_i legal
  rw [not_not.mp known] at commandRead
  simp only [not_or, Bool.not_eq_true, not_not] at headerSound dataSound legal
  have twice := GuestMemory.grants_succ.mpr ⟨grantedAgain, GuestMemory.grants_zero _⟩
  refine absurd (.mk headerSound commandRead dataSound value ?_ ?_ ?_) (refused (LittleEndian.decode bytes))
  · omega
  · omega
  · exact GuestMemory.grants_succ.mpr ⟨granted, twice⟩

theorem writeControlStatus_takes {descriptor : Descriptor} (takes : TakesStatus view.guest chain descriptor)
    (granted : view.guest.leasesLeft ≠ some 0) (status : UInt8) :
    ∃ stored, writeControlStatus chain status view = (.ok (), { view with guest := stored }) ∧
      view.guest.spent.Updated (Store.write view.guest.flat descriptor.address.toNat [status]) stored := by
  obtain ⟨parts, translated⟩ := view.guest.translate_of_read (by omega) takes.mapped
  have leased := GuestMemory.lease_ok_iff.mpr ⟨granted, translated, rfl⟩
  obtain ⟨part, rest, rfl, positive⟩ := lease_first leased
  have located := (view.guest.memory.translate_covers translated).located
  have saved : Store.view view.guest.memory.hostAddress (Store.save view.guest.host part.base [status]) =
      Store.write view.guest.flat descriptor.address.toNat [status] := by
    refine Store.view_save (view.guest.memory.hostAddress_injective view.guest.distinct) _ fun i below => ?_
    exact located i (Nat.lt_of_lt_of_le below positive)
  refine ⟨{ view.guest.spent with host := Store.save view.guest.host part.base [status] }, ?_, rfl, rfl, saved⟩
  unfold writeControlStatus
  simp only [takes.last, takes.sound, not_true_eq_false, ne_eq, or_self, if_false]
  rw [Fallible.bind_of_ok (onDma_of_ok leased), storeFirst, if_neg (Nat.ne_of_gt positive)]
  rfl

theorem writeControlStatus_eq_ok {status : UInt8} {after : DeviceView (State γ)}
    (run : writeControlStatus chain status view = (.ok (), after)) :
    view.guest.leasesLeft ≠ some 0 ∧ ∃ descriptor, TakesStatus view.guest chain descriptor := by
  unfold writeControlStatus at run
  rcases last : chain.descriptors.getLast? with _ | descriptor
  · rw [last] at run
    cases run
  simp only [last, Fallible.ite_apply] at run
  split at run
  · cases run
  rename_i sound
  simp only [not_or, not_not] at sound
  obtain ⟨parts, next, access, -⟩ := Fallible.bind_eq_ok.mp run
  rcases leased : lease ⟨descriptor.address.toNat, 1⟩ view.guest with ⟨e | given, guest⟩
  · rw [onDma_of_error leased] at access
    cases access
  · obtain ⟨granted, translated, -⟩ := GuestMemory.lease_ok_iff.mp leased
    exact ⟨granted, descriptor, last, sound, Option.isSome_of_eq_some (view.guest.read_of_translate translated)⟩

theorem complete_completable {index : Nat} {usedLength : UInt32}
    (completable : Completable resources view index chain usedLength)
    (granted : view.guest.Grants 3) :
    ∃ after, complete resources index chain usedLength view = (.ok (), after) := by
  obtain ⟨⟨layout, configured, valid⟩, known, fits, notifier, found, sent⟩ := completable
  have state := List.getElem?_eq_getElem known
  obtain ⟨after, ran⟩ : ∃ after, VirtQueue.complete ⟨layout⟩ chain usedLength ⟨view.states[index], view.guest⟩ =
      (.ok (), after) := by
    have completion := @VirtQueue.complete_completion ⟨layout⟩ view.guest valid view.states[index] chain usedLength
    generalize VirtQueue.complete ⟨layout⟩ chain usedLength ⟨view.states[index], view.guest⟩ = ended at completion ⊢
    cases completion with
    | refused early _ =>
        rcases early with left | left
        · have := granted 0 left
          omega
        · have := granted 1 left
          omega
    | unpublished late _ =>
        have := granted 2 late
        omega
    | published => exact ⟨_, rfl⟩
  have completed : completeQueue resources index chain usedLength view =
      (.ok (), { view with
        guest := after.guest
        states := view.states.set index after.state
        log := view.log ++ [.completed index chain usedLength] }) := by
    rw [completeQueue, Fallible.bind_of_ok (queueAt_valid configured valid),
      Fallible.bind_of_ok (onState_of_ok state ran), emit_apply]
  rw [complete, Fallible.bind_of_ok completed, expectQueue_iff.mpr ⟨fits, rfl⟩]
  exact ⟨_, notify_of_ok found sent⟩

theorem complete_eq_ok {index : Nat} {usedLength : UInt32} {after : DeviceView (State γ)}
    (run : complete resources index chain usedLength view = (.ok (), after)) :
    Completable resources view index chain usedLength ∧ view.guest.Grants 3 := by
  obtain ⟨_, completed, completes, notifies⟩ := Fallible.bind_eq_ok.mp run
  obtain ⟨queue, _, built, rest⟩ := Fallible.bind_eq_ok.mp completes
  obtain ⟨configured, valid, here⟩ := queueAt_eq_ok built
  rw [here] at rest
  obtain ⟨_, _, ran, recorded⟩ := Fallible.bind_eq_ok.mp rest
  obtain ⟨state, next, known, ended, rfl⟩ := onState_eq_ok ran
  cases recorded
  have granted : view.guest.Grants 3 := by
    have completion := VirtQueue.complete_completion valid state chain usedLength
    rw [ended] at completion
    cases completion with
    | published granted _ => exact granted
  obtain ⟨notifier, interrupt, found, made, sent, -⟩ := notify_eq_ok notifies
  obtain ⟨fits, rfl⟩ := expectQueue_iff.mp made
  exact ⟨⟨⟨queue.layout, configured, valid⟩, (List.getElem?_eq_some_iff.mp known).1, fits, notifier, found, sent⟩, granted⟩

theorem controlPass_backend (chain : DescriptorChain) (view : DeviceView (State γ)) :
    (controlPass resources chain view).2.backend = (handleControl resources chain view).2.backend := by
  rcases handles : handleControl resources chain view with ⟨fault | status, handled⟩
  · rw [controlPass, Fallible.bind_of_error handles]
  · rw [controlPass, Fallible.bind_of_ok handles]
    have keeps : Fallible.Keeps (Within (fun _ => True) fun state : State γ => state = handled.backend) (fun _ => True)
        (do writeControlStatus chain status
            complete resources (controlQueue (maximumQueuePairs resources)) chain 1
            pure status) := by
      refine .bind (writeControlStatus_keeps chain status) fun _ _ => ?_
      refine .bind (.bind (completeQueue_keeps resources trivial) fun _ _ => ?_) fun _ (_ : True) => .pure trivial
      exact notify_keeps resources (fun _ _ => trivial) _ _
    exact (keeps handled ⟨fun _ _ => trivial, rfl⟩).1.backend

theorem Acknowledged.returned (acknowledged : Acknowledged resources view chain) :
    (controlPass resources chain view).1 = .ok virtioNetOk := by
  obtain ⟨handled, stored, completed, descriptor, handles, -, stores, -, completes⟩ := acknowledged
  rw [controlPass, Fallible.bind_of_ok handles, Fallible.bind_of_ok stores, Fallible.bind_of_ok completes]
  rfl

theorem Answerable.acknowledged (answerable : Answerable resources view chain) {pairs : Nat}
    (sets : SetsPairs resources view.guest chain pairs) : Acknowledged resources view chain := by
  obtain ⟨⟨descriptor, takes⟩, completable, granted⟩ := answerable
  have reading : view.guest.spent.spent.Grants 4 :=
    (GuestMemory.grants_succ.mp (GuestMemory.grants_succ.mp granted).2).2
  obtain ⟨once, rest⟩ := GuestMemory.grants_succ.mp reading
  obtain ⟨stored, stores, updated⟩ := @writeControlStatus_takes _ (commanded view pairs) chain descriptor
    ⟨takes.last, takes.sound, takes.mapped⟩ once virtioNetOk
  have completable' : Completable resources { commanded view pairs with guest := stored }
      (controlQueue (maximumQueuePairs resources)) chain 1 := by
    obtain ⟨⟨layout, configured, valid⟩, known, fits, notified⟩ := completable
    exact ⟨⟨layout, configured, updated.memory.symm ▸ valid⟩, known, fits, notified⟩
  obtain ⟨completed, completes⟩ := complete_completable completable' fun n left => rest n (updated.leasesLeft ▸ left)
  exact ⟨_, _, completed, descriptor, handleControl_of_sets sets, takes, stores, updated.flat_eq, completes⟩

theorem Acknowledged.answerable (acknowledged : Acknowledged resources view chain) {pairs : Nat}
    (sets : SetsPairs resources view.guest chain pairs) : Answerable resources view chain := by
  obtain ⟨handled, stored, completed, descriptor, handles, takes, stores, -, completes⟩ := acknowledged
  obtain rfl := (Prod.mk.inj (handles.symm.trans (handleControl_of_sets sets))).2
  obtain ⟨once, -⟩ := writeControlStatus_eq_ok stores
  obtain ⟨guest, run, updated⟩ := @writeControlStatus_takes _ (commanded view pairs) chain descriptor
    ⟨takes.last, takes.sound, takes.mapped⟩ once virtioNetOk
  obtain rfl := (Prod.mk.inj (stores.symm.trans run)).2
  obtain ⟨⟨⟨layout, configured, valid⟩, known, fits, notified⟩, rest⟩ := complete_eq_ok completes
  have answering := GuestMemory.grants_succ.mpr ⟨once, fun n left => rest n (updated.leasesLeft.trans left)⟩
  refine ⟨⟨descriptor, takes⟩, ⟨⟨layout, configured, updated.memory ▸ valid⟩, known, fits, notified⟩, ?_⟩
  obtain ⟨first, granted⟩ := GuestMemory.grants_succ.mp sets.granted
  have second := (GuestMemory.grants_succ.mp granted).1
  exact GuestMemory.grants_succ.mpr ⟨first, GuestMemory.grants_succ.mpr ⟨second, answering⟩⟩

/-- A pass over a control chain is atomic exactly when a command that changes the number of active pairs can be
answered. -/
theorem control_atomic_iff (resources : Resources) (view : DeviceView (State γ)) (chain : DescriptorChain) :
    Atomic resources view chain ↔
      ∀ pairs, SetsPairs resources view.guest chain pairs → pairs ≠ view.backend.activeQueuePairs →
        Answerable resources view chain := by
  constructor
  · intro atomic pairs sets differs
    refine (atomic.acknowledged ?_).answerable sets
    rw [controlPass_backend, handleControl_of_sets sets]
    exact differs
  · intro answerable
    have acknowledged : (controlPass resources chain view).2.backend.activeQueuePairs ≠ view.backend.activeQueuePairs →
        Acknowledged resources view chain := by
      intro changed
      rw [controlPass_backend] at changed
      by_cases sets : ∃ pairs, SetsPairs resources view.guest chain pairs
      · obtain ⟨pairs, sets⟩ := sets
        rw [handleControl_of_sets sets] at changed
        exact (answerable pairs sets changed).acknowledged sets
      · exact absurd (congrArg State.activeQueuePairs (handleControl_refuses (not_exists.mp sets)).2) changed
    refine ⟨acknowledged, fun refused => ?_⟩
    by_contra changed
    exact refused (acknowledged changed).returned

-- The command sets two pairs; it is followed by a status descriptor or by none.
def pairsGuest (status : Bool) : GuestMemory where
  memory := .single ⟨0, 0, 121⟩ (by decide)
  distinct := List.pairwise_singleton _ _
  host := fun a => ([(0, 116), (8, 2), (12, 1), (14, 1), (16, 118), (24, 2), (28, if status then 1 else 0), (30, 2),
    (32, 120), (40, 1), (44, 2), (66, 1), (116, 4), (118, 2)].lookup a).getD 0
  leasesLeft := none

def pairsResources : Resources where
  queues := List.replicate 5 ⟨0, 4, ⟨0, 64⟩, ⟨64, 12⟩, ⟨80, 36⟩⟩
  interrupts := List.replicate 6 fun _ _ => .ok ()
  negotiatedFeatures := virtioFVersion1

def pairsDevice (status : Bool) : Device Unit where
  view := {
    guest := pairsGuest status
    states := List.replicate 5 QueueState.new
    backend := { backend := (), activeQueuePairs := 1, nextRxPair := 0 }
    log := [] }
  pc := .parked

def pairsChain (status : Bool) : DescriptorChain :=
  if status then ⟨0, [⟨116, 2, 1, 1⟩, ⟨118, 2, 1, 2⟩, ⟨120, 1, 2, 0⟩]⟩ else ⟨0, [⟨116, 2, 1, 1⟩, ⟨118, 2, 0, 2⟩]⟩

theorem control_not_atomic :
    NetworkSpec.activate pairsResources ⟨localMac, 2, 4⟩ (pairsGuest false) () = .ok (pairsDevice false) ∧
    (pop pairsResources 4 (pairsDevice false).view).1 = .ok (some (pairsChain false)) ∧
    ¬Atomic pairsResources (pop pairsResources 4 (pairsDevice false).view).2 (pairsChain false) ∧
    ∃ s, exec (step pairsResources idleBackend) (pairsDevice false) [.kick, .round] = some s ∧
      s.pc = .returned (.error (.descriptor "invalid virtio-net control status")) ∧
      (pairsDevice false).view.backend.activeQueuePairs = 1 ∧ s.view.backend.activeQueuePairs = 2 := by
  refine ⟨rfl, by decide +kernel, fun atomic => ?_, ?_⟩
  · exact absurd (atomic.kept (by decide +kernel)) (by decide +kernel)
  · have ends : (exec (step pairsResources idleBackend) (pairsDevice false) [.kick, .round]).map
        (fun s => (s.pc, s.view.backend.activeQueuePairs)) =
        some (.returned (.error (.descriptor "invalid virtio-net control status")), 2) := by decide +kernel
    obtain ⟨s, run, same⟩ := Option.map_eq_some_iff.mp ends
    obtain ⟨pc, active⟩ := Prod.mk.inj same
    exact ⟨s, run, pc, rfl, active⟩

theorem control_atomic_iff_answered :
    SetsPairs pairsResources (pairsGuest true) (pairsChain true) 2 ∧
    Answerable pairsResources (pairsDevice true).view (pairsChain true) ∧
    Atomic pairsResources (pairsDevice true).view (pairsChain true) := by
  have unlimited (count : Nat) : (pairsGuest true).Grants count := fun n left => by cases left
  have sets : SetsPairs pairsResources (pairsGuest true) (pairsChain true) 2 :=
    @SetsPairs.mk _ _ _ _ _ _ [2, 0] (by decide) (by decide +kernel) (by decide) (by decide +kernel) (by decide)
      (by decide +kernel) (unlimited 2)
  have answerable : Answerable pairsResources (pairsDevice true).view (pairsChain true) := {
    status := ⟨⟨120, 1, 2, 0⟩, by decide, by decide, by decide +kernel⟩
    completable := ⟨⟨_, rfl, by decide +kernel⟩, by decide, by decide, _, rfl, rfl⟩
    granted := unlimited 6 }
  exact ⟨sets, answerable, (control_atomic_iff _ _ _).mpr fun _ _ _ => answerable⟩

end Libvirtio.Network
