import Libvirtio.Queue.Chain

namespace Libvirtio

/-- The errors of an access that leaves its ring. -/
def DeviceError.RingFault : DeviceError → Prop
  | .dmaRange _ _ => True
  | .descriptor reason =>
      reason = "descriptor GPA overflow" ∨ reason = "short virtqueue read" ∨ reason = "short virtqueue write"
  | _ => False

/-- An addition of two `u64`. A build with overflow checks panics where the sum does not fit. -/
def addU64 (a b : Nat) : Fallible Fault QueueView Nat :=
  match checkedAdd a b with
  | none => Fallible.fail (.panic "attempt to add with overflow")
  | some sum => pure sum

def raising {α : Type} (m : QueueM α) : Fallible Fault QueueView α := fun view =>
  match m view with
  | (.ok a, after) => (.ok a, after)
  | (.error e, after) => (.error (.error e), after)

theorem addU64_of_lt {a b : Nat} (fits : a + b < 2 ^ 64) : addU64 a b = pure (a + b) := by
  rw [addU64, checkedAdd, if_pos fits]

theorem raising_bind {α β : Type} (m : QueueM α) (f : α → QueueM β) :
    raising (m >>= f) = raising m >>= fun a => raising (f a) := by
  funext view
  simp only [raising, Fallible.bind_apply]
  rcases m view with ⟨_ | a, after⟩ <;> rfl

theorem raising_ite {α : Type} (c : Prop) [Decidable c] (m n : QueueM α) :
    raising (if c then m else n) = if c then raising m else raising n := by
  split <;> rfl

theorem raising_eq_error {α : Type} {m : QueueM α} {view : QueueView} {fault : Fault}
    (run : (raising m view).1 = .error fault) : ∃ e, fault = .error e ∧ (m view).1 = .error e := by
  rcases returned : m view with ⟨e | a, after⟩
  · simp only [raising, returned] at run
    cases run
    exact ⟨e, rfl, rfl⟩
  · simp only [raising, returned] at run
    cases run

namespace VirtQueue
variable {queue : VirtQueue} {state : QueueState} {guest : GuestMemory}

/-- `pop` with its unchecked additions. -/
def popU64 (queue : VirtQueue) : Fallible Fault QueueView (Option DescriptorChain) := do
  let indexAddress ← addU64 queue.layout.available.gpa 2
  let availableIndex ← raising (onGuest (readU16 indexAddress))
  let view ← Fallible.read
  let lastAvailable := view.state.lastAvailable
  if availableIndex = lastAvailable then pure none
  else if availableIndex - lastAvailable > queue.layout.size then
    Fallible.fail (.error (.invalidQueue queue.layout.index "available index exceeds queue size"))
  else do
    let slot := (lastAvailable % queue.layout.size).toNat
    let ring ← addU64 queue.layout.available.gpa virtqAvailHeaderSize
    let headAddress ← addU64 ring (slot * 2)
    let head ← raising (onGuest (readU16 headAddress))
    let chain ← raising (onGuest (queue.readChain head))
    Fallible.update fun view =>
      { view with state := { view.state with lastAvailable := view.state.lastAvailable + 1 } }
    pure (some chain)

/-- `complete` with its unchecked additions. -/
def completeU64 (queue : VirtQueue) (chain : DescriptorChain) (usedLength : UInt32) : Fallible Fault QueueView Unit := do
  let view ← Fallible.read
  let slot := (view.state.nextUsed % queue.layout.size).toNat
  let ring ← addU64 queue.layout.used.gpa virtqUsedHeaderSize
  let offset ← addU64 ring (slot * virtqUsedElementSize)
  raising (onGuest (writeBytes offset (LittleEndian.encode 4 chain.head.toNat)))
  let lengthAddress ← addU64 offset 4
  raising (onGuest (writeBytes lengthAddress (LittleEndian.encode 4 usedLength.toNat)))
  Fallible.update fun view =>
    { view with state := { view.state with nextUsed := view.state.nextUsed + 1 } }
  let indexAddress ← addU64 queue.layout.used.gpa 2
  raising (onGuest (writeBytes indexAddress (LittleEndian.encode 2 (view.state.nextUsed + 1).toNat)))

theorem Ready.available_fit (ready : queue.Ready guest) :
    queue.layout.available.gpa + 4 + queue.layout.size.toNat * 2 < 2 ^ 64 := by
  obtain ⟨-, -, length, -, -, mapped, -⟩ := ready.facts
  have := guest.fits_of_read (by omega) mapped
  omega

theorem Ready.used_fit (ready : queue.Ready guest) :
    queue.layout.used.gpa + 4 + queue.layout.size.toNat * 8 < 2 ^ 64 := by
  obtain ⟨-, -, -, length, -, -, mapped⟩ := ready.facts
  have := guest.fits_of_read (by omega) mapped
  omega

theorem Ready.addU64_slot (ready : queue.Ready guest) {base width : Nat}
    (fits : base + queue.layout.size.toNat * width < 2 ^ 64) (index : UInt16) :
    addU64 base ((index % queue.layout.size).toNat * width) =
      pure (base + (index % queue.layout.size).toNat * width) := by
  have bound := Nat.mul_le_mul_right width (Nat.le_of_lt (ready.slot_lt index))
  exact addU64_of_lt (by omega)

theorem popU64_eq (ready : queue.Ready guest) : queue.popU64 = raising queue.pop := by
  have fits := ready.available_fit
  simp only [popU64, pop, raising_bind, raising_ite, virtqAvailHeaderSize, ready.addU64_slot fits, Fallible.pure_bind,
    addU64_of_lt (show queue.layout.available.gpa + 2 < 2 ^ 64 by omega),
    addU64_of_lt (show queue.layout.available.gpa + 4 < 2 ^ 64 by omega)]
  rfl

theorem completeU64_eq (ready : queue.Ready guest) (chain : DescriptorChain) (usedLength : UInt32) :
    queue.completeU64 chain usedLength = raising (queue.complete chain usedLength) := by
  have fits := ready.used_fit
  have length (index : UInt16) : addU64 (queue.layout.used.gpa + 4 + (index % queue.layout.size).toNat * 8) 4 =
      pure (queue.layout.used.gpa + 4 + (index % queue.layout.size).toNat * 8 + 4) := by
    have := ready.slot_lt index
    exact addU64_of_lt (by omega)
  simp only [completeU64, complete, raising_bind, virtqUsedHeaderSize, virtqUsedElementSize, length,
    ready.addU64_slot fits, Fallible.pure_bind, addU64_of_lt (show queue.layout.used.gpa + 2 < 2 ^ 64 by omega),
    addU64_of_lt (show queue.layout.used.gpa + 4 < 2 ^ 64 by omega)]
  rfl

theorem readChain_no_fault (ready : queue.Ready guest) {head : UInt16} {e : DeviceError}
    (run : (queue.readChain head guest).1 = .error e) : ¬e.RingFault := by
  by_cases inside : head < queue.layout.size
  · have outcome := readChain_outcome ready inside
    rw [run] at outcome
    cases outcome with
    | loops => simp [DeviceError.RingFault]
    | leaves => simp [DeviceError.RingFault]
  · rw [readChain, if_pos (UInt16.not_lt.mp inside)] at run
    cases run
    simp [DeviceError.RingFault]

theorem Ready.available_word (ready : queue.Ready guest) {a : Nat} (low : queue.layout.available.gpa ≤ a)
    (high : a + 2 ≤ queue.layout.available.gpa + 4 + queue.layout.size.toNat * 2) :
    ∃ value, readU16 a guest = (.ok value, guest) := by
  obtain ⟨bytes, read⟩ := Option.isSome_iff_exists.mp (ready.available_mapped low high)
  exact ⟨_, readU16_live ready.live (by rw [wordAt, read]; rfl)⟩

theorem pop_no_fault (ready : queue.Ready guest) {e : DeviceError} (run : (queue.pop ⟨state, guest⟩).1 = .error e) :
    ¬e.RingFault := by
  have bound := ready.slot_lt state.lastAvailable
  obtain ⟨index, indexRead⟩ := ready.available_word (a := queue.layout.available.gpa + 2) (by omega) (by omega)
  obtain ⟨head, headRead⟩ := ready.available_word
    (a := queue.layout.available.gpa + 4 + (state.lastAvailable % queue.layout.size).toNat * 2) (by omega) (by omega)
  rw [pop, Fallible.bind_of_ok (onGuest_of_ok indexRead), Fallible.bind_of_ok (Fallible.read_apply _),
    Fallible.ite_apply] at run
  split at run
  · cases run
  · rw [Fallible.ite_apply] at run
    split at run
    · cases run
      simp [DeviceError.RingFault]
    · simp only [virtqAvailHeaderSize] at run
      rw [Fallible.bind_of_ok (onGuest_of_ok headRead)] at run
      rcases Fallible.bind_eq_error.mp (Prod.ext run rfl) with failed | ⟨chain, next, -, rest⟩
      · exact readChain_no_fault ready (Prod.mk.inj failed).1
      · cases (Prod.mk.inj rest).1

/-- On a validated queue no address overflows, no access leaves its ring and `complete` succeeds. -/
theorem never_faults (queue : VirtQueue) (guest : GuestMemory) (ready : queue.Ready guest) (state : QueueState) :
    (queue.popU64 ⟨state, guest⟩ = raising queue.pop ⟨state, guest⟩ ∧
      ∀ fault, (queue.popU64 ⟨state, guest⟩).1 = .error fault → ∃ e, fault = .error e ∧ ¬e.RingFault) ∧
    (∀ head e, (queue.readChain head guest).1 = .error e → ¬e.RingFault) ∧
    ∀ chain usedLength,
      queue.completeU64 chain usedLength ⟨state, guest⟩ = raising (queue.complete chain usedLength) ⟨state, guest⟩ ∧
      (queue.completeU64 chain usedLength ⟨state, guest⟩).1 = .ok () := by
  refine ⟨⟨by rw [popU64_eq ready], ?_⟩, fun head e => readChain_no_fault ready, ?_⟩
  · intro fault run
    rw [popU64_eq ready] at run
    obtain ⟨e, rfl, failed⟩ := raising_eq_error run
    exact ⟨e, rfl, pop_no_fault ready failed⟩
  · intro chain usedLength
    obtain ⟨after, run, -⟩ := @complete_ready queue state guest ready chain usedLength
    rw [completeU64_eq ready]
    refine ⟨rfl, ?_⟩
    rw [raising, run]

-- The used ring ends at the last address that a segment can hold.
def topQueue : VirtQueue := ⟨⟨0, 2, ⟨2 ^ 64 - 73, 32⟩, ⟨2 ^ 64 - 41, 8⟩, ⟨2 ^ 64 - 21, 20⟩⟩⟩

def topGuest : GuestMemory where
  memory := .single ⟨2 ^ 64 - 73, 0, 72⟩ (by decide)
  distinct := List.pairwise_singleton _ _
  host := fun _ => 0
  leasesLeft := none

theorem never_faults_at_top : topQueue.Ready topGuest ∧
    (topQueue.completeU64 ⟨1, []⟩ 0 ⟨⟨0xffff, 0xffff⟩, topGuest⟩).1 = .ok () := by
  have ready : topQueue.Ready topGuest := ⟨rfl, by decide +kernel⟩
  exact ⟨ready, ((never_faults topQueue topGuest ready ⟨0xffff, 0xffff⟩).2.2 ⟨1, []⟩ 0).2⟩

/-- The used index in guest memory is the one that the device counts. -/
def Synced (queue : VirtQueue) (view : QueueView) : Prop :=
  wordAt view.guest.flat (queue.layout.used.gpa + 2) = some view.state.nextUsed

theorem onGuest_state {α : Type} (access : DmaM α) (state : QueueState) :
    Fallible.Triple (fun view => view.state = state) (onGuest access) (fun _ view => view.state = state)
      (fun _ view => view.state = state) := by
  rintro ⟨_, guest⟩ rfl
  rcases run : access guest with ⟨e | a, after⟩ <;> simp [onGuest, run]

theorem pop_state_of_error (queue : VirtQueue) (state : QueueState) :
    Fallible.Triple (fun view => view.state = state) queue.pop (fun _ _ => True) (fun _ view => view.state = state) := by
  have reading : Fallible.Triple (fun view : QueueView => view.state = state) Fallible.read
      (fun _ view => view.state = state) (fun (_ : DeviceError) view => view.state = state) :=
    .read fun _ same => same
  refine (onGuest_state _ state).bind fun index => ?_
  refine reading.bind fun view => ?_
  refine .ite (fun _ => .pure fun _ _ => trivial) fun _ => .ite (fun _ => .fail fun _ same => same) fun _ => ?_
  refine (onGuest_state _ state).bind fun head => (onGuest_state _ state).bind fun chain => ?_
  exact fun _ _ => trivial

/-- How `complete` ends when the memory may be revoked before each of its three writes. -/
inductive Completion (queue : VirtQueue) (state : QueueState) (guest : GuestMemory) :
    Except DeviceError Unit × QueueView → Prop
  | refused {after : GuestMemory} (early : guest.leasesLeft = some 0 ∨ guest.leasesLeft = some 1)
      (kept : wordAt after.flat (queue.layout.used.gpa + 2) = wordAt guest.flat (queue.layout.used.gpa + 2)) :
      Completion queue state guest (.error (.down .revoked), ⟨state, after⟩)
  | unpublished {after : GuestMemory} (late : guest.leasesLeft = some 2)
      (kept : wordAt after.flat (queue.layout.used.gpa + 2) = wordAt guest.flat (queue.layout.used.gpa + 2)) :
      Completion queue state guest
        (.error (.down .revoked), ⟨{ state with nextUsed := state.nextUsed + 1 }, after⟩)
  | published {after : GuestMemory} (granted : guest.Grants 3)
      (stored : wordAt after.flat (queue.layout.used.gpa + 2) = some (state.nextUsed + 1)) :
      Completion queue state guest (.ok (), ⟨{ state with nextUsed := state.nextUsed + 1 }, after⟩)

theorem writeBytes_revoked {gpa : Nat} {bytes : List UInt8} (left : guest.leasesLeft = some 0) :
    writeBytes gpa bytes guest = (.error (.down .revoked), guest) :=
  Fallible.bind_of_error (GuestMemory.lease_revoked left _)

theorem left_of_spent {left : Option Nat} {n : Nat} (granted : left ≠ some 0) (spent : left.map (· - 1) = some n) :
    left = some (n + 1) := by
  obtain ⟨m, rfl, rfl⟩ := Option.map_eq_some_iff.mp spent
  obtain ⟨m, rfl⟩ := Nat.exists_eq_succ_of_ne_zero (show m ≠ 0 from fun zero => granted (zero ▸ rfl))
  rfl

theorem writeBytes_granted {gpa : Nat} {bytes : List UInt8} (granted : guest.leasesLeft ≠ some 0)
    (nonempty : bytes ≠ []) (mapped : (Store.read guest.flat gpa bytes.length).isSome) :
    ∃ after, writeBytes gpa bytes guest = (.ok (), after) ∧ after.memory = guest.memory ∧
      after.leasesLeft = guest.leasesLeft.map (· - 1) ∧ after.flat = Store.write guest.flat gpa bytes := by
  obtain ⟨parts, ok⟩ := guest.translate_of_read (List.length_pos_iff.mpr nonempty) mapped
  obtain ⟨after, run, updated⟩ := writeBytes_of_lease ((GuestMemory.lease_granted granted _).trans (by rw [ok]))
  exact ⟨after, run, updated.memory, updated.leasesLeft, updated.flat_eq⟩

theorem used_mapped_of_valid (valid : queue.layout.validate guest.memory = .ok ()) {a n : Nat}
    (low : queue.layout.used.gpa ≤ a) (high : a + n ≤ queue.layout.used.gpa + 4 + queue.layout.size.toNat * 8) :
    (Store.read guest.flat a n).isSome := by
  have ready : queue.Ready { guest with leasesLeft := none } := ⟨rfl, valid⟩
  exact ready.used_mapped low high

theorem complete_completion (valid : queue.layout.validate guest.memory = .ok ()) (state : QueueState)
    (chain : DescriptorChain) (usedLength : UInt32) :
    queue.Completion state guest (queue.complete chain usedLength ⟨state, guest⟩) := by
  have bound : (state.nextUsed % queue.layout.size).toNat < queue.layout.size.toNat := by
    have ready : queue.Ready { guest with leasesLeft := none } := ⟨rfl, valid⟩
    exact ready.slot_lt state.nextUsed
  have elements {flat : Nat → Option UInt8} {offset value : Nat} (above : queue.layout.used.gpa + 4 ≤ offset) :
      wordAt (Store.write flat offset (LittleEndian.encode 4 value)) (queue.layout.used.gpa + 2) =
        wordAt flat (queue.layout.used.gpa + 2) := by
    rw [wordAt, Store.read_write_of_apart (Or.inl (by omega)), wordAt]
  rw [complete, Fallible.bind_of_ok (Fallible.read_apply _)]
  simp only [virtqUsedHeaderSize, virtqUsedElementSize]
  by_cases first : guest.leasesLeft = some 0
  · rw [Fallible.bind_of_error (by rw [onGuest, Fallible.zoom_apply, writeBytes_revoked first])]
    exact .refused (.inl first) rfl
  obtain ⟨one, run₁, memory₁, left₁, flat₁⟩ := writeBytes_granted first
    (LittleEndian.encode_ne_nil 4 chain.head.toNat (by omega)) (used_mapped_of_valid valid
      (a := queue.layout.used.gpa + 4 + (state.nextUsed % queue.layout.size).toNat * 8) (by omega)
      (by rw [LittleEndian.length_encode]; omega))
  rw [Fallible.bind_of_ok (onGuest_of_ok run₁)]
  by_cases second : one.leasesLeft = some 0
  · rw [Fallible.bind_of_error (by rw [onGuest, Fallible.zoom_apply, writeBytes_revoked second])]
    exact .refused (.inr (left_of_spent first (left₁ ▸ second))) (by rw [flat₁, elements (by omega)])
  obtain ⟨two, run₂, memory₂, left₂, flat₂⟩ := writeBytes_granted second
    (LittleEndian.encode_ne_nil 4 usedLength.toNat (by omega)) (used_mapped_of_valid (memory₁ ▸ valid)
      (a := queue.layout.used.gpa + 4 + (state.nextUsed % queue.layout.size).toNat * 8 + 4) (by omega)
      (by rw [LittleEndian.length_encode]; omega))
  rw [Fallible.bind_of_ok (onGuest_of_ok run₂), Fallible.bind_of_ok (Fallible.update_apply _ _)]
  by_cases third : two.leasesLeft = some 0
  · rw [onGuest, Fallible.zoom_apply, writeBytes_revoked third]
    have late := left_of_spent first (left₁ ▸ left_of_spent second (left₂ ▸ third))
    exact .unpublished late (by rw [flat₂, elements (by omega), flat₁, elements (by omega)])
  obtain ⟨three, run₃, -, -, flat₃⟩ := writeBytes_granted third
    (LittleEndian.encode_ne_nil 2 (state.nextUsed + 1).toNat (by omega)) (used_mapped_of_valid (memory₂ ▸ memory₁ ▸ valid)
      (a := queue.layout.used.gpa + 2) (by omega) (by rw [LittleEndian.length_encode]; omega))
  rw [onGuest_of_ok run₃]
  refine .published ?_ ?_
  · intro n left
    rw [left, Option.map_some] at left₁
    rw [left₁, Option.map_some] at left₂
    have notZero : n ≠ 0 := fun zero => first (zero ▸ left)
    have notOne : n - 1 ≠ 0 := fun zero => second (zero ▸ left₁)
    have notTwo : n - 1 - 1 ≠ 0 := fun zero => third (zero ▸ left₂)
    omega
  · have index := used_mapped_of_valid (a := queue.layout.used.gpa + 2) (n := 2) (memory₂ ▸ memory₁ ▸ valid)
      (by omega) (by omega)
    rw [flat₃, wordAt_of_read (Store.read_write_self index), UInt16.ofNat_toNat]

/-- `pop` and `complete` against a revocation: `pop` leaves the state alone when it fails. `complete` does so, and
keeps the two used indices equal, unless the memory is revoked just before its third and last write. -/
theorem all_or_nothing_iff (queue : VirtQueue) (state : QueueState) (guest : GuestMemory) (chain : DescriptorChain)
    (usedLength : UInt32) (valid : queue.layout.validate guest.memory = .ok ()) :
    (∀ e, (queue.pop ⟨state, guest⟩).1 = .error e → (queue.pop ⟨state, guest⟩).2.state = state) ∧
    (((∀ e, (queue.complete chain usedLength ⟨state, guest⟩).1 = .error e →
          (queue.complete chain usedLength ⟨state, guest⟩).2.state = state) ∧
        (queue.Synced ⟨state, guest⟩ → queue.Synced (queue.complete chain usedLength ⟨state, guest⟩).2)) ↔
      guest.leasesLeft ≠ some 2) := by
  refine ⟨?_, ?_⟩
  · intro e failed
    have kept := pop_state_of_error queue state ⟨state, guest⟩ rfl
    rcases run : queue.pop ⟨state, guest⟩ with ⟨_ | _, after⟩
    · simpa only [run] using kept
    · rw [run] at failed
      cases failed
  · have completion := complete_completion valid state chain usedLength
    generalize queue.complete chain usedLength ⟨state, guest⟩ = ended at completion ⊢
    cases completion with
    | refused early kept =>
        refine iff_of_true ⟨fun _ _ => rfl, fun synced => kept.trans synced⟩ fun late => ?_
        rcases early with early | early <;> rw [early] at late <;> cases late
    | unpublished late kept =>
        refine iff_of_false ?_ fun granted => granted late
        rintro ⟨unchanged, -⟩
        have moved : state.nextUsed + 1 = state.nextUsed := congrArg QueueState.nextUsed (unchanged _ rfl)
        simp at moved
    | published granted stored =>
        refine iff_of_true ⟨fun _ failed => ?_, fun _ => stored⟩ fun late => ?_
        · cases failed
        · have := granted 2 late
          omega

-- The memory is revoked after two of the three writes.
def revokedQueue : VirtQueue := ⟨⟨0, 2, ⟨0, 32⟩, ⟨32, 8⟩, ⟨40, 20⟩⟩⟩

def revokedGuest (leases : Nat) : GuestMemory where
  memory := .single ⟨0, 0, 60⟩ (by decide)
  distinct := List.pairwise_singleton _ _
  host := fun _ => 0
  leasesLeft := some leases

theorem complete_not_all_or_nothing :
    revokedQueue.layout.validate (revokedGuest 2).memory = .ok () ∧
    (revokedQueue.complete ⟨0, []⟩ 0 ⟨⟨1, 0⟩, revokedGuest 2⟩).1 = .error (.down .revoked) ∧
    (revokedQueue.complete ⟨0, []⟩ 0 ⟨⟨1, 0⟩, revokedGuest 2⟩).2.state = ⟨1, 1⟩ ∧
    revokedQueue.Synced ⟨⟨1, 0⟩, revokedGuest 2⟩ ∧
    ¬revokedQueue.Synced (revokedQueue.complete ⟨0, []⟩ 0 ⟨⟨1, 0⟩, revokedGuest 2⟩).2 := by
  unfold Synced
  decide +kernel

theorem all_or_nothing_iff_revoked_early :
    (revokedGuest 1).leasesLeft ≠ some 2 ∧
    (revokedQueue.complete ⟨0, []⟩ 0 ⟨⟨1, 0⟩, revokedGuest 1⟩).2.state = ⟨1, 0⟩ := by
  have granted : (revokedGuest 1).leasesLeft ≠ some 2 := by decide
  have kept := all_or_nothing_iff revokedQueue ⟨1, 0⟩ (revokedGuest 1) ⟨0, []⟩ 0 (by decide +kernel)
  exact ⟨granted, (kept.2.mpr granted).1 (.down .revoked) (by decide +kernel)⟩

end VirtQueue

end Libvirtio
