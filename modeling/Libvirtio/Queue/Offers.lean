import Libvirtio.Queue.Chain

namespace Libvirtio.VirtQueue

section
variable {α : Type} (queue : VirtQueue) (head : α → UInt16) (holds : (Nat → Option UInt8) → α → Prop)
variable (stores : α → (Nat → Option UInt8) → (Nat → Option UInt8) → Prop)

/-- The available ring lists `chains`, and memory `holds` each of them, also after the device has stored what it
may into the first ones and completed them. -/
def Offers : (Nat → Option UInt8) → QueueState → List α → Prop
  | flat, state, [] => wordAt flat (queue.layout.available.gpa + 2) = some state.lastAvailable
  | flat, state, chain :: rest =>
      (∃ published, wordAt flat (queue.layout.available.gpa + 2) = some published ∧
        published ≠ state.lastAvailable ∧ published - state.lastAvailable ≤ queue.layout.size) ∧
      wordAt flat (queue.layout.available.gpa + 4 + (state.lastAvailable % queue.layout.size).toNat * 2) =
        some (head chain) ∧
      holds flat chain ∧
      ∀ stored usedLength, stores chain flat stored →
        Offers (queue.completed state.nextUsed (head chain) usedLength stored)
          ⟨state.lastAvailable + 1, state.nextUsed + 1⟩ rest

variable {queue head holds stores}

theorem add_one_add_ofNat (index : UInt16) (n : Nat) : index + 1 + UInt16.ofNat n = index + UInt16.ofNat (n + 1) := by
  rw [UInt16.ofNat_add, UInt16.add_assoc, UInt16.add_comm 1]
  rfl

/-- A memory whose rings and chains stay the same under everything the device does offers them. -/
theorem offers_of_stable {chains : List α} {flat : Nat → Option UInt8} {state : QueueState}
    (same : (Nat → Option UInt8) → Prop) (small : queue.layout.size.toNat ≤ 2 ^ 15)
    (few : chains.length ≤ queue.layout.size.toNat)
    (published : ∀ flat, same flat → wordAt flat (queue.layout.available.gpa + 2) =
      some (state.lastAvailable + UInt16.ofNat chains.length))
    (slots : ∀ flat, same flat → ∀ k chain, chains[k]? = some chain →
      wordAt flat (queue.layout.available.gpa + 4 +
        ((state.lastAvailable + UInt16.ofNat k) % queue.layout.size).toNat * 2) = some (head chain))
    (held : ∀ flat, same flat → ∀ chain ∈ chains, holds flat chain)
    (kept : ∀ flat, same flat → ∀ chain ∈ chains, ∀ stored, stores chain flat stored →
      ∀ nextUsed usedLength, same (queue.completed nextUsed (head chain) usedLength stored))
    (start : same flat) : Offers queue head holds stores flat state chains := by
  induction chains generalizing flat state with
  | nil => simpa [Offers] using published flat start
  | cons chain rest ih =>
      have count : state.lastAvailable + UInt16.ofNat (rest.length + 1) - state.lastAvailable =
          UInt16.ofNat (rest.length + 1) := by
        rw [UInt16.add_comm, UInt16.add_sub_cancel]
      have length : (UInt16.ofNat (rest.length + 1)).toNat = rest.length + 1 := by
        rw [List.length_cons] at few
        rw [UInt16.toNat_ofNat']
        omega
      refine ⟨⟨_, published flat start, fun none => ?_, ?_⟩, ?_, held flat start chain List.mem_cons_self,
        fun stored usedLength store => ?_⟩
      · rw [List.length_cons] at none
        rw [none, UInt16.sub_self] at count
        rw [← count] at length
        cases length
      · rw [List.length_cons, count, UInt16.le_iff_toNat_le, length]
        exact few
      · simpa using slots flat start 0 chain rfl
      · refine ih (Nat.le_of_succ_le few) (fun flat holds => ?_) (fun flat holds k other at_k => ?_)
          (fun flat holds other member => held flat holds other (List.mem_cons_of_mem _ member))
          (fun flat holds other member => kept flat holds other (List.mem_cons_of_mem _ member))
          (kept flat start chain List.mem_cons_self stored store _ _)
        · rw [published flat holds, List.length_cons, add_one_add_ofNat]
        · rw [add_one_add_ofNat]
          exact slots flat holds (k + 1) other at_k

end

/-- The device has written the used ring and ranges in `written` only. -/
structure Undisturbed (queue : VirtQueue) (written : List DmaRange) (flat after : Nat → Option UInt8) : Prop where
  mapped : ∀ a n, (Store.read after a n).isSome = (Store.read flat a n).isSome
  kept : ∀ a n, Store.Apart a n queue.layout.used.gpa queue.layout.used.length →
    (∀ range ∈ written, Store.Apart a n range.gpa range.length) → Store.read after a n = Store.read flat a n

theorem storeRanges_isSome (flat : Nat → Option UInt8) (ranges : List DmaRange) (bytes : List UInt8) (a n : Nat) :
    (Store.read (storeRanges flat ranges bytes) a n).isSome = (Store.read flat a n).isSome := by
  induction ranges generalizing flat bytes with
  | nil => rfl
  | cons range rest ih => rw [storeRanges, ih, Store.read_write_isSome]

theorem completed_isSome (queue : VirtQueue) (nextUsed head : UInt16) (usedLength : UInt32) (flat : Nat → Option UInt8)
    (a n : Nat) :
    (Store.read (queue.completed nextUsed head usedLength flat) a n).isSome = (Store.read flat a n).isSome := by
  unfold completed
  rw [Store.read_write_isSome, Store.read_write_isSome, Store.read_write_isSome]

section
variable {queue : VirtQueue} {guest : GuestMemory} {written : List DmaRange} {flat after : Nat → Option UInt8}

theorem Undisturbed.refl (queue : VirtQueue) (written : List DmaRange) (flat : Nat → Option UInt8) :
    Undisturbed queue written flat flat := ⟨fun _ _ => rfl, fun _ _ _ _ => rfl⟩

theorem Undisturbed.step (ready : queue.Ready guest) (undisturbed : Undisturbed queue written flat after)
    {ranges : List DmaRange} (within : ∀ range ∈ ranges, range ∈ written) (bytes : List UInt8) (nextUsed head : UInt16)
    (usedLength : UInt32) :
    Undisturbed queue written flat (queue.completed nextUsed head usedLength (storeRanges after ranges bytes)) where
  mapped a n := by rw [completed_isSome, storeRanges_isSome, undisturbed.mapped]
  kept a n used others := by
    rw [completed_frame ready used, storeRanges_frame fun range member => others range (within range member),
      undisturbed.kept a n used others]

/-- The device has written ranges in `written` only. -/
structure Untouched (written : List DmaRange) (flat after : Nat → Option UInt8) : Prop where
  mapped : ∀ a n, (Store.read after a n).isSome = (Store.read flat a n).isSome
  kept : ∀ a n, (∀ range ∈ written, Store.Apart a n range.gpa range.length) → Store.read after a n = Store.read flat a n

theorem Untouched.refl (written : List DmaRange) (flat : Nat → Option UInt8) : Untouched written flat flat :=
  ⟨fun _ _ => rfl, fun _ _ _ => rfl⟩

theorem Untouched.trans {last : Nat → Option UInt8} (first : Untouched written flat after)
    (second : Untouched written after last) : Untouched written flat last :=
  ⟨fun a n => (second.mapped a n).trans (first.mapped a n),
    fun a n apart => (second.kept a n apart).trans (first.kept a n apart)⟩

theorem Untouched.mono {wider : List DmaRange} (untouched : Untouched written flat after)
    (within : ∀ range ∈ written, range ∈ wider) : Untouched wider flat after :=
  ⟨untouched.mapped, fun a n apart => untouched.kept a n fun range member => apart range (within range member)⟩

theorem Untouched.step (ready : queue.Ready guest) {ranges : List DmaRange} (used : queue.layout.used ∈ written)
    (within : ∀ range ∈ ranges, range ∈ written) (bytes : List UInt8) (nextUsed head : UInt16) (usedLength : UInt32) :
    Untouched written flat (queue.completed nextUsed head usedLength (storeRanges flat ranges bytes)) where
  mapped a n := by rw [completed_isSome, storeRanges_isSome]
  kept a n apart := by
    rw [completed_frame ready (apart _ used), storeRanges_frame fun range member => apart range (within range member)]

theorem Untouched.undisturbed (untouched : Untouched written flat after) (queue : VirtQueue) :
    Undisturbed queue written flat after :=
  ⟨untouched.mapped, fun a n _ apart => untouched.kept a n apart⟩

/-- The region of memory is apart from everything the device writes. -/
def Spared (queue : VirtQueue) (written : List DmaRange) (a n : Nat) : Prop :=
  Store.Apart a n queue.layout.used.gpa queue.layout.used.length ∧
    ∀ range ∈ written, Store.Apart a n range.gpa range.length

instance (written : List DmaRange) (a n : Nat) : Decidable (Spared queue written a n) :=
  inferInstanceAs (Decidable (_ ∧ _))

theorem Spared.sub {a n b m : Nat} (spared : Spared queue written a n) (low : a ≤ b) (high : b + m ≤ a + n) :
    Spared queue written b m := by
  have inner {c k : Nat} (apart : Store.Apart a n c k) : Store.Apart b m c k := by
    unfold Store.Apart at apart ⊢
    omega
  exact ⟨inner spared.1, fun range member => inner (spared.2 range member)⟩

theorem Undisturbed.wordAt (undisturbed : Undisturbed queue written flat after) {a : Nat}
    (spared : Spared queue written a 2) : Libvirtio.wordAt after a = Libvirtio.wordAt flat a := by
  rw [Libvirtio.wordAt, undisturbed.kept a 2 spared.1 spared.2, Libvirtio.wordAt]

theorem Undisturbed.descriptorAt (undisturbed : Undisturbed queue written flat after)
    (table : Spared queue written queue.layout.descriptors.gpa (queue.layout.size.toNat * 16)) {index : UInt16}
    (inside : index < queue.layout.size) : queue.descriptorAt after index = queue.descriptorAt flat index := by
  have bound : index.toNat < queue.layout.size.toNat := UInt16.lt_iff_toNat_lt.mp inside
  have spared : Spared queue written (queue.layout.descriptors.gpa + index.toNat * virtqDescSize) virtqDescSize :=
    table.sub (by omega) (by rw [virtqDescSize]; omega)
  rw [VirtQueue.descriptorAt, undisturbed.kept _ _ spared.1 spared.2, VirtQueue.descriptorAt]

theorem Undisturbed.outcome (undisturbed : Undisturbed queue written flat after)
    (table : Spared queue written queue.layout.descriptors.gpa (queue.layout.size.toNat * 16)) {head : UInt16}
    {chain : DescriptorChain} : Outcome queue after head (.ok chain) ↔ Outcome queue flat head (.ok chain) :=
  ⟨fun outcome => outcome.congr fun _ inside => (undisturbed.descriptorAt table inside).symm,
    fun outcome => outcome.congr fun _ inside => undisturbed.descriptorAt table inside⟩

/-- A driver whose available ring the device does not write offers what the ring lists. -/
theorem offers_of_spared {α : Type} {head : α → UInt16} {holds : (Nat → Option UInt8) → α → Prop}
    {stores : α → (Nat → Option UInt8) → (Nat → Option UInt8) → Prop} {state : QueueState} {chains : List α}
    (ready : queue.Ready guest) (few : chains.length ≤ queue.layout.size.toNat)
    (ring : Spared queue written queue.layout.available.gpa (4 + queue.layout.size.toNat * 2))
    (published : wordAt guest.flat (queue.layout.available.gpa + 2) =
      some (state.lastAvailable + UInt16.ofNat chains.length))
    (slots : ∀ k chain, chains[k]? = some chain → wordAt guest.flat (queue.layout.available.gpa + 4 +
      ((state.lastAvailable + UInt16.ofNat k) % queue.layout.size).toNat * 2) = some (head chain))
    (held : ∀ after, Undisturbed queue written guest.flat after → ∀ chain ∈ chains, holds after chain)
    (within : ∀ chain ∈ chains, ∀ flat stored, stores chain flat stored →
      ∃ ranges bytes, (∀ range ∈ ranges, range ∈ written) ∧ stored = storeRanges flat ranges bytes) :
    Offers queue head holds stores guest.flat state chains := by
  refine offers_of_stable (Undisturbed queue written guest.flat) ready.size_le few ?_ ?_ held ?_ (.refl ..)
  · intro after undisturbed
    rw [undisturbed.wordAt (ring.sub (by omega) (by have := ready.size_pos; omega)), published]
  · intro after undisturbed k chain listed
    have bound := ready.slot_lt (state.lastAvailable + UInt16.ofNat k)
    rw [undisturbed.wordAt (ring.sub (by omega) (by omega)), slots k chain listed]
  · intro after undisturbed chain member stored store nextUsed usedLength
    obtain ⟨ranges, bytes, inside, rfl⟩ := within chain member after stored store
    exact undisturbed.step ready inside bytes nextUsed (head chain) usedLength

end

end Libvirtio.VirtQueue
