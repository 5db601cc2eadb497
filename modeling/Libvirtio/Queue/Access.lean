import Libvirtio.Queue.Basic
import Libvirtio.Dma.Translate

namespace Libvirtio

theorem except_bind_eq_ok {ε α β : Type} {x : Except ε α} {f : α → Except ε β} {b : β} :
    (x >>= f) = .ok b ↔ ∃ a, x = .ok a ∧ f a = .ok b := by
  cases x with
  | error e => simp [bind, Except.bind]
  | ok a => simp [bind, Except.bind]

structure GuestMemory.Updated (guest : GuestMemory) (flat : Nat → Option UInt8) (after : GuestMemory) : Prop where
  memory : after.memory = guest.memory
  leasesLeft : after.leasesLeft = guest.leasesLeft
  flat_eq : after.flat = flat

def wordAt (flat : Nat → Option UInt8) (gpa : Nat) : Option UInt16 :=
  (Store.read flat gpa 2).map fun bytes => UInt16.ofNat (LittleEndian.decode bytes)

theorem wordAt_of_read {flat : Nat → Option UInt8} {gpa value : Nat}
    (read : Store.read flat gpa 2 = some (LittleEndian.encode 2 value)) : wordAt flat gpa = some (UInt16.ofNat value) := by
  rw [wordAt, read, Option.map_some, LittleEndian.decode_encode, Option.some.injEq]
  apply UInt16.toNat_inj.mp
  simp

section
variable {guest : GuestMemory} (live : guest.leasesLeft = none)
include live

theorem readBytes_live {gpa length : Nat} {bytes : List UInt8} (positive : 0 < length)
    (read : Store.read guest.flat gpa length = some bytes) :
    readBytes gpa length guest = (.ok bytes, guest) := by
  have mapped : (Store.read guest.flat gpa length).isSome := by rw [read]; rfl
  obtain ⟨parts, ok⟩ := guest.translate_of_read positive mapped
  have gathered := guest.read_of_translate ok
  rw [read, Option.some.injEq] at gathered
  have leased := (GuestMemory.lease_live live ⟨gpa, length⟩).trans (by rw [ok])
  rw [readBytes, Fallible.bind_of_ok leased, copyFromLease, Fallible.bind_of_ok (Fallible.read_apply guest)]
  simp [← gathered, Store.length_of_read read]

theorem readU16_live {gpa : Nat} {value : UInt16} (word : wordAt guest.flat gpa = some value) :
    readU16 gpa guest = (.ok value, guest) := by
  obtain ⟨bytes, read, rfl⟩ := Option.map_eq_some_iff.mp word
  rw [readU16, Fallible.bind_of_ok (readBytes_live live (by omega) read), Fallible.pure_apply]

omit live in
theorem writeBytes_of_lease {gpa : Nat} {bytes : List UInt8} {parts : List DmaPart} {next : GuestMemory}
    (leased : lease ⟨gpa, bytes.length⟩ guest = (.ok parts, next)) :
    ∃ after, writeBytes gpa bytes guest = (.ok (), after) ∧
      next.Updated (Store.write guest.flat gpa bytes) after := by
  obtain ⟨ok, kept⟩ := lease_eq_ok leased
  have lengths := guest.memory.length_of_translate ok
  have same : next.flat = guest.flat := by rw [GuestMemory.flat, GuestMemory.flat, kept.memory, kept.host]
  rw [← kept.memory] at ok
  refine ⟨{ next with host := scatter next.host parts bytes }, ?_, rfl, rfl, ?_⟩
  · rw [writeBytes, Fallible.bind_of_ok leased, Fallible.bind_of_ok (Fallible.update_apply _ next)]
    simp only at lengths
    rw [if_neg (by omega), Fallible.pure_apply]
  · rw [← same]
    exact next.flat_scatter ok (Nat.le_refl _)

theorem writeBytes_of_translate {gpa : Nat} {bytes : List UInt8} {parts : List DmaPart}
    (ok : guest.memory.translate ⟨gpa, bytes.length⟩ = .ok parts) :
    ∃ after, writeBytes gpa bytes guest = (.ok (), after) ∧
      guest.Updated (Store.write guest.flat gpa bytes) after :=
  writeBytes_of_lease ((GuestMemory.lease_live live ⟨gpa, bytes.length⟩).trans (by rw [ok]))

theorem writeBytes_live {gpa : Nat} {bytes : List UInt8} (nonempty : bytes ≠ [])
    (mapped : (Store.read guest.flat gpa bytes.length).isSome) :
    ∃ after, writeBytes gpa bytes guest = (.ok (), after) ∧
      guest.Updated (Store.write guest.flat gpa bytes) after := by
  obtain ⟨parts, ok⟩ := guest.translate_of_read (List.length_pos_iff.mpr nonempty) mapped
  exact writeBytes_of_translate live ok

end

theorem readBytes_eq_ok {guest after : GuestMemory} {gpa length : Nat} {bytes : List UInt8}
    (run : readBytes gpa length guest = (.ok bytes, after)) :
    Store.read guest.flat gpa length = some bytes ∧ guest.Kept after := by
  obtain ⟨parts, next, leased, run⟩ := Fallible.bind_eq_ok.mp run
  obtain ⟨translated, kept⟩ := lease_eq_ok leased
  obtain ⟨_, last, here, run⟩ := Fallible.bind_eq_ok.mp run
  cases here
  rw [Fallible.ite_apply] at run
  split at run
  · cases run
  · cases run
    rw [kept.host]
    exact ⟨guest.read_of_translate translated, kept⟩

theorem readU16_eq_ok {guest after : GuestMemory} {gpa : Nat} {value : UInt16}
    (run : readU16 gpa guest = (.ok value, after)) : wordAt guest.flat gpa = some value ∧ guest.Kept after := by
  obtain ⟨bytes, next, read, run⟩ := Fallible.bind_eq_ok.mp run
  cases run
  obtain ⟨stored, kept⟩ := readBytes_eq_ok read
  rw [wordAt, stored]
  exact ⟨rfl, kept⟩

theorem readBytes_unchanged {guest : GuestMemory} (live : guest.leasesLeft = none) (gpa length : Nat) :
    (readBytes gpa length guest).2 = guest := by
  rw [readBytes, Fallible.bind_apply, GuestMemory.lease_live live]
  cases guest.memory.translate ⟨gpa, length⟩ with
  | error e => rfl
  | ok parts =>
      simp only [copyFromLease, Fallible.bind_of_ok (Fallible.read_apply guest), Fallible.ite_apply]
      split <;> rfl

def DeviceError.ofAccess : DeviceError → Prop
  | .down _ | .dmaRange _ _ | .descriptor _ => True
  | _ => False

theorem lease_error {range : DmaRange} {guest after : GuestMemory} {e : DeviceError}
    (run : lease range guest = (.error e, after)) : e.ofAccess := by
  have translated {parts : Except DeviceError (List DmaPart)} (eq : guest.memory.translate range = parts)
      (error : parts = .error e) : e.ofAccess := by
    rcases guest.memory.translate_cases range with ⟨_, ok, -⟩ | ⟨bad, -⟩
    · rw [← eq, ok] at error
      cases error
    · rw [← eq, bad] at error
      cases error
      trivial
  unfold lease at run
  split at run
  · exact translated rfl (Prod.mk.inj run).1
  · cases (Prod.mk.inj run).1
    trivial
  · exact translated rfl (Prod.mk.inj run).1

theorem readBytes_error {gpa length : Nat} {guest after : GuestMemory} {e : DeviceError}
    (run : readBytes gpa length guest = (.error e, after)) : e.ofAccess := by
  rcases Fallible.bind_eq_error.mp run with leased | ⟨parts, next, -, copied⟩
  · exact lease_error leased
  · rw [copyFromLease, Fallible.bind_of_ok (Fallible.read_apply next), Fallible.ite_apply] at copied
    split at copied
    · cases (Prod.mk.inj copied).1
      trivial
    · simp at copied

namespace VirtQueue
variable {queue : VirtQueue} {guest : GuestMemory}

theorem readDescriptor_error {index : UInt16} {after : GuestMemory} {e : DeviceError}
    (run : queue.readDescriptor index guest = (.error e, after)) : e.ofAccess := by
  unfold readDescriptor at run
  cases address : checkedAdd queue.layout.descriptors.gpa (index.toNat * virtqDescSize) with
  | none =>
      rw [address] at run
      cases (Prod.mk.inj run).1
      trivial
  | some gpa =>
      rw [address] at run
      rcases Fallible.bind_eq_error.mp run with read | ⟨bytes, next, -, built⟩
      · exact readBytes_error read
      · simp at built

theorem readChainFrom_error {head : UInt16} {rounds : Nat} {current : UInt16} {descriptors : List Descriptor}
    {after : GuestMemory} {e : DeviceError}
    (run : queue.readChainFrom head rounds current descriptors guest = (.error e, after)) : e.ofAccess := by
  induction rounds generalizing current descriptors guest with
  | zero =>
      cases (Prod.mk.inj run).1
      trivial
  | succ rounds ih =>
      rcases Fallible.bind_eq_error.mp run with read | ⟨descriptor, next, -, rest⟩
      · exact readDescriptor_error read
      · simp only [Fallible.ite_apply] at rest
        split at rest
        · simp at rest
        · split at rest
          · cases (Prod.mk.inj rest).1
            trivial
          · exact ih rest

theorem readChain_error {head : UInt16} {e : DeviceError}
    (run : (queue.readChain head guest).1 = .error e) : e.ofAccess := by
  unfold readChain at run
  rw [Fallible.ite_apply] at run
  split at run
  · cases run
    trivial
  · exact readChainFrom_error (Prod.ext run rfl)

theorem readDescriptor_unchanged (queue : VirtQueue) (live : guest.leasesLeft = none) (index : UInt16) :
    (queue.readDescriptor index guest).2 = guest := by
  unfold readDescriptor
  cases checkedAdd queue.layout.descriptors.gpa (index.toNat * virtqDescSize) with
  | none => rfl
  | some gpa =>
      have unchanged := readBytes_unchanged live gpa virtqDescSize
      simp only [Fallible.bind_apply]
      rcases run : readBytes gpa virtqDescSize guest with ⟨_ | bytes, after⟩
      · simpa only [run] using unchanged
      · simpa only [run, Fallible.pure_apply] using unchanged

theorem readChainFrom_unchanged (queue : VirtQueue) (live : guest.leasesLeft = none) (head : UInt16) (rounds : Nat)
    (current : UInt16) (descriptors : List Descriptor) :
    (queue.readChainFrom head rounds current descriptors guest).2 = guest := by
  induction rounds generalizing current descriptors with
  | zero => rfl
  | succ rounds ih =>
      have unchanged := queue.readDescriptor_unchanged live current
      rw [readChainFrom, Fallible.bind_apply]
      rcases run : queue.readDescriptor current guest with ⟨_ | descriptor, after⟩
      · simpa only [run] using unchanged
      · rw [run] at unchanged
        simp only [Fallible.ite_apply] at unchanged ⊢
        subst unchanged
        split
        · rfl
        · split
          · rfl
          · exact ih _ _

theorem readChain_unchanged (queue : VirtQueue) (live : guest.leasesLeft = none) (head : UInt16) :
    (queue.readChain head guest).2 = guest := by
  unfold readChain
  rw [Fallible.ite_apply]
  split
  · rfl
  · exact queue.readChainFrom_unchanged live head _ _ _

theorem readChainFrom_shape {head : UInt16} {rounds : Nat} {current : UInt16}
    {descriptors : List Descriptor} {chain : DescriptorChain} {after : GuestMemory}
    (run : queue.readChainFrom head rounds current descriptors guest = (.ok chain, after)) :
    chain.head = head ∧ chain.descriptors.length ≤ descriptors.length + rounds := by
  induction rounds generalizing current descriptors guest with
  | zero => simp [readChainFrom] at run
  | succ rounds ih =>
      have pushed (descriptor : Descriptor) : (descriptors ++ [descriptor]).length = descriptors.length + 1 := by
        rw [List.length_append, List.length_singleton]
      rw [readChainFrom] at run
      obtain ⟨descriptor, next, -, run⟩ := Fallible.bind_eq_ok.mp run
      simp only [Fallible.ite_apply] at run
      split at run
      · cases run
        refine ⟨rfl, ?_⟩
        rw [pushed]
        omega
      · split at run
        · cases run
        · obtain ⟨same, bounded⟩ := ih run
          rw [pushed] at bounded
          exact ⟨same, by omega⟩

theorem readChain_shape {head : UInt16} {chain : DescriptorChain} {after : GuestMemory}
    (run : queue.readChain head guest = (.ok chain, after)) :
    chain.head = head ∧ chain.descriptors.length ≤ queue.layout.size.toNat := by
  unfold readChain at run
  rw [Fallible.ite_apply] at run
  split at run
  · simp at run
  · have read := readChainFrom_shape run
    rwa [List.length_nil, Nat.zero_add] at read

end VirtQueue

/-- A queue that `VirtQueue::new` accepts, on memory that is not revoked. -/
structure VirtQueue.Ready (queue : VirtQueue) (guest : GuestMemory) : Prop where
  live : guest.leasesLeft = none
  valid : queue.layout.validate guest.memory = .ok ()

theorem checkRange_read {guest : GuestMemory} {range : DmaRange}
    (ok : guest.memory.checkRange range = .ok ()) :
    (Store.read guest.flat range.gpa range.length).isSome := by
  unfold DmaMemory.checkRange at ok
  cases translated : guest.memory.translate range with
  | error e => simp [translated, Except.map] at ok
  | ok parts => simp [guest.read_of_translate translated]

theorem isPowerOfTwo_iff {n : UInt16} : isPowerOfTwo n = true ↔ ∃ k < 16, n.toNat = 2 ^ k := by
  simp [isPowerOfTwo, List.any_eq_true]

namespace VirtQueue.Ready
variable {queue : VirtQueue} {guest : GuestMemory}

theorem facts (ready : queue.Ready guest) :
    (∃ k < 16, queue.layout.size.toNat = 2 ^ k) ∧
    queue.layout.size.toNat * 16 ≤ queue.layout.descriptors.length ∧
    4 + queue.layout.size.toNat * 2 ≤ queue.layout.available.length ∧
    4 + queue.layout.size.toNat * 8 ≤ queue.layout.used.length ∧
    (Store.read guest.flat queue.layout.descriptors.gpa queue.layout.descriptors.length).isSome ∧
    (Store.read guest.flat queue.layout.available.gpa queue.layout.available.length).isSome ∧
    (Store.read guest.flat queue.layout.used.gpa queue.layout.used.length).isSome := by
  have valid := ready.valid
  unfold QueueLayout.validate at valid
  split at valid
  · cases valid
  · rename_i power
    split at valid
    · cases valid
    · rename_i sizes
      obtain ⟨_, descriptors, valid⟩ := except_bind_eq_ok.mp valid
      obtain ⟨_, available, used⟩ := except_bind_eq_ok.mp valid
      simp only [not_or, Bool.not_eq_false, isPowerOfTwo_iff] at power
      simp only [virtqDescSize, virtqAvailHeaderSize, virtqUsedHeaderSize, virtqUsedElementSize] at sizes
      exact ⟨power.2, by omega, by omega, by omega, checkRange_read descriptors, checkRange_read available,
        checkRange_read used⟩

theorem size_pos (ready : queue.Ready guest) : 0 < queue.layout.size.toNat := by
  obtain ⟨⟨k, -, eq⟩, -⟩ := ready.facts
  rw [eq]
  exact Nat.two_pow_pos k

theorem size_dvd (ready : queue.Ready guest) : queue.layout.size.toNat ∣ 2 ^ 16 := by
  obtain ⟨⟨k, bound, eq⟩, -⟩ := ready.facts
  rw [eq]
  exact Nat.pow_dvd_pow 2 (by omega)

theorem size_le (ready : queue.Ready guest) : queue.layout.size.toNat ≤ 2 ^ 15 := by
  obtain ⟨⟨k, bound, eq⟩, -⟩ := ready.facts
  rw [eq]
  exact Nat.pow_le_pow_right (by omega) (by omega)

theorem slot_lt (ready : queue.Ready guest) (index : UInt16) :
    (index % queue.layout.size).toNat < queue.layout.size.toNat := by
  rw [UInt16.toNat_mod]
  exact Nat.mod_lt _ ready.size_pos

theorem available_mapped (ready : queue.Ready guest) {a n : Nat} (low : queue.layout.available.gpa ≤ a)
    (high : a + n ≤ queue.layout.available.gpa + 4 + queue.layout.size.toNat * 2) :
    (Store.read guest.flat a n).isSome := by
  obtain ⟨-, -, length, -, -, mapped, -⟩ := ready.facts
  exact Store.read_sub mapped low (by omega)

theorem used_mapped (ready : queue.Ready guest) {a n : Nat} (low : queue.layout.used.gpa ≤ a)
    (high : a + n ≤ queue.layout.used.gpa + 4 + queue.layout.size.toNat * 8) :
    (Store.read guest.flat a n).isSome := by
  obtain ⟨-, -, -, length, -, -, mapped⟩ := ready.facts
  exact Store.read_sub mapped low (by omega)

theorem of_updated (ready : queue.Ready guest) {flat : Nat → Option UInt8} {after : GuestMemory}
    (updated : guest.Updated flat after) : queue.Ready after :=
  ⟨updated.leasesLeft.trans ready.live, updated.memory ▸ ready.valid⟩

end VirtQueue.Ready

namespace VirtQueue
variable {queue : VirtQueue} {state : QueueState} {guest : GuestMemory}

theorem onGuest_of_ok {α : Type} {access : DmaM α} {a : α} {after : GuestMemory}
    (run : access guest = (.ok a, after)) : onGuest access ⟨state, guest⟩ = (.ok a, ⟨state, after⟩) := by
  simp [onGuest, run]

theorem pop_none (ready : queue.Ready guest)
    (seen : wordAt guest.flat (queue.layout.available.gpa + 2) = some state.lastAvailable) :
    queue.pop ⟨state, guest⟩ = (.ok none, ⟨state, guest⟩) := by
  rw [pop, Fallible.bind_of_ok (onGuest_of_ok (readU16_live ready.live seen)),
    Fallible.bind_of_ok (Fallible.read_apply _), if_pos rfl, Fallible.pure_apply]

theorem onGuest_eq_ok {α : Type} {access : DmaM α} {a : α} {before after : QueueView}
    (run : onGuest access before = (.ok a, after)) :
    access before.guest = (.ok a, after.guest) ∧ after.state = before.state := by
  obtain ⟨returned, rfl⟩ := Prod.mk.inj run
  exact ⟨Prod.ext returned rfl, rfl⟩

theorem pop_eq_ok {popped : Option DescriptorChain} {before after : QueueView}
    (run : queue.pop before = (.ok popped, after)) :
    ∃ published, wordAt before.guest.flat (queue.layout.available.gpa + 2) = some published ∧
      (published = before.state.lastAvailable ∧ popped = none ∨
        published ≠ before.state.lastAvailable ∧
          ∃ head guest chain next, queue.readChain head guest = (.ok chain, next) ∧ popped = some chain) := by
  obtain ⟨index, next, read, run⟩ := Fallible.bind_eq_ok.mp run
  obtain ⟨read, same⟩ := onGuest_eq_ok read
  obtain ⟨_, _, here, run⟩ := Fallible.bind_eq_ok.mp run
  cases here
  refine ⟨index, (readU16_eq_ok read).1, ?_⟩
  rw [← same]
  rw [Fallible.ite_apply] at run
  split at run
  · rename_i seen
    cases run
    exact .inl ⟨seen, rfl⟩
  · rename_i unseen
    rw [Fallible.ite_apply] at run
    split at run
    · cases run
    · obtain ⟨head, _, -, run⟩ := Fallible.bind_eq_ok.mp run
      obtain ⟨chain, _, read, run⟩ := Fallible.bind_eq_ok.mp run
      cases run
      exact .inr ⟨unseen, head, _, chain, _, (onGuest_eq_ok read).1, rfl⟩

theorem pop_eq_none_iff {popped : Option DescriptorChain} {before after : QueueView}
    (run : queue.pop before = (.ok popped, after)) :
    popped = none ↔ wordAt before.guest.flat (queue.layout.available.gpa + 2) = some before.state.lastAvailable := by
  obtain ⟨published, index, ⟨seen, rfl⟩ | ⟨unseen, _, _, chain, _, -, rfl⟩⟩ := pop_eq_ok run
  · rw [index, seen]
    exact iff_of_true rfl rfl
  · rw [index, Option.some.injEq]
    exact iff_of_false (fun none => by cases none) unseen

theorem pop_available (ready : queue.Ready guest) {published head : UInt16}
    (index : wordAt guest.flat (queue.layout.available.gpa + 2) = some published)
    (unseen : published ≠ state.lastAvailable) (within : ¬published - state.lastAvailable > queue.layout.size)
    (slot : wordAt guest.flat (queue.layout.available.gpa + 4 +
      (state.lastAvailable % queue.layout.size).toNat * 2) = some head) :
    queue.pop ⟨state, guest⟩ = match (queue.readChain head guest).1 with
      | .ok chain =>
          (.ok (some chain), ⟨{ state with lastAvailable := state.lastAvailable + 1 }, guest⟩)
      | .error e => (.error e, ⟨state, guest⟩) := by
  have unchanged := queue.readChain_unchanged ready.live head
  have headRead := readU16_live ready.live slot
  rw [pop, Fallible.bind_of_ok (onGuest_of_ok (readU16_live ready.live index)),
    Fallible.bind_of_ok (Fallible.read_apply _), if_neg unseen, if_neg within]
  simp only [virtqAvailHeaderSize]
  rw [Fallible.bind_of_ok (onGuest_of_ok headRead)]
  rcases run : queue.readChain head guest with ⟨e | chain, after⟩ <;> rw [run] at unchanged <;>
    simp only at unchanged <;> subst unchanged
  · exact Fallible.bind_of_error (by simp [onGuest, run])
  · rw [Fallible.bind_of_ok (onGuest_of_ok run), Fallible.bind_of_ok (Fallible.update_apply _ _),
      Fallible.pure_apply]

def completed (queue : VirtQueue) (nextUsed : UInt16) (head : UInt16) (usedLength : UInt32)
    (flat : Nat → Option UInt8) : Nat → Option UInt8 :=
  let offset := queue.layout.used.gpa + 4 + (nextUsed % queue.layout.size).toNat * 8
  Store.write (Store.write (Store.write flat offset (LittleEndian.encode 4 head.toNat))
    (offset + 4) (LittleEndian.encode 4 usedLength.toNat))
    (queue.layout.used.gpa + 2) (LittleEndian.encode 2 (nextUsed + 1).toNat)

theorem completed_frame (ready : queue.Ready guest) {flat : Nat → Option UInt8} {nextUsed head : UInt16}
    {usedLength : UInt32} {a n : Nat} (apart : Store.Apart a n queue.layout.used.gpa queue.layout.used.length) :
    Store.read (queue.completed nextUsed head usedLength flat) a n = Store.read flat a n := by
  obtain ⟨-, -, -, length, -⟩ := ready.facts
  have bound := ready.slot_lt nextUsed
  have outside {offset size : Nat} (low : queue.layout.used.gpa ≤ offset)
      (high : offset + size ≤ queue.layout.used.gpa + queue.layout.used.length) : Store.Apart a n offset size := by
    unfold Store.Apart at apart ⊢
    omega
  unfold completed
  rw [Store.read_write_of_apart (outside (by omega) (by rw [LittleEndian.length_encode]; omega)),
    Store.read_write_of_apart (outside (by omega) (by rw [LittleEndian.length_encode]; omega)),
    Store.read_write_of_apart (outside (by omega) (by rw [LittleEndian.length_encode]; omega))]

theorem complete_ready (ready : queue.Ready guest) (chain : DescriptorChain) (usedLength : UInt32) :
    ∃ after, queue.complete chain usedLength ⟨state, guest⟩ =
        (.ok (), ⟨{ state with nextUsed := state.nextUsed + 1 }, after⟩) ∧
      guest.Updated (queue.completed state.nextUsed chain.head usedLength guest.flat) after := by
  have bound := ready.slot_lt state.nextUsed
  obtain ⟨first, run₁, updated₁⟩ := writeBytes_live ready.live (LittleEndian.encode_ne_nil 4 chain.head.toNat (by omega))
    (ready.used_mapped (a := queue.layout.used.gpa + 4 + (state.nextUsed % queue.layout.size).toNat * 8)
      (by omega) (by rw [LittleEndian.length_encode]; omega))
  have ready₁ := ready.of_updated updated₁
  obtain ⟨second, run₂, updated₂⟩ := writeBytes_live ready₁.live (LittleEndian.encode_ne_nil 4 usedLength.toNat (by omega))
    (ready₁.used_mapped (a := queue.layout.used.gpa + 4 + (state.nextUsed % queue.layout.size).toNat * 8 + 4)
      (by omega) (by rw [LittleEndian.length_encode]; omega))
  have ready₂ := ready₁.of_updated updated₂
  obtain ⟨third, run₃, updated₃⟩ := writeBytes_live ready₂.live
    (LittleEndian.encode_ne_nil 2 (state.nextUsed + 1).toNat (by omega))
    (ready₂.used_mapped (a := queue.layout.used.gpa + 2) (by omega) (by rw [LittleEndian.length_encode]; omega))
  refine ⟨third, ?_, ?_⟩
  · rw [complete, Fallible.bind_of_ok (Fallible.read_apply _)]
    simp only [virtqUsedHeaderSize, virtqUsedElementSize]
    rw [Fallible.bind_of_ok (onGuest_of_ok run₁), Fallible.bind_of_ok (onGuest_of_ok run₂),
      Fallible.bind_of_ok (Fallible.update_apply _ _)]
    exact onGuest_of_ok run₃
  · refine ⟨updated₃.memory.trans (updated₂.memory.trans updated₁.memory),
      updated₃.leasesLeft.trans (updated₂.leasesLeft.trans updated₁.leasesLeft), ?_⟩
    rw [updated₃.flat_eq, updated₂.flat_eq, updated₁.flat_eq, completed]

end VirtQueue

end Libvirtio
