import Libvirtio.Device.Transfer
import Libvirtio.Fs.Pipeline

namespace Libvirtio

def DmaRange.Contains (range : DmaRange) (a : Nat) : Prop := range.gpa ≤ a ∧ a < range.gpa + range.length

def DmaRange.Disjoint (range other : DmaRange) : Prop := ∀ a, ¬(range.Contains a ∧ other.Contains a)

def filled (ranges : List DmaRange) : List DmaRange := ranges.filter fun range => 0 < range.length

section
variable {ranges : List DmaRange}

theorem apart_of_disjoint {range other : DmaRange} (positive : 0 < range.length) (positive' : 0 < other.length)
    (disjoint : range.Disjoint other) : range.Apart other := by
  unfold DmaRange.Apart Store.Apart
  by_contra overlap
  apply disjoint (max range.gpa other.gpa)
  unfold DmaRange.Contains
  omega

theorem mem_filled {range : DmaRange} : range ∈ filled ranges ↔ range ∈ ranges ∧ 0 < range.length := by
  rw [filled, List.mem_filter, decide_eq_true_eq]

-- An empty range may lie inside another one, so only the others are apart.
theorem filled_apart (disjoint : ranges.Pairwise DmaRange.Disjoint) : (filled ranges).Pairwise DmaRange.Apart := by
  refine (disjoint.filter _).imp_of_mem ?_
  intro range other member member' separate
  exact apart_of_disjoint (mem_filled.mp member).2 (mem_filled.mp member').2 separate

theorem filled_cons (range : DmaRange) (rest : List DmaRange) :
    filled (range :: rest) = if 0 < range.length then range :: filled rest else filled rest := by
  simp [filled, List.filter_cons]

theorem sum_filled (ranges : List DmaRange) :
    ((filled ranges).map DmaRange.length).sum = (ranges.map DmaRange.length).sum := by
  induction ranges with
  | nil => rfl
  | cons range rest ih =>
      rw [filled_cons]
      split
      · rw [List.map_cons, List.sum_cons, List.map_cons, List.sum_cons, ih]
      · rw [List.map_cons, List.sum_cons, ih]
        omega

theorem loadRanges_filled (flat : Nat → Option UInt8) (ranges : List DmaRange) :
    loadRanges flat (filled ranges) = loadRanges flat ranges := by
  induction ranges with
  | nil => rfl
  | cons range rest ih =>
      rw [filled_cons]
      split
      · rw [loadRanges_cons, loadRanges_cons, ih]
      · rename_i empty
        rw [loadRanges_cons, ih, show range.length = 0 by omega, Store.read_zero]
        rfl

theorem storeRanges_filled (flat : Nat → Option UInt8) (ranges : List DmaRange) (bytes : List UInt8) :
    storeRanges flat (filled ranges) bytes = storeRanges flat ranges bytes := by
  induction ranges generalizing flat bytes with
  | nil => rfl
  | cons range rest ih =>
      rw [filled_cons]
      split
      · rw [storeRanges, storeRanges, ih]
      · rename_i empty
        rw [ih, storeRanges, show range.length = 0 by omega, List.take_zero, List.drop_zero, Store.write_nil]

theorem storeRanges_outside {flat : Nat → Option UInt8} {bytes : List UInt8} {a : Nat}
    (outside : ∀ range ∈ ranges, ¬range.Contains a) : storeRanges flat ranges bytes a = flat a := by
  induction ranges generalizing flat bytes with
  | nil => rfl
  | cons range rest ih =>
      obtain ⟨first, others⟩ := List.forall_mem_cons.mp outside
      unfold DmaRange.Contains at first
      rw [storeRanges, ih others, Store.write_of_outside (by rw [List.length_take]; omega)]

end

def GuestMemory.scattered (guest : GuestMemory) (leases : List (List DmaPart)) (bytes : List UInt8) : GuestMemory :=
  { guest with host := scatter guest.host leases.flatten bytes }

/-- What a scatter write of `bytes` leaves in memory. -/
structure ScatterWritten (before after : GuestMemory) (ranges : List DmaRange) (bytes : List UInt8) : Prop where
  stored : loadRanges after.flat ranges = bytes ++ (loadRanges before.flat ranges).drop bytes.length
  outside : ∀ a, (∀ range ∈ ranges, ¬range.Contains a) → after.flat a = before.flat a

theorem DescriptorChain.sum_lengths (chain : DescriptorChain) :
    (chain.descriptors.map fun d => d.length.toNat).sum = (chain.ranges.map DmaRange.length).sum := by
  rw [ranges, List.map_map]
  rfl

theorem Console.writableCapacityFrom_eq {descriptors : List Descriptor} {total : Nat}
    (writable : ∀ d ∈ descriptors, d.writable = true)
    (fits : total + (descriptors.map fun d => d.length.toNat).sum < 2 ^ 64) :
    writableCapacityFrom descriptors total = .ok (total + (descriptors.map fun d => d.length.toNat).sum) := by
  induction descriptors generalizing total with
  | nil => rfl
  | cons descriptor rest ih =>
      obtain ⟨first, others⟩ := List.forall_mem_cons.mp writable
      rw [List.map_cons, List.sum_cons] at fits ⊢
      rw [writableCapacityFrom, if_neg (by simpa using first), checkedAdd, if_pos (by omega)]
      simp only
      rw [ih others (by omega), Nat.add_assoc]

theorem readDescriptors_leased {descriptors : List Descriptor} {leases : List (List DmaPart)} {guest : GuestMemory}
    (live : guest.leasesLeft = none) (leased : guest.memory.Leased (descriptors.map Descriptor.range) leases) :
    readDescriptors descriptors guest = (.ok (loadRanges guest.flat (descriptors.map Descriptor.range)), guest) := by
  induction descriptors generalizing leases with
  | nil => rfl
  | cons descriptor rest ih =>
      cases leased with
      | @cons _ parts _ others translated tail =>
          have given : lease descriptor.range guest = (.ok parts, guest) := by
            rw [GuestMemory.lease_live live, translated]
          rw [readDescriptors, Fallible.bind_of_ok given, Fallible.bind_of_ok (Fallible.read_apply guest),
            Fallible.bind_of_ok (ih tail), List.map_cons, loadRanges_cons, guest.read_of_translate translated]
          rfl

section
variable {guest : GuestMemory} {chain : DescriptorChain} {bytes : List UInt8} {leases : List (List DmaPart)}

theorem scattered_written (leased : guest.memory.Leased chain.ranges leases)
    (disjoint : chain.ranges.Pairwise DmaRange.Disjoint)
    (mapped : ∀ range ∈ chain.ranges, (Store.read guest.flat range.gpa range.length).isSome)
    (fits : bytes.length ≤ (chain.ranges.map DmaRange.length).sum) :
    ScatterWritten guest (guest.scattered leases bytes) chain.ranges bytes := by
  have flat : (guest.scattered leases bytes).flat = storeRanges guest.flat chain.ranges bytes :=
    leased.scatter guest.distinct guest.host bytes
  refine ⟨?_, fun a outside => by rw [flat, storeRanges_outside outside]⟩
  rw [flat, ← loadRanges_filled, ← storeRanges_filled, ← loadRanges_filled guest.flat]
  exact loadRanges_storeRanges (filled_apart disjoint) (fun range member => mapped range (mem_filled.mp member).1)
    (by rwa [sum_filled])

section
variable (live : guest.leasesLeft = none) (writable : ∀ d ∈ chain.descriptors, d.writable = true)
variable (leased : guest.memory.Leased chain.ranges leases)
variable (bounded : (chain.ranges.map DmaRange.length).sum < 2 ^ 64)
include live leased

theorem checked_copy (reason : String) :
    (if (chain.ranges.map DmaRange.length).sum < bytes.length then Fallible.fail (.descriptor reason)
      else copyDescriptors bytes chain.descriptors 0 : DmaM Unit) guest =
    if bytes.length ≤ (chain.ranges.map DmaRange.length).sum then (.ok (), guest.scattered leases bytes)
      else (.error (.descriptor reason), guest) := by
  rw [Fallible.ite_apply]
  by_cases fits : bytes.length ≤ (chain.ranges.map DmaRange.length).sum
  · rw [if_pos fits, if_neg (by omega), copyDescriptors_leased live leased (Nat.zero_le _), List.drop_zero]
    rfl
  · rw [if_neg fits, if_pos (by omega), Fallible.fail_apply]

include writable bounded

theorem Console.writeChain_eq : Console.writeChain chain bytes guest =
    if bytes.length ≤ (chain.ranges.map DmaRange.length).sum then (.ok (), guest.scattered leases bytes)
      else (.error (.descriptor "console receive chain is too short"), guest) := by
  have capacity := @writableCapacityFrom_eq chain.descriptors 0 writable (by rwa [chain.sum_lengths, Nat.zero_add])
  rw [chain.sum_lengths, Nat.zero_add] at capacity
  rw [writeChain, writableCapacity, capacity, Fallible.ofExcept_ok_bind]
  exact checked_copy live leased _

theorem Vsock.writePacket_eq : Vsock.writePacket chain bytes guest =
    if bytes.length ≤ (chain.ranges.map DmaRange.length).sum then (.ok (), guest.scattered leases bytes)
      else (.error (.descriptor "virtio-vsock RX chain is too short"), guest) := by
  have capacity := @capacityFrom_eq "vsock RX capacity overflows usize" chain.descriptors 0
    (by rwa [chain.sum_lengths, Nat.zero_add])
  rw [chain.sum_lengths, Nat.zero_add] at capacity
  rw [writePacket, if_neg (by simpa using writable), capacity, Fallible.ofExcept_ok_bind]
  exact checked_copy live leased _

omit writable

theorem Network.writeChain_eq : Network.writeChain chain bytes guest =
    if bytes.length ≤ (chain.ranges.map DmaRange.length).sum then (.ok (), guest.scattered leases bytes)
      else (.error (.descriptor "virtio-net RX chain is too short"), guest) := by
  have capacity := @capacityFrom_eq "virtio-net RX capacity overflows usize" chain.descriptors 0
    (by rwa [chain.sum_lengths, Nat.zero_add])
  rw [chain.sum_lengths, Nat.zero_add] at capacity
  rw [writeChain, capacity, Fallible.ofExcept_ok_bind]
  exact checked_copy live leased _

theorem Fs.writeReply_eq (small : bytes.length < 2 ^ 32) : Fs.writeReply chain.ranges bytes guest =
    if bytes.length ≤ (chain.ranges.map DmaRange.length).sum then
      (.ok (UInt32.ofNat bytes.length), guest.scattered leases bytes)
    else (.error (.descriptor "virtio-fs reply does not fit descriptors"), guest) := by
  by_cases fits : bytes.length ≤ (chain.ranges.map DmaRange.length).sum
  · rw [if_pos fits, writeReply_leased small live leased bounded fits]
    rfl
  · have nonempty : bytes ≠ [] := List.length_pos_iff.mp (by omega)
    rw [if_neg fits, writeReply, if_neg nonempty, replyCapacity_eq (by rwa [Nat.zero_add]), Nat.zero_add]
    simp only
    rw [if_pos (by omega), Fallible.fail_apply]

end

theorem ok_ite_iff {α : Type} {c : Prop} [Decidable c] {a : α} {e : DeviceError} {first second : GuestMemory} :
    (∃ result after, (if c then (Except.ok a, first) else (.error e, second)) = (Except.ok result, after)) ↔ c := by
  split
  · exact iff_of_true ⟨_, _, rfl⟩ ‹c›
  · exact iff_of_false (by simp) ‹¬c›

/-- All four loops succeed exactly when the bytes fit. Then they leave the same memory, in which the ranges hold the
bytes and nothing else has changed. -/
theorem scatter_writes_agree (guest : GuestMemory) (chain : DescriptorChain) (bytes : List UInt8)
    (live : guest.leasesLeft = none) (writable : ∀ d ∈ chain.descriptors, d.writable = true)
    (disjoint : chain.ranges.Pairwise DmaRange.Disjoint)
    (mapped : ∀ range ∈ chain.ranges, (Store.read guest.flat range.gpa range.length).isSome)
    (small : bytes.length < 2 ^ 32) :
    (((∃ result after, Console.writeChain chain bytes guest = (.ok result, after)) ↔
        bytes.length ≤ (chain.ranges.map DmaRange.length).sum) ∧
      ((∃ result after, Network.writeChain chain bytes guest = (.ok result, after)) ↔
        bytes.length ≤ (chain.ranges.map DmaRange.length).sum) ∧
      ((∃ result after, Vsock.writePacket chain bytes guest = (.ok result, after)) ↔
        bytes.length ≤ (chain.ranges.map DmaRange.length).sum) ∧
      ((∃ used after, Fs.writeReply chain.ranges bytes guest = (.ok used, after)) ↔
        bytes.length ≤ (chain.ranges.map DmaRange.length).sum)) ∧
    (bytes.length ≤ (chain.ranges.map DmaRange.length).sum → ∃ after used,
      Console.writeChain chain bytes guest = (.ok (), after) ∧
      Network.writeChain chain bytes guest = (.ok (), after) ∧
      Vsock.writePacket chain bytes guest = (.ok (), after) ∧
      Fs.writeReply chain.ranges bytes guest = (.ok used, after) ∧ used.toNat = bytes.length ∧
      ScatterWritten guest after chain.ranges bytes ∧
      -- The part loops of the three `read_chain`; the one of the console refuses writable chains first.
      ∀ other : DescriptorChain, other.ranges = chain.ranges → ∃ rest,
        readDescriptors other.descriptors after = (.ok (bytes ++ rest), after) ∧
        ((∀ d ∈ other.descriptors, d.writable = false) → Console.readChain other after = (.ok (bytes ++ rest), after))) := by
  have addresses : ∀ range ∈ chain.ranges, range.gpa < 2 ^ 64 :=
    List.forall_mem_map.mpr fun d _ => descriptor_address d
  obtain ⟨leases, leased⟩ := guest.leased_of_mapped addresses mapped
  have bounded : (chain.ranges.map DmaRange.length).sum < 2 ^ 64 := by
    rw [← sum_filled]
    refine @Fs.capacity_fits guest _ (filled_apart disjoint) fun range member => ?_
    exact ⟨(mem_filled.mp member).2, mapped range (mem_filled.mp member).1⟩
  rw [Console.writeChain_eq live writable leased bounded, Network.writeChain_eq live leased bounded,
    Vsock.writePacket_eq live writable leased bounded, Fs.writeReply_eq live leased bounded small]
  refine ⟨⟨ok_ite_iff, ok_ite_iff, ok_ite_iff, ok_ite_iff⟩, fun fits => ?_⟩
  have written := scattered_written leased disjoint mapped fits
  refine ⟨guest.scattered leases bytes, UInt32.ofNat bytes.length, if_pos fits, if_pos fits, if_pos fits, if_pos fits,
    by rw [UInt32.toNat_ofNat']; omega, written, ?_⟩
  intro other same
  have leased' : (guest.scattered leases bytes).memory.Leased other.ranges leases := same ▸ leased
  have read := @readDescriptors_leased other.descriptors leases (guest.scattered leases bytes) live leased'
  rw [show other.descriptors.map Descriptor.range = chain.ranges from same, written.stored] at read
  refine ⟨_, read, fun readable => ?_⟩
  rw [Console.readChain, if_neg (by simpa using readable), read]

end

-- Ten bytes over a range that crosses a segment border, an empty one inside it and a third one.
def scatterGuest : GuestMemory where
  memory := { segments := [⟨0, 0, 8⟩, ⟨8, 64, 32⟩], valid := ⟨by simp, by simp, by simp⟩ }
  distinct := by simp [DmaMemory.MapsDistinct, Store.Apart]
  host := fun _ => 0
  leasesLeft := none

def scatterChain : DescriptorChain :=
  ⟨0, [⟨4, 8, virtqDescFWrite, 0⟩, ⟨6, 0, virtqDescFWrite, 0⟩, ⟨20, 4, virtqDescFWrite, 0⟩]⟩

theorem scatter_writes_agree_fragmented : ∃ after,
    Console.writeChain scatterChain (List.replicate 10 7) scatterGuest = (.ok (), after) ∧
    Vsock.writePacket scatterChain (List.replicate 10 7) scatterGuest = (.ok (), after) ∧
    ScatterWritten scatterGuest after scatterChain.ranges (List.replicate 10 7) := by
  have disjoint : scatterChain.ranges.Pairwise DmaRange.Disjoint := by
    simp only [scatterChain, DescriptorChain.ranges, Descriptor.range, List.map_cons, List.map_nil, List.pairwise_cons,
      List.forall_mem_cons, DmaRange.Disjoint, DmaRange.Contains]
    simp
    omega
  obtain ⟨-, agree⟩ := scatter_writes_agree scatterGuest scatterChain (List.replicate 10 7) rfl (by decide) disjoint
    (by decide +kernel) (by decide)
  obtain ⟨after, used, console, -, vsock, -, -, written, -⟩ := agree (by decide)
  exact ⟨after, console, vsock, written⟩

end Libvirtio
