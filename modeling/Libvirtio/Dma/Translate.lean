import Libvirtio.Dma.Basic
import Mathlib.Data.List.Pairwise

namespace Libvirtio

theorem holds_iff {cursor : Nat} {segment : DmaSegment} :
    segment.holds cursor = true ↔ segment.gpa ≤ cursor ∧ cursor < segment.gpa + segment.length ∧
      segment.gpa + segment.length < 2 ^ 64 := by
  unfold DmaSegment.holds
  cases ends : segment.endAddress with
  | none =>
      have overflow : ¬segment.gpa + segment.length < 2 ^ 64 := fun fits => by
        rw [endAddress_eq_some.mpr ⟨rfl, fits⟩] at ends
        cases ends
      exact iff_of_false (by simp) fun bounds => overflow bounds.2.2
  | some stop =>
      obtain ⟨rfl, fits⟩ := endAddress_eq_some.mp ends
      simp only [Option.any_some, Bool.and_eq_true, decide_eq_true_eq, and_iff_left fits]

namespace DmaMemory
variable (memory : DmaMemory)

theorem segment_unique {s t : DmaSegment} (ms : s ∈ memory.segments) (mt : t ∈ memory.segments)
    {a : Nat} (hs : s.gpa ≤ a ∧ a < s.gpa + s.length) (ht : t.gpa ≤ a ∧ a < t.gpa + t.length) :
    s = t := by
  by_contra distinct
  let R : DmaSegment → DmaSegment → Prop := fun a b => a.gpa + a.length ≤ b.gpa ∨ b.gpa + b.length ≤ a.gpa
  have : Std.Symm R := ⟨fun _ _ => Or.symm⟩
  have pairwise : memory.segments.Pairwise R := memory.valid.ordered.imp Or.inl
  have apart : R s t := pairwise.forall ms mt distinct
  simp only [R] at apart
  omega

theorem hostAddress_of_mem {s : DmaSegment} (member : s ∈ memory.segments) {a : Nat}
    (low : s.gpa ≤ a) (high : a < s.gpa + s.length) :
    memory.hostAddress a = some (s.base + (a - s.gpa)) := by
  have holds : s.holds a = true := holds_iff.mpr ⟨low, high, (memory.valid.wellFormed s member).2⟩
  have found : (memory.segments.find? (DmaSegment.holds a)).isSome :=
    List.find?_isSome.mpr ⟨s, member, holds⟩
  obtain ⟨t, eq⟩ := Option.isSome_iff_exists.mp found
  obtain ⟨lowT, highT, -⟩ := holds_iff.mp (List.find?_some eq)
  have same := memory.segment_unique member (List.mem_of_find?_eq_some eq) ⟨low, high⟩ ⟨lowT, highT⟩
  simp [hostAddress, eq, same]

theorem mem_of_hostAddress {a : Nat} (mapped : (memory.hostAddress a).isSome) :
    ∃ s ∈ memory.segments, s.gpa ≤ a ∧ a < s.gpa + s.length := by
  unfold hostAddress at mapped
  rw [Option.isSome_map] at mapped
  obtain ⟨s, eq⟩ := Option.isSome_iff_exists.mp mapped
  obtain ⟨low, high, -⟩ := holds_iff.mp (List.find?_some eq)
  exact ⟨s, List.mem_of_find?_eq_some eq, low, high⟩

theorem hostAddress_injective (distinct : memory.MapsDistinct) : Store.Injective memory.hostAddress := by
  intro a b c ha hb
  obtain ⟨s, ms, lowS, highS⟩ := memory.mem_of_hostAddress (a := a) (by simp [ha])
  obtain ⟨t, mt, lowT, highT⟩ := memory.mem_of_hostAddress (a := b) (by simp [hb])
  rw [memory.hostAddress_of_mem ms lowS highS, Option.some.injEq] at ha
  rw [memory.hostAddress_of_mem mt lowT highT, Option.some.injEq] at hb
  by_cases same : s = t
  · subst same
    omega
  · let R : DmaSegment → DmaSegment → Prop := fun a b => Store.Apart a.base a.length b.base b.length
    have : Std.Symm R := ⟨fun _ _ => Or.symm⟩
    have apart : R s t := List.Pairwise.forall distinct ms mt same
    simp only [R, Store.Apart] at apart
    omega

def Covers : Nat → List DmaPart → Nat → Prop
  | a, [], b => a = b
  | a, part :: rest, b => part.gpa = a ∧ 0 < part.length ∧
      (∃ s ∈ memory.segments, s.gpa ≤ a ∧ a + part.length ≤ s.gpa + s.length ∧
        part.base = s.base + (a - s.gpa)) ∧ Covers (a + part.length) rest b

theorem translateFrom_cases (range : DmaRange) (stop fuel cursor : Nat) (le : cursor ≤ stop)
    (enough : stop ≤ cursor + fuel) :
    (∃ parts, translateFrom memory.segments range stop fuel cursor = .ok parts ∧
      memory.Covers cursor parts stop) ∨
    (translateFrom memory.segments range stop fuel cursor = .error (.dmaRange range.gpa range.length) ∧
      ∃ a, cursor ≤ a ∧ a < stop ∧ memory.hostAddress a = none) := by
  induction fuel generalizing cursor with
  | zero => exact Or.inl ⟨[], rfl, show cursor = stop by omega⟩
  | succ fuel ih =>
      unfold translateFrom
      by_cases more : cursor < stop
      · rw [if_pos more]
        cases found : memory.segments.find? (DmaSegment.holds cursor) with
        | none => exact Or.inr ⟨rfl, cursor, Nat.le_refl _, more, by simp [hostAddress, found]⟩
        | some segment =>
            obtain ⟨low, high, -⟩ := holds_iff.mp (List.find?_some found)
            have member := List.mem_of_find?_eq_some found
            rcases ih (min (segment.gpa + segment.length) stop) (by omega) (by omega) with
              ⟨parts, eq, covers⟩ | ⟨eq, a, lowA, highA, unmapped⟩
            · refine Or.inl ⟨_, by simp only [eq, Except.map]; rfl, ?_⟩
              have length : cursor + (min (segment.gpa + segment.length) stop - cursor) =
                  min (segment.gpa + segment.length) stop := by omega
              refine ⟨rfl, ?_, ⟨segment, member, low, ?_, rfl⟩, ?_⟩
              · simp only
                omega
              · simp only
                omega
              · simp only [length]
                exact covers
            · exact Or.inr ⟨by simp only [eq, Except.map], a, by omega, highA, unmapped⟩
      · rw [if_neg more]
        exact Or.inl ⟨[], rfl, show cursor = stop by omega⟩

theorem translate_cases (range : DmaRange) :
    (∃ parts, memory.translate range = .ok parts ∧
      memory.Covers range.gpa parts (range.gpa + range.length)) ∨
    (memory.translate range = .error (.dmaRange range.gpa range.length) ∧
      (2 ^ 64 ≤ range.gpa + range.length ∨
        ∃ a, range.gpa ≤ a ∧ a < range.gpa + range.length ∧ memory.hostAddress a = none)) := by
  unfold translate DmaRange.endAddress checkedAdd
  by_cases fits : range.gpa + range.length < 2 ^ 64
  · rw [if_pos fits]
    rcases memory.translateFrom_cases range (range.gpa + range.length) range.length range.gpa
      (by omega) (Nat.le_refl _) with ok | ⟨error, gap⟩
    · exact Or.inl ok
    · exact Or.inr ⟨error, Or.inr gap⟩
  · rw [if_neg fits]
    exact Or.inr ⟨rfl, Or.inl (by omega)⟩

theorem translate_covers {range : DmaRange} {parts : List DmaPart}
    (ok : memory.translate range = .ok parts) :
    memory.Covers range.gpa parts (range.gpa + range.length) := by
  rcases memory.translate_cases range with ⟨parts', eq, covers⟩ | ⟨eq, -⟩
  · rw [ok, Except.ok.injEq] at eq
    exact eq ▸ covers
  · rw [ok] at eq
    cases eq

theorem translate_fits {range : DmaRange} {parts : List DmaPart} (ok : memory.translate range = .ok parts) :
    range.gpa + range.length < 2 ^ 64 := by
  unfold translate DmaRange.endAddress checkedAdd at ok
  by_contra overflow
  rw [if_neg overflow] at ok
  cases ok

theorem Covers.le {memory : DmaMemory} {a b : Nat} {parts : List DmaPart}
    (covers : memory.Covers a parts b) : a ≤ b := by
  induction parts generalizing a with
  | nil => exact Nat.le_of_eq covers
  | cons part rest ih =>
      have := ih covers.2.2.2
      omega

theorem Covers.sum_length {memory : DmaMemory} {a b : Nat} {parts : List DmaPart}
    (covers : memory.Covers a parts b) : a + (parts.map DmaPart.length).sum = b := by
  induction parts generalizing a with
  | nil =>
      have : a = b := covers
      simp [this]
  | cons part rest ih =>
      have := ih covers.2.2.2
      simp only [List.map_cons, List.sum_cons]
      omega

theorem length_of_translate {range : DmaRange} {parts : List DmaPart} (ok : memory.translate range = .ok parts) :
    (parts.map DmaPart.length).sum = range.length := by
  have := (memory.translate_covers ok).sum_length
  omega

theorem Covers.located {memory : DmaMemory} {a b : Nat} {part : DmaPart} {rest : List DmaPart}
    (covers : memory.Covers a (part :: rest) b) :
    ∀ i < part.length, memory.hostAddress (a + i) = some (part.base + i) := by
  obtain ⟨-, -, ⟨s, member, low, high, base⟩, -⟩ := covers
  intro i bound
  rw [memory.hostAddress_of_mem member (by omega) (by omega), base]
  congr 1
  omega

theorem translate_of_mapped {gpa length : Nat} (positive : 0 < length)
    (mapped : ∀ a, gpa ≤ a → a < gpa + length → (memory.hostAddress a).isSome) :
    ∃ parts, memory.translate ⟨gpa, length⟩ = .ok parts := by
  rcases memory.translate_cases ⟨gpa, length⟩ with ⟨parts, eq, -⟩ | ⟨-, overflow | ⟨a, low, high, unmapped⟩⟩
  · exact ⟨parts, eq⟩
  · obtain ⟨s, member, low, high⟩ := memory.mem_of_hostAddress
      (mapped (gpa + length - 1) (by omega) (by omega))
    have := (memory.valid.wellFormed s member).2
    simp only at overflow
    omega
  · have := mapped a low high
    rw [unmapped] at this
    cases this

end DmaMemory

namespace DmaMemory.Covers
variable {memory : DmaMemory} {a b : Nat} {parts : List DmaPart}

theorem read_gather (covers : memory.Covers a parts b) (host : Nat → UInt8) :
    Store.read (Store.view memory.hostAddress host) a (b - a) = some (gather host parts) := by
  induction parts generalizing a with
  | nil =>
      have : a = b := covers
      simp [this, gather]
  | cons part rest ih =>
      have tail := ih covers.2.2.2
      have le := le covers.2.2.2
      rw [show b - a = part.length + (b - (a + part.length)) by omega, Store.read_add,
        Store.read_view host covers.located, tail]
      simp [gather, DmaPart.readSlice]

theorem view_scatter (covers : memory.Covers a parts b) (distinct : memory.MapsDistinct)
    (host : Nat → UInt8) (bytes : List UInt8) (fits : bytes.length ≤ b - a) :
    Store.view memory.hostAddress (scatter host parts bytes) =
      Store.write (Store.view memory.hostAddress host) a bytes := by
  induction parts generalizing a host bytes with
  | nil =>
      have : a = b := covers
      obtain rfl : bytes = [] := List.eq_nil_of_length_eq_zero (by omega)
      simp [scatter]
  | cons part rest ih =>
      have injective := memory.hostAddress_injective distinct
      have first : Store.view memory.hostAddress (Store.save host part.base (bytes.take part.length)) =
          Store.write (Store.view memory.hostAddress host) a (bytes.take part.length) := by
        apply Store.view_save injective
        intro i bound
        exact covers.located i (by rw [List.length_take] at bound; omega)
      have le := le covers.2.2.2
      have split := Store.write_append (Store.view memory.hostAddress host) a
        (bytes.take part.length) (bytes.drop part.length)
      rw [List.take_append_drop] at split
      rw [scatter, ih covers.2.2.2 _ _ (by rw [List.length_drop]; omega), first, split]
      by_cases short : bytes.length ≤ part.length
      · rw [List.drop_eq_nil_of_le short, Store.write_nil, Store.write_nil]
      · rw [List.length_take, Nat.min_eq_left (by omega)]

end DmaMemory.Covers

theorem length_gather (host : Nat → UInt8) (parts : List DmaPart) :
    (gather host parts).length = (parts.map DmaPart.length).sum := by
  induction parts with
  | nil => rfl
  | cons part rest ih => simp_all [gather, DmaPart.readSlice]

theorem scatter_append (host : Nat → UInt8) (parts rest : List DmaPart) (bytes : List UInt8) :
    scatter host (parts ++ rest) bytes =
      scatter (scatter host parts (bytes.take (parts.map DmaPart.length).sum)) rest
        (bytes.drop (parts.map DmaPart.length).sum) := by
  induction parts generalizing host bytes with
  | nil => simp [scatter]
  | cons part others ih =>
      rw [List.cons_append, scatter, ih, scatter, List.map_cons, List.sum_cons, List.drop_drop, List.take_take,
        Nat.min_eq_left (Nat.le_add_right _ _), List.drop_take, Nat.add_sub_cancel_left]

theorem scatter_nil (host : Nat → UInt8) (parts : List DmaPart) : scatter host parts [] = host := by
  induction parts with
  | nil => rfl
  | cons part rest ih => rw [scatter, List.take_nil, List.drop_nil, Store.save_nil, ih]

theorem scatter_take (host : Nat → UInt8) (parts : List DmaPart) (bytes : List UInt8) :
    scatter host parts (bytes.take (parts.map DmaPart.length).sum) = scatter host parts bytes := by
  have joined := scatter_append host parts [] bytes
  rw [List.append_nil] at joined
  exact joined.symm

def loadRanges (memory : Nat → Option UInt8) (ranges : List DmaRange) : List UInt8 :=
  ranges.flatMap fun range => (Store.read memory range.gpa range.length).getD []

def storeRanges (memory : Nat → Option UInt8) : List DmaRange → List UInt8 → Nat → Option UInt8
  | [], _ => memory
  | range :: rest, bytes =>
      storeRanges (Store.write memory range.gpa (bytes.take range.length)) rest (bytes.drop range.length)

def DmaRange.Apart (range other : DmaRange) : Prop := Store.Apart range.gpa range.length other.gpa other.length

instance (range other : DmaRange) : Decidable (range.Apart other) := inferInstanceAs (Decidable (Store.Apart ..))

section
variable {memory : Nat → Option UInt8} {ranges : List DmaRange}

theorem storeRanges_frame {bytes : List UInt8} {a n : Nat}
    (apart : ∀ range ∈ ranges, Store.Apart a n range.gpa range.length) :
    Store.read (storeRanges memory ranges bytes) a n = Store.read memory a n := by
  induction ranges generalizing memory bytes with
  | nil => rfl
  | cons range rest ih =>
      obtain ⟨first, others⟩ := List.forall_mem_cons.mp apart
      rw [storeRanges, ih others, Store.read_write_of_apart]
      unfold Store.Apart at first ⊢
      rw [List.length_take]
      omega

theorem loadRanges_cons (memory : Nat → Option UInt8) (range : DmaRange) (rest : List DmaRange) :
    loadRanges memory (range :: rest) =
      (Store.read memory range.gpa range.length).getD [] ++ loadRanges memory rest := rfl

theorem loadRanges_congr {other : Nat → Option UInt8}
    (same : ∀ range ∈ ranges, Store.read other range.gpa range.length = Store.read memory range.gpa range.length) :
    loadRanges other ranges = loadRanges memory ranges :=
  List.flatMap_congr fun range member => by rw [same range member]

theorem loadRanges_storeRanges {bytes : List UInt8} (disjoint : ranges.Pairwise DmaRange.Apart)
    (mapped : ∀ range ∈ ranges, (Store.read memory range.gpa range.length).isSome)
    (fits : bytes.length ≤ (ranges.map DmaRange.length).sum) :
    loadRanges (storeRanges memory ranges bytes) ranges = bytes ++ (loadRanges memory ranges).drop bytes.length := by
  induction ranges generalizing memory bytes with
  | nil =>
      obtain rfl : bytes = [] := List.eq_nil_of_length_eq_zero (by simpa using fits)
      rfl
  | cons range rest ih =>
      obtain ⟨first, others⟩ := List.pairwise_cons.mp disjoint
      obtain ⟨headMapped, restMapped⟩ := List.forall_mem_cons.mp mapped
      obtain ⟨old, read⟩ := Option.isSome_iff_exists.mp headMapped
      have oldLength := Store.length_of_read read
      rw [List.map_cons, List.sum_cons] at fits
      let written := Store.write memory range.gpa (bytes.take range.length)
      have tail : loadRanges (storeRanges written rest (bytes.drop range.length)) rest =
          bytes.drop range.length ++ (loadRanges memory rest).drop (bytes.length - range.length) := by
        rw [ih others (fun r member => by rw [Store.read_write_isSome]; exact restMapped r member)
          (by rw [List.length_drop]; omega), List.length_drop]
        congr 2
        refine loadRanges_congr fun r member => Store.read_write_of_apart ?_
        have separate := first r member
        unfold DmaRange.Apart Store.Apart at separate
        unfold Store.Apart
        rw [List.length_take]
        omega
      have head : Store.read (storeRanges written rest (bytes.drop range.length)) range.gpa range.length =
          some (bytes.take range.length ++ old.drop bytes.length) := by
        rw [storeRanges_frame first, Store.read_write_prefix read (by rw [List.length_take]; omega),
          List.length_take]
        by_cases short : bytes.length ≤ range.length
        · rw [Nat.min_eq_right short]
        · rw [Nat.min_eq_left (by omega), List.drop_eq_nil_of_le (by omega), List.drop_eq_nil_of_le (by omega)]
      rw [storeRanges, loadRanges_cons, loadRanges_cons, head, tail, read, Option.getD_some, Option.getD_some,
        List.drop_append, oldLength]
      by_cases short : bytes.length ≤ range.length
      · rw [List.drop_eq_nil_of_le short, List.take_of_length_le short, List.nil_append, List.append_assoc]
      · rw [List.drop_eq_nil_of_le (show old.length ≤ bytes.length by omega), List.append_nil, List.nil_append,
          ← List.append_assoc, List.take_append_drop]

end

def DmaMemory.Leased (memory : DmaMemory) (ranges : List DmaRange) (leases : List (List DmaPart)) : Prop :=
  List.Forall₂ (fun range parts => memory.translate range = .ok parts) ranges leases

namespace DmaMemory.Leased
variable {memory : DmaMemory} {ranges : List DmaRange} {leases : List (List DmaPart)}

theorem sum_length (leased : memory.Leased ranges leases) :
    (leases.flatten.map DmaPart.length).sum = (ranges.map DmaRange.length).sum := by
  induction leased with
  | nil => rfl
  | cons translated _ ih =>
      rw [List.flatten_cons, List.map_append, List.sum_append, ih, List.map_cons, List.sum_cons,
        memory.length_of_translate translated]

theorem gather (leased : memory.Leased ranges leases) (host : Nat → UInt8) :
    Libvirtio.gather host leases.flatten = loadRanges (Store.view memory.hostAddress host) ranges := by
  induction leased with
  | nil => rfl
  | @cons range parts _ _ translated _ ih =>
      have read := (memory.translate_covers translated).read_gather host
      rw [Nat.add_sub_cancel_left] at read
      rw [List.flatten_cons, Libvirtio.gather, List.flatMap_append, loadRanges_cons, read, Option.getD_some]
      exact congrArg _ ih

theorem scatter (leased : memory.Leased ranges leases) (distinct : memory.MapsDistinct) (host : Nat → UInt8)
    (bytes : List UInt8) :
    Store.view memory.hostAddress (Libvirtio.scatter host leases.flatten bytes) =
      storeRanges (Store.view memory.hostAddress host) ranges bytes := by
  induction leased generalizing host bytes with
  | nil => rfl
  | @cons range parts _ _ translated _ ih =>
      have covers := memory.translate_covers translated
      have length := memory.length_of_translate translated
      have first := covers.view_scatter distinct host (bytes.take range.length)
        (by rw [List.length_take]; omega)
      rw [List.flatten_cons, scatter_append, length, ih, first, storeRanges]

end DmaMemory.Leased

namespace GuestMemory
variable {guest : GuestMemory} {range : DmaRange} {parts : List DmaPart}

theorem read_of_translate (ok : guest.memory.translate range = .ok parts) :
    Store.read guest.flat range.gpa range.length = some (gather guest.host parts) := by
  have read := (guest.memory.translate_covers ok).read_gather guest.host
  rwa [Nat.add_sub_cancel_left] at read

theorem flat_scatter (ok : guest.memory.translate range = .ok parts) {bytes : List UInt8}
    (fits : bytes.length ≤ range.length) :
    flat { guest with host := scatter guest.host parts bytes } =
      Store.write guest.flat range.gpa bytes :=
  (guest.memory.translate_covers ok).view_scatter guest.distinct guest.host bytes (by omega)

theorem translate_of_read {gpa length : Nat} (positive : 0 < length)
    (mapped : (Store.read guest.flat gpa length).isSome) :
    ∃ parts, guest.memory.translate ⟨gpa, length⟩ = .ok parts := by
  apply guest.memory.translate_of_mapped positive
  intro a low high
  have cell := Store.read_isSome_iff.mp mapped (a - gpa) (by omega)
  rwa [show gpa + (a - gpa) = a by omega, flat, Store.view_isSome] at cell

theorem address_lt {a : Nat} (mapped : (guest.flat a).isSome) : a + 1 < 2 ^ 64 := by
  rw [flat, Store.view_isSome] at mapped
  obtain ⟨segment, member, -, high⟩ := guest.memory.mem_of_hostAddress mapped
  have fits := (guest.memory.valid.wellFormed segment member).2
  omega

theorem fits_of_read {a n : Nat} (positive : 0 < n) (mapped : (Store.read guest.flat a n).isSome) : a + n < 2 ^ 64 := by
  have := guest.address_lt (Store.read_isSome_iff.mp mapped (n - 1) (by omega))
  omega

theorem translate_of_some {bytes : List UInt8} (address : range.gpa < 2 ^ 64)
    (read : Store.read guest.flat range.gpa range.length = some bytes) :
    ∃ parts, guest.memory.translate range = .ok parts ∧ gather guest.host parts = bytes := by
  have mapped := Store.read_isSome_iff.mp (Option.isSome_of_eq_some read)
  rcases guest.memory.translate_cases range with ⟨parts, ok, -⟩ | ⟨-, overflow | ⟨a, low, high, unmapped⟩⟩
  · exact ⟨parts, ok, Option.some.inj ((guest.read_of_translate ok).symm.trans read)⟩
  · have := guest.address_lt (mapped (range.length - 1) (by omega))
    omega
  · have cell := mapped (a - range.gpa) (by omega)
    rw [show range.gpa + (a - range.gpa) = a by omega, flat, Store.view_isSome, unmapped] at cell
    cases cell

theorem leased_of_mapped {ranges : List DmaRange} (addresses : ∀ range ∈ ranges, range.gpa < 2 ^ 64)
    (mapped : ∀ range ∈ ranges, (Store.read guest.flat range.gpa range.length).isSome) :
    ∃ leases, guest.memory.Leased ranges leases := by
  induction ranges with
  | nil => exact ⟨[], .nil⟩
  | cons range rest ih =>
      rw [List.forall_mem_cons] at addresses mapped
      obtain ⟨bytes, read⟩ := Option.isSome_iff_exists.mp mapped.1
      obtain ⟨parts, translated, -⟩ := guest.translate_of_some addresses.1 read
      obtain ⟨leases, leased⟩ := ih addresses.2 mapped.2
      exact ⟨parts :: leases, .cons translated leased⟩

theorem lease_live (live : guest.leasesLeft = none) (range : DmaRange) :
    lease range guest = (guest.memory.translate range, guest) := by
  simp [lease, live]

end GuestMemory

/-- The memory after a lease, one step closer to its revocation. -/
def GuestMemory.spent (guest : GuestMemory) : GuestMemory :=
  { guest with leasesLeft := guest.leasesLeft.map (· - 1) }

/-- The memory is not revoked before it has granted `count` leases. -/
def GuestMemory.Grants (guest : GuestMemory) (count : Nat) : Prop := ∀ n, guest.leasesLeft = some n → count ≤ n

theorem GuestMemory.grants_zero (guest : GuestMemory) : guest.Grants 0 := fun _ _ => Nat.zero_le _

theorem GuestMemory.grants_succ {guest : GuestMemory} {count : Nat} :
    guest.Grants (count + 1) ↔ guest.leasesLeft ≠ some 0 ∧ guest.spent.Grants count := by
  unfold Grants spent
  cases left : guest.leasesLeft with
  | none => simp
  | some n =>
      simp only [Option.some.injEq, forall_eq', Option.map_some, ne_eq]
      omega

theorem GuestMemory.lease_granted {guest : GuestMemory} (granted : guest.leasesLeft ≠ some 0) (range : DmaRange) :
    lease range guest = (guest.memory.translate range, guest.spent) := by
  unfold spent
  cases left : guest.leasesLeft with
  | none => rw [lease_live left, Option.map_none, ← left]
  | some n =>
      obtain ⟨n, rfl⟩ := Nat.exists_eq_succ_of_ne_zero (show n ≠ 0 from fun zero => granted (zero ▸ left))
      simp [lease, left]

theorem GuestMemory.lease_revoked {guest : GuestMemory} (left : guest.leasesLeft = some 0) (range : DmaRange) :
    lease range guest = (.error (.down .revoked), guest) := by
  simp [lease, left]

theorem GuestMemory.lease_ok_iff {guest after : GuestMemory} {range : DmaRange} {parts : List DmaPart} :
    lease range guest = (.ok parts, after) ↔
      guest.leasesLeft ≠ some 0 ∧ guest.memory.translate range = .ok parts ∧ guest.spent = after := by
  by_cases left : guest.leasesLeft = some 0
  · simp [lease_revoked left, left]
  · simp [lease_granted left, left]

/-- Device code that only reads keeps the memory; it may use up leases of memory that is being revoked. -/
structure GuestMemory.Kept (guest after : GuestMemory) : Prop where
  memory : after.memory = guest.memory
  host : after.host = guest.host
  live : guest.leasesLeft = none → after = guest

theorem GuestMemory.Kept.refl (guest : GuestMemory) : guest.Kept guest := ⟨rfl, rfl, fun _ => rfl⟩

theorem GuestMemory.Kept.trans {first second third : GuestMemory} (left : first.Kept second)
    (right : second.Kept third) : first.Kept third where
  memory := right.memory.trans left.memory
  host := right.host.trans left.host
  live := fun live => by
    obtain rfl := left.live live
    exact right.live live

theorem lease_eq_ok {range : DmaRange} {parts : List DmaPart} {guest after : GuestMemory}
    (run : lease range guest = (.ok parts, after)) :
    guest.memory.translate range = .ok parts ∧ guest.Kept after := by
  unfold lease at run
  split at run
  · obtain ⟨translated, rfl⟩ := Prod.mk.inj run
    exact ⟨translated, .refl guest⟩
  · cases (Prod.mk.inj run).1
  · rename_i left
    obtain ⟨translated, rfl⟩ := Prod.mk.inj run
    refine ⟨translated, rfl, rfl, fun live => ?_⟩
    rw [left] at live
    cases live

theorem checkRange_eq_ok {range : DmaRange} {guest after : GuestMemory} :
    checkRange range guest = (.ok (), after) ↔ guest.memory.checkRange range = .ok () ∧ guest = after := by
  rw [checkRange, Prod.mk.injEq]

end Libvirtio
