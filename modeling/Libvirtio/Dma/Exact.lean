import Libvirtio.Dma.Construction
import Libvirtio.Dma.Translate

namespace Libvirtio

theorem rangeEnd_eq_some {range : DmaRange} {stop : Nat} :
    range.endAddress = some stop ↔ stop = range.gpa + range.length ∧ stop < 2 ^ 64 :=
  @endAddress_eq_some ⟨range.gpa, 0, range.length⟩ stop

namespace DmaMemory
variable (memory : DmaMemory)

/-- The `while` loop of `DmaMemory::translate` without a bound on its iterations. -/
inductive TranslateLoop (range : DmaRange) (stop : Nat) : Nat → Except DeviceError (List DmaPart) → Prop where
  | done {cursor : Nat} : stop ≤ cursor → TranslateLoop range stop cursor (.ok [])
  | gap {cursor : Nat} : cursor < stop → memory.segments.find? (DmaSegment.holds cursor) = none →
      TranslateLoop range stop cursor (.error (.dmaRange range.gpa range.length))
  | part {cursor segmentEnd : Nat} {segment : DmaSegment} {result : Except DeviceError (List DmaPart)} :
      cursor < stop → memory.segments.find? (DmaSegment.holds cursor) = some segment →
      segment.endAddress = some segmentEnd → TranslateLoop range stop (min segmentEnd stop) result →
      TranslateLoop range stop cursor (result.map
        ({ gpa := cursor, base := segment.base + (cursor - segment.gpa),
           length := min segmentEnd stop - cursor } :: ·))

inductive Translation (range : DmaRange) : Except DeviceError (List DmaPart) → Prop where
  | overflow : range.endAddress = none → Translation range (.error (.dmaRange range.gpa range.length))
  | loop {stop : Nat} {result : Except DeviceError (List DmaPart)} : range.endAddress = some stop →
      memory.TranslateLoop range stop range.gpa result → Translation range result

/-- What `translate` promises about the parts of a range. -/
structure PartsOf (range : DmaRange) (parts : List DmaPart) : Prop where
  nonempty : ∀ part ∈ parts, 0 < part.length
  first : parts.head?.map DmaPart.gpa = some range.gpa
  adjacent : parts.IsChain fun part next => next.gpa = part.gpa + part.length
  total : (parts.map DmaPart.length).sum = range.length
  located : ∀ part ∈ parts, ∃ s ∈ memory.segments, s.gpa ≤ part.gpa ∧
    part.gpa + part.length ≤ s.gpa + s.length ∧ part.base = s.base + (part.gpa - s.gpa)

section
variable {memory : DmaMemory} {range : DmaRange}

theorem translateFrom_loop {stop fuel cursor : Nat} (enough : stop ≤ cursor + fuel) :
    memory.TranslateLoop range stop cursor (translateFrom memory.segments range stop fuel cursor) := by
  induction fuel generalizing cursor with
  | zero => exact .done enough
  | succ fuel ih =>
      unfold translateFrom
      by_cases more : cursor < stop
      · rw [if_pos more]
        cases found : memory.segments.find? (DmaSegment.holds cursor) with
        | none => exact .gap more found
        | some segment =>
            obtain ⟨low, high, fits⟩ := holds_iff.mp (List.find?_some found)
            exact .part more found (endAddress_eq_some.mpr ⟨rfl, fits⟩) (ih (by omega))
      · rw [if_neg more]
        exact .done (by omega)

theorem TranslateLoop.result {stop cursor : Nat} {result : Except DeviceError (List DmaPart)}
    (loop : memory.TranslateLoop range stop cursor result) {fuel : Nat} (enough : stop ≤ cursor + fuel) :
    translateFrom memory.segments range stop fuel cursor = result := by
  induction loop generalizing fuel with
  | done ended =>
      cases fuel with
      | zero => rfl
      | succ fuel => rw [translateFrom, if_neg (by omega)]
  | gap more missing =>
      obtain ⟨fuel, rfl⟩ := Nat.exists_eq_succ_of_ne_zero (show fuel ≠ 0 by omega)
      rw [translateFrom, if_pos more, missing]
  | part more found ends _ ih =>
      obtain ⟨fuel, rfl⟩ := Nat.exists_eq_succ_of_ne_zero (show fuel ≠ 0 by omega)
      obtain ⟨rfl, -⟩ := endAddress_eq_some.mp ends
      obtain ⟨-, high, -⟩ := holds_iff.mp (List.find?_some found)
      rw [translateFrom, if_pos more, found]
      simp only [ih (show stop ≤ min _ stop + fuel by omega)]

theorem translation_iff {result : Except DeviceError (List DmaPart)} :
    memory.Translation range result ↔ memory.translate range = result := by
  unfold translate
  constructor
  · intro translation
    cases translation with
    | overflow overflows => rw [overflows]
    | loop ends run =>
        obtain ⟨rfl, -⟩ := rangeEnd_eq_some.mp ends
        rw [ends]
        exact run.result (Nat.le_refl _)
  · rintro rfl
    cases ends : range.endAddress with
    | none => exact .overflow ends
    | some stop =>
        obtain ⟨rfl, -⟩ := rangeEnd_eq_some.mp ends
        exact .loop ends (translateFrom_loop (Nat.le_refl _))

theorem hostAddress_isSome_iff {a : Nat} :
    (memory.hostAddress a).isSome ↔ ∃ s ∈ memory.segments, s.Contains a := by
  constructor
  · exact memory.mem_of_hostAddress
  · rintro ⟨s, member, low, high⟩
    rw [memory.hostAddress_of_mem member low high]
    rfl

theorem Covers.mapped {a b : Nat} {parts : List DmaPart} (covers : memory.Covers a parts b) {address : Nat}
    (low : a ≤ address) (high : address < b) : (memory.hostAddress address).isSome := by
  induction parts generalizing a with
  | nil =>
      have : a = b := covers
      omega
  | cons part rest ih =>
      by_cases inside : address < a + part.length
      · have located := covers.located (address - a) (by omega)
        rw [show a + (address - a) = address by omega] at located
        rw [located]
        rfl
      · exact ih covers.2.2.2 (by omega)

theorem Covers.partsOf {a b : Nat} {parts : List DmaPart} (covers : memory.Covers a parts b) (positive : a < b) :
    memory.PartsOf ⟨a, b - a⟩ parts := by
  induction parts generalizing a with
  | nil =>
      have : a = b := covers
      omega
  | cons part rest ih =>
      obtain ⟨start, nonempty, segment, tail⟩ := covers
      obtain rfl := start
      have total := Covers.sum_length tail
      cases rest with
      | nil =>
          simp only [List.map_nil, List.sum_nil, Nat.add_zero] at total
          exact ⟨by simpa using nonempty, rfl, List.IsChain.singleton _, by simp; omega, by simpa using segment⟩
      | cons next others =>
          have longer : part.gpa + part.length < b := by
            have := tail.2.2.2.le
            have := tail.2.1
            omega
          have rested := ih tail longer
          refine ⟨?_, rfl, List.isChain_cons_cons.mpr ⟨tail.1, rested.adjacent⟩, ?_, ?_⟩
          · exact List.forall_mem_cons.mpr ⟨nonempty, rested.nonempty⟩
          · rw [List.map_cons, List.sum_cons]
            simp only
            omega
          · exact List.forall_mem_cons.mpr ⟨segment, rested.located⟩

theorem translate_ok_iff (positive : 0 < range.length) :
    (∃ parts, memory.translate range = .ok parts) ↔
      ∀ a, range.gpa ≤ a → a < range.gpa + range.length → ∃ s ∈ memory.segments, s.Contains a := by
  constructor
  · rintro ⟨parts, ok⟩ a low high
    exact hostAddress_isSome_iff.mp ((memory.translate_covers ok).mapped low high)
  · intro mapped
    exact memory.translate_of_mapped positive fun a low high => hostAddress_isSome_iff.mpr (mapped a low high)

theorem translate_inner {inner : DmaRange} (low : range.gpa ≤ inner.gpa)
    (high : inner.gpa + inner.length ≤ range.gpa + range.length) {parts : List DmaPart}
    (ok : memory.translate range = .ok parts) : ∃ innerParts, memory.translate inner = .ok innerParts := by
  have covers := memory.translate_covers ok
  have fits := memory.translate_fits ok
  rcases memory.translate_cases inner with ⟨innerParts, eq, -⟩ | ⟨-, overflow | ⟨a, lowA, highA, unmapped⟩⟩
  · exact ⟨innerParts, eq⟩
  · omega
  · have mapped := covers.mapped (show range.gpa ≤ a by omega) (show a < range.gpa + range.length by omega)
    rw [unmapped] at mapped
    cases mapped

end

/-- The loop ends with one result. It succeeds on the mapped ranges, the parts tile the range in order, and whatever
lies inside a range that translates also translates. -/
theorem translate_exact (range : DmaRange) (positive : 0 < range.length) :
    (∃ result, memory.Translation range result) ∧
    (∀ result, memory.Translation range result ↔ memory.translate range = result) ∧
    ((∃ parts, memory.translate range = .ok parts) ↔
      ∀ a, range.gpa ≤ a → a < range.gpa + range.length → ∃ s ∈ memory.segments, s.Contains a) ∧
    ∀ parts, memory.translate range = .ok parts →
      memory.PartsOf range parts ∧
      ∀ inner : DmaRange, range.gpa ≤ inner.gpa → inner.gpa + inner.length ≤ range.gpa + range.length →
        ∃ innerParts, memory.translate inner = .ok innerParts := by
  refine ⟨⟨_, translation_iff.mpr rfl⟩, fun _ => translation_iff, translate_ok_iff positive, ?_⟩
  intro parts ok
  refine ⟨?_, fun inner low high => translate_inner low high ok⟩
  have parted := (memory.translate_covers ok).partsOf (by omega)
  rwa [Nat.add_sub_cancel_left] at parted

/-- Two segments that meet at `0x1004` in the guest and lie apart in the host. -/
def adjacent : DmaMemory where
  segments := [⟨0x1000, 64, 4⟩, ⟨0x1004, 16, 8⟩]
  valid := ⟨by simp, by simp, by simp⟩

theorem translate_exact_adjacent :
    ∃ parts, adjacent.translate ⟨0x1002, 4⟩ = .ok parts ∧ adjacent.PartsOf ⟨0x1002, 4⟩ parts ∧
      ∃ innerParts, adjacent.translate ⟨0x1003, 2⟩ = .ok innerParts := by
  obtain ⟨-, -, -, tiles⟩ := adjacent.translate_exact ⟨0x1002, 4⟩ (by decide)
  obtain ⟨parted, inner⟩ := tiles [⟨0x1002, 66, 2⟩, ⟨0x1004, 16, 2⟩] (by decide +kernel)
  exact ⟨_, by decide +kernel, parted, inner ⟨0x1003, 2⟩ (by decide) (by decide)⟩

end DmaMemory

end Libvirtio
