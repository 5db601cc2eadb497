import Libvirtio.Dma.Basic
import Mathlib.Data.List.Pairwise
import Mathlib.Data.List.Perm.Basic
import Mathlib.Data.List.Sort

namespace Libvirtio

def DmaSegment.Contains (segment : DmaSegment) (a : Nat) : Prop :=
  segment.gpa ≤ a ∧ a < segment.gpa + segment.length

def DmaSegment.Disjoint (first second : DmaSegment) : Prop := ∀ a, ¬(first.Contains a ∧ second.Contains a)

structure Admissible (segments : List DmaSegment) : Prop where
  nonempty : segments ≠ []
  wellFormed : ∀ s ∈ segments, 0 < s.length ∧ s.gpa + s.length ≤ 2 ^ 64 - 1
  disjoint : segments.Pairwise DmaSegment.Disjoint

theorem DmaSegment.Disjoint.symm {first second : DmaSegment} (disjoint : first.Disjoint second) :
    second.Disjoint first :=
  fun a both => disjoint a both.symm

theorem disjoint_of_le {first second : DmaSegment} (le : first.gpa + first.length ≤ second.gpa) :
    first.Disjoint second := by
  rintro a ⟨⟨-, high⟩, low, -⟩
  omega

theorem le_of_disjoint {first second : DmaSegment} (sorted : first.gpa ≤ second.gpa) (positive : 0 < second.length)
    (disjoint : first.Disjoint second) : first.gpa + first.length ≤ second.gpa := by
  by_contra overlap
  exact disjoint second.gpa ⟨⟨sorted, by omega⟩, Nat.le_refl _, by omega⟩

theorem Admissible.perm {segments other : List DmaSegment} (perm : segments.Perm other)
    (admissible : Admissible segments) : Admissible other where
  nonempty empty := admissible.nonempty (List.perm_nil.mp (empty ▸ perm))
  wellFormed s member := admissible.wellFormed s (perm.mem_iff.mpr member)
  disjoint := (perm.pairwise_iff fun disjoint => disjoint.symm).mp admissible.disjoint

theorem checkSegments_never_panics {previous : Option DmaSegment} {segments : List DmaSegment}
    (checked : ∀ p, previous = some p → p.endAddress ≠ none) (message : String) :
    checkSegments previous segments ≠ .error (.panic message) := by
  induction segments generalizing previous with
  | nil => exact fun same => by cases same
  | cons segment rest ih =>
      unfold checkSegments
      split
      · exact fun same => by cases same
      · rename_i sound
        have next : ∀ p, some segment = some p → p.endAddress ≠ none := by
          rintro p ⟨⟩
          exact (not_or.mp sound).2
        cases previous with
        | none => exact ih next
        | some before =>
            -- The scan has looked at the predecessor's end when it comes to its successor.
            obtain ⟨stop, ends⟩ := Option.ne_none_iff_exists'.mp (checked before rfl)
            simp only [ends]
            split
            · exact fun same => by cases same
            · exact ih next

theorem checkSegments_of_ordered {previous : Option DmaSegment} {segments : List DmaSegment}
    (wellFormed : ∀ s ∈ segments, 0 < s.length ∧ s.gpa + s.length < 2 ^ 64)
    (after : ∀ p, previous = some p → p.gpa + p.length < 2 ^ 64 ∧ ∀ s ∈ segments, p.gpa + p.length ≤ s.gpa)
    (ordered : segments.Pairwise fun a b => a.gpa + a.length ≤ b.gpa) : checkSegments previous segments = .ok () := by
  induction segments generalizing previous with
  | nil => rfl
  | cons segment rest ih =>
      obtain ⟨⟨positive, fits⟩, others⟩ := List.forall_mem_cons.mp wellFormed
      obtain ⟨first, tail⟩ := List.pairwise_cons.mp ordered
      have ends := endAddress_eq_some.mpr ⟨rfl, fits⟩
      have rested : checkSegments (some segment) rest = .ok () := by
        refine ih others ?_ tail
        rintro p ⟨⟩
        exact ⟨fits, first⟩
      have sound : ¬(segment.length = 0 ∨ segment.endAddress = none) := by
        rw [ends]
        simp only [reduceCtorEq, or_false]
        omega
      unfold checkSegments
      rw [if_neg sound]
      cases previous with
      | none => exact rested
      | some before =>
          obtain ⟨beforeFits, beforeAll⟩ := after before rfl
          have gap := beforeAll segment List.mem_cons_self
          simp only [endAddress_eq_some.mpr ⟨rfl, beforeFits⟩]
          rw [if_neg (by omega)]
          exact rested

namespace DmaMemory
variable {order : UnstableSort} {segments : List DmaSegment}

theorem new_eq_ok {memory : DmaMemory} (made : new order segments = .ok memory) :
    memory.segments = order.sort segments := by
  unfold new at made
  split at made
  · cases made
  · split at made
    · cases made
    · cases made
      rfl

theorem new_accepts (nonempty : segments ≠ []) (checked : checkSegments none (order.sort segments) = .ok ()) :
    ∃ memory, new order segments = .ok memory := by
  unfold new
  rw [dif_neg nonempty]
  split
  · rename_i fault refused
    cases checked.symm.trans refused
  · exact ⟨_, rfl⟩

theorem new_never_panics (message : String) : new order segments ≠ .error (.panic message) := by
  unfold new
  split
  · exact fun same => by cases same
  · split
    · rename_i fault refused
      intro same
      cases same
      exact checkSegments_never_panics (fun _ none => by cases none) message refused
    · exact fun same => by cases same

theorem admissible_of_valid (valid : SegmentsValid segments) : Admissible segments where
  nonempty := valid.nonempty
  wellFormed s member := by
    have := valid.wellFormed s member
    omega
  disjoint := valid.ordered.imp disjoint_of_le

theorem new_ok_iff (order : UnstableSort) (segments : List DmaSegment) :
    (∃ memory, new order segments = .ok memory) ↔ Admissible segments := by
  constructor
  · rintro ⟨memory, made⟩
    have sorted := admissible_of_valid memory.valid
    rw [new_eq_ok made] at sorted
    exact sorted.perm (order.perm segments)
  · intro admissible
    have sorted := admissible.perm (order.perm segments).symm
    have wellFormed : ∀ s ∈ order.sort segments, 0 < s.length ∧ s.gpa + s.length < 2 ^ 64 := by
      intro s member
      have := sorted.wellFormed s member
      omega
    have ordered : (order.sort segments).Pairwise fun a b => a.gpa + a.length ≤ b.gpa := by
      refine ((order.sorted segments).and sorted.disjoint).imp_of_mem ?_
      intro first second _ member both
      exact le_of_disjoint both.1 (wellFormed second member).1 both.2
    exact new_accepts admissible.nonempty (checkSegments_of_ordered wellFormed (fun _ none => by cases none) ordered)

/-- Construction accepts the admissible lists and never panics. Its answer does not depend on the order of the list,
nor on what the sort does with equal addresses, and what it stores is the list in strictly ascending order. -/
theorem new_exact (order : UnstableSort) (segments : List DmaSegment) :
    ((∃ memory, new order segments = .ok memory) ↔ Admissible segments) ∧
    (∀ message, new order segments ≠ .error (.panic message)) ∧
    (∀ (other : UnstableSort) (shuffled : List DmaSegment), segments.Perm shuffled →
      ((∃ memory, new order segments = .ok memory) ↔ ∃ memory, new other shuffled = .ok memory)) ∧
    ∀ memory, new order segments = .ok memory →
      memory.segments.Perm segments ∧ memory.segments.Pairwise fun a b => a.gpa < b.gpa := by
  refine ⟨new_ok_iff order segments, new_never_panics, ?_, ?_⟩
  · intro other shuffled perm
    rw [new_ok_iff, new_ok_iff]
    exact ⟨Admissible.perm perm, Admissible.perm perm.symm⟩
  · intro memory made
    refine ⟨new_eq_ok made ▸ order.perm segments, memory.valid.ordered.imp_of_mem ?_⟩
    intro first second member _ le
    have := (memory.valid.wellFormed first member).1
    omega

end DmaMemory

instance : Std.Total fun a b : DmaSegment => a.gpa ≤ b.gpa := ⟨fun a b => Nat.le_total a.gpa b.gpa⟩

instance : IsTrans DmaSegment fun a b => a.gpa ≤ b.gpa := ⟨fun _ _ _ => Nat.le_trans⟩

def UnstableSort.insertion : UnstableSort where
  sort := List.insertionSort fun a b => a.gpa ≤ b.gpa
  perm := List.perm_insertionSort _
  sorted := List.pairwise_insertionSort _

theorem new_exact_reversed :
    ∃ memory, DmaMemory.new .insertion [⟨0x2000, 0, 0x1000⟩, ⟨0x1000, 0x5000, 0x1000⟩] = .ok memory ∧
      memory.segments.Perm [⟨0x2000, 0, 0x1000⟩, ⟨0x1000, 0x5000, 0x1000⟩] ∧
      memory.segments.Pairwise fun a b => a.gpa < b.gpa := by
  have admissible : Admissible [⟨0x2000, 0, 0x1000⟩, ⟨0x1000, 0x5000, 0x1000⟩] := by
    refine ⟨by decide, by decide, List.pairwise_pair.mpr ?_⟩
    exact (disjoint_of_le (by decide)).symm
  obtain ⟨accepts, -, -, stored⟩ :=
    DmaMemory.new_exact .insertion [⟨0x2000, 0, 0x1000⟩, ⟨0x1000, 0x5000, 0x1000⟩]
  obtain ⟨memory, made⟩ := accepts.mpr admissible
  exact ⟨memory, made, stored memory made⟩

end Libvirtio
