import Mathlib.Data.List.Chain
import Mathlib.Data.List.Nodup
import Mathlib.Tactic.Common

def IsWalk {α : Type*} (next : α → Option α) (path : List α) : Prop :=
  path.IsChain fun a b => next a = some b

namespace IsWalk
variable {α : Type*} {next : α → Option α} {path other : List α} {a x : α}

theorem singleton (next : α → Option α) (a : α) : IsWalk next [a] := List.isChain_singleton a

theorem cons_cons {b : α} : IsWalk next (a :: b :: path) ↔ next a = some b ∧ IsWalk next (b :: path) :=
  List.isChain_cons_cons

theorem append_iff : IsWalk next (path ++ [a, x]) ↔ IsWalk next (path ++ [a]) ∧ next a = some x := by
  simp only [IsWalk, List.isChain_append, List.isChain_singleton, List.isChain_cons_cons]
  grind

theorem congr {next' : α → Option α} (walk : IsWalk next path) (same : ∀ a ∈ path, next' a = next a) :
    IsWalk next' path := by
  induction path with
  | nil => exact List.isChain_nil
  | cons a path ih =>
      obtain ⟨here, later⟩ := List.forall_mem_cons.mp same
      cases path with
      | nil => exact singleton next' a
      | cons b path =>
          obtain ⟨first, rest⟩ := cons_cons.mp walk
          exact cons_cons.mpr ⟨here.trans first, ih rest later⟩

theorem suffix {first : List α} (walk : IsWalk next (first ++ path)) : IsWalk next path :=
  (List.isChain_append.mp walk).2.1

theorem beginning {rest : List α} (walk : IsWalk next (path ++ rest)) : IsWalk next path :=
  (List.isChain_append.mp walk).1

theorem next_of_mem (walk : IsWalk next (path ++ [x])) (member : a ∈ path) : ∃ b, next a = some b := by
  induction path with
  | nil => cases member
  | cons c path ih =>
      cases path with
      | nil =>
          rw [List.mem_singleton.mp member]
          exact ⟨x, (cons_cons.mp walk).1⟩
      | cons d path =>
          obtain ⟨first, rest⟩ := cons_cons.mp walk
          rcases List.mem_cons.mp member with rfl | later
          · exact ⟨d, first⟩
          · exact ih rest later

/-- Of two walks from one place the shorter is the beginning of the longer. -/
theorem isPrefix (walk : IsWalk next (a :: path)) (longer : IsWalk next (a :: other))
    (length : path.length ≤ other.length) : path <+: other := by
  induction path generalizing a other with
  | nil => exact List.nil_prefix
  | cons b path ih =>
      cases other with
      | nil => cases length
      | cons c other =>
          obtain ⟨toB, walk⟩ := cons_cons.mp walk
          obtain ⟨toC, longer⟩ := cons_cons.mp longer
          have same : b = c := Option.some.inj (toB.symm.trans toC)
          subst same
          exact (List.prefix_cons_inj b).mpr (ih walk longer (Nat.le_of_succ_le_succ length))

theorem comparable (walk : IsWalk next path) (walk' : IsWalk next other) (start : path.head? = some a)
    (start' : other.head? = some a) : path <+: other ∨ other <+: path := by
  obtain ⟨rest, rfl⟩ := List.head?_eq_some_iff.mp start
  obtain ⟨rest', rfl⟩ := List.head?_eq_some_iff.mp start'
  simp only [List.prefix_cons_inj]
  rcases Nat.le_total rest.length rest'.length with shorter | longer
  · exact Or.inl (walk.isPrefix walk' shorter)
  · exact Or.inr (walk'.isPrefix walk longer)

theorem prefix_of_end (walk : IsWalk next (path ++ [x])) (ends : next x = none) (walk' : IsWalk next other)
    (start : (path ++ [x]).head? = some a) (start' : other.head? = some a) : other <+: path ++ [x] := by
  rcases walk.comparable walk' start start' with ⟨more, rfl⟩ | shorter
  · cases more with
    | nil => exact ⟨[], by simp⟩
    | cons y more =>
        rw [List.append_assoc] at walk'
        obtain ⟨onward, -⟩ := cons_cons.mp walk'.suffix
        rw [ends] at onward
        cases onward
  · exact shorter

/-- A walk that comes to a new place has visited no place twice. -/
theorem nodup (walk : IsWalk next (path ++ [x])) (fresh : x ∉ path) : (path ++ [x]).Nodup := by
  induction path with
  | nil => exact List.nodup_singleton x
  | cons a path ih =>
      obtain ⟨notFirst, notLater⟩ := List.ne_and_not_mem_of_not_mem_cons fresh
      have whole : IsWalk next (a :: (path ++ [x])) := walk
      have rest : IsWalk next (path ++ [x]) := List.IsChain.tail walk
      refine List.nodup_cons.mpr ⟨fun again => ?_, ih rest notLater⟩
      rcases List.mem_append.mp again with inside | last
      · -- The walk from the second visit of `a` is the beginning of the whole one, so `x` comes before its end.
        obtain ⟨before, after, rfl⟩ := List.append_of_mem inside
        have second : IsWalk next (a :: (after ++ [x])) := by
          rw [List.append_assoc] at rest
          exact rest.suffix
        have early := second.isPrefix whole (by simp only [List.length_append, List.length_cons]; omega)
        have inner := List.prefix_of_prefix_length_le early (List.prefix_append _ [x])
          (by simp only [List.length_append, List.length_cons, List.length_nil]; omega)
        exact notLater (inner.subset (List.mem_append_right _ (List.mem_singleton_self x)))
      · exact notFirst (List.mem_singleton.mp last).symm

end IsWalk
