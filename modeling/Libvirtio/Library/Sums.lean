import Mathlib.Algebra.BigOperators.Group.List.Basic
import Mathlib.Data.List.Perm.Basic
import Mathlib.Tactic.Ring

namespace Sums
variable {α : Type*} {f : α → Nat} {xs : List α} {i : Nat} {x : α}

theorem eraseIdx (f : α → Nat) (found : xs[i]? = some x) : (xs.map f).sum = ((xs.eraseIdx i).map f).sum + f x := by
  obtain ⟨bound, rfl⟩ := List.getElem?_eq_some_iff.mp found
  have perm := (List.getElem_cons_eraseIdx_perm bound).symm
  rw [(perm.map f).sum_eq, List.map_cons, List.sum_cons, Nat.add_comm]

theorem set (f : α → Nat) (found : xs[i]? = some x) (y : α) :
    ((xs.set i y).map f).sum = ((xs.eraseIdx i).map f).sum + f y := by
  obtain ⟨bound, -⟩ := List.getElem?_eq_some_iff.mp found
  rw [((List.set_perm_cons_eraseIdx bound y).map f).sum_eq, List.map_cons, List.sum_cons, Nat.add_comm]

theorem filter_pos (numbers : List Nat) : (numbers.filter (0 < ·)).sum = numbers.sum := by
  induction numbers with
  | nil => rfl
  | cons n rest ih =>
      by_cases positive : 0 < n
      · rw [List.filter_cons_of_pos (by simpa using positive), List.sum_cons, List.sum_cons, ih]
      · rw [List.filter_cons_of_neg (by simpa using positive), ih, List.sum_cons, Nat.eq_zero_of_not_pos positive,
          Nat.zero_add]

end Sums
