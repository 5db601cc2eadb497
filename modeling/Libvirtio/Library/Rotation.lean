import Mathlib.Algebra.BigOperators.Group.Finset.Piecewise
import Mathlib.Algebra.Order.BigOperators.Group.Finset
import Mathlib.Data.Nat.Count

namespace Rotation
variable {χ φ : Type}

/-- Each item takes the first entry of the queue whose turn it is. The first turn of an empty queue ends it. -/
def dispatch (turn : Nat → Nat) (queues : Nat → List χ) : List φ → List (Nat × χ × φ)
  | [] => []
  | item :: rest =>
      match queues (turn 0) with
      | [] => []
      | entry :: others =>
          (turn 0, entry, item) :: dispatch (fun k => turn (k + 1)) (Function.update queues (turn 0) others) rest

/-- The entries that are left. -/
def remaining (turn : Nat → Nat) (queues : Nat → List χ) : List φ → Nat → List χ
  | [] => queues
  | _ :: rest =>
      match queues (turn 0) with
      | [] => queues
      | _ :: others => remaining (fun k => turn (k + 1)) (Function.update queues (turn 0) others) rest

/-- The turns of `i` among the first `k`. -/
def visits (turn : Nat → Nat) (i k : Nat) : Nat := Nat.count (fun j => turn j = i) k

/-- No turn falls on an empty queue before the items or the entries of the first `n` queues are used up. -/
def Unstalled (turn : Nat → Nat) (n : Nat) (sizes : Nat → Nat) (items : Nat) : Prop :=
  ∀ k < min items (∑ i ∈ Finset.range n, sizes i), visits turn (turn k) k < sizes (turn k)

section
variable {turn : Nat → Nat} {queues : Nat → List χ} {item : φ} {items : List φ}

theorem dispatch_stops (empty : queues (turn 0) = []) : dispatch turn queues (item :: items) = [] := by
  rw [dispatch, empty]

theorem dispatch_serves {entry : χ} {others : List χ} (first : queues (turn 0) = entry :: others) :
    dispatch turn queues (item :: items) = (turn 0, entry, item) ::
      dispatch (fun k => turn (k + 1)) (Function.update queues (turn 0) others) items := by
  rw [dispatch, first]

theorem remaining_stops (empty : queues (turn 0) = []) : remaining turn queues (item :: items) = queues := by
  rw [remaining, empty]

theorem remaining_serves {entry : χ} {others : List χ} (first : queues (turn 0) = entry :: others) :
    remaining turn queues (item :: items) =
      remaining (fun k => turn (k + 1)) (Function.update queues (turn 0) others) items := by
  rw [remaining, first]

theorem visits_succ (turn : Nat → Nat) (i k : Nat) :
    visits turn i (k + 1) = visits turn i k + if turn k = i then 1 else 0 := Nat.count_succ ..

theorem visits_shift (turn : Nat → Nat) (i k : Nat) :
    visits turn i (k + 1) = visits (fun j => turn (j + 1)) i k + if turn 0 = i then 1 else 0 := Nat.count_succ' ..

theorem visits_mono (turn : Nat → Nat) (i : Nat) {j k : Nat} (le : j ≤ k) : visits turn i j ≤ visits turn i k :=
  Nat.count_monotone _ le

theorem sum_visits {n : Nat} (inside : ∀ k, turn k < n) (k : Nat) : ∑ i ∈ Finset.range n, visits turn i k = k := by
  induction k with
  | zero => simp [visits]
  | succ k ih =>
      simp only [visits_succ]
      rw [Finset.sum_add_distrib, ih, Finset.sum_ite_eq, if_pos (Finset.mem_range.mpr (inside k))]

theorem items_dispatch (turn : Nat → Nat) (queues : Nat → List χ) (items : List φ) :
    (dispatch turn queues items).map (fun served => served.2.2) = items.take (dispatch turn queues items).length := by
  induction items generalizing turn queues with
  | nil => rfl
  | cons item rest ih =>
      cases first : queues (turn 0) with
      | nil => rw [dispatch_stops first, List.map_nil, List.length_nil, List.take_zero]
      | cons entry others => rw [dispatch_serves first, List.map_cons, List.length_cons, List.take_succ_cons, ih]

theorem entries_dispatch (turn : Nat → Nat) (queues : Nat → List χ) (items : List φ) (i : Nat) :
    ((dispatch turn queues items).filter (·.1 = i)).map (fun served => served.2.1) ++ remaining turn queues items i =
      queues i := by
  induction items generalizing turn queues with
  | nil => rfl
  | cons item rest ih =>
      cases first : queues (turn 0) with
      | nil => rw [dispatch_stops first, remaining_stops first, List.filter_nil, List.map_nil, List.nil_append]
      | cons entry others =>
          rw [dispatch_serves first, remaining_serves first]
          by_cases here : turn 0 = i
          · rw [List.filter_cons_of_pos (by simpa using here), List.map_cons, List.cons_append, ih, ← here, first,
              Function.update_self]
          · rw [List.filter_cons_of_neg (by simpa using here), ih, Function.update_of_ne (Ne.symm here)]

theorem length_dispatch_le (turn : Nat → Nat) (queues : Nat → List χ) (items : List φ) :
    (dispatch turn queues items).length ≤ items.length := by
  have same := congrArg List.length (items_dispatch turn queues items)
  rw [List.length_map, List.length_take] at same
  omega

theorem length_remaining (turn : Nat → Nat) (queues : Nat → List χ) (items : List φ) (i : Nat) :
    (remaining turn queues items i).length + visits turn i (dispatch turn queues items).length = (queues i).length := by
  induction items generalizing turn queues with
  | nil => simp [remaining, dispatch, visits]
  | cons item rest ih =>
      cases first : queues (turn 0) with
      | nil => simp [remaining_stops first, dispatch_stops first, visits]
      | cons entry others =>
          rw [remaining_serves first, dispatch_serves first, List.length_cons, visits_shift, ← Nat.add_assoc, ih]
          by_cases here : turn 0 = i
          · rw [if_pos here, ← here, Function.update_self, first, List.length_cons]
          · rw [if_neg here, Function.update_of_ne (Ne.symm here), Nat.add_zero]

theorem remaining_of_stopped (stopped : (dispatch turn queues items).length < items.length) :
    remaining turn queues items (turn (dispatch turn queues items).length) = [] := by
  induction items generalizing turn queues with
  | nil => cases stopped
  | cons item rest ih =>
      cases first : queues (turn 0) with
      | nil => rw [remaining_stops first, dispatch_stops first, List.length_nil, first]
      | cons entry others =>
          rw [dispatch_serves first, List.length_cons, List.length_cons] at stopped
          rw [remaining_serves first, dispatch_serves first, List.length_cons]
          exact ih (by omega)

theorem visits_served {k : Nat} (served : k < (dispatch turn queues items).length) :
    visits turn (turn k) k < (queues (turn k)).length := by
  have total := length_remaining turn queues items (turn k)
  have later := visits_mono turn (turn k) (Nat.succ_le_of_lt served)
  rw [Nat.succ_eq_add_one, visits_succ, if_pos rfl] at later
  omega

theorem sum_remaining {n : Nat} (inside : ∀ k, turn k < n) (queues : Nat → List χ) (items : List φ) :
    ∑ i ∈ Finset.range n, (remaining turn queues items i).length + (dispatch turn queues items).length =
      ∑ i ∈ Finset.range n, (queues i).length := by
  rw [← Finset.sum_congr rfl fun i _ => length_remaining turn queues items i, Finset.sum_add_distrib, sum_visits inside]

/-- Items and entries are not both left exactly when no turn comes too early. -/
theorem not_stalled_iff {n : Nat} (inside : ∀ k, turn k < n) :
    ((dispatch turn queues items).length = items.length ∨ ∀ i < n, remaining turn queues items i = []) ↔
      Unstalled turn n (fun i => (queues i).length) items.length := by
  have sum := sum_remaining inside queues items
  have bound := length_dispatch_le turn queues items
  constructor
  · intro done k before
    beta_reduce at before
    have served : k < (dispatch turn queues items).length := by
      rcases done with all | empty
      · omega
      · rw [Finset.sum_eq_zero fun i member => by rw [empty i (Finset.mem_range.mp member), List.length_nil]] at sum
        omega
    exact visits_served served
  · intro unstalled
    by_contra both
    obtain ⟨some, left⟩ := not_or.mp both
    have stopped : (dispatch turn queues items).length < items.length := by omega
    have total := length_remaining turn queues items (turn (dispatch turn queues items).length)
    rw [remaining_of_stopped stopped, List.length_nil, Nat.zero_add] at total
    have late : ¬(dispatch turn queues items).length < min items.length (∑ i ∈ Finset.range n, (queues i).length) :=
      fun early => Nat.ne_of_lt (unstalled _ early) total
    have none : ∑ i ∈ Finset.range n, (remaining turn queues items i).length = 0 := by omega
    refine left fun i below => List.eq_nil_of_length_eq_zero ?_
    exact Finset.sum_eq_zero_iff.mp none i (Finset.mem_range.mpr below)

end

end Rotation
