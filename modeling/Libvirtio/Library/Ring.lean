import Libvirtio.Library.Store

namespace Ring
variable {α : Type*}

def slot (base width size n : Nat) : Nat := base + n % size * width

/-- An append-only log of entries of one width, of which a store keeps a window in `size` slots. The indices run freely,
so the log never wraps, only its slots do. -/
def Window (s : Nat → Option α) (base width size : Nat) (log : List (List α)) (low : Nat) : Prop :=
  ∀ n entry, low ≤ n → log[n]? = some entry → Store.read s (slot base width size n) width = some entry

theorem slot_apart {base width size n m : Nat} (less : n < m) (close : m < n + size) :
    Store.Apart (slot base width size n) width (slot base width size m) width := by
  have positive : 0 < size := by omega
  have distinct : n % size ≠ m % size := fun same => by
    have divides : size ∣ m - n := Nat.dvd_of_mod_eq_zero (Nat.sub_mod_eq_zero_of_mod_eq same.symm)
    have := Nat.le_of_dvd (by omega) divides
    omega
  unfold Store.Apart slot
  rcases Nat.lt_or_gt_of_ne distinct with below | above
  · left
    have := Nat.mul_le_mul_right width (Nat.succ_le_of_lt below)
    rw [Nat.succ_mul] at this
    omega
  · right
    have := Nat.mul_le_mul_right width (Nat.succ_le_of_lt above)
    rw [Nat.succ_mul] at this
    omega

theorem slot_within (base width : Nat) {size : Nat} (n : Nat) (positive : 0 < size) :
    base ≤ slot base width size n ∧ slot base width size n + width ≤ base + size * width := by
  have bound := Nat.mul_le_mul_right width (Nat.succ_le_of_lt (Nat.mod_lt n positive))
  rw [Nat.succ_mul] at bound
  unfold slot
  omega

namespace Window
variable {s t : Nat → Option α} {base width size low : Nat} {log : List (List α)}

theorem nil : Window s base width size [] low := by
  intro n entry _ found
  simp at found

theorem advance (window : Window s base width size log low) {high : Nat} (le : low ≤ high) :
    Window s base width size log high :=
  fun n entry from_high found => window n entry (Nat.le_trans le from_high) found

theorem frame (window : Window s base width size log low) (positive : 0 < size)
    (same : ∀ b, base ≤ b → b < base + size * width → t b = s b) :
    Window t base width size log low := by
  intro n entry from_low found
  obtain ⟨lower, upper⟩ := slot_within base width n positive
  rw [Store.read_congr fun b _ _ => same b (by omega) (by omega)]
  exact window n entry from_low found

theorem push (window : Window s base width size log low) (room : log.length < low + size)
    (ordered : low ≤ log.length) {entry : List α} (fits : entry.length = width)
    (mapped : (Store.read s base (size * width)).isSome) :
    Window (Store.write s (slot base width size log.length) entry) base width size (log ++ [entry]) low := by
  intro n other from_low found
  by_cases last : n = log.length
  · subst last
    obtain ⟨lower, upper⟩ := slot_within base width log.length (show 0 < size by omega)
    rw [List.getElem?_concat_length, Option.some.injEq] at found
    subst found
    subst fits
    exact Store.read_write_self (Store.read_sub mapped lower upper)
  · have bound : n < log.length := by
      have := (List.getElem?_eq_some_iff.mp found).1
      rw [List.length_append, List.length_singleton] at this
      omega
    rw [List.getElem?_append_left bound] at found
    rw [Store.read_write_of_apart (by rw [fits]; exact slot_apart bound (by omega))]
    exact window n other from_low found

end Window

end Ring
