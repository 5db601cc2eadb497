import Mathlib.Tactic.Ring
import Mathlib.Data.List.Nodup
import Mathlib.Data.List.Perm.Subperm

namespace Store
variable {α : Type*}

def read (s : Nat → Option α) : Nat → Nat → Option (List α)
  | _, 0 => some []
  | a, n + 1 => (s a).bind fun x => (read s (a + 1) n).map (x :: ·)

def write (s : Nat → Option α) (a : Nat) (xs : List α) : Nat → Option α := fun b =>
  if a ≤ b ∧ b < a + xs.length then (s b).bind fun _ => xs[b - a]? else s b

def Apart (a n b m : Nat) : Prop := a + n ≤ b ∨ b + m ≤ a

instance (a n b m : Nat) : Decidable (Apart a n b m) := inferInstanceAs (Decidable (_ ∨ _))

@[simp] theorem read_zero (s : Nat → Option α) (a : Nat) : read s a 0 = some [] := rfl

theorem read_succ (s : Nat → Option α) (a n : Nat) :
    read s a (n + 1) = (s a).bind fun x => (read s (a + 1) n).map (x :: ·) := rfl

theorem read_eq_some_iff {s : Nat → Option α} {a n : Nat} {xs : List α} :
    read s a n = some xs ↔ xs.length = n ∧ ∀ i < n, s (a + i) = xs[i]? := by
  induction n generalizing a xs with
  | zero => simp [eq_comm]
  | succ n ih =>
      rw [read_succ]
      constructor
      · intro h
        obtain ⟨x, head, h⟩ := Option.bind_eq_some_iff.mp h
        obtain ⟨tail, rest, rfl⟩ := Option.map_eq_some_iff.mp h
        obtain ⟨length, cells⟩ := ih.mp rest
        refine ⟨by simp [length], ?_⟩
        intro i bound
        cases i with
        | zero => simpa using head
        | succ i =>
            rw [show a + (i + 1) = a + 1 + i by omega, cells i (by omega)]
            simp
      · rintro ⟨length, cells⟩
        cases xs with
        | nil => simp at length
        | cons x tail =>
            have head : s a = some x := by simpa using cells 0 (by omega)
            have rest : read s (a + 1) n = some tail := by
              refine ih.mpr ⟨by simpa using length, ?_⟩
              intro i bound
              have cell := cells (i + 1) (by omega)
              rw [show a + 1 + i = a + (i + 1) by omega, cell]
              simp
            simp [head, rest]

theorem length_of_read {s : Nat → Option α} {a n : Nat} {xs : List α} (h : read s a n = some xs) :
    xs.length = n :=
  (read_eq_some_iff.mp h).1

theorem read_isSome_iff {s : Nat → Option α} {a n : Nat} :
    (read s a n).isSome ↔ ∀ i < n, (s (a + i)).isSome := by
  induction n generalizing a with
  | zero => simp
  | succ n ih =>
      rw [read_succ]
      constructor
      · intro h i bound
        obtain ⟨xs, eq⟩ := Option.isSome_iff_exists.mp h
        obtain ⟨length, cells⟩ := read_eq_some_iff.mp ((read_succ s a n).trans eq)
        rw [cells i bound]
        simp [length, bound]
      · intro h
        obtain ⟨x, head⟩ := Option.isSome_iff_exists.mp (h 0 (by omega))
        have rest : (read s (a + 1) n).isSome := by
          refine ih.mpr fun i bound => ?_
          have cell := h (i + 1) (by omega)
          rwa [show a + (i + 1) = a + 1 + i by omega] at cell
        obtain ⟨xs, eq⟩ := Option.isSome_iff_exists.mp rest
        simp only [Nat.add_zero] at head
        simp [head, eq]

theorem read_congr {s t : Nat → Option α} {a n : Nat} (same : ∀ b, a ≤ b → b < a + n → s b = t b) :
    read s a n = read t a n := by
  induction n generalizing a with
  | zero => rfl
  | succ n ih =>
      rw [read_succ, read_succ, same a (by omega) (by omega),
        ih fun b low high => same b (by omega) (by omega)]

theorem eq_of_read_eq {s t : Nat → Option α} {a n : Nat} (mapped : (read s a n).isSome)
    (same : read t a n = read s a n) {b : Nat} (low : a ≤ b) (high : b < a + n) : t b = s b := by
  obtain ⟨xs, eq⟩ := Option.isSome_iff_exists.mp mapped
  have left := (read_eq_some_iff.mp (same.trans eq)).2 (b - a) (by omega)
  have right := (read_eq_some_iff.mp eq).2 (b - a) (by omega)
  rw [show a + (b - a) = b by omega] at left right
  rw [left, right]

theorem read_sub {s : Nat → Option α} {a n b m : Nat} (mapped : (read s a n).isSome) (low : a ≤ b)
    (high : b + m ≤ a + n) : (read s b m).isSome := by
  refine read_isSome_iff.mpr fun i bound => ?_
  have cell := read_isSome_iff.mp mapped (b - a + i) (by omega)
  rwa [show a + (b - a + i) = b + i by omega] at cell

theorem read_add (s : Nat → Option α) (a n m : Nat) :
    read s a (n + m) = (read s a n).bind fun xs => (read s (a + n) m).map (xs ++ ·) := by
  induction n generalizing a with
  | zero => simp
  | succ n ih =>
      rw [show n + 1 + m = (n + m) + 1 by omega, read_succ, read_succ, ih,
        show a + 1 + n = a + (n + 1) by omega]
      cases s a with
      | none => rfl
      | some x =>
          cases read s (a + 1) n with
          | none => rfl
          | some xs => simp [Function.comp_def]

@[simp] theorem write_nil (s : Nat → Option α) (a : Nat) : write s a [] = s := by
  funext b
  simp only [write, List.length_nil, Nat.add_zero]
  split
  · omega
  · rfl

theorem write_isSome (s : Nat → Option α) (a : Nat) (xs : List α) (b : Nat) :
    (write s a xs b).isSome = (s b).isSome := by
  unfold write
  split
  · rename_i inside
    have bound : b - a < xs.length := by omega
    cases s b <;> simp [bound]
  · rfl

theorem write_of_outside {s : Nat → Option α} {a : Nat} {xs : List α} {b : Nat}
    (outside : b < a ∨ a + xs.length ≤ b) : write s a xs b = s b := by
  unfold write
  rw [if_neg (by omega)]

theorem write_of_inside {s : Nat → Option α} {a : Nat} {xs : List α} {i : Nat}
    (mapped : (s (a + i)).isSome) (bound : i < xs.length) : write s a xs (a + i) = xs[i]? := by
  obtain ⟨x, eq⟩ := Option.isSome_iff_exists.mp mapped
  unfold write
  rw [if_pos (by omega), eq, Nat.add_sub_cancel_left]
  rfl

theorem read_write_self {s : Nat → Option α} {a : Nat} {xs : List α}
    (mapped : (read s a xs.length).isSome) : read (write s a xs) a xs.length = some xs := by
  refine read_eq_some_iff.mpr ⟨rfl, fun i bound => ?_⟩
  exact write_of_inside (read_isSome_iff.mp mapped i bound) bound

theorem read_write_prefix {s : Nat → Option α} {a n : Nat} {xs old : List α} (read : Store.read s a n = some old)
    (fits : xs.length ≤ n) : Store.read (write s a xs) a n = some (xs ++ old.drop xs.length) := by
  have mapped : (Store.read s a n).isSome := by rw [read]; rfl
  have rest : Store.read (write s a xs) (a + xs.length) (n - xs.length) =
      Store.read s (a + xs.length) (n - xs.length) :=
    read_congr fun b low _ => write_of_outside (Or.inr low)
  rw [show n = xs.length + (n - xs.length) by omega, read_add] at read ⊢
  obtain ⟨first, head, read⟩ := Option.bind_eq_some_iff.mp read
  obtain ⟨second, tail, rfl⟩ := Option.map_eq_some_iff.mp read
  rw [read_write_self (read_sub mapped (Nat.le_refl a) (by omega)), rest, tail,
    List.drop_left' (length_of_read head)]
  rfl

theorem read_write_of_apart {s : Nat → Option α} {a n b : Nat} {xs : List α}
    (apart : Apart a n b xs.length) : read (write s b xs) a n = read s a n := by
  apply read_congr
  intro c low high
  exact write_of_outside (by unfold Apart at apart; omega)

theorem read_write_isSome (s : Nat → Option α) (a n b : Nat) (xs : List α) :
    (read (write s b xs) a n).isSome = (read s a n).isSome := by
  rw [Bool.eq_iff_iff, read_isSome_iff, read_isSome_iff]
  simp only [write_isSome]

theorem write_append (s : Nat → Option α) (a : Nat) (xs ys : List α) :
    write s a (xs ++ ys) = write (write s a xs) (a + xs.length) ys := by
  funext b
  by_cases first : a ≤ b ∧ b < a + xs.length
  · rw [write_of_outside (s := write s a xs) (by omega)]
    have bound : b - a < xs.length := by omega
    simp [write, first, show b < a + (xs.length + ys.length) by omega, List.getElem?_append_left bound]
  · by_cases second : a + xs.length ≤ b ∧ b < a + xs.length + ys.length
    · have late : xs.length ≤ b - a := by omega
      simp only [write, List.length_append, if_pos (show a ≤ b ∧ b < a + (xs.length + ys.length) by omega),
        if_pos second, if_neg first, List.getElem?_append_right late,
        show b - a - xs.length = b - (a + xs.length) by omega]
    · have outside : b < a ∨ a + (xs ++ ys).length ≤ b := by
        rw [List.length_append]
        omega
      rw [write_of_outside (s := write s a xs) (by omega), write_of_outside outside,
        write_of_outside (by omega)]

theorem sum_le_of_apart {regions : List (Nat × Nat)} {n : Nat}
    (apart : regions.Pairwise fun r t => Apart r.1 r.2 t.1 t.2) (below : ∀ r ∈ regions, r.1 + r.2 ≤ n) :
    (regions.map Prod.snd).sum ≤ n := by
  let cells := regions.flatMap fun r => List.range' r.1 r.2
  have nodup : cells.Nodup := by
    refine List.nodup_flatMap.mpr ⟨fun r _ => List.nodup_range', apart.imp fun {r t} separate => ?_⟩
    intro c first second
    rw [List.mem_range'_1] at first second
    unfold Apart at separate
    omega
  have inside : cells ⊆ List.range n := by
    intro c member
    obtain ⟨r, listed, member⟩ := List.mem_flatMap.mp member
    rw [List.mem_range'_1] at member
    have := below r listed
    exact List.mem_range.mpr (by omega)
  have bounded := (List.subperm_of_subset nodup inside).length_le
  simpa [cells, List.length_flatMap, Function.comp_def] using bounded

def load (m : Nat → α) : Nat → Nat → List α
  | _, 0 => []
  | a, n + 1 => m a :: load m (a + 1) n

def save (m : Nat → α) (a : Nat) (xs : List α) : Nat → α := fun b =>
  if a ≤ b then (xs[b - a]?).getD (m b) else m b

def view (φ : Nat → Option Nat) (m : Nat → α) : Nat → Option α := fun a => (φ a).map m

def Injective (φ : Nat → Option Nat) : Prop := ∀ a b c, φ a = some c → φ b = some c → a = b

@[simp] theorem length_load (m : Nat → α) (a n : Nat) : (load m a n).length = n := by
  induction n generalizing a with
  | zero => rfl
  | succ n ih => simp [load, ih]

@[simp] theorem save_nil (m : Nat → α) (a : Nat) : save m a [] = m := by
  funext b
  simp [save]

theorem read_view {φ : Nat → Option Nat} (m : Nat → α) {a b n : Nat}
    (mapped : ∀ i < n, φ (a + i) = some (b + i)) : read (view φ m) a n = some (load m b n) := by
  induction n generalizing a b with
  | zero => rfl
  | succ n ih =>
      have head : φ a = some b := by simpa using mapped 0 (by omega)
      have rest : ∀ i < n, φ (a + 1 + i) = some (b + 1 + i) := fun i bound => by
        rw [show a + 1 + i = a + (i + 1) by omega, mapped (i + 1) (by omega)]
        congr 1
        omega
      simp [read_succ, view, head, load, ← ih rest]

theorem view_isSome (φ : Nat → Option Nat) (m : Nat → α) (a : Nat) :
    (view φ m a).isSome = (φ a).isSome := by
  simp [view]

theorem view_save {φ : Nat → Option Nat} (injective : Injective φ) (m : Nat → α) {a b : Nat}
    {xs : List α} (mapped : ∀ i < xs.length, φ (a + i) = some (b + i)) :
    view φ (save m b xs) = write (view φ m) a xs := by
  funext c
  cases target : φ c with
  | none =>
      have unmapped : view φ m c = none := by simp [view, target]
      by_cases inside : a ≤ c ∧ c < a + xs.length
      · have := mapped (c - a) (by omega)
        rw [show a + (c - a) = c by omega, target] at this
        cases this
      · rw [write_of_outside (by omega), unmapped]
        simp [view, target]
  | some d =>
      by_cases inside : a ≤ c ∧ c < a + xs.length
      · have located := mapped (c - a) (by omega)
        rw [show a + (c - a) = c by omega, target] at located
        obtain rfl : d = b + (c - a) := Option.some.inj located
        have bound : c - a < xs.length := by omega
        simp [view, target, write, inside, save, bound]
      · rw [write_of_outside (by omega)]
        have outside : ¬(b ≤ d ∧ d < b + xs.length) := by
          rintro ⟨low, high⟩
          have other := mapped (d - b) (by omega)
          rw [show b + (d - b) = d by omega] at other
          have := injective _ _ _ other target
          omega
        simp only [view, target, Option.map_some, save]
        split
        · rw [List.getElem?_eq_none (by omega)]
          rfl
        · rfl

/-- Every cell outside of `P` holds what it held. -/
def SameOutside (P : Nat → Prop) (m m' : Nat → α) : Prop := ∀ a, ¬P a → m' a = m a

namespace SameOutside
variable {P Q : Nat → Prop} {m m' m'' : Nat → α}

theorem refl (P : Nat → Prop) (m : Nat → α) : SameOutside P m m := fun _ _ => rfl

theorem trans (first : SameOutside P m m') (second : SameOutside P m' m'') : SameOutside P m m'' :=
  fun a outside => (second a outside).trans (first a outside)

theorem mono (same : SameOutside P m m') (wider : ∀ a, P a → Q a) : SameOutside Q m m' :=
  fun a outside => same a fun inside => outside (wider a inside)

theorem save {a : Nat} {xs : List α} (inside : ∀ i < xs.length, P (a + i)) : SameOutside P m (Store.save m a xs) := by
  intro b outside
  unfold Store.save
  split
  · have past : xs.length ≤ b - a := by
      by_contra short
      apply outside
      have located := inside (b - a) (by omega)
      rwa [show a + (b - a) = b by omega] at located
    rw [List.getElem?_eq_none past]
    rfl
  · rfl

end SameOutside

end Store
