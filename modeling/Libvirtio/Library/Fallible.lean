import Mathlib.Tactic.Common

/-- Computations over a state that may fail, and keep what they did to the state when they do. -/
def Fallible (ε σ α : Type) := σ → Except ε α × σ

namespace Fallible
variable {ε σ τ α β : Type}

instance : Monad (Fallible ε σ) where
  pure a := fun s => (.ok a, s)
  bind m f := fun s => match m s with
    | (.ok a, t) => f a t
    | (.error e, t) => (.error e, t)

def fail (e : ε) : Fallible ε σ α := fun s => (.error e, s)

def read : Fallible ε σ σ := fun s => (.ok s, s)

def update (f : σ → σ) : Fallible ε σ Unit := fun s => (.ok (), f s)

/-- A call that cannot fail. -/
def modifyGet (f : σ → α × σ) : Fallible ε σ α := fun s => (.ok (f s).1, (f s).2)

def ofExcept (r : Except ε α) : Fallible ε σ α := fun s => (r, s)

def zoom (get : τ → σ) (set : σ → τ → τ) (m : Fallible ε σ α) : Fallible ε τ α := fun s =>
  ((m (get s)).1, set (m (get s)).2 s)

@[simp] theorem pure_apply (a : α) (s : σ) : (pure a : Fallible ε σ α) s = (.ok a, s) := rfl

theorem bind_apply (m : Fallible ε σ α) (f : α → Fallible ε σ β) (s : σ) :
    (m >>= f) s = match m s with
      | (.ok a, t) => f a t
      | (.error e, t) => (.error e, t) := rfl

@[simp] theorem fail_apply (e : ε) (s : σ) : (fail e : Fallible ε σ α) s = (.error e, s) := rfl

@[simp] theorem read_apply (s : σ) : (read : Fallible ε σ σ) s = (.ok s, s) := rfl

@[simp] theorem update_apply (f : σ → σ) (s : σ) : (update f : Fallible ε σ Unit) s = (.ok (), f s) := rfl

@[simp] theorem modifyGet_apply (f : σ → α × σ) (s : σ) :
    (modifyGet f : Fallible ε σ α) s = (.ok (f s).1, (f s).2) := rfl

@[simp] theorem ofExcept_apply (r : Except ε α) (s : σ) : (ofExcept r : Fallible ε σ α) s = (r, s) := rfl

theorem pure_bind (a : α) (f : α → Fallible ε σ β) : (pure a >>= f) = f a := rfl

theorem bind_assoc {δ : Type} (m : Fallible ε σ α) (f : α → Fallible ε σ β) (g : β → Fallible ε σ δ) :
    (m >>= f) >>= g = m >>= fun a => f a >>= g := by
  funext s
  simp only [bind_apply]
  rcases m s with ⟨_ | a, t⟩ <;> rfl

theorem ofExcept_ok_bind (a : α) (f : α → Fallible ε σ β) : (ofExcept (.ok a) >>= f) = f a := rfl

theorem ofExcept_eq_ok {r : Except ε α} {s t : σ} {a : α} :
    ofExcept r s = (.ok a, t) ↔ r = .ok a ∧ s = t := by
  rw [ofExcept_apply, Prod.mk.injEq]

theorem ite_apply (c : Prop) [Decidable c] (m n : Fallible ε σ α) (s : σ) :
    (if c then m else n) s = if c then m s else n s := by
  split <;> rfl

theorem bind_of_ok {m : Fallible ε σ α} {f : α → Fallible ε σ β} {s t : σ} {a : α}
    (run : m s = (.ok a, t)) : (m >>= f) s = f a t := by
  rw [bind_apply, run]

theorem bind_of_error {m : Fallible ε σ α} {f : α → Fallible ε σ β} {s t : σ} {e : ε}
    (run : m s = (.error e, t)) : (m >>= f) s = (.error e, t) := by
  rw [bind_apply, run]

theorem bind_eq_ok {m : Fallible ε σ α} {f : α → Fallible ε σ β} {s u : σ} {b : β} :
    (m >>= f) s = (.ok b, u) ↔ ∃ a t, m s = (.ok a, t) ∧ f a t = (.ok b, u) := by
  rw [bind_apply]
  rcases m s with ⟨_ | a, t⟩
  · simp
  · simp only [Prod.mk.injEq, Except.ok.injEq]
    exact ⟨fun run => ⟨a, t, ⟨rfl, rfl⟩, run⟩, fun ⟨_, _, ⟨rfl, rfl⟩, run⟩ => run⟩

theorem bind_eq_error {m : Fallible ε σ α} {f : α → Fallible ε σ β} {s u : σ} {e : ε} :
    (m >>= f) s = (.error e, u) ↔
      m s = (.error e, u) ∨ ∃ a t, m s = (.ok a, t) ∧ f a t = (.error e, u) := by
  rw [bind_apply]
  rcases m s with ⟨_ | a, t⟩
  · simp
  · simp only [Prod.mk.injEq, Except.ok.injEq, reduceCtorEq, false_and, false_or]
    exact ⟨fun run => ⟨a, t, ⟨rfl, rfl⟩, run⟩, fun ⟨_, _, ⟨rfl, rfl⟩, run⟩ => run⟩

@[simp] theorem zoom_apply (get : τ → σ) (set : σ → τ → τ) (m : Fallible ε σ α) (s : τ) :
    zoom get set m s = ((m (get s)).1, set (m (get s)).2 s) := rfl

/-- Repeats the round while it says so. `none` is a loop that is not over after so many rounds. -/
def loop (round : Fallible ε σ Bool) : Nat → σ → Option (Except ε Unit × σ)
  | 0, _ => none
  | rounds + 1, s => match round s with
      | (.ok true, t) => loop round rounds t
      | (.ok false, t) => some (.ok (), t)
      | (.error e, t) => some (.error e, t)

section
variable {round : Fallible ε σ Bool} {s t : σ} {rounds : Nat}

theorem loop_again (run : round s = (.ok true, t)) : loop round (rounds + 1) s = loop round rounds t := by
  rw [loop, run]

theorem loop_over (run : round s = (.ok false, t)) : loop round (rounds + 1) s = some (.ok (), t) := by
  rw [loop, run]

theorem loop_failed {e : ε} (run : round s = (.error e, t)) : loop round (rounds + 1) s = some (.error e, t) := by
  rw [loop, run]

end

def Keeps (inv : σ → Prop) (post : α → Prop) (m : Fallible ε σ α) : Prop :=
  ∀ s, inv s → inv (m s).2 ∧ ∀ a, (m s).1 = .ok a → post a

namespace Keeps
variable {inv : σ → Prop} {post : α → Prop} {next : β → Prop}

theorem pure {a : α} (holds : post a) : Keeps inv post (Pure.pure a : Fallible ε σ α) := by
  intro s kept
  refine ⟨kept, fun b returned => ?_⟩
  cases returned
  exact holds

theorem fail (e : ε) : Keeps inv post (Fallible.fail e : Fallible ε σ α) := by
  intro s kept
  exact ⟨kept, fun b returned => by cases returned⟩

theorem bind {m : Fallible ε σ α} {f : α → Fallible ε σ β} (first : Keeps inv post m)
    (rest : ∀ a, post a → Keeps inv next (f a)) : Keeps inv next (m >>= f) := by
  intro s kept
  obtain ⟨still, returned⟩ := first s kept
  rw [bind_apply]
  rcases run : m s with ⟨e | a, t⟩
  · rw [run] at still
    exact ⟨still, fun b returned => by cases returned⟩
  · rw [run] at still returned
    exact rest a (returned a rfl) t still

theorem bind_option {post : Option α → Prop} {m : Fallible ε σ (Option α)} {f : Option α → Fallible ε σ β}
    (first : Keeps inv post m) (absent : Keeps inv next (f none))
    (present : ∀ a, post (some a) → Keeps inv next (f (some a))) : Keeps inv next (m >>= f) := by
  refine first.bind fun result holds => ?_
  cases result with
  | none => exact absent
  | some a => exact present a holds

theorem ofExcept {r : Except ε α} (holds : ∀ a, r = .ok a → post a) :
    Keeps inv post (Fallible.ofExcept r : Fallible ε σ α) :=
  fun _ kept => ⟨kept, holds⟩

theorem update {f : σ → σ} (kept : ∀ s, inv s → inv (f s)) :
    Keeps inv (fun _ => True) (Fallible.update f : Fallible ε σ Unit) :=
  fun s holds => ⟨kept s holds, fun _ _ => trivial⟩

theorem read : Keeps inv inv (Fallible.read : Fallible ε σ σ) := by
  intro s kept
  refine ⟨kept, fun t returned => ?_⟩
  cases returned
  exact kept

theorem weaken {weak : α → Prop} {m : Fallible ε σ α} (keeps : Keeps inv post m) (weaker : ∀ a, post a → weak a) :
    Keeps inv weak m :=
  fun s kept => ⟨(keeps s kept).1, fun a returned => weaker a ((keeps s kept).2 a returned)⟩

theorem ite {c : Prop} [Decidable c] {m n : Fallible ε σ α} (yes : c → Keeps inv post m) (no : ¬c → Keeps inv post n) :
    Keeps inv post (if c then m else n) := by
  split
  · exact yes ‹c›
  · exact no ‹¬c›

end Keeps

/-- From a state with `pre` it returns an `a` in a state with `post a`, or fails with an `e` in one with `failed e`. -/
def Triple (pre : σ → Prop) (m : Fallible ε σ α) (post : α → σ → Prop) (failed : ε → σ → Prop) : Prop :=
  ∀ s, pre s → match m s with
    | (.ok a, t) => post a t
    | (.error e, t) => failed e t

namespace Triple
variable {pre : σ → Prop} {post : α → σ → Prop} {next : β → σ → Prop} {failed : ε → σ → Prop}

theorem pure {a : α} (holds : ∀ s, pre s → post a s) : Triple pre (Pure.pure a) post failed := holds

theorem fail {e : ε} (holds : ∀ s, pre s → failed e s) : Triple pre (Fallible.fail e) post failed := holds

theorem read {post : σ → σ → Prop} (holds : ∀ s, pre s → post s s) : Triple pre Fallible.read post failed := holds

theorem update {post : Unit → σ → Prop} {f : σ → σ} (holds : ∀ s, pre s → post () (f s)) :
    Triple pre (Fallible.update f) post failed := holds

theorem bind {m : Fallible ε σ α} {f : α → Fallible ε σ β} (first : Triple pre m post failed)
    (rest : ∀ a, Triple (post a) (f a) next failed) : Triple pre (m >>= f) next failed := by
  intro s holds
  have done := first s holds
  rw [bind_apply]
  rcases run : m s with ⟨e | a, t⟩
  · rw [run] at done
    exact done
  · rw [run] at done
    exact rest a t done

theorem ite {c : Prop} [Decidable c] {m n : Fallible ε σ α} (yes : c → Triple pre m post failed)
    (no : ¬c → Triple pre n post failed) : Triple pre (if c then m else n) post failed := by
  split
  · exact yes ‹c›
  · exact no ‹¬c›

end Triple

theorem bind_result_congr {m : Fallible ε σ α} {f : α → Fallible ε σ β} {s t : σ} (first : (m s).1 = (m t).1)
    (rest : ∀ a s' t', m s = (.ok a, s') → m t = (.ok a, t') → (f a s').1 = (f a t').1) :
    ((m >>= f) s).1 = ((m >>= f) t).1 := by
  rw [bind_apply, bind_apply]
  rcases left : m s with ⟨e | a, s'⟩ <;> rcases right : m t with ⟨e' | b, t'⟩ <;> rw [left, right] at first
  · cases first
    rfl
  · cases first
  · cases first
  · cases first
    exact rest a s' t' left right

/-- From related states it returns the same, and leaves related states. -/
def Agrees (alike : σ → σ → Prop) (m : Fallible ε σ α) : Prop :=
  ∀ s t, alike s t → (m s).1 = (m t).1 ∧ alike (m s).2 (m t).2

namespace Agrees
variable {alike : σ → σ → Prop}

theorem pure (a : α) : Agrees alike (Pure.pure a : Fallible ε σ α) := fun _ _ same => ⟨rfl, same⟩

theorem fail (e : ε) : Agrees alike (Fallible.fail e : Fallible ε σ α) := fun _ _ same => ⟨rfl, same⟩

theorem ofExcept (r : Except ε α) : Agrees alike (Fallible.ofExcept r) := fun _ _ same => ⟨rfl, same⟩

theorem update {f : σ → σ} (kept : ∀ s t, alike s t → alike (f s) (f t)) :
    Agrees alike (Fallible.update f : Fallible ε σ Unit) := fun s t same => ⟨rfl, kept s t same⟩

theorem bind {m : Fallible ε σ α} {f : α → Fallible ε σ β} (first : Agrees alike m) (rest : ∀ a, Agrees alike (f a)) :
    Agrees alike (m >>= f) := by
  intro s t same
  obtain ⟨returned, next⟩ := first s t same
  rw [bind_apply, bind_apply]
  rcases left : m s with ⟨e | a, s'⟩ <;> rcases right : m t with ⟨e' | b, t'⟩ <;> rw [left, right] at returned next
  · cases returned
    exact ⟨rfl, next⟩
  · cases returned
  · cases returned
  · cases returned
    exact rest a s' t' next

/-- What is read of the state is the same on both sides. -/
theorem read_bind {f : σ → Fallible ε σ α} (rest : ∀ s t, alike s t → f s = f t)
    (agrees : ∀ s, Agrees alike (f s)) : Agrees alike (Fallible.read >>= f) := by
  intro s t same
  rw [bind_of_ok (read_apply s), bind_of_ok (read_apply t), rest s t same]
  exact agrees t s t same

theorem ite {c : Prop} [Decidable c] {m n : Fallible ε σ α} (yes : c → Agrees alike m) (no : ¬c → Agrees alike n) :
    Agrees alike (if c then m else n) := by
  split
  · exact yes ‹c›
  · exact no ‹¬c›

theorem zoom {get : τ → σ} {set : σ → τ → τ} {wide : τ → τ → Prop} {m : Fallible ε σ α} (agrees : Agrees alike m)
    (inner : ∀ s t, wide s t → alike (get s) (get t))
    (outer : ∀ s t, wide s t → ∀ a b, alike a b → wide (set a s) (set b t)) : Agrees wide (Fallible.zoom get set m) := by
  intro s t same
  obtain ⟨returned, next⟩ := agrees (get s) (get t) (inner s t same)
  exact ⟨returned, outer s t same _ _ next⟩

end Agrees

end Fallible
