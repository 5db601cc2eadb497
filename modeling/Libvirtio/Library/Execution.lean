import Mathlib.Data.List.Induction
import Mathlib.Tactic.Common

/-- Runs of a labelled transition function: `none` is a label that is not enabled. -/
def exec {σ ι : Type*} (step : σ → ι → Option σ) : σ → List ι → Option σ
  | s, [] => some s
  | s, a :: rest => (step s a).bind fun t => exec step t rest

namespace Execution
variable {σ ι : Type*} {step : σ → ι → Option σ}

@[simp] theorem exec_nil (s : σ) : exec step s [] = some s := rfl

theorem exec_cons_eq_some {s u : σ} {a : ι} {rest : List ι} :
    exec step s (a :: rest) = some u ↔ ∃ t, step s a = some t ∧ exec step t rest = some u := by
  simp [exec, Option.bind_eq_some_iff]

@[simp] theorem exec_singleton (s : σ) (a : ι) : exec step s [a] = step s a := Option.bind_fun_some _

theorem exec_append (s : σ) (first second : List ι) :
    exec step s (first ++ second) = (exec step s first).bind fun t => exec step t second := by
  induction first generalizing s with
  | nil => rfl
  | cons a rest ih =>
      simp only [List.cons_append, exec]
      cases step s a with
      | none => rfl
      | some t => exact ih t

theorem exec_append_eq_some {s u : σ} {first second : List ι} :
    exec step s (first ++ second) = some u ↔
      ∃ t, exec step s first = some t ∧ exec step t second = some u := by
  rw [exec_append, Option.bind_eq_some_iff]

def Along (step : σ → ι → Option σ) (allowed : σ → ι → Prop) : σ → List ι → Prop
  | _, [] => True
  | s, a :: rest => allowed s a ∧ ∀ t, step s a = some t → Along step allowed t rest

instance Along.decidable {allowed : σ → ι → Prop} [∀ s a, Decidable (allowed s a)] (s : σ) :
    (labels : List ι) → Decidable (Along step allowed s labels)
  | [] => isTrue trivial
  | a :: rest =>
      match stepped : step s a with
      | none => decidable_of_iff (allowed s a)
          ⟨fun first => ⟨first, fun _ next => by rw [stepped] at next; cases next⟩, And.left⟩
      | some t =>
          have : Decidable (Along step allowed t rest) := Along.decidable t rest
          decidable_of_iff (allowed s a ∧ Along step allowed t rest)
            ⟨fun both => ⟨both.1, fun _ next => by rw [stepped] at next; cases next; exact both.2⟩,
              fun both => ⟨both.1, both.2 t stepped⟩⟩

theorem Along.of_forall {allowed : ι → Prop} {labels : List ι} (all : ∀ a ∈ labels, allowed a) (s : σ) :
    Along step (fun _ => allowed) s labels := by
  induction labels generalizing s with
  | nil => trivial
  | cons a rest ih =>
      obtain ⟨first, others⟩ := List.forall_mem_cons.mp all
      exact ⟨first, fun t _ => ih others t⟩

theorem Along.mono {allowed weak : σ → ι → Prop} {s : σ} {labels : List ι} (along : Along step allowed s labels)
    (weaker : ∀ s a, allowed s a → weak s a) : Along step weak s labels := by
  induction labels generalizing s with
  | nil => trivial
  | cons a rest ih => exact ⟨weaker s a along.1, fun t stepped => ih (along.2 t stepped)⟩

theorem Along.and {first second : σ → ι → Prop} {s : σ} {labels : List ι} (left : Along step first s labels)
    (right : Along step second s labels) : Along step (fun s a => first s a ∧ second s a) s labels := by
  induction labels generalizing s with
  | nil => trivial
  | cons a rest ih => exact ⟨⟨left.1, right.1⟩, fun t stepped => ih (left.2 t stepped) (right.2 t stepped)⟩

theorem Along.append {allowed : σ → ι → Prop} {s : σ} {first second : List ι} :
    Along step allowed s (first ++ second) ↔
      Along step allowed s first ∧ ∀ t, exec step s first = some t → Along step allowed t second := by
  induction first generalizing s with
  | nil => simp [Along]
  | cons a rest ih =>
      simp only [List.cons_append, Along, ih, exec_cons_eq_some]
      constructor
      · rintro ⟨here, later⟩
        refine ⟨⟨here, fun u stepped => (later u stepped).1⟩, ?_⟩
        rintro t ⟨u, stepped, run⟩
        exact (later u stepped).2 t run
      · rintro ⟨⟨here, along⟩, later⟩
        exact ⟨here, fun u stepped => ⟨along u stepped, fun t run => later t ⟨u, stepped, run⟩⟩⟩

theorem Along.iff_forall {allowed : σ → ι → Prop} {s : σ} {labels : List ι} :
    Along step allowed s labels ↔
      ∀ past a rest u, labels = past ++ a :: rest → exec step s past = some u → allowed u a := by
  constructor
  · rintro along past a rest u rfl run
    exact ((Along.append.mp along).2 u run).1
  · intro every
    induction labels generalizing s with
    | nil => trivial
    | cons a rest ih =>
        refine ⟨every [] a rest s rfl rfl, fun t stepped => ih fun past b later u split run => ?_⟩
        exact every (a :: past) b later u (by rw [split, List.cons_append]) (exec_cons_eq_some.mpr ⟨t, stepped, run⟩)

/-- The same transitions, with the labels so far beside the state. -/
def logged (step : σ → ι → Option σ) (state : List ι × σ) (a : ι) : Option (List ι × σ) :=
  (step state.2 a).map fun t => (state.1 ++ [a], t)

theorem exec_logged (past : List ι) (s : σ) (labels : List ι) :
    exec (logged step) (past, s) labels = (exec step s labels).map fun t => (past ++ labels, t) := by
  induction labels generalizing past s with
  | nil => simp
  | cons a rest ih =>
      simp only [exec, logged, Option.bind_map]
      cases step s a with
      | none => rfl
      | some t =>
          simp only [Option.bind_some, Function.comp_apply, ih]
          simp

theorem exec_logged_eq_some {s : σ} {labels past : List ι} {t : σ} :
    exec (logged step) ([], s) labels = some (past, t) ↔ past = labels ∧ exec step s labels = some t := by
  rw [exec_logged, Option.map_eq_some_iff]
  constructor
  · rintro ⟨u, run, same⟩
    cases same
    exact ⟨rfl, run⟩
  · rintro ⟨rfl, run⟩
    exact ⟨t, run, rfl⟩

theorem invariant_along {allowed : σ → ι → Prop} (inv : σ → Prop)
    (kept : ∀ s a t, inv s → allowed s a → step s a = some t → inv t)
    {s t : σ} {labels : List ι} (start : inv s) (along : Along step allowed s labels)
    (run : exec step s labels = some t) : inv t := by
  induction labels generalizing s with
  | nil => cases run; exact start
  | cons a rest ih =>
      obtain ⟨u, first, tail⟩ := exec_cons_eq_some.mp run
      exact ih (kept s a u start along.1 first) (along.2 u first) tail

theorem progress_along {allowed : σ → ι → Prop} (inv : σ → Prop)
    (advances : ∀ s a, inv s → allowed s a → ∃ t, step s a = some t ∧ inv t) {s : σ} {labels : List ι} (start : inv s)
    (along : Along step allowed s labels) : ∃ t, exec step s labels = some t ∧ inv t := by
  induction labels generalizing s with
  | nil => exact ⟨s, rfl, start⟩
  | cons a rest ih =>
      obtain ⟨t, stepped, kept⟩ := advances s a start along.1
      obtain ⟨u, run, last⟩ := ih kept (along.2 t stepped)
      exact ⟨u, exec_cons_eq_some.mpr ⟨t, stepped, run⟩, last⟩

/-- Where `must` is what a step needs beyond what is allowed, a run goes through exactly when it has it at every step. -/
theorem progress_along_iff {allowed must : σ → ι → Prop} (inv : σ → Prop)
    (advances : ∀ s a, inv s → allowed s a → must s a → ∃ t, step s a = some t ∧ inv t)
    (needed : ∀ s a t, inv s → allowed s a → step s a = some t → must s a) {s : σ} {labels : List ι} (start : inv s)
    (along : Along step allowed s labels) :
    (Along step must s labels ↔ ∃ t, exec step s labels = some t) ∧ ∀ t, exec step s labels = some t → inv t := by
  have kept : ∀ s a t, inv s → allowed s a → step s a = some t → inv t := by
    intro s a t holds fine stepped
    obtain ⟨u, again, next⟩ := advances s a holds fine (needed s a t holds fine stepped)
    cases stepped.symm.trans again
    exact next
  refine ⟨⟨?_, ?_⟩, fun t run => invariant_along inv kept start along run⟩
  · intro held
    obtain ⟨t, run, -⟩ :=
      progress_along inv (fun s a holds both => advances s a holds both.1 both.2) start (along.and held)
    exact ⟨t, run⟩
  · rintro ⟨t, run⟩
    refine Along.iff_forall.mpr ?_
    rintro past a rest u rfl before
    obtain ⟨v, first, later⟩ := exec_append_eq_some.mp run
    cases before.symm.trans first
    obtain ⟨w, stepped, -⟩ := exec_cons_eq_some.mp later
    obtain ⟨earlier, now⟩ := Along.append.mp along
    exact needed u a w (invariant_along inv kept start earlier before) (now u before).1 stepped

theorem invariant (inv : σ → Prop) (kept : ∀ s a t, inv s → step s a = some t → inv t)
    {s t : σ} {labels : List ι} (start : inv s) (run : exec step s labels = some t) : inv t := by
  induction labels generalizing s with
  | nil => cases run; exact start
  | cons a rest ih =>
      obtain ⟨u, first, tail⟩ := exec_cons_eq_some.mp run
      exact ih (kept s a u start first) tail

/-- How many steps of a run `counts` says yes to. -/
def count (step : σ → ι → Option σ) (counts : σ → ι → Bool) : σ → List ι → Nat
  | _, [] => 0
  | s, a :: rest => (counts s a).toNat + (step s a).elim 0 fun t => count step counts t rest

/-- Every step that counts lowers a rank that only the labels with `raises` can raise. -/
theorem count_le {counts : σ → ι → Bool} {raises : ι → Bool} {rank : σ → Nat} {height : Nat} (inv : σ → Prop)
    (kept : ∀ s a t, inv s → step s a = some t →
      inv t ∧ rank t + (counts s a).toNat ≤ rank s + height * (raises a).toNat)
    {s t : σ} {labels : List ι} (start : inv s) (run : exec step s labels = some t) :
    inv t ∧ rank t + count step counts s labels ≤ rank s + height * labels.countP raises := by
  induction labels generalizing s with
  | nil =>
      cases run
      exact ⟨start, Nat.le_refl _⟩
  | cons a rest ih =>
      obtain ⟨u, stepped, run⟩ := exec_cons_eq_some.mp run
      obtain ⟨holds, lower⟩ := kept s a u start stepped
      obtain ⟨ends, bound⟩ := ih holds run
      have raised : (a :: rest).countP raises = rest.countP raises + (raises a).toNat := by
        rw [List.countP_cons]
        cases raises a <;> rfl
      refine ⟨ends, ?_⟩
      rw [raised, Nat.mul_add, count, stepped, Option.elim_some]
      omega

/-- An invariant that also speaks about the labels of the run so far. -/
theorem invariant_past {s₀ t : σ} {labels : List ι} (inv : List ι → σ → Prop)
    (kept : ∀ past s a t, exec step s₀ past = some s → inv past s → step s a = some t → inv (past ++ [a]) t)
    (start : inv [] s₀) (run : exec step s₀ labels = some t) : inv labels t := by
  induction labels using List.reverseRecOn generalizing t with
  | nil => cases run; exact start
  | append_singleton past a ih =>
      obtain ⟨s, before, last⟩ := exec_append_eq_some.mp run
      obtain ⟨u, stepped, done⟩ := exec_cons_eq_some.mp last
      cases done
      exact kept past s a t before (ih before) stepped

end Execution

/-- Runs of a labelled transition relation. -/
inductive Trace {σ ι : Type*} (step : σ → ι → σ → Prop) : σ → List ι → σ → Prop
  | nil (s : σ) : Trace step s [] s
  | cons {s t u : σ} {a : ι} {rest : List ι} (first : step s a t) (others : Trace step t rest u) :
      Trace step s (a :: rest) u

namespace Trace
variable {σ ι : Type*} {step : σ → ι → σ → Prop} {s t u : σ} {first second : List ι}

theorem single {a : ι} (stepped : step s a t) : Trace step s [a] t := .cons stepped (.nil t)

theorem invariant {labels : List ι} (inv : σ → Prop) (kept : ∀ s a t, inv s → a ∈ labels → step s a t → inv t)
    (trace : Trace step s labels t) (start : inv s) : inv t := by
  induction trace with
  | nil s => exact start
  | cons stepped _ ih =>
      exact ih (fun s a t holds member => kept s a t holds (List.mem_cons_of_mem _ member))
        (kept _ _ _ start List.mem_cons_self stepped)

end Trace
