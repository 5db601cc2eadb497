import Libvirtio.Library.Execution
import Libvirtio.Library.Fallible

/-!
# Programs that interleave

A program takes atomic steps over a shared state. Each step also sees an environment, which may have
changed since the step before. Alone a program runs under one environment; in a pool its steps interleave
with those of the others.
-/

inductive Program (η σ ε α : Type) where
  | done (result : Except ε α)
  | step (next : η → σ → Program η σ ε α) (update : η → σ → σ)

namespace Program
variable {η σ ε δ α β : Type}

def bind : Program η σ ε α → (α → Program η σ ε β) → Program η σ ε β
  | .done (.ok a), f => f a
  | .done (.error e), _ => .done (.error e)
  | .step next update, f => .step (fun h s => bind (next h s) f) update

instance : Monad (Program η σ ε) where
  pure a := .done (.ok a)
  bind := bind

def fail (e : ε) : Program η σ ε α := .done (.error e)

def ofExcept (r : Except ε α) : Program η σ ε α := .done r

@[simp] theorem ofExcept_ok_bind (a : α) (f : α → Program η σ ε β) :
    (ofExcept (.ok a) : Program η σ ε α) >>= f = f a := rfl

def ask (f : η → Except ε α) : Program η σ ε α := .step (fun h _ => .done (f h)) (fun _ s => s)

def atomic (f : η → Fallible ε σ α) : Program η σ ε α := .step (fun h s => .done (f h s).1) (fun h s => (f h s).2)

def attempt : Program η σ ε α → Program η σ δ (Except ε α)
  | .done result => .done (.ok result)
  | .step next update => .step (fun h s => attempt (next h s)) update

def result? : Program η σ ε α → Option α
  | .done (.ok a) => some a
  | .done (.error _) | .step _ _ => none

theorem result?_eq_some {p : Program η σ ε α} {a : α} (result : p.result? = some a) : p = .done (.ok a) := by
  cases p with
  | done r =>
      cases r with
      | error e => cases result
      | ok b =>
          cases result
          rfl
  | step next update => cases result

/-! ## Runs without interference -/

def run (h : η) : Program η σ ε α → σ → Except ε α × σ
  | .done result, s => (result, s)
  | .step next update, s => run h (next h s) (update h s)

@[simp] theorem run_pure (h : η) (a : α) (s : σ) : run h (pure a : Program η σ ε α) s = (.ok a, s) := rfl

@[simp] theorem run_fail (h : η) (e : ε) (s : σ) : run h (fail e : Program η σ ε α) s = (.error e, s) := rfl

@[simp] theorem run_ofExcept (h : η) (r : Except ε α) (s : σ) :
    run h (ofExcept r : Program η σ ε α) s = (r, s) := rfl

@[simp] theorem run_ask (h : η) (f : η → Except ε α) (s : σ) : run h (ask f) s = (f h, s) := rfl

@[simp] theorem run_atomic (h : η) (f : η → Fallible ε σ α) (s : σ) : run h (atomic f) s = f h s := rfl

theorem run_bind (h : η) (p : Program η σ ε α) (f : α → Program η σ ε β) (s : σ) :
    run h (p >>= f) s = match run h p s with
      | (.ok a, t) => run h (f a) t
      | (.error e, t) => (.error e, t) := by
  change run h (bind p f) s = _
  induction p generalizing s with
  | done result => cases result <;> rfl
  | step next update ih => exact ih h s (update h s)

theorem run_attempt (h : η) (p : Program η σ ε α) (s : σ) :
    run h (attempt p : Program η σ δ (Except ε α)) s = (.ok (run h p s).1, (run h p s).2) := by
  induction p generalizing s with
  | done result => rfl
  | step next update ih => exact ih h s (update h s)

/-! ## What every step keeps -/

/-- From a state with `inv` each step keeps `inv` and moves along `ext`, and a result satisfies `post`. -/
def Ensures (inv : σ → Prop) (ext : σ → σ → Prop) (post : α → Prop) : Program η σ ε α → Prop
  | .done (.ok a) => post a
  | .done (.error _) => True
  | .step next update => ∀ h s, inv s →
      inv (update h s) ∧ ext s (update h s) ∧ Ensures inv ext post (next h s)

namespace Ensures
variable {inv : σ → Prop} {ext : σ → σ → Prop} {post : α → Prop} {after : β → Prop}

theorem pure {a : α} (holds : post a) : Ensures inv ext post (Pure.pure a : Program η σ ε α) := holds

theorem fail (e : ε) : Ensures inv ext post (Program.fail e : Program η σ ε α) := trivial

theorem ofExcept {r : Except ε α} (holds : ∀ a, r = .ok a → post a) :
    Ensures inv ext post (Program.ofExcept r : Program η σ ε α) := by
  cases r with
  | error e => trivial
  | ok a => exact holds a rfl

theorem ask (refl : ∀ s, ext s s) {f : η → Except ε α} (holds : ∀ h a, f h = .ok a → post a) :
    Ensures inv ext post (Program.ask f : Program η σ ε α) :=
  fun h s start => ⟨start, refl s, ofExcept (holds h)⟩

theorem atomic {f : η → Fallible ε σ α}
    (kept : ∀ h s, inv s → inv (f h s).2 ∧ ext s (f h s).2)
    (holds : ∀ h s a, inv s → (f h s).1 = .ok a → post a) : Ensures inv ext post (Program.atomic f) :=
  fun h s start => ⟨(kept h s start).1, (kept h s start).2, ofExcept fun a => holds h s a start⟩

theorem bind {p : Program η σ ε α} {f : α → Program η σ ε β} (first : Ensures inv ext post p)
    (rest : ∀ a, post a → Ensures inv ext after (f a)) : Ensures inv ext after (p >>= f) := by
  change Ensures inv ext after (Program.bind p f)
  induction p with
  | done result =>
      cases result with
      | error e => trivial
      | ok a => exact rest a first
  | step next update ih =>
      intro h s start
      obtain ⟨kept, moved, tail⟩ := first h s start
      exact ⟨kept, moved, ih h s tail⟩

theorem attempt {p : Program η σ ε α} (first : Ensures inv ext post p) :
    Ensures inv ext (fun r => ∀ a, r = .ok a → post a) (Program.attempt p : Program η σ δ (Except ε α)) := by
  induction p with
  | done result =>
      intro a eq
      subst eq
      exact first
  | step next update ih =>
      intro h s start
      obtain ⟨kept, moved, tail⟩ := first h s start
      exact ⟨kept, moved, ih h s tail⟩

theorem run {h : η} {p : Program η σ ε α} (ensures : Ensures inv ext post p) (refl : ∀ s, ext s s)
    (trans : ∀ a b c, ext a b → ext b c → ext a c) {s : σ} (start : inv s) :
    inv (p.run h s).2 ∧ ext s (p.run h s).2 := by
  induction p generalizing s with
  | done result => exact ⟨start, refl s⟩
  | step next update ih =>
      obtain ⟨kept, moved, tail⟩ := ensures h s start
      obtain ⟨holds, further⟩ := ih h s tail kept
      exact ⟨holds, trans _ _ _ moved further⟩

end Ensures

/-! ## Whatever the steps see -/

/-- The result satisfies `post`, whatever environment and state each of the steps meets. -/
def Always (post : Except ε α → Prop) : Program η σ ε α → Prop
  | .done result => post result
  | .step next _ => ∀ h s, Always post (next h s)

namespace Always
variable {post : Except ε α → Prop} {after : Except ε β → Prop}

theorem ofExcept {r : Except ε α} (holds : post r) : Always post (Program.ofExcept r : Program η σ ε α) := holds

theorem ask {f : η → Except ε α} (holds : ∀ h, post (f h)) : Always post (Program.ask f : Program η σ ε α) :=
  fun h _ => holds h

theorem atomic {f : η → Fallible ε σ α} (holds : ∀ h s, post (f h s).1) : Always post (Program.atomic f) := holds

theorem bind {p : Program η σ ε α} {f : α → Program η σ ε β} (fails : ∀ e, after (.error e))
    (rest : ∀ a, Always after (f a)) : Always after (p >>= f) := by
  change Always after (Program.bind p f)
  induction p with
  | done result =>
      cases result with
      | error e => exact fails e
      | ok a => exact rest a
  | step next update ih => exact ih

theorem bind_attempt {p : Program η σ ε α} {f : Except ε α → Program η σ δ β} {after : Except δ β → Prop}
    (first : Always post p) (rest : ∀ r, post r → Always after (f r)) : Always after (attempt p >>= f) := by
  change Always after (Program.bind (attempt p) f)
  induction p with
  | done result => exact rest result first
  | step next update ih => exact fun h s => ih h s (first h s)

theorem run {p : Program η σ ε α} (always : Always post p) (h : η) (s : σ) : post (p.run h s).1 := by
  induction p generalizing s with
  | done result => exact always
  | step next update ih => exact ih h s (always h s) (update h s)

end Always

/-! ## Results under interference -/

/-- Every step meets an environment of `envs`, and others move the state along `ext` between the steps. A result
satisfies `post` in the state in which it is reached. -/
def Settles (envs : η → Prop) (inv : σ → Prop) (ext : σ → σ → Prop) (post : σ → α → Prop) : Program η σ ε α → σ → Prop
  | .done (.ok a), s => post s a
  | .done (.error _), _ => True
  | .step next update, s => ∀ h t, envs h → inv t → ext s t → Settles envs inv ext post (next h t) (update h t)

namespace Settles
variable {envs : η → Prop} {inv : σ → Prop} {ext : σ → σ → Prop} {post : σ → α → Prop} {after : σ → β → Prop} {s t : σ}

theorem pure {a : α} (holds : post s a) : Settles envs inv ext post (Pure.pure a : Program η σ ε α) s := holds

theorem fail (e : ε) : Settles envs inv ext post (Program.fail e : Program η σ ε α) s := trivial

theorem ofExcept {r : Except ε α} (holds : ∀ a, r = .ok a → post s a) :
    Settles envs inv ext post (Program.ofExcept r : Program η σ ε α) s := by
  cases r with
  | error e => trivial
  | ok a => exact holds a rfl

theorem ask {f : η → Except ε α} (holds : ∀ h t a, envs h → inv t → ext s t → f h = .ok a → post t a) :
    Settles envs inv ext post (Program.ask f : Program η σ ε α) s :=
  fun h t met kept moved => ofExcept fun a => holds h t a met kept moved

theorem atomic {f : η → Fallible ε σ α}
    (holds : ∀ h t a, envs h → inv t → ext s t → (f h t).1 = .ok a → post (f h t).2 a) :
    Settles envs inv ext post (Program.atomic f) s :=
  fun h t met kept moved => ofExcept fun a => holds h t a met kept moved

theorem bind {p : Program η σ ε α} {f : α → Program η σ ε β} (first : Settles envs inv ext post p s)
    (rest : ∀ a t, post t a → Settles envs inv ext after (f a) t) : Settles envs inv ext after (p >>= f) s := by
  change Settles envs inv ext after (Program.bind p f) s
  induction p generalizing s with
  | done result =>
      cases result with
      | error e => trivial
      | ok a => exact rest a s first
  | step next update ih => exact fun h t met kept moved => ih h t (first h t met kept moved)

theorem attempt {p : Program η σ ε α} (first : Settles envs inv ext post p s) :
    Settles envs inv ext (fun t r => ∀ a, r = .ok a → post t a) (Program.attempt p : Program η σ δ (Except ε α)) s := by
  induction p generalizing s with
  | done result =>
      intro a eq
      subst eq
      exact first
  | step next update ih => exact fun h t met kept moved => ih h t (first h t met kept moved)

theorem of_forall {p : Program η σ ε α} (holds : ∀ t a, post t a) : Settles envs inv ext post p s := by
  induction p generalizing s with
  | done result =>
      cases result with
      | error e => trivial
      | ok a => exact holds s a
  | step next update ih => exact fun h t _ _ _ => ih h t

theorem weaken {p : Program η σ ε α} {weaker : σ → α → Prop} (settles : Settles envs inv ext post p s)
    (implied : ∀ t a, post t a → weaker t a) : Settles envs inv ext weaker p s := by
  induction p generalizing s with
  | done result =>
      cases result with
      | error e => trivial
      | ok a => exact implied s a settles
  | step next update ih => exact fun h t met kept moved => ih h t (settles h t met kept moved)

theorem moved {p : Program η σ ε α} (settles : Settles envs inv ext post p s)
    (trans : ∀ a b c, ext a b → ext b c → ext a c) (stable : ∀ a, inv t → ext s t → post s a → post t a)
    (kept : inv t) (moved : ext s t) : Settles envs inv ext post p t := by
  cases p with
  | done result =>
      cases result with
      | error e => trivial
      | ok a => exact stable a kept moved settles
  | step next update => exact fun h u met holds further => settles h u met holds (trans _ _ _ moved further)

theorem run {h : η} {p : Program η σ ε α} {any : α → Prop} (settles : Settles envs inv ext post p s)
    (ensures : Ensures inv ext any p) (met : envs h) (refl : ∀ s, ext s s) (start : inv s) {a : α}
    (result : (p.run h s).1 = .ok a) : post (p.run h s).2 a := by
  induction p generalizing s with
  | done r =>
      change r = .ok a at result
      subst result
      exact settles
  | step next update ih =>
      obtain ⟨kept, -, tail⟩ := ensures h s start
      exact ih h s (settles h s met start (refl s)) tail kept result

end Settles

/-! ## Pools -/

structure Pool (η σ ε α : Type) where
  state : σ
  programs : List (Program η σ ε α)

inductive Schedule (η ι : Type) where
  | spawn (request : ι)
  | advance (index : Nat) (h : η)

namespace Pool
variable {ι : Type} (start : ι → Program η σ ε α)

def step (pool : Pool η σ ε α) : Schedule η ι → Option (Pool η σ ε α)
  | .spawn request => some { pool with programs := pool.programs ++ [start request] }
  | .advance index h =>
      match pool.programs[index]? with
      | some (.step next update) =>
          some ⟨update h pool.state, pool.programs.set index (next h pool.state)⟩
      | _ => none

structure Sound (inv : σ → Prop) (ext : σ → σ → Prop) (post : α → Prop) (origin : σ)
    (pool : Pool η σ ε α) : Prop where
  holds : inv pool.state
  extends_origin : ext origin pool.state
  programs : ∀ p ∈ pool.programs, p.Ensures inv ext post

variable {start} {inv : σ → Prop} {ext : σ → σ → Prop} {post : α → Prop} {origin : σ}

theorem Sound.step (trans : ∀ a b c, ext a b → ext b c → ext a c)
    (ensures : ∀ request, (start request).Ensures inv ext post) {pool next : Pool η σ ε α}
    {label : Schedule η ι} (sound : Sound inv ext post origin pool)
    (moved : Pool.step start pool label = some next) : Sound inv ext post origin next := by
  cases label with
  | spawn request =>
      cases moved
      refine ⟨sound.holds, sound.extends_origin, fun p member => ?_⟩
      rcases List.mem_append.mp member with old | new
      · exact sound.programs p old
      · rw [List.mem_singleton.mp new]
        exact ensures request
  | advance index h =>
      simp only [Pool.step] at moved
      split at moved
      · rename_i continuation update found
        cases moved
        obtain ⟨kept, extended, tail⟩ :=
          sound.programs _ (List.mem_of_getElem? found) h pool.state sound.holds
        refine ⟨kept, trans _ _ _ sound.extends_origin extended, fun p member => ?_⟩
        rcases List.mem_or_eq_of_mem_set member with old | rfl
        · exact sound.programs p old
        · exact tail
      · cases moved

theorem Sound.exec (trans : ∀ a b c, ext a b → ext b c → ext a c)
    (ensures : ∀ request, (start request).Ensures inv ext post) {pool final : Pool η σ ε α}
    {labels : List (Schedule η ι)} (sound : Sound inv ext post origin pool)
    (run : exec (Pool.step start) pool labels = some final) : Sound inv ext post origin final :=
  Execution.invariant (Sound inv ext post origin) (fun _ _ _ sound moved => sound.step trans ensures moved) sound run

theorem extends_later (refl : ∀ s, ext s s) (trans : ∀ a b c, ext a b → ext b c → ext a c)
    (ensures : ∀ request, (start request).Ensures inv ext post) {pool final : Pool η σ ε α}
    {labels : List (Schedule η ι)} (sound : Sound inv ext post origin pool)
    (run : exec (Pool.step start) pool labels = some final) : ext pool.state final.state :=
  have here : Sound inv ext post pool.state pool := ⟨sound.holds, refl _, sound.programs⟩
  (here.exec trans ensures run).extends_origin

/-! ## Replies -/

def spawned (labels : List (Schedule η ι)) : List ι :=
  labels.filterMap fun label =>
    match label with
    | .spawn request => some request
    | .advance _ _ => none

/-- The environment of a step is one of `envs`. -/
def Meets (envs : η → Prop) : Schedule η ι → Prop
  | .spawn _ => True
  | .advance _ h => envs h

def Under (h : η) : Schedule η ι → Prop := Meets (· = h)

/-- In the run with these labels `request` was started, and `reply` is its result. -/
def Answered (labels : List (Schedule η ι)) (pool : Pool η σ ε α) (request : ι) (reply : α) : Prop :=
  ∃ index : Nat, (spawned labels)[index]? = some request ∧ pool.programs[index]?.bind Program.result? = some reply

theorem result_of (pool : Pool η σ ε α) {replies : List (Option α)} (same : pool.programs.map result? = replies)
    (index : Nat) : pool.programs[index]?.bind result? = replies[index]?.join := by
  rw [← same, List.getElem?_map]
  cases pool.programs[index]? <;> rfl

variable {envs : η → Prop} {answer : ι → σ → α → Prop}

structure Settling (envs : η → Prop) (inv : σ → Prop) (ext : σ → σ → Prop) (answer : ι → σ → α → Prop)
    (past : List (Schedule η ι)) (pool : Pool η σ ε α) : Prop where
  paired : pool.programs.length = (spawned past).length
  settles : ∀ (index : Nat) request p, (spawned past)[index]? = some request → pool.programs[index]? = some p →
    p.Settles envs inv ext (answer request) pool.state

theorem Settling.step (refl : ∀ s, ext s s) (trans : ∀ a b c, ext a b → ext b c → ext a c)
    (stable : ∀ request s t a, inv t → ext s t → answer request s a → answer request t a)
    (starts : ∀ request s, (start request).Settles envs inv ext (answer request) s)
    {past : List (Schedule η ι)} {pool next : Pool η σ ε α} {label : Schedule η ι}
    (sound : Sound inv ext post origin pool) (settling : Settling envs inv ext answer past pool) (met : Meets envs label)
    (moved : Pool.step start pool label = some next) : Settling envs inv ext answer (past ++ [label]) next := by
  cases label with
  | spawn request =>
      cases moved
      have grown : spawned (past ++ [.spawn request]) = spawned past ++ [request] := by simp [spawned]
      refine ⟨?_, ?_⟩
      · rw [grown, List.length_append, List.length_append, settling.paired]
        rfl
      · intro index other p asked found
        rw [grown] at asked
        rcases Nat.lt_or_ge index pool.programs.length with old | new
        · rw [List.getElem?_append_left old] at found
          rw [List.getElem?_append_left (settling.paired ▸ old)] at asked
          exact settling.settles index other p asked found
        · rw [List.getElem?_append_right new] at found
          rw [List.getElem?_append_right (settling.paired ▸ new), ← settling.paired] at asked
          obtain rfl := List.mem_singleton.mp (List.mem_of_getElem? found)
          obtain rfl := List.mem_singleton.mp (List.mem_of_getElem? asked)
          exact starts _ pool.state
  | advance position env =>
      have same : spawned (past ++ [.advance position env]) = spawned past := by simp [spawned]
      simp only [Pool.step] at moved
      split at moved
      · rename_i continuation update running
        cases moved
        obtain ⟨kept, extended, -⟩ := sound.programs _ (List.mem_of_getElem? running) env pool.state sound.holds
        refine ⟨?_, ?_⟩
        · rw [same, List.length_set, settling.paired]
        · intro index request p asked found
          rw [same] at asked
          by_cases here : position = index
          · subst here
            have inside := (List.getElem?_eq_some_iff.mp running).1
            rw [List.getElem?_set_self inside] at found
            cases found
            exact settling.settles position request _ asked running env pool.state met sound.holds (refl _)
          · rw [List.getElem?_set_ne here] at found
            exact (settling.settles index request p asked found).moved trans
              (fun a => stable request pool.state _ a) kept extended
      · cases moved

theorem Settling.answered (refl : ∀ s, ext s s) (trans : ∀ a b c, ext a b → ext b c → ext a c)
    (stable : ∀ request s t a, inv t → ext s t → answer request s a → answer request t a)
    (ensures : ∀ request, (start request).Ensures inv ext post)
    (starts : ∀ request s, (start request).Settles envs inv ext (answer request) s) (holds : inv origin)
    {labels : List (Schedule η ι)} (met : ∀ label ∈ labels, Meets envs label) {pool : Pool η σ ε α}
    (run : exec (Pool.step start) ⟨origin, []⟩ labels = some pool) {request : ι} {reply : α}
    (answered : Answered labels pool request reply) : answer request pool.state reply := by
  have empty : Sound inv ext post origin (⟨origin, []⟩ : Pool η σ ε α) :=
    ⟨holds, refl origin, fun _ member => absurd member List.not_mem_nil⟩
  have settling : (∀ label ∈ labels, Meets envs label) → Settling envs inv ext answer labels pool := by
    refine Execution.invariant_past
      (fun past pool => (∀ label ∈ past, Meets envs label) → Settling envs inv ext answer past pool) ?_ ?_ run
    · intro past before label next reached settled moved fixed
      obtain ⟨earlier, last⟩ := List.forall_mem_append.mp fixed
      exact Settling.step refl trans stable starts (empty.exec trans ensures reached) (settled earlier)
        (last label (List.mem_singleton_self label)) moved
    · exact fun _ => ⟨rfl, fun index _ _ asked => by simp [spawned] at asked⟩
  obtain ⟨index, asked, replied⟩ := answered
  obtain ⟨p, found, result⟩ := Option.bind_eq_some_iff.mp replied
  rw [result?_eq_some result] at found
  exact (settling met).settles index request _ asked found

end Pool

end Program
