import Libvirtio.Library.Execution
import Libvirtio.Library.Fallible
import Libvirtio.Library.Notify

/-!
# Loops that wait for a notification

The loop creates a future, looks at a flag that says it is to stop, waits, looks again, and then makes a pass: each of
its rounds is repeated until it has nothing to do. A gate may send it back before the pass. Anything outside may happen
between two of its steps.
-/

namespace WakeLoop

inductive Pc (ε : Type) where
  | top
  | created
  | awaiting
  | woken
  | gated
  | pass (loop : Nat)
  | draining
  | returned (result : Except ε Unit)
  deriving DecidableEq

structure State (ε σ : Type) where
  inner : σ
  wake : Notify
  down : Bool
  pc : Pc ε

inductive Label (κ : Type) where
  | outside (event : κ)
  | kick
  | stopDown
  | stopWake
  | advance
  | poll
  | round

structure Loop (ε σ κ : Type) where
  rounds : List (Fallible ε σ Bool)
  gate : σ → Bool × σ
  outside : κ → σ → σ

variable {ε σ κ : Type} (l : Loop ε σ κ)

def advance (s : State ε σ) : Option (State ε σ) :=
  match s.pc with
  | .top => some { s with pc := .created, wake := s.wake.create }
  | .created =>
      if s.down then some { s with pc := .draining, wake := s.wake.drop } else some { s with pc := .awaiting }
  | .woken => if s.down then some { s with pc := .draining } else some { s with pc := .gated }
  | .gated =>
      match l.gate s.inner with
      | (true, inner) => some { s with inner, pc := .pass 0 }
      | (false, inner) => some { s with inner, pc := .top }
  | .draining => some { s with pc := .returned (.ok ()) }
  | _ => none

def poll (s : State ε σ) : Option (State ε σ) :=
  match s.pc, s.wake.poll with
  | .awaiting, (true, wake) => some { s with wake, pc := .woken }
  | .awaiting, (false, wake) => some { s with wake }
  | _, _ => none

def round (s : State ε σ) : Option (State ε σ) :=
  match s.pc with
  | .pass loop =>
      match l.rounds[loop]? with
      | none => some { s with pc := .top }
      | some round =>
          match round s.inner with
          | (.ok true, inner) => some { s with inner }
          | (.ok false, inner) => some { s with inner, pc := .pass (loop + 1) }
          | (.error e, inner) => some { s with inner, pc := .returned (.error e) }
  | _ => none

def step (s : State ε σ) : Label κ → Option (State ε σ)
  | .outside event => some { s with inner := l.outside event s.inner }
  | .kick => some { s with wake := s.wake.notifyOne }
  | .stopDown => some { s with down := true }
  | .stopWake => if s.down then some { s with wake := s.wake.notifyWaiters } else none
  | .advance => advance l s
  | .poll => poll s
  | .round => round l s

def initial (inner : σ) : State ε σ where
  inner := inner
  wake := ⟨false, .absent⟩
  down := false
  pc := .top

/-! ## The future -/

def Pc.waits : Pc ε → Bool
  | .created | .awaiting => true
  | _ => false

/-- The loop has a future exactly while it waits. -/
def Shaped (s : State ε σ) : Prop := s.wake.waiter = .absent ↔ s.pc.waits = false

variable {l} {s t : State ε σ} {label : Label κ}

theorem initial_shaped (inner : σ) : Shaped (initial inner : State ε σ) := iff_of_true rfl rfl

theorem notifyOne_absent (cell : Notify) : cell.notifyOne.waiter = .absent ↔ cell.waiter = .absent := by
  unfold Notify.notifyOne
  split
  · rename_i waiting
    simp [waiting]
  · exact Iff.rfl

theorem notifyWaiters_absent (cell : Notify) : cell.notifyWaiters.waiter = .absent ↔ cell.waiter = .absent := by
  unfold Notify.notifyWaiters
  split
  · rename_i created
    simp [created]
  · rename_i waiting
    simp [waiting]
  · exact Iff.rfl

theorem advance_shaped (shaped : Shaped s) (stepped : advance l s = some t) : Shaped t := by
  unfold advance at stepped
  split at stepped
  · cases stepped
    exact iff_of_false (by simp [Notify.create]) (by simp [Pc.waits])
  · rename_i pc
    split at stepped
    · cases stepped
      exact iff_of_true (Notify.drop_waiter s.wake) rfl
    · cases stepped
      rw [Shaped, pc] at shaped
      exact shaped
  · rename_i pc
    rw [Shaped, pc] at shaped
    split at stepped <;> cases stepped <;> exact shaped
  · rename_i pc
    rw [Shaped, pc] at shaped
    split at stepped <;> cases stepped <;> exact shaped
  · rename_i pc
    rw [Shaped, pc] at shaped
    cases stepped
    exact shaped
  · cases stepped

theorem poll_absent {cell after : Notify} (waits : cell.poll = (false, after)) :
    after.waiter = .absent ↔ cell.waiter = .absent := by
  unfold Notify.poll at waits
  split at waits
  · rename_i created
    split at waits
    · cases waits
    · split at waits
      · cases waits
      · cases waits
        simp [created]
  · cases waits
  · cases waits
    exact Iff.rfl
  · cases waits
    exact Iff.rfl

theorem poll_shaped (shaped : Shaped s) (stepped : poll s = some t) : Shaped t := by
  unfold poll at stepped
  split at stepped
  · rename_i ready
    cases stepped
    exact iff_of_true (Notify.poll_waiter ready) rfl
  · rename_i waits
    cases stepped
    exact (poll_absent waits).trans shaped
  · cases stepped

theorem round_shaped (shaped : Shaped s) (stepped : round l s = some t) : Shaped t := by
  unfold round at stepped
  split at stepped
  · rename_i loop pc
    split at stepped
    · cases stepped
      rw [Shaped, pc] at shaped
      exact shaped
    · split at stepped
      · cases stepped
        exact shaped
      · cases stepped
        rw [Shaped, pc] at shaped
        exact shaped
      · cases stepped
        rw [Shaped, pc] at shaped
        exact shaped
  · cases stepped

theorem step_shaped (shaped : Shaped s) (stepped : step l s label = some t) : Shaped t := by
  cases label with
  | outside event =>
      cases stepped
      exact shaped
  | kick =>
      cases stepped
      exact (notifyOne_absent s.wake).trans shaped
  | stopDown =>
      cases stepped
      exact shaped
  | stopWake =>
      simp only [step] at stepped
      split at stepped
      · cases stepped
        exact (notifyWaiters_absent s.wake).trans shaped
      · cases stepped
  | advance => exact advance_shaped shaped stepped
  | poll => exact poll_shaped shaped stepped
  | round => exact round_shaped shaped stepped

theorem run_shaped {labels : List (Label κ)} {inner : σ} (run : exec (step l) (initial inner) labels = some s) : Shaped s :=
  Execution.invariant Shaped (fun _ _ _ => step_shaped) (initial_shaped inner) run

/-! ## The state of a loop that runs -/

def State.Running (s : State ε σ) : Prop := ∀ result, s.pc ≠ .returned result

theorem advance_inner (stepped : advance l s = some t) :
    s.Running ∧ (t.inner = s.inner ∨ t.inner = (l.gate s.inner).2) := by
  unfold advance at stepped
  split at stepped
  · rename_i pc
    cases stepped
    exact ⟨by simp [State.Running, pc], .inl rfl⟩
  · rename_i pc
    refine ⟨by simp [State.Running, pc], ?_⟩
    split at stepped <;> cases stepped <;> exact .inl rfl
  · rename_i pc
    refine ⟨by simp [State.Running, pc], ?_⟩
    split at stepped <;> cases stepped <;> exact .inl rfl
  · rename_i pc
    refine ⟨by simp [State.Running, pc], .inr ?_⟩
    split at stepped <;> rename_i answer <;> cases stepped <;> rw [answer]
  · rename_i pc
    cases stepped
    exact ⟨by simp [State.Running, pc], .inl rfl⟩
  · cases stepped

theorem poll_inner (stepped : poll s = some t) : s.Running ∧ t.inner = s.inner := by
  unfold poll at stepped
  split at stepped
  · rename_i pc ready
    cases stepped
    exact ⟨by simp [State.Running, pc], rfl⟩
  · rename_i pc waits
    cases stepped
    exact ⟨by simp [State.Running, pc], rfl⟩
  · cases stepped

theorem round_inner (stepped : round l s = some t) : s.Running ∧ (t.inner = s.inner ∨
    ∃ round ∈ l.rounds, t.inner = (round s.inner).2 ∧
      ((∃ again, (round s.inner).1 = .ok again) ∨ ∃ e, t.pc = .returned (.error e))) := by
  unfold round at stepped
  split at stepped
  · rename_i loop pc
    refine ⟨by simp [State.Running, pc], ?_⟩
    split at stepped
    · cases stepped
      exact .inl rfl
    · rename_i round found
      refine .inr ⟨round, List.mem_of_getElem? found, ?_⟩
      split at stepped <;> rename_i ran <;> cases stepped <;> rw [ran]
      · exact ⟨rfl, .inl ⟨true, rfl⟩⟩
      · exact ⟨rfl, .inl ⟨false, rfl⟩⟩
      · exact ⟨rfl, .inr ⟨_, rfl⟩⟩
  · cases stepped

/-- What the rounds that succeed keep holds as long as the loop runs. -/
theorem step_running {P : σ → Prop}
    (outside : ∀ event, label = .outside event → P s.inner → P (l.outside event s.inner))
    (gate : P s.inner → P (l.gate s.inner).2)
    (rounds : ∀ round ∈ l.rounds, ∀ again, label = .round → P s.inner → (round s.inner).1 = .ok again →
      P (round s.inner).2)
    (holds : s.Running → P s.inner) (stepped : step l s label = some t) (running : t.Running) : P t.inner := by
  cases label with
  | outside event =>
      cases stepped
      exact outside event rfl (holds running)
  | kick | stopDown =>
      cases stepped
      exact holds running
  | stopWake =>
      simp only [step] at stepped
      split at stepped
      · cases stepped
        exact holds running
      · cases stepped
  | advance =>
      obtain ⟨before, same | gated⟩ := advance_inner stepped
      · rw [same]
        exact holds before
      · rw [gated]
        exact gate (holds before)
  | poll =>
      obtain ⟨before, same⟩ := poll_inner stepped
      rw [same]
      exact holds before
  | round =>
      obtain ⟨before, same | ⟨round, member, same, ⟨again, ok⟩ | ⟨e, failed⟩⟩⟩ := round_inner stepped
      · rw [same]
        exact holds before
      · rw [same]
        exact rounds round member again rfl (holds before) ok
      · exact absurd failed (running _)

/-- What every round keeps, whether it fails or not, holds along a run. -/
theorem step_keeps {P : σ → Prop} (outside : ∀ event inner, P inner → P (l.outside event inner))
    (gate : ∀ inner, P inner → P (l.gate inner).2) (rounds : ∀ round ∈ l.rounds, ∀ inner, P inner → P (round inner).2)
    (holds : P s.inner) (stepped : step l s label = some t) : P t.inner := by
  cases label with
  | outside event =>
      cases stepped
      exact outside event s.inner holds
  | kick | stopDown =>
      cases stepped
      exact holds
  | stopWake =>
      simp only [step] at stepped
      split at stepped
      · cases stepped
        exact holds
      · cases stepped
  | advance =>
      obtain ⟨-, same | gated⟩ := advance_inner stepped
      · rw [same]
        exact holds
      · rw [gated]
        exact gate s.inner holds
  | poll =>
      rw [(poll_inner stepped).2]
      exact holds
  | round =>
      obtain ⟨-, same | ⟨round, member, same, -⟩⟩ := round_inner stepped
      · rw [same]
        exact holds
      · rw [same]
        exact rounds round member s.inner holds

/-! ## No kick is lost -/

/-- At some point of the run from `s` the round was tried and had nothing to do. -/
def Idled (l : Loop ε σ κ) (s : State ε σ) (labels : List (Label κ)) (loop : Nat) : Prop :=
  ∃ first rest t round, labels = first ++ rest ∧ exec (step l) s first = some t ∧ t.pc = .pass loop ∧
    l.rounds[loop]? = some round ∧ (round t.inner).1 = .ok false

theorem Idled.snoc {labels : List (Label κ)} {loop : Nat} (idled : Idled l s labels loop) (label : Label κ) :
    Idled l s (labels ++ [label]) loop := by
  obtain ⟨first, rest, t, round, rfl, found⟩ := idled
  exact ⟨first, rest ++ [label], t, round, List.append_assoc _ _ _, found⟩

/-- The gate lets a loop pass, and nothing but the loop itself closes it. -/
structure Gated (l : Loop ε σ κ) : Prop where
  outside : ∀ event inner, (l.gate inner).1 = true → (l.gate (l.outside event inner)).1 = true
  rounds : ∀ round ∈ l.rounds, ∀ inner, (l.gate inner).1 = true → (l.gate (round inner).2).1 = true

/-- Work that was there when the gate opened and that the loop has not dealt with. It is dealt with by a pass that
starts at the open gate, and from the kick on the loop is on its way to the gate. -/
inductive Owed (l : Loop ε σ κ) (kicked : Prop) (idled : Nat → Prop) (t : State ε σ) : Prop
  | opened (gate : (l.gate t.inner).1 = true) (heard : kicked → t.wake.Armed ∨ t.pc = .woken ∨ t.pc = .gated)
  | pass {loop : Nat} (pc : t.pc = .pass loop) (earlier : ∀ other < loop, idled other)
  | paid (all : ∀ loop < l.rounds.length, idled loop)
  | left (pc : t.pc = .draining ∨ ∃ result, t.pc = .returned result)

namespace Owed
variable {kicked : Prop} {idled later : Nat → Prop}

/-- A step that leaves the loop where it is and takes no permit away. -/
theorem frame (owed : Owed l kicked idled s) (more : ∀ loop, idled loop → later loop) (pc : t.pc = s.pc)
    (gate : (l.gate s.inner).1 = true → (l.gate t.inner).1 = true) (armed : s.wake.Armed → t.wake.Armed) :
    Owed l kicked later t := by
  cases owed with
  | opened set heard =>
      rw [← pc] at heard
      exact .opened (gate set) fun sent => (heard sent).imp_left armed
  | pass here earlier => exact .pass (pc.trans here) fun other below => more other (earlier other below)
  | paid all => exact .paid fun loop below => more loop (all loop below)
  | left here => exact .left (pc ▸ here)

/-- A step from a place before the gate. -/
theorem leave (owed : Owed l kicked idled s) (more : ∀ loop, idled loop → later loop)
    (elsewhere : (∀ loop, s.pc ≠ .pass loop) ∧ s.pc ≠ .draining ∧ ∀ result, s.pc ≠ .returned result)
    (moved : (l.gate s.inner).1 = true → (kicked → s.wake.Armed ∨ s.pc = .woken ∨ s.pc = .gated) →
      Owed l kicked later t) : Owed l kicked later t := by
  obtain ⟨pass, draining, returned⟩ := elsewhere
  cases owed with
  | opened gate heard => exact moved gate heard
  | pass here earlier => exact absurd here (pass _)
  | paid all => exact .paid fun loop below => more loop (all loop below)
  | left here =>
      rcases here with here | ⟨result, here⟩
      · exact absurd here draining
      · exact absurd here (returned result)

theorem advance (owed : Owed l kicked idled s) (more : ∀ loop, idled loop → later loop) (shaped : Shaped s)
    (stepped : advance l s = some t) : Owed l kicked later t := by
  unfold WakeLoop.advance at stepped
  split at stepped
  · rename_i pc
    cases stepped
    apply owed.leave more (by simp [pc])
    intro gate heard
    refine .opened gate fun sent => ?_
    have armed : s.wake.Armed := by simpa [pc] using heard sent
    exact .inl (armed.create (shaped.mpr (by rw [pc]; rfl)))
  · rename_i pc
    split at stepped
    · cases stepped
      exact .left (.inl rfl)
    · cases stepped
      apply owed.leave more (by simp [pc])
      intro gate heard
      exact .opened gate fun sent => .inl (by simpa [pc] using heard sent)
  · rename_i pc
    split at stepped
    · cases stepped
      exact .left (.inl rfl)
    · cases stepped
      exact owed.leave more (by simp [pc]) fun gate _ => .opened gate fun _ => .inr (.inr rfl)
  · rename_i pc
    split at stepped
    · cases stepped
      exact .pass rfl fun other below => absurd below (Nat.not_lt_zero other)
    · rename_i closed
      cases stepped
      apply owed.leave more (by simp [pc])
      intro gate
      rw [closed] at gate
      cases gate
  · cases stepped
    exact .left (.inr ⟨_, rfl⟩)
  · cases stepped

theorem poll (owed : Owed l kicked idled s) (more : ∀ loop, idled loop → later loop) (stepped : poll s = some t) :
    Owed l kicked later t := by
  unfold WakeLoop.poll at stepped
  split at stepped
  · rename_i pc ready
    cases stepped
    exact owed.leave more (by simp [pc]) fun gate _ => .opened gate fun _ => .inr (.inl rfl)
  · rename_i pc waits
    cases stepped
    exact owed.frame more rfl id fun armed => armed.poll waits
  · cases stepped

theorem round (owed : Owed l kicked idled s) (more : ∀ loop, idled loop → later loop) (gated : Gated l)
    (tried : ∀ loop round, s.pc = .pass loop → l.rounds[loop]? = some round → (round s.inner).1 = .ok false → later loop)
    (stepped : round l s = some t) : Owed l kicked later t := by
  unfold WakeLoop.round at stepped
  split at stepped
  · rename_i loop pc
    have kept {inner : σ} {next : Pc ε} (gate : (l.gate s.inner).1 = true → (l.gate inner).1 = true)
        (moved : (∀ other < loop, later other) → Owed l kicked later ⟨inner, s.wake, s.down, next⟩) :
        Owed l kicked later ⟨inner, s.wake, s.down, next⟩ := by
      cases owed with
      | opened set heard => exact .opened (gate set) fun sent => .inl (by simpa [pc] using heard sent)
      | pass here earlier =>
          cases pc.symm.trans here
          exact moved fun other below => more other (earlier other below)
      | paid all => exact .paid fun loop below => more loop (all loop below)
      | left here => simp [pc] at here
    split at stepped
    · rename_i none
      cases stepped
      have past : l.rounds.length ≤ loop := List.getElem?_eq_none_iff.mp none
      exact kept id fun earlier => .paid fun other below => earlier other (Nat.lt_of_lt_of_le below past)
    · rename_i round found
      have gate := gated.rounds round (List.mem_of_getElem? found) s.inner
      split at stepped
      · rename_i more
        rw [more] at gate
        cases stepped
        rw [pc]
        exact kept gate fun earlier => .pass rfl earlier
      · rename_i idle
        rw [idle] at gate
        cases stepped
        apply kept gate
        intro earlier
        apply Owed.pass rfl
        intro other below
        rcases Nat.lt_succ_iff_lt_or_eq.mp below with before | rfl
        · exact earlier other before
        · exact tried other _ pc found (by rw [idle])
      · cases stepped
        exact .left (.inr ⟨_, rfl⟩)
  · cases stepped

end Owed

theorem armed_notifyWaiters {cell : Notify} (armed : cell.Armed) : cell.notifyWaiters.Armed := by
  unfold Notify.notifyWaiters
  rcases armed with permit | notified
  · split <;> exact .inl permit
  · rw [notified]
    exact .inr notified

/-- From the kick on, the loop has heard of the open gate. -/
theorem Owed.kick {kicked : Prop} {idled : Nat → Prop} (owed : Owed l kicked idled s) :
    Owed l True idled { s with wake := s.wake.notifyOne } := by
  cases owed with
  | opened gate _ => exact .opened gate fun _ => .inl (Notify.armed_notifyOne s.wake)
  | pass here earlier => exact .pass here earlier
  | paid all => exact .paid all
  | left here => exact .left here

theorem step_owed {kicked : Prop} {labels : List (Label κ)} {u : State ε σ} (gated : Gated l)
    (run : exec (step l) s labels = some t) (shaped : Shaped t) (owed : Owed l kicked (Idled l s labels) t)
    (stepped : step l t label = some u) : Owed l kicked (Idled l s (labels ++ [label])) u := by
  have more (loop : Nat) (idled : Idled l s labels loop) : Idled l s (labels ++ [label]) loop := idled.snoc label
  cases label with
  | outside event =>
      cases stepped
      exact owed.frame more rfl (gated.outside event t.inner) id
  | kick =>
      cases stepped
      exact owed.frame more rfl id fun _ => Notify.armed_notifyOne t.wake
  | stopDown =>
      cases stepped
      exact owed.frame more rfl id id
  | stopWake =>
      simp only [step] at stepped
      split at stepped
      · cases stepped
        exact owed.frame more rfl id armed_notifyWaiters
      · cases stepped
  | advance => exact owed.advance more shaped stepped
  | poll => exact owed.poll more stepped
  | round =>
      apply owed.round more gated _ stepped
      intro loop round pc found idle
      exact ⟨labels, [.round], t, round, rfl, run, pc, found, idle⟩

theorem run_owed {kicked : Prop} {past labels : List (Label κ)} {u : State ε σ} (gated : Gated l)
    (before : exec (step l) s past = some t) (shaped : Shaped t) (owed : Owed l kicked (Idled l s past) t)
    (run : exec (step l) t labels = some u) : Owed l kicked (Idled l s (past ++ labels)) u := by
  have both := Execution.invariant_past (fun labels u => Shaped u ∧ Owed l kicked (Idled l s (past ++ labels)) u) ?_
    ⟨shaped, by simpa using owed⟩ run
  · exact both.2
  · rintro labels u label v ran ⟨shaped, owed⟩ stepped
    have reached := Execution.exec_append_eq_some.mpr ⟨t, before, ran⟩
    rw [← List.append_assoc]
    exact ⟨step_shaped shaped stepped, step_owed gated reached shaped owed stepped⟩

/-- When a loop waits after a kick, every round of a pass has been tried since the gate was opened before the kick, and
had nothing to do. -/
theorem idled_of_parked {first middle rest : List (Label κ)} {inner : σ} {ready kicked parked : State ε σ}
    (gated : Gated l) (before : exec (step l) (initial inner) first = some ready) (gate : (l.gate ready.inner).1 = true)
    (kicking : exec (step l) ready (middle ++ [.kick]) = some kicked) (after : exec (step l) kicked rest = some parked)
    (pc : parked.pc = .awaiting) (wake : parked.wake = ⟨false, .waiting⟩) {loop : Nat} (below : loop < l.rounds.length) :
    Idled l ready (middle ++ [.kick] ++ rest) loop := by
  obtain ⟨s, between, last⟩ := Execution.exec_append_eq_some.mp kicking
  have shaped := run_shaped before
  have early : Owed l False (Idled l ready middle) s :=
    run_owed gated (Execution.exec_nil ready) shaped (.opened gate False.elim) between
  have heard : Owed l True (Idled l ready (middle ++ [.kick])) kicked := by
    cases last
    exact early.kick.frame (fun _ idled => idled.snoc .kick) rfl id id
  have reached := run_shaped (Execution.exec_append_eq_some.mpr ⟨ready, before, kicking⟩)
  cases run_owed gated kicking reached heard after with
  | opened _ heard =>
      have armed : parked.wake.Armed := by simpa [pc] using heard trivial
      exact absurd armed (Notify.not_armed (by rw [wake]) (by rw [wake]))
  | pass here earlier => simp [pc] at here
  | paid all => exact all loop below
  | left here => simp [pc] at here

/-! ## A loop that is told to stop returns -/

/-- The next step of the loop itself. -/
def next (s : State ε σ) : Label κ :=
  match s.pc with
  | .awaiting => .poll
  | .pass _ => .round
  | _ => .advance

def Label.own : Label κ → Bool
  | .advance | .poll | .round => true
  | _ => false

/-- The loop is told to stop, and its future was notified if it waits. -/
structure Stopping (s : State ε σ) : Prop where
  down : s.down = true
  ready : s.pc = .awaiting → s.wake.poll.1 = true

/-- How many steps of its own a loop that is told to stop makes at most. -/
def rank (l : Loop ε σ κ) : Pc ε → Nat
  | .returned _ => 0
  | .draining => 1
  | .created | .woken => 2
  | .top | .awaiting => 3
  | .pass loop => 4 + (l.rounds.length - loop)
  | .gated => 5 + l.rounds.length

theorem rank_le (l : Loop ε σ κ) (pc : Pc ε) : rank l pc ≤ l.rounds.length + 5 := by
  cases pc with
  | pass loop =>
      simp only [rank]
      omega
  | gated =>
      simp only [rank]
      omega
  | top | created | awaiting | woken | draining | returned =>
      simp only [rank]
      omega

/-- From a state with `dead` no round goes on, and those that fail do so with an error that `fails`. -/
structure Dies (l : Loop ε σ κ) (dead : σ → Prop) (fails : ε → Prop) : Prop where
  again : ∀ round ∈ l.rounds, ∀ inner, dead inner → (round inner).1 ≠ .ok true
  error : ∀ round ∈ l.rounds, ∀ inner e, dead inner → (round inner).1 = .error e → fails e
  round : ∀ round ∈ l.rounds, ∀ inner, dead inner → dead (round inner).2
  gate : ∀ inner, dead inner → dead (l.gate inner).2
  outside : ∀ event inner, dead inner → dead (l.outside event inner)

structure Doomed (dead : σ → Prop) (fails : ε → Prop) (s : State ε σ) : Prop where
  stopping : Stopping s
  inner : dead s.inner
  failed : ∀ e, s.pc = .returned (.error e) → fails e

variable {dead : σ → Prop} {fails : ε → Prop}

namespace Doomed

theorem advance (doomed : Doomed dead fails s) (dies : Dies l dead fails) (stepped : advance l s = some t) :
    Doomed dead fails t ∧ rank l t.pc < rank l s.pc := by
  have down := doomed.stopping.down
  have elsewhere {inner : σ} {wake : Notify} {pc : Pc ε} (holds : dead inner) (away : pc ≠ .awaiting)
      (running : ∀ e, pc ≠ .returned (.error e)) : Doomed dead fails ⟨inner, wake, s.down, pc⟩ :=
    ⟨⟨down, fun here => absurd here away⟩, holds, fun e here => absurd here (running e)⟩
  unfold WakeLoop.advance at stepped
  split at stepped
  · rename_i pc
    cases stepped
    exact ⟨elsewhere doomed.inner (by simp) (by simp), by simp [pc, rank]⟩
  · rename_i pc
    rw [if_pos down] at stepped
    cases stepped
    exact ⟨elsewhere doomed.inner (by simp) (by simp), by simp [pc, rank]⟩
  · rename_i pc
    rw [if_pos down] at stepped
    cases stepped
    exact ⟨elsewhere doomed.inner (by simp) (by simp), by simp [pc, rank]⟩
  · rename_i pc
    have gated := dies.gate s.inner doomed.inner
    split at stepped <;> rename_i answer <;> rw [answer] at gated <;> cases stepped
    · exact ⟨elsewhere gated (by simp) (by simp), by simp only [pc, rank]; omega⟩
    · exact ⟨elsewhere gated (by simp) (by simp), by simp only [pc, rank]; omega⟩
  · rename_i pc
    cases stepped
    exact ⟨elsewhere doomed.inner (by simp) (by simp), by simp [pc, rank]⟩
  · cases stepped

theorem poll (doomed : Doomed dead fails s) (stepped : poll s = some t) :
    Doomed dead fails t ∧ rank l t.pc < rank l s.pc := by
  unfold WakeLoop.poll at stepped
  split at stepped
  · rename_i pc ready
    cases stepped
    exact ⟨⟨⟨doomed.stopping.down, fun here => by cases here⟩, doomed.inner, fun e here => by cases here⟩,
      by simp [pc, rank]⟩
  · rename_i pc waits
    have ready := doomed.stopping.ready pc
    rw [waits] at ready
    cases ready
  · cases stepped

theorem round (doomed : Doomed dead fails s) (dies : Dies l dead fails) (stepped : round l s = some t) :
    Doomed dead fails t ∧ rank l t.pc < rank l s.pc := by
  have down := doomed.stopping.down
  unfold WakeLoop.round at stepped
  split at stepped
  · rename_i loop pc
    split at stepped
    · cases stepped
      exact ⟨⟨⟨down, fun here => by cases here⟩, doomed.inner, fun e here => by cases here⟩,
        by simp only [pc, rank]; omega⟩
    · rename_i round found
      have member := List.mem_of_getElem? found
      have below := (List.getElem?_eq_some_iff.mp found).1
      have holds := dies.round round member s.inner doomed.inner
      have never := dies.again round member s.inner doomed.inner
      have error := dies.error round member s.inner
      split at stepped <;> rename_i ran <;> rw [ran] at holds never error <;> cases stepped
      · exact absurd rfl never
      · exact ⟨⟨⟨down, fun here => by cases here⟩, holds, fun e here => by cases here⟩, by simp only [pc, rank]; omega⟩
      · refine ⟨⟨⟨down, fun here => by cases here⟩, holds, fun e here => ?_⟩, by simp only [pc, rank]; omega⟩
        cases here
        exact error _ doomed.inner rfl
  · cases stepped

theorem step (doomed : Doomed dead fails s) (dies : Dies l dead fails) (stepped : step l s label = some t) :
    Doomed dead fails t ∧ rank l t.pc + (if label.own then 1 else 0) ≤ rank l s.pc := by
  cases label with
  | outside event =>
      cases stepped
      exact ⟨⟨⟨doomed.stopping.down, doomed.stopping.ready⟩, dies.outside event s.inner doomed.inner, doomed.failed⟩,
        Nat.le_refl _⟩
  | kick =>
      cases stepped
      exact ⟨⟨⟨doomed.stopping.down, fun here => Notify.ready_notifyOne _ (doomed.stopping.ready here)⟩, doomed.inner,
        doomed.failed⟩, Nat.le_refl _⟩
  | stopDown =>
      cases stepped
      exact ⟨⟨⟨rfl, doomed.stopping.ready⟩, doomed.inner, doomed.failed⟩, Nat.le_refl _⟩
  | stopWake =>
      simp only [WakeLoop.step] at stepped
      split at stepped
      · cases stepped
        exact ⟨⟨⟨doomed.stopping.down, fun here => Notify.ready_again _ (doomed.stopping.ready here)⟩, doomed.inner,
          doomed.failed⟩, Nat.le_refl _⟩
      · cases stepped
  | advance => exact doomed.advance dies stepped
  | poll => exact doomed.poll stepped
  | round => exact doomed.round dies stepped

theorem run (doomed : Doomed dead fails s) (dies : Dies l dead fails) {labels : List (Label κ)}
    (run : exec (WakeLoop.step l) s labels = some t) :
    Doomed dead fails t ∧ rank l t.pc + labels.countP Label.own ≤ rank l s.pc := by
  induction labels generalizing s with
  | nil =>
      cases run
      exact ⟨doomed, Nat.le_refl _⟩
  | cons label rest ih =>
      obtain ⟨u, first, others⟩ := Execution.exec_cons_eq_some.mp run
      obtain ⟨middle, less⟩ := doomed.step dies first
      obtain ⟨last, rested⟩ := ih middle others
      refine ⟨last, ?_⟩
      rw [List.countP_cons]
      omega

end Doomed

/-- The loop can always make its next step, until it returns. -/
theorem next_enabled (l : Loop ε σ κ) (s : State ε σ) : (step l s (next s)).isSome ∨ ∃ result, s.pc = .returned result := by
  unfold next
  cases pc : s.pc with
  | top => exact .inl (by simp [step, advance, pc])
  | created =>
      left
      simp only [step, advance, pc]
      split <;> rfl
  | awaiting =>
      left
      simp only [step, poll, pc]
      rcases s.wake.poll with ⟨_ | _, wake⟩ <;> rfl
  | woken =>
      left
      simp only [step, advance, pc]
      split <;> rfl
  | gated =>
      left
      simp only [step, advance, pc]
      split <;> rfl
  | pass loop =>
      left
      simp only [step, round, pc]
      split
      · rfl
      · split <;> rfl
  | draining => exact .inl (by simp [step, advance, pc])
  | returned result => exact .inr ⟨result, rfl⟩

theorem next_own (s : State ε σ) : (next s : Label κ).own = true := by
  unfold next
  split <;> rfl

/-- A loop that is told to stop returns by its own steps alone. -/
theorem Doomed.finishes (doomed : Doomed dead fails s) (dies : Dies l dead fails) :
    ∃ own t, (∀ label ∈ own, Label.own label = true) ∧ own.length ≤ rank l s.pc ∧ exec (WakeLoop.step l) s own = some t ∧
      ∃ result, t.pc = .returned result := by
  induction most : rank l s.pc using Nat.strongRecOn generalizing s with
  | ind n ih =>
      rcases next_enabled l s with enabled | returned
      · obtain ⟨u, stepped⟩ := Option.isSome_iff_exists.mp enabled
        obtain ⟨later, less⟩ := doomed.step dies stepped
        rw [next_own, if_pos rfl, most] at less
        obtain ⟨own, t, mine, short, run, returned⟩ := ih (rank l u.pc) less later rfl
        refine ⟨next s :: own, t, List.forall_mem_cons.mpr ⟨next_own s, mine⟩, ?_,
          Execution.exec_cons_eq_some.mpr ⟨u, stepped, run⟩, returned⟩
        rw [List.length_cons]
        omega
      · exact ⟨[], s, by simp, Nat.zero_le _, rfl, returned⟩

theorem stopWake_eq (stepped : step l s .stopWake = some t) :
    s.down = true ∧ t = { s with wake := s.wake.notifyWaiters } := by
  simp only [step] at stepped
  split at stepped
  · rename_i down
    cases stepped
    exact ⟨down, rfl⟩
  · cases stepped

theorem stopping_of_stopWake (shaped : Shaped s) (stepped : step l s .stopWake = some t) : Stopping t := by
  obtain ⟨down, rfl⟩ := stopWake_eq stepped
  refine ⟨down, fun here => Notify.ready_notifyWaiters _ fun absent => ?_⟩
  have idle := shaped.mp absent
  simp only at here
  rw [here] at idle
  cases idle

end WakeLoop
