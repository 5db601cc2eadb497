import Libvirtio.Library.Sums
import Libvirtio.Run.Loop
import Mathlib.Algebra.Order.BigOperators.Group.List
import Mathlib.Algebra.Order.Ring.Nat

namespace Libvirtio.Run

variable {config : Config} {s t : State}

def heldLeases (pending : List Request) : Nat := (pending.map fun request => request.phase.leases).sum

def State.Running (s : State) : Prop := ∀ ok, s.pc ≠ .returned ok

/-- Leases are held by workers only. While the loop runs, no worker is detached, and a running worker of the block
device holds a lease. -/
structure Accounted (config : Config) (s : State) : Prop where
  active : s.active = heldLeases s.pending + s.detached.sum
  attached : s.Running → s.detached = []
  holding : ∀ request ∈ s.pending, ∀ leases, request.phase = .running leases → (config.holdsLeases = true ↔ 0 < leases)

/-- A loop that has returned takes no step. -/
theorem loop_running {label : Label} (own : label.environment = false) (stepped : step config s label = some t) :
    s.Running := by
  rintro ok returned
  cases label with
  | advance => simp [step, advance, returned] at stepped
  | take taken => simp [step, take, returned] at stepped
  | pollWake => simp [step, pollWake, returned] at stepped
  | pollRequest position => simp [step, pollRequest, returned] at stepped
  | start leases => simp [step, start, returned] at stepped
  | complete outcome => simp [step, complete, returned] at stepped
  | _ => cases own

namespace Accounted

theorem initial : Accounted config initial := ⟨rfl, fun _ => rfl, fun _ member => absurd member List.not_mem_nil⟩

theorem abort (accounted : Accounted config s) : Accounted config (abort s) where
  active := by
    rw [Run.abort, accounted.active, List.sum_append, Sums.filter_pos, heldLeases, heldLeases, List.map_nil,
      List.sum_nil, Nat.zero_add, Nat.add_comm]
  attached := fun running => absurd rfl (running false)
  holding := fun _ member => absurd member List.not_mem_nil

theorem move (accounted : Accounted config s) (running : s.Running) (pending : t.pending = s.pending)
    (detached : t.detached = s.detached) (active : t.active = s.active) : Accounted config t where
  active := by rw [active, pending, detached, accounted.active]
  attached := fun _ => detached.trans (accounted.attached running)
  holding := by rw [pending]; exact accounted.holding

theorem frame (accounted : Accounted config s) (pc : t.pc = s.pc) (pending : t.pending = s.pending)
    (detached : t.detached = s.detached) (active : t.active = s.active) : Accounted config t where
  active := by rw [active, pending, detached, accounted.active]
  attached := fun running => by
    rw [detached]
    exact accounted.attached (by unfold State.Running; rwa [← pc])
  holding := by rw [pending]; exact accounted.holding

theorem finishWorker (accounted : Accounted config s) {position queueIndex leases : Nat} {chain : Chain}
    (found : s.pending[position]? = some ⟨queueIndex, chain, .running leases⟩) (result : Option UInt32) :
    Accounted config { s with
      pending := s.pending.set position ⟨queueIndex, chain, .finished result⟩
      active := s.active - leases } := by
  have whole := Sums.eraseIdx (fun request => request.phase.leases) found
  have changed := Sums.set (fun request => request.phase.leases) found ⟨queueIndex, chain, .finished result⟩
  refine ⟨?_, accounted.attached, fun request member => ?_⟩
  · have total := accounted.active
    simp only [heldLeases, Phase.leases] at total whole changed ⊢
    omega
  · rcases List.mem_or_eq_of_mem_set member with old | rfl
    · exact accounted.holding request old
    · intro leases running
      cases running

theorem finishDetached (accounted : Accounted config s) {position leases : Nat}
    (found : s.detached[position]? = some leases) :
    Accounted config { s with detached := s.detached.eraseIdx position, active := s.active - leases } := by
  refine ⟨?_, fun running => ?_, accounted.holding⟩
  · have total := accounted.active
    have whole := Sums.eraseIdx id found
    rw [List.map_id, List.map_id] at whole
    simp only [id] at whole ⊢
    omega
  · have none := accounted.attached running
    rw [none] at found
    cases found

theorem push (accounted : Accounted config s) (running : s.Running) {queueIndex : Nat} {chain : Chain}
    (pending : t.pending = s.pending ++ [⟨queueIndex, chain, .fresh⟩]) (detached : t.detached = s.detached)
    (active : t.active = s.active) : Accounted config t where
  active := by
    rw [active, detached, accounted.active, pending]
    simp [heldLeases, Phase.leases]
  attached := fun _ => detached.trans (accounted.attached running)
  holding := by
    rw [pending]
    intro request member
    rcases List.mem_append.mp member with old | new
    · exact accounted.holding request old
    · intro leases phase
      rw [List.mem_singleton.mp new] at phase
      cases phase

theorem finished (accounted : Accounted config s) (running : s.Running) {position : Nat} {request : Request}
    {usedLength : UInt32} (found : s.pending[position]? = some request)
    (phase : request.phase = .finished (some usedLength)) (pending : t.pending = s.pending.eraseIdx position)
    (detached : t.detached = s.detached) (active : t.active = s.active) : Accounted config t where
  active := by
    have whole := Sums.eraseIdx (fun request => request.phase.leases) found
    have total := accounted.active
    rw [active, detached, pending]
    simp only [heldLeases, phase, Phase.leases] at total whole ⊢
    omega
  attached := fun _ => detached.trans (accounted.attached running)
  holding := by
    rw [pending]
    exact fun other member => accounted.holding other (List.mem_of_mem_eraseIdx member)

theorem startWorker (accounted : Accounted config s) (running : s.Running) {position queueIndex leases : Nat}
    {chain : Chain} (found : s.pending[position]? = some ⟨queueIndex, chain, .fresh⟩)
    (enabled : config.holdsLeases = true ↔ 0 < leases) :
    Accounted config { s with
      pc := .select
      pending := s.pending.set position ⟨queueIndex, chain, .running leases⟩
      active := s.active + leases } := by
  have whole := Sums.eraseIdx (fun request => request.phase.leases) found
  have changed := Sums.set (fun request => request.phase.leases) found ⟨queueIndex, chain, .running leases⟩
  refine ⟨?_, fun _ => accounted.attached running, fun other member => ?_⟩
  · have total := accounted.active
    simp only [heldLeases, Phase.leases] at total whole changed ⊢
    omega
  · rcases List.mem_or_eq_of_mem_set member with old | rfl
    · exact accounted.holding other old
    · intro held phase
      cases phase
      exact enabled

theorem step (accounted : Accounted config s) {label : Label} (stepped : step config s label = some t) :
    Accounted config t := by
  cases step_moves stepped with
  | publish | kick | stopDown | stopRevoke | stopWake | awaitPending | selectPending | requestRunning =>
      exact accounted.frame rfl rfl rfl rfl
  | finish found => exact accounted.finishWorker found _
  | finishDetached found => exact accounted.finishDetached found
  | takeWork => exact accounted.push (loop_running rfl stepped) rfl rfl rfl
  | requestReady _ found finished => exact accounted.finished (loop_running rfl stepped) found finished rfl rfl rfl
  | startWorker _ found enabled => exact accounted.startWorker (loop_running rfl stepped) found enabled.2
  | requestRefused | requestFailed | startFailed => exact accounted.abort
  | takeMalformed | takeFailed | silent | completeFailed =>
      apply Accounted.abort
      exact accounted.move (loop_running rfl stepped) rfl rfl rfl
  | _ => exact accounted.move (loop_running rfl stepped) rfl rfl rfl

end Accounted

theorem accounted_run {labels : List Label} (run : exec (step config) initial labels = some s) : Accounted config s :=
  Execution.invariant (Accounted config) (fun _ _ _ accounted stepped => accounted.step stepped) .initial run

theorem heldLeases_eq_zero (accounted : Accounted config s) (holds : config.holdsLeases = true) :
    heldLeases s.pending = 0 ↔ ∀ request ∈ s.pending, ∀ leases, request.phase ≠ .running leases := by
  rw [heldLeases, List.sum_eq_zero_iff]
  constructor
  · intro none request member leases phase
    have zero := none _ (List.mem_map_of_mem member)
    have positive := (accounted.holding request member leases phase).mp holds
    rw [phase, Phase.leases] at zero
    omega
  · intro idle n member
    obtain ⟨request, listed, rfl⟩ := List.mem_map.mp member
    cases phase : request.phase with
    | running leases => exact absurd phase (idle request listed leases)
    | fresh | finished _ => rfl

/-- The steps on which a `?` leaves the loop: `take_work` pops a chain that its parser rejects, or fails; a request is
first polled after `stop()`, or no worker can be started for it; a worker returns an error; `complete_work` fails. -/
def Fails (s : State) : Label → Prop
  | .take .malformed | .take .failed | .start none | .complete .silent | .complete .failed => True
  | .pollRequest position =>
      s.pending[position]?.map Request.phase = some (.finished none) ∨
        (s.pending[position]?.map Request.phase = some .fresh ∧ s.down = true)
  | _ => False

instance (s : State) (label : Label) : Decidable (Fails s label) := by
  unfold Fails
  split <;> infer_instance

theorem fails_aborts {label : Label} (stepped : step config s label = some t) (fails : Fails s label) :
    s.Running ∧ t.pc = .returned false ∧ t.active = s.active := by
  cases step_moves stepped with
  | takeMalformed | takeFailed | requestRefused | requestFailed | startFailed | silent | completeFailed =>
      exact ⟨loop_running rfl stepped, rfl, rfl⟩
  | requestStarting _ found fresh live => simp [Fails, found, fresh, live] at fails
  | requestRunning _ found running => simp [Fails, found, running] at fails
  | requestReady _ found finished => simp [Fails, found, finished] at fails
  | _ => cases fails

theorem returning_step {label : Label} {ok : Bool} (stepped : step config s label = some t) (running : s.Running)
    (returned : t.pc = .returned ok) : t.active = s.active ∧ (s.active = 0 ∨ ok = false ∧ Fails s label) := by
  cases step_moves stepped with
  | publish | kick | stopDown | stopRevoke | stopWake | finish | finishDetached | awaitPending | selectPending
  | requestRunning => exact absurd returned (running ok)
  | drained _ free => exact ⟨rfl, .inl free⟩
  | takeMalformed | takeFailed | startFailed | silent | completeFailed =>
      cases returned
      exact ⟨rfl, .inr ⟨rfl, trivial⟩⟩
  | requestRefused _ found fresh down =>
      cases returned
      exact ⟨rfl, .inr ⟨rfl, .inr ⟨by rw [found, Option.map_some, fresh], down⟩⟩⟩
  | requestFailed _ found failed =>
      cases returned
      exact ⟨rfl, .inr ⟨rfl, .inl (by rw [found, Option.map_some, failed])⟩⟩
  | _ => cases returned

theorem returned_step {label : Label} {ok : Bool} (stepped : step config s label = some t)
    (returned : s.pc = .returned ok) : t.pc = .returned ok ∧ t.active ≤ s.active := by
  cases own : label.environment with
  | false => exact absurd returned (loop_running own stepped ok)
  | true =>
      cases step_moves stepped with
      | publish | kick | stopDown | stopRevoke | stopWake => exact ⟨returned, Nat.le_refl _⟩
      | finish | finishDetached => exact ⟨returned, Nat.sub_le _ _⟩
      | _ => cases own

/-- A loop that has returned had returned before, has drained the leases, or leaves with an error now. -/
theorem returned_cases {label : Label} {ok : Bool} (stepped : step config s label = some t)
    (returned : t.pc = .returned ok) :
    (s.pc = .returned ok ∧ t.active ≤ s.active) ∨ t.active = 0 ∨
      (s.Running ∧ ok = false ∧ Fails s label ∧ t.active = s.active) := by
  by_cases ended : ∃ ok, s.pc = .returned ok
  · obtain ⟨_, ended⟩ := ended
    obtain ⟨same, least⟩ := returned_step stepped ended
    cases same.symm.trans returned
    exact .inl ⟨ended, least⟩
  · have running : s.Running := fun ok same => ended ⟨ok, same⟩
    obtain ⟨active, free | ⟨failed, fails⟩⟩ := returning_step stepped running returned
    · exact .inr (.inl (active.trans free))
    · exact .inr (.inr ⟨running, failed, fails, active⟩)

theorem ok_drained {labels : List Label} (run : exec (step config) initial labels = some s)
    (returned : s.pc = .returned true) : s.active = 0 := by
  revert returned
  refine Execution.invariant (fun s => s.pc = .returned true → s.active = 0) ?_ (fun returned => by cases returned) run
  intro u label t drained stepped returned
  rcases returned_cases stepped returned with ⟨ended, least⟩ | free | ⟨-, failed, -⟩
  · exact Nat.le_zero.mp (drained ended ▸ least)
  · exact free
  · cases failed

def Label.isStart : Label → Bool
  | .start (some _) => true
  | _ => false

def Label.isFinish : Label → Bool
  | .finish _ _ => true
  | _ => false

def Phase.workers : Phase → Nat
  | .running _ => 1
  | _ => 0

def runningWorkers (pending : List Request) : Nat := (pending.map fun request => request.phase.workers).sum

theorem runningWorkers_eq_zero {pending : List Request} :
    runningWorkers pending = 0 ↔ ∀ request ∈ pending, ∀ leases, request.phase ≠ .running leases := by
  rw [runningWorkers, List.sum_eq_zero_iff, List.forall_mem_map]
  refine forall₂_congr fun request _ => ?_
  cases request.phase <;> simp [Phase.workers]

theorem runningWorkers_step {label : Label} (stepped : step config s label = some t) (running : t.Running) :
    runningWorkers t.pending + label.isFinish.toNat = runningWorkers s.pending + label.isStart.toNat := by
  cases step_moves stepped with
  | @finish position queueIndex leases result chain found =>
      have whole := Sums.eraseIdx (fun request => request.phase.workers) found
      have changed := Sums.set (fun request => request.phase.workers) found ⟨queueIndex, chain, .finished result⟩
      simp only [runningWorkers, Phase.workers, Label.isFinish, Label.isStart, Bool.toNat_true, Bool.toNat_false]
        at whole changed ⊢
      omega
  | @startWorker position queueIndex leases chain _ found =>
      have whole := Sums.eraseIdx (fun request => request.phase.workers) found
      have changed := Sums.set (fun request => request.phase.workers) found ⟨queueIndex, chain, .running leases⟩
      simp only [runningWorkers, Phase.workers, Label.isFinish, Label.isStart, Bool.toNat_true, Bool.toNat_false]
        at whole changed ⊢
      omega
  | requestReady _ found finished =>
      have whole := Sums.eraseIdx (fun request => request.phase.workers) found
      simp only [runningWorkers, finished, Phase.workers, Label.isFinish, Label.isStart, Bool.toNat_false]
        at whole ⊢
      omega
  | takeWork => simp [runningWorkers, Phase.workers, Label.isFinish, Label.isStart]
  | takeMalformed | takeFailed | requestRefused | requestFailed | startFailed | silent | completeFailed =>
      exact absurd rfl (running false)
  | _ => rfl

/-- While the loop runs, the workers that its labels have started and not finished are those of pending requests. -/
def Balanced (labels : List Label) (s : State) : Prop :=
  s.Running → labels.countP Label.isFinish + runningWorkers s.pending = labels.countP Label.isStart

theorem balanced_run {labels : List Label} (run : exec (step config) initial labels = some s) : Balanced labels s := by
  refine Execution.invariant_past Balanced ?_ (fun _ => rfl) run
  intro past u label t _ balanced stepped running
  have before : u.Running := fun ok returned => running ok (returned_step stepped returned).1
  have moved := runningWorkers_step stepped running
  have counted := balanced before
  simp only [List.countP_append, List.countP_singleton]
  cases starts : label.isStart <;> cases ends : label.isFinish <;>
    simp only [starts, ends, Bool.toNat_true, Bool.toNat_false, if_true, if_false, Bool.false_eq_true] at moved ⊢ <;> omega

/-- Before a step that leaves the loop with an error, every worker that the run has started has finished. -/
def Settled (moment : List Label × State) (label : Label) : Prop :=
  Fails moment.2 label → moment.1.countP Label.isStart = moment.1.countP Label.isFinish

instance (moment : List Label × State) (label : Label) : Decidable (Settled moment label) :=
  inferInstanceAs (Decidable (_ → _))

-- Where every worker has finished, the leases of the loop are back.
theorem active_eq_zero_iff (holds : config.holdsLeases = true) {labels : List Label}
    (run : exec (step config) initial labels = some s) (running : s.Running) :
    s.active = 0 ↔ labels.countP Label.isStart = labels.countP Label.isFinish := by
  have accounted := accounted_run run
  have balanced := balanced_run run running
  rw [accounted.active, accounted.attached running, List.sum_nil, Nat.add_zero, heldLeases_eq_zero accounted holds,
    ← runningWorkers_eq_zero]
  omega

theorem settled_returns (holds : config.holdsLeases = true) {labels : List Label}
    (run : exec (step config) initial labels = some s)
    (settled : Execution.Along (Execution.logged (step config)) Settled ([], initial) labels) {ok : Bool}
    (returned : s.pc = .returned ok) : s.active = 0 := by
  revert settled ok
  refine Execution.invariant_past (fun labels s =>
    Execution.Along (Execution.logged (step config)) Settled ([], initial) labels →
      ∀ {ok : Bool}, s.pc = .returned ok → s.active = 0) ?_ ?_ run
  · intro past u label t before ih stepped settled ok returned
    obtain ⟨earlier, now⟩ := Execution.Along.append.mp settled
    rcases returned_cases stepped returned with ⟨ended, least⟩ | free | ⟨running, -, fails, active⟩
    · exact Nat.le_zero.mp (ih earlier ended ▸ least)
    · exact free
    · have finished := (now (past, u) (Execution.exec_logged_eq_some.mpr ⟨rfl, before⟩)).1 fails
      rw [active]
      exact (active_eq_zero_iff holds before running).mpr finished
  · intro _ ok returned
    cases returned

/-- Once the loop of the block device has returned, no lease of a request is live, exactly in the runs in which every
worker has finished before a `?` leaves the loop. After `Ok` no lease is live in any run. -/
theorem returns_lease_free_iff (holds : config.holdsLeases = true) {labels : List Label}
    (run : exec (step config) initial labels = some s) :
    (Execution.Along (Execution.logged (step config)) Settled ([], initial) labels ↔
      ∀ past rest t ok, labels = past ++ rest → exec (step config) initial past = some t → t.pc = .returned ok →
        t.active = 0) ∧
    (s.pc = .returned true → s.active = 0) := by
  refine ⟨⟨?_, ?_⟩, fun returned => ?_⟩
  · rintro settled past rest t ok rfl before returned
    exact settled_returns holds before (Execution.Along.append.mp settled).1 returned
  · intro free
    refine Execution.Along.iff_forall.mpr ?_
    rintro past label rest ⟨log, u⟩ rfl before fails
    obtain ⟨rfl, before⟩ := Execution.exec_logged_eq_some.mp before
    obtain ⟨v, first, run⟩ := Execution.exec_append_eq_some.mp run
    obtain rfl := Option.some.inj (before.symm.trans first)
    obtain ⟨t, stepped, run⟩ := Execution.exec_cons_eq_some.mp run
    obtain ⟨running, returned, active⟩ := fails_aborts stepped fails
    have zero := free (log ++ [label]) rest t false (by simp)
      (Execution.exec_append_eq_some.mpr ⟨u, before, by rw [Execution.exec_singleton, stepped]⟩) returned
    exact (active_eq_zero_iff holds before running).mp (active ▸ zero)
  · exact ok_drained run returned

-- A block device with one queue takes a request, waits for its next one and starts a worker with two leases.
def oneRunning : List Label :=
  [.publish 0, .kick, .advance, .advance, .pollWake, .advance, .take .work, .advance, .take .none, .advance, .advance,
    .pollRequest 0, .start (some 2)]

-- The worker fails, and `run()` returns its error.
theorem returns_lease_free_iff_failed_worker :
    ∃ s, exec (step ⟨1, true⟩) initial (oneRunning ++ [.finish 0 none, .pollRequest 0]) = some s ∧
      s.pc = .returned false ∧ s.active = 0 := by
  have ends : (exec (step ⟨1, true⟩) initial (oneRunning ++ [.finish 0 none, .pollRequest 0])).map State.pc =
      some (.returned false) := by decide +kernel
  obtain ⟨s, run, returned⟩ := Option.map_eq_some_iff.mp ends
  exact ⟨s, run, returned, (returns_lease_free_iff rfl run).1.mp (by decide +kernel) _ [] s false (by simp) run returned⟩

-- A malformed chain comes while the worker runs; or `stop()` comes before the second of two requests is polled.
theorem return_with_live_leases :
    (exec (step ⟨1, true⟩) initial (oneRunning ++
        [.publish 0, .kick, .pollWake, .advance, .advance, .take .malformed])).map (fun s => (s.pc, s.active)) =
      some (.returned false, 2) ∧
    (exec (step ⟨1, true⟩) initial [.publish 0, .publish 0, .kick, .advance, .advance, .pollWake, .advance, .take .work,
        .advance, .take .work, .advance, .take .none, .advance, .advance, .pollRequest 0, .start (some 2), .stopDown,
        .pollRequest 1]).map (fun s => (s.pc, s.active)) = some (.returned false, 2) := by
  constructor
  all_goals decide +kernel

end Libvirtio.Run
