import Libvirtio.Run.Answers
import Libvirtio.Run.Stop

namespace Libvirtio

namespace Run
variable {config : Config} {s t : State} {label : Label}

structure Shaped (config : Config) (s : State) : Prop where
  down : s.revoked = true → s.down = true
  listens : s.pc = .created ∨ s.pc = .awaiting → s.wake.waiter ≠ .absent
  selects : s.pc = .select → s.pending ≠ []
  drains : s.pc = .draining → s.pending = []
  scans : ∀ left, s.pc = .polling left → left ≤ config.queues

namespace Shaped

theorem move (shaped : Shaped config s) (down : t.down = s.down ∧ t.revoked = s.revoked)
    (away : t.pc ≠ .created ∧ t.pc ≠ .awaiting ∧ t.pc ≠ .select ∧ t.pc ≠ .draining ∧ ∀ left, t.pc ≠ .polling left) :
    Shaped config t where
  down := by rw [down.1, down.2]; exact shaped.down
  listens here := (here.elim away.1 away.2.1).elim
  selects here := absurd here away.2.2.1
  drains here := absurd here away.2.2.2.1
  scans left here := absurd here (away.2.2.2.2 left)

theorem frame (shaped : Shaped config s) (down : t.revoked = true → t.down = true) (pc : t.pc = s.pc)
    (waiter : s.wake.waiter ≠ .absent → t.wake.waiter ≠ .absent) (inflight : t.pending.length = s.pending.length) :
    Shaped config t where
  down := down
  listens here := waiter (shaped.listens (pc ▸ here))
  selects here := by
    have busy := shaped.selects (pc ▸ here)
    rw [← List.length_pos_iff, inflight]
    exact List.length_pos_iff.mpr busy
  drains here := by
    have empty := shaped.drains (pc ▸ here)
    rw [← List.length_eq_zero_iff, inflight, empty]
    rfl
  scans left here := shaped.scans left (pc ▸ here)

theorem step (shaped : Shaped config s) (stepped : step config s label = some t) : Shaped config t := by
  cases step_moves stepped with
  | publish | finishDetached => exact shaped.frame shaped.down rfl id rfl
  | stopDown => exact shaped.frame (fun _ => rfl) rfl id rfl
  | stopRevoke down => exact shaped.frame (fun _ => down) rfl id rfl
  | kick => exact shaped.frame shaped.down rfl (Notify.present_notifyOne _) rfl
  | stopWake => exact shaped.frame shaped.down rfl (Notify.present_notifyWaiters _) rfl
  | finish => exact shaped.frame shaped.down rfl id List.length_set
  | requestRunning => exact shaped
  | awaitPending pc waits | selectPending pc waits =>
      refine shaped.frame shaped.down rfl (fun present => ?_) rfl
      have kept := Notify.present_poll _ present
      rw [waits] at kept
      exact kept rfl
  | listen => exact ⟨shaped.down, fun _ => (by simp [Notify.create]), by simp, by simp, by simp⟩
  | await pc => exact ⟨shaped.down, fun _ => shaped.listens (.inl pc), by simp, by simp, by simp⟩
  | scan => exact ⟨shaped.down, by simp, by simp, by simp, by simp⟩
  | takeNone pc =>
      refine ⟨shaped.down, by simp, by simp, by simp, fun left here => ?_⟩
      cases here
      exact Nat.le_of_succ_le (shaped.scans _ pc)
  | drain _ stopped => exact ⟨shaped.down, by simp, by simp, fun _ => stopped.2, by simp⟩
  | select _ busy => exact ⟨shaped.down, by simp, fun _ => busy, by simp, by simp⟩
  | startWorker _ found =>
      refine ⟨shaped.down, by simp, fun _ => ?_, by simp, by simp⟩
      rw [← List.length_pos_iff, List.length_set]
      exact Nat.zero_lt_of_lt (List.getElem?_eq_some_iff.mp found).1
  | _ => exact shaped.move ⟨rfl, rfl⟩ ⟨by simp [abort], by simp [abort], by simp [abort], by simp [abort], by simp [abort]⟩

end Shaped

theorem shaped_run {labels : List Label} (run : exec (step config) initial labels = some s) : Shaped config s := by
  refine Execution.invariant (Shaped config) (fun _ _ _ shaped stepped => shaped.step stepped) ?_ run
  exact ⟨by simp [initial], by simp [initial], by simp [initial], by simp [initial], by simp [initial]⟩

/-- The steps of a loop that was stopped until it waits for its workers or returns. -/
def Pc.ahead : Pc → Nat
  | .returned _ => 0
  | .draining | .select | .starting _ | .writing _ _ => 1
  | .scanned => 2
  | .scanCheck => 3
  | .top | .created | .awaiting => 4
  | .completing _ _ => 5
  | .polling left => 3 + left

def State.remaining (s : State) : Nat :=
  match s.pc with
  | .returned _ => 0
  | pc => pc.ahead + 5 * s.pending.length + 4 * s.wake.calls

/-- The loop does something, and does not only find that it has to wait. -/
def counts (s : State) : Label → Bool
  | .advance | .take _ | .start _ | .complete _ => true
  | .pollWake => s.wake.poll.1
  | .pollRequest position =>
      match s.pending[position]? with
      | some ⟨_, _, .running _⟩ => false
      | _ => true
  | _ => false

def Label.wakes : Label → Bool
  | .kick | .stopWake => true
  | _ => false

theorem State.Running.remaining_eq (running : s.Running) :
    s.remaining = s.pc.ahead + 5 * s.pending.length + 4 * s.wake.calls := by
  unfold State.remaining
  split
  · rename_i ok returned
    exact absurd returned (running ok)
  · rfl

theorem State.Running.remaining_pos (running : s.Running) : 0 < s.remaining := by
  rw [running.remaining_eq]
  have ahead : 0 < s.pc.ahead := by
    cases pc : s.pc with
    | returned ok => exact absurd pc (running ok)
    | polling left => exact Nat.lt_of_lt_of_le (by decide) (Nat.le_add_right 3 left)
    | _ => exact Nat.succ_pos _
  omega

theorem remaining_returned {ok : Bool} (returned : s.pc = .returned ok) : s.remaining = 0 := by
  rw [State.remaining, returned]

/-- `stop()` has been called, and its `notify_waiters` has found the loop if it waits. -/
structure Halting (s : State) : Prop where
  down : s.down = true
  revoked : s.revoked = true
  woken : s.pc = .awaiting → s.wake.poll.1 = true

theorem halting_of_stopWake (shaped : Shaped config s) (stepped : step config s .stopWake = some t) : Halting t := by
  cases step_moves stepped with
  | stopWake revoked =>
      exact ⟨shaped.down revoked, revoked, fun here => Notify.ready_notifyWaiters _ (shaped.listens (.inr here))⟩

theorem remaining_le (shaped : Shaped config s) : s.remaining ≤ config.queues + 5 * s.pending.length + 13 := by
  have calls := s.wake.calls_le
  have ahead : s.pc.ahead ≤ config.queues + 5 := by
    cases pc : s.pc with
    | polling left =>
        have within := shaped.scans left pc
        simp only [Pc.ahead]
        omega
    | _ =>
        simp only [Pc.ahead]
        omega
  unfold State.remaining
  split <;> omega

theorem State.remaining_le_sum (s : State) : s.remaining ≤ s.pc.ahead + 5 * s.pending.length + 4 * s.wake.calls := by
  unfold State.remaining
  split <;> omega

namespace Halting

theorem away (halting : Halting s) (down : t.down = s.down) (revoked : t.revoked = s.revoked) (pc : t.pc ≠ .awaiting) :
    Halting t :=
  ⟨down.trans halting.down, revoked.trans halting.revoked, fun here => absurd here pc⟩

/-- The environment does not lead the loop away from its end, though it may wake it. -/
theorem environment (halting : Halting s) (environment : label.environment = true)
    (stepped : step config s label = some t) : Halting t ∧ t.remaining ≤ s.remaining + 4 * label.wakes.toNat := by
  have same := environment_undisturbed environment stepped
  have frame (calls : t.wake.calls ≤ s.wake.calls + label.wakes.toNat) :
      t.remaining ≤ s.remaining + 4 * label.wakes.toNat := by
    unfold State.remaining
    rw [same.pc, same.inflight]
    split <;> omega
  cases step_moves stepped with
  | publish | finish | finishDetached => exact ⟨⟨halting.down, halting.revoked, halting.woken⟩, frame (Nat.le_refl _)⟩
  | stopDown => exact ⟨⟨rfl, halting.revoked, halting.woken⟩, frame (Nat.le_refl _)⟩
  | stopRevoke => exact ⟨⟨halting.down, rfl, halting.woken⟩, frame (Nat.le_refl _)⟩
  | kick =>
      refine ⟨⟨halting.down, halting.revoked, fun here => ?_⟩, frame (Notify.calls_notifyOne _)⟩
      exact Notify.ready_notifyOne _ (halting.woken here)
  | stopWake =>
      refine ⟨⟨halting.down, halting.revoked, fun here => ?_⟩, frame (Notify.calls_notifyWaiters _)⟩
      exact Notify.ready_again _ (halting.woken here)
  | _ => cases environment

/-- Each step that the loop makes brings it nearer to its end. -/
theorem loop (halting : Halting s) (own : label.environment = false) (stepped : step config s label = some t) :
    Halting t ∧ t.remaining + (counts s label).toNat ≤ s.remaining := by
  have running := loop_running own stepped
  have down := halting.down
  have revoked := halting.revoked
  have one := Bool.toNat_le (counts s label)
  rw [running.remaining_eq]
  have less := t.remaining_le_sum
  cases step_moves stepped with
  | publish | kick | stopDown | stopRevoke | stopWake | finish | finishDetached => cases own
  | listen _ idle => simp [down] at idle
  | await _ live | idle _ live | write _ live | requestStarting _ _ _ live => cases down.symm.trans live
  | scan _ free => simp [down] at free
  | takeNone _ granted | takeWork _ granted | startWorker _ _ granted => cases revoked.symm.trans granted.1
  | announced _ granted | silent _ granted => cases revoked.symm.trans granted
  | proceed pc | leaveScan pc | endPass pc | drain pc | forsake pc =>
      refine ⟨halting.away rfl rfl (by simp), ?_⟩
      simp only [pc, Pc.ahead] at less ⊢
      omega
  | unlisten pc =>
      refine ⟨halting.away rfl rfl (by simp), ?_⟩
      have calls := s.wake.calls_drop
      simp only [pc, Pc.ahead] at less ⊢
      omega
  | select pc =>
      refine ⟨halting.away rfl rfl (by simp), ?_⟩
      have calls := s.wake.calls_create
      simp only [pc, Pc.ahead] at less ⊢
      omega
  | awaitReady pc ready | selectReady pc ready =>
      refine ⟨halting.away rfl rfl (by simp), ?_⟩
      have calls := s.wake.calls_poll
      rw [ready] at calls
      simp only [pc, Pc.ahead, Bool.toNat_true] at less calls ⊢
      omega
  | awaitPending pc waits =>
      have ready := halting.woken pc
      rw [waits] at ready
      cases ready
  | selectPending pc waits =>
      refine ⟨halting.away rfl rfl (by simp [pc]), ?_⟩
      have calls := s.wake.calls_poll
      rw [waits] at calls
      simp only [counts, waits, pc, Pc.ahead, Bool.toNat_false] at less calls ⊢
      omega
  | @requestRunning position leases request pc found going =>
      have idle : counts s (.pollRequest position) = false := by
        obtain ⟨queueIndex, chain, phase⟩ := request
        cases going
        simp [counts, found]
      refine ⟨halting, ?_⟩
      rw [idle, Bool.toNat_false]
      omega
  | requestReady pc found =>
      refine ⟨halting.away rfl rfl (by simp), ?_⟩
      have calls := s.wake.calls_drop
      have inside := (List.getElem?_eq_some_iff.mp found).1
      have fewer := List.length_eraseIdx_of_lt inside
      simp only [pc, Pc.ahead, fewer] at less ⊢
      omega
  | drained | takeMalformed | takeFailed | requestRefused | requestFailed | startFailed | completeFailed =>
      refine ⟨halting.away rfl rfl (by simp [abort]), ?_⟩
      have positive := running.remaining_pos
      rw [running.remaining_eq] at positive
      rw [remaining_returned rfl]
      omega

theorem step (halting : Halting s) (stepped : step config s label = some t) :
    Halting t ∧ t.remaining + (counts s label).toNat ≤ s.remaining + 4 * label.wakes.toNat := by
  cases environment : label.environment with
  | true =>
      have still : counts s label = false := by
        cases label with
        | publish | kick | stopDown | stopRevoke | stopWake | finish | finishDetached => rfl
        | _ => cases environment
      rw [still]
      exact halting.environment environment stepped
  | false =>
      obtain ⟨next, less⟩ := halting.loop environment stepped
      exact ⟨next, less.trans (Nat.le_add_right _ _)⟩

end Halting

end Run

section
variable {β : Type} {resources : Resources} {index : Nat} {view : DeviceView β}

theorem VirtQueue.complete_revoked (queue : VirtQueue) (chain : DescriptorChain) (usedLength : UInt32) {view : QueueView}
    (none : view.guest.leasesLeft = some 0) : queue.complete chain usedLength view = (.error (.down .revoked), view) := by
  rw [VirtQueue.complete, Fallible.bind_of_ok (Fallible.read_apply _)]
  apply Fallible.bind_of_error
  rw [onGuest, Fallible.zoom_apply, writeBytes_revoked none]

theorem pop_refused (revoked : view.guest.leasesLeft = some 0) (popped : Option DescriptorChain) :
    (pop resources index view).1 ≠ .ok popped := by
  intro ok
  rcases onQueue_cases resources index VirtQueue.pop view [] with ⟨fault, failed⟩ | ⟨queue, state, result, next, -, run, same⟩
  · have error : (pop resources index view).1 = .error fault := congrArg Prod.fst failed
    cases ok.symm.trans error
  · rw [queue.pop_revoked revoked] at run
    cases run
    have error : (pop resources index view).1 = .error (.error (.down .revoked)) := congrArg Prod.fst same
    cases ok.symm.trans error

theorem completeQueue_refused (revoked : view.guest.leasesLeft = some 0) (chain : DescriptorChain) (usedLength : UInt32) :
    ∃ fault after, completeQueue resources index chain usedLength view = (.error fault, after) ∧ after.log = view.log := by
  rw [completeQueue, ← Fallible.bind_assoc]
  rcases onQueue_cases resources index (fun queue => queue.complete chain usedLength) view [] with
    ⟨fault, failed⟩ | ⟨queue, state, result, next, -, run, same⟩
  · exact ⟨fault, view, Fallible.bind_of_error failed, rfl⟩
  · rw [queue.complete_revoked chain usedLength revoked] at run
    cases run
    exact ⟨_, _, Fallible.bind_of_error same, rfl⟩

end

namespace Crew
variable {crew : Crew} {good : crew.Work → Prop} {fit : DmaMemory → crew.Work → crew.Ticket → Prop}
  {queue : VirtQueue} {index : Nat} {s t : State crew} {label : Label crew}

theorem Lawful.complete_refused (lawful : crew.Lawful good fit) {work : crew.Work} (holds : good work)
    (reply : crew.Reply) {view : DeviceView crew.machine.State} (revoked : view.guest.leasesLeft = some 0) :
    ∃ fault after, crew.completeWork work reply view = (.error fault, after) ∧ after.log = view.log := by
  obtain ⟨last, announce, same, -, works⟩ := lawful.complete work reply holds
  have aside := (works view view (.here trivial)).1
  rw [same, once_apply, Libvirtio.finish]
  rcases run : last view with ⟨fault | usedLength, first⟩ <;> rw [run] at aside
  · rw [Fallible.bind_of_error run]
    exact ⟨fault, first, rfl, aside.log⟩
  · obtain ⟨fault, after, failed, log⟩ := @completeQueue_refused _ crew.resources (crew.place work).1 first
      (aside.guest.revoked revoked) (crew.place work).2 usedLength
    rw [Fallible.bind_of_ok run, Fallible.bind_of_error failed]
    exact ⟨fault, after, rfl, log.trans aside.log⟩

theorem Aligned.accepts (aligned : Aligned good fit s) (lawful : crew.Lawful good fit)
    (stopped : s.control.revoked = true) : Accepts queue index s where
  take left pc := by
    have revoked := aligned.revoked stopped
    rw [step_isSome]
    simp only [act, take, pc]
    rcases lawful.take_cases (Run.pollQueue crew.config s.control).1 s.driver.view [] with
      ⟨fault, after, answered, lost⟩ | ⟨after, -, popped, -⟩ | ⟨work, chain, after, -, popped, -⟩
    · have same : after.states = s.driver.view.states := by
        rcases lost with same | ⟨chain, popped⟩
        · exact same
        · exact absurd popped (pop_refused revoked _)
      simp only [answered, same, if_pos]
      rw [go_isSome]
      simp [State.see, Run.step, Run.take, pc]
    · exact absurd popped (pop_refused revoked _)
    · exact absurd popped (pop_refused revoked _)
  start position pc := by
    obtain ⟨leased, work, located⟩ := aligned.begun position pc
    obtain ⟨fault, refused⟩ := lawful.refuse work s.driver.view leased (aligned.revoked stopped)
    rw [step_isSome]
    simp only [act, pc, start, located]
    split
    · rename_i run
      rw [run] at refused
      cases refused
    · rw [go_isSome]
      simp [State.see, Run.step, Run.start, pc]
  complete request usedLength pc := by
    obtain ⟨work, reply, hand⟩ := aligned.handed pc
    have mine : work ∈ s.works := by simp [State.works, hand]
    obtain ⟨fault, after, refused, log⟩ := lawful.complete_refused (aligned.good work mine) reply (aligned.revoked stopped)
    rw [step_isSome]
    simp only [act, Crew.complete, pc, hand, refused, log, if_pos]
    rw [go_isSome]
    simp [State.see, Run.step, Run.complete, pc]
  finish position work ticket world located := aligned.finish_isSome world located

/-- The loop does something, and does not only find that it has to wait. -/
def counts (s : State crew) : Label crew → Bool
  | .advance | .take | .start | .complete => true
  | .pollWake => s.control.wake.poll.1
  | .pollRequest position =>
      match s.jobs[position]? with
      | some ⟨_, .started _⟩ => false
      | _ => true
  | _ => false

def Label.wakes : Label crew → Bool
  | .kick | .stopWake => true
  | _ => false

theorem go_running {own : Run.Label} {rest : List Run.Label} (environment : own.environment = false)
    (gone : s.go (own :: rest) = some t) : s.control.Running := by
  obtain ⟨control, moved, rfl⟩ := go_eq_some gone
  obtain ⟨next, stepped, -⟩ := Execution.exec_cons_eq_some.mp moved
  exact Run.loop_running environment stepped

theorem counts_running (counted : counts s label = true) (acted : act queue index s label = some t) :
    s.control.Running := by
  have at_ {pc : Run.Pc} (here : s.control.pc = pc) (running : ∀ ok, pc ≠ .returned ok) : s.control.Running := by
    intro ok
    rw [here]
    exact running ok
  cases label with
  | advance =>
      obtain ⟨u, gone, -⟩ := Option.map_eq_some_iff.mp acted
      exact go_running rfl gone
  | pollWake => exact go_running rfl acted
  | take =>
      simp only [act, take] at acted
      split at acted
      · rename_i pc
        exact at_ pc (by simp)
      · cases acted
  | start =>
      simp only [act] at acted
      split at acted
      · rename_i pc
        exact at_ pc (by simp)
      · cases acted
  | complete =>
      simp only [act, complete] at acted
      split at acted
      · rename_i pc _
        exact at_ pc (by simp)
      · cases acted
  | pollRequest position =>
      simp only [act, pollRequest] at acted
      split at acted
      · obtain ⟨u, gone, -⟩ := Option.map_eq_some_iff.mp acted
        exact go_running rfl gone
      · split at acted
        · exact go_running rfl acted
        · unfold start at acted
          split at acted
          · split at acted
            · obtain ⟨u, gone, -⟩ := Option.map_eq_some_iff.mp acted
              exact (go_running rfl gone :)
            · exact (go_running rfl acted :)
          · cases acted
      · exact go_running rfl acted
      · cases acted
  | _ => cases counted

theorem Aligned.counts_le (aligned : Aligned good fit s) (position : Nat) :
    (counts s (.pollRequest position)).toNat ≤ (Run.counts s.control (.pollRequest position)).toNat := by
  cases located : s.jobs[position]? with
  | none =>
      have phase := aligned.phase_at position
      rw [located] at phase
      have absent : s.control.pending[position]? = none := Option.map_eq_none_iff.mp phase
      simp [counts, Run.counts, located, absent]
  | some job =>
      obtain ⟨⟨queueIndex, chain, phase⟩, pending, same⟩ := aligned.listed located
      simp only at same
      subst same
      rcases job with ⟨work, _ | ticket | result⟩ <;> simp [counts, Run.counts, located, pending, Job.phase]

theorem drains_acts (aligned : Aligned good fit s) (halting : Run.Halting s.control) (acts : Acts queue index s label t) :
    Run.Halting t.control ∧
      t.control.remaining + (counts s label).toNat ≤ s.control.remaining + 4 * label.wakes.toNat := by
  have refused {answer : Run.Label} {a b : Run.State} (moved : Run.step crew.config a answer = some b)
      (revoked : a.revoked = true) (granting : answer = .take .none ∨ answer = .take .work ∨
        (∃ leases, answer = .start (some leases)) ∨ answer = .complete .announced) : False := by
    cases Run.step_moves moved with
    | takeNone _ granted | takeWork _ granted | startWorker _ _ granted => cases revoked.symm.trans granted.1
    | announced _ granted => cases revoked.symm.trans granted
    | _ => simp at granting
  cases acts with
  | publish _ moved | kick moved | stopDown moved | stopWake moved | finish _ _ moved | advance moved | pollWake moved =>
      rw [Execution.exec_singleton] at moved
      exact halting.step moved
  | reap | elsewhere | host | revoke => exact ⟨halting, Nat.le_refl _⟩
  | grasp _ moved | pollRequest _ _ _ moved =>
      rw [Execution.exec_singleton] at moved
      obtain ⟨next, less⟩ := halting.step moved
      exact ⟨next, (Nat.add_le_add_left (aligned.counts_le _) _).trans less⟩
  | takeNone _ _ moved =>
      rw [Execution.exec_singleton] at moved
      exact (refused moved halting.revoked (by simp)).elim
  | takeWork _ _ moved => exact (refused (found_eq_some moved) halting.revoked (by simp)).elim
  | start _ _ _ moved | complete _ _ _ moved =>
      rw [Execution.exec_singleton] at moved
      exact (refused moved halting.revoked (by simp)).elim
  | startAtOnce _ live => cases halting.down.symm.trans live

theorem settle_revoked (revoked : s.control.revoked = true) : settle s = s := by
  unfold settle
  split
  · rw [← revoked]
  · rfl

/-- While the loop runs, it was stopped. -/
def Doomed (good : crew.Work → Prop) (fit : DmaMemory → crew.Work → crew.Ticket → Prop) (s : State crew) : Prop :=
  Reached good fit s ∧ (s.control.Running → Run.Halting s.control)

theorem Doomed.step (lawful : crew.Lawful good fit) (doomed : Doomed good fit s)
    (stepped : step queue index s label = some t) :
    Doomed good fit t ∧ t.control.remaining + (counts s label).toNat ≤ s.control.remaining + 4 * label.wakes.toNat := by
  have reached := doomed.1.step lawful stepped
  obtain ⟨u, acted, rfl⟩ := Option.map_eq_some_iff.mp stepped
  by_cases running : u.control.Running
  · have acts := act_acts acted running
    have before := acts.leads.running running
    obtain ⟨next, less⟩ := drains_acts (doomed.1 before).2 (doomed.2 before) acts
    have settled := settle_revoked next.revoked
    rw [settled]
    exact ⟨⟨settled ▸ reached, fun _ => next⟩, less⟩
  · refine ⟨⟨reached, fun still => absurd (settle_running.mp still) running⟩, ?_⟩
    have ended : (settle u).control.remaining = 0 := by
      have returned : ¬(settle u).control.Running := fun still => running (settle_running.mp still)
      obtain ⟨ok, pc⟩ := not_forall_not.mp returned
      exact Run.remaining_returned pc
    cases counted : counts s label with
    | false => simp [ended]
    | true =>
        have positive := (counts_running counted acted).remaining_pos
        rw [ended, Bool.toNat_true]
        omega

theorem halting_next (lawful : crew.Lawful good fit) (aligned : Aligned good fit s) (halting : Run.Halting s.control)
    (shaped : Run.Shaped crew.config s.control) (accounted : Run.Accounted crew.config s.control)
    (running : s.control.Running) :
    (∃ label, counts s label = true ∧ (step queue index s label).isSome) ∨
      ∃ position work ticket, s.jobs[position]? = some ⟨work, .started ticket⟩ ∧
        ∀ world, (step queue index s (.finish position world)).isSome := by
  have accepts : Accepts queue index s := aligned.accepts lawful halting.revoked
  have advances (enabled : (Run.step crew.config s.control .advance).isSome) :
      ∃ label, counts s label = true ∧ (step queue index s label).isSome := by
    refine ⟨.advance, rfl, ?_⟩
    rw [step_isSome, act, Option.isSome_map, go_isSome, Execution.exec_singleton]
    exact enabled
  cases pc : s.control.pc with
  | top | created | scanCheck | completing =>
      left
      apply advances
      simp only [Run.step, Run.advance, pc]
      split <;> rfl
  | scanned =>
      left
      apply advances
      simp only [Run.step, Run.advance, pc]
      split
      · rfl
      · split <;> rfl
  | awaiting =>
      left
      have ready := halting.woken pc
      refine ⟨.pollWake, ready, ?_⟩
      rw [step_isSome, act, go_isSome, Execution.exec_singleton]
      simp only [Run.step, Run.pollWake, pc]
      split <;> rfl
  | polling left =>
      left
      cases left with
      | zero =>
          apply advances
          simp [Run.step, Run.advance, pc]
      | succ left => exact ⟨.take, rfl, accepts.take left pc⟩
  | starting position => exact .inl ⟨.start, rfl, accepts.start position pc⟩
  | writing request usedLength => exact .inl ⟨.complete, rfl, accepts.complete request usedLength pc⟩
  | draining =>
      left
      have free : s.control.active = 0 := by
        rw [accounted.active, shaped.drains pc, accounted.attached running]
        rfl
      apply advances
      simp [Run.step, Run.advance, pc, free]
  | returned ok => exact absurd pc (running ok)
  | select =>
      -- A request that waits or has its result is ready; a worker that runs can finish.
      have busy : s.jobs ≠ [] := by
        intro none
        have phases := aligned.phases
        rw [none] at phases
        exact shaped.selects pc (List.map_eq_nil_iff.mp phases)
      obtain ⟨⟨work, stage⟩, rest, jobs⟩ := List.exists_cons_of_ne_nil busy
      have located : s.jobs[0]? = some ⟨work, stage⟩ := by rw [jobs]; rfl
      obtain ⟨⟨queueIndex, chain, phase⟩, pending, same⟩ := aligned.listed located
      simp only at same
      subst same
      cases stage with
      | started ticket => exact .inr ⟨0, work, ticket, located, fun world => aligned.finish_isSome world located⟩
      | waiting =>
          refine .inl ⟨.pollRequest 0, by simp [counts, located], ?_⟩
          rw [step_isSome]
          simp only [act, pollRequest, located, if_pos (.inr halting.down : crew.holdsLeases = true ∨ s.control.down = true)]
          rw [go_isSome, Execution.exec_singleton]
          simp [Run.step, Run.pollRequest, pc, pending, Job.phase, halting.down]
      | done result =>
          refine .inl ⟨.pollRequest 0, by simp [counts, located], ?_⟩
          rw [step_isSome]
          cases result with
          | ok reply =>
              simp only [act, pollRequest, located, Option.isSome_map]
              rw [go_isSome, Execution.exec_singleton]
              simp [Run.step, Run.pollRequest, pc, pending, Job.phase, answer]
          | error fault =>
              simp only [act, pollRequest, located]
              rw [go_isSome, Execution.exec_singleton]
              simp [Run.step, Run.pollRequest, pc, pending, Job.phase, answer]

/-- Once `stop()` has set its flag, revoked the memory and woken the loop between two of its steps, the loop makes only a
bounded number of steps before it returns, and a few more for each time that it is woken again. Until then it has a step
to make or waits for a worker that still runs. A step of the loop is taken to end: `complete_work` is one, so the notifier
that it awaits returns. -/
theorem stop_drains (shipped : crew.Shipped) {start : Driver.State crew.machine}
    (live : start.view.guest.leasesLeft = none) {past rest : List (Label crew)} {stopped final : State crew}
    (run : exec (step queue index) (initial start) (past ++ [.stopWake]) = some stopped) (running : stopped.control.Running)
    (after : exec (step queue index) stopped rest = some final) :
    Execution.count (step queue index) counts stopped rest ≤
        crew.resources.queues.length + 5 * stopped.jobs.length + 13 + 4 * rest.countP Label.wakes ∧
      ((∃ ok, final.control.pc = .returned ok) ∨
        (∃ label, counts final label = true ∧ (step queue index final label).isSome) ∨
        ∃ position work ticket, final.jobs[position]? = some ⟨work, .started ticket⟩ ∧
          ∀ world, (step queue index final (.finish position world)).isSome) := by
  obtain ⟨good, fit, lawful⟩ := shipped.lawful
  have reached {u : State crew} {labels : List (Label crew)}
      (ran : exec (step queue index) (initial start) labels = some u) : Reached good fit u := by
    refine Execution.invariant (Reached good fit) (fun _ _ _ reached stepped => reached.step lawful stepped) ?_ ran
    exact fun _ => ⟨.refl _ _ _, .initial live⟩
  have shaped {u : State crew} (leads : Leads crew.config true Run.initial u.control) : Run.Shaped crew.config u.control := by
    obtain ⟨path, ran, -⟩ := leads
    exact Run.shaped_run ran
  have doomed : Doomed good fit stopped := by
    refine ⟨reached run, fun _ => ?_⟩
    obtain ⟨woken, before, last⟩ := Execution.exec_append_eq_some.mp run
    rw [Execution.exec_singleton] at last
    obtain ⟨u, acted, rfl⟩ := Option.map_eq_some_iff.mp last
    have acts := act_acts acted (settle_running.mp running)
    have leads := (reached before (acts.leads.running (settle_running.mp running))).1
    cases acts with
    | stopWake moved =>
        rw [Execution.exec_singleton] at moved
        have halting := Run.halting_of_stopWake (shaped leads) moved
        rw [settle_revoked halting.revoked]
        exact halting
  have kept : ∀ (s : State crew) label t, Doomed good fit s → step queue index s label = some t → Doomed good fit t ∧
      t.control.remaining + (counts s label).toNat ≤ s.control.remaining + 4 * label.wakes.toNat :=
    fun _ _ _ doomed stepped => doomed.step lawful stepped
  obtain ⟨ends, bound⟩ := Execution.count_le (Doomed good fit) kept doomed after
  obtain ⟨leads, aligned⟩ := doomed.1 running
  refine ⟨?_, ?_⟩
  · have most := Run.remaining_le (shaped leads)
    have inflight := congrArg List.length aligned.phases
    rw [List.length_map, List.length_map] at inflight
    rw [inflight] at most
    have queues : crew.config.queues = crew.resources.queues.length := rfl
    omega
  · by_cases still : final.control.Running
    · obtain ⟨leads, aligned⟩ := ends.1 still
      obtain ⟨path, ran, -⟩ := id leads
      exact .inr (halting_next lawful aligned (ends.2 still) (shaped leads) (Run.accounted_run ran) still)
    · exact .inl (not_forall_not.mp still)

/-- A worker runs when `stop()` is called. -/
def flushStopped : List (Label flushCrew) := flushBegun ++ [.stopDown, .revoke 0] ++ [.stopWake]

def flushDrained : List (Label flushCrew) :=
  [.pollWake, .advance, .advance, .advance, .pollRequest 0, .finish 0 (), .pollRequest 0, .advance, .advance, .advance,
    .advance, .advance]

theorem stop_drains_flush :
    ∃ stopped final, exec (step flushQueue 0) (initial flushStart) flushStopped = some stopped ∧
      exec (step flushQueue 0) stopped flushDrained = some final ∧ final.control.pc = .returned true ∧
      Execution.count (step flushQueue 0) counts stopped flushDrained ≤ 19 := by
  have stops : (exec (step flushQueue 0) (initial flushStart) flushStopped).map (fun s => (s.control.pc, s.jobs.length)) =
      some (.select, 1) := by decide +kernel
  obtain ⟨stopped, run, last⟩ := Option.map_eq_some_iff.mp stops
  obtain ⟨pc, jobs⟩ := Prod.mk.inj last
  have ends : (exec (step flushQueue 0) (initial flushStart) (flushStopped ++ flushDrained)).map
      (fun s => s.control.pc) = some (.returned true) := by decide +kernel
  obtain ⟨final, whole, returned⟩ := Option.map_eq_some_iff.mp ends
  obtain ⟨_, again, after⟩ := Execution.exec_append_eq_some.mp whole
  cases run.symm.trans again
  have bound := (stop_drains flush_shipped (show flushStart.view.guest.leasesLeft = none from rfl) run
    (fun ok => by simp [pc]) after).1
  refine ⟨stopped, final, run, after, returned, bound.trans ?_⟩
  rw [jobs]
  exact Nat.le_refl 19

end Crew

end Libvirtio
