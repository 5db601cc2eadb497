import Libvirtio.Run.Loop

namespace Libvirtio.Run

variable {config : Config} {s t : State}

/-- What was published on the queue before the last doorbell is popped, or the doorbell is still to be heard. -/
def HeardAt (s : State) (queue : Nat) : Prop := s.wake.Armed ∨ s.kicked queue ≤ s.popped queue

def Heard (s : State) : Prop := ∀ queue, HeardAt s queue

def Full (config : Config) (s : State) : Prop := config.maximumInflight ≤ s.pending.length

/-- What holds where the loop is. In a pass over the queues, the last polls of the pass found theirs empty. -/
def Place (config : Config) (s : State) : Prop :=
  match s.pc with
  | .top | .scanCheck => s.scanQueues = true ∨ Heard s
  | .created | .awaiting => Heard s
  | .polling left => s.scanQueues = true ∧ ¬Full config s ∧ left ≤ config.queues ∧ config.queues ≤ s.polls + left ∧
      ∀ i < s.polls, s.polls + left ≤ i + config.queues → HeardAt s (i % config.queues)
  | .scanned | .select | .starting _ => Heard s ∨ Full config s
  | .completing _ _ | .writing _ _ => ¬Full config s
  | .draining => False
  | .returned _ => True

def Pc.waits : Pc → Bool
  | .created | .awaiting | .select | .starting _ => true
  | _ => false

structure Inv (config : Config) (s : State) : Prop where
  live : s.down = false
  kicked : ∀ queue, s.kicked queue ≤ s.published queue
  outside : ∀ queue, config.queues ≤ queue → s.published queue = 0
  next : s.nextQueue = s.polls
  bounded : s.pending.length ≤ config.maximumInflight
  served : s.pending ≠ [] → 0 < config.queues
  waiter : s.pc.waits = false → s.wake.waiter = .absent
  place : Place config s

theorem Inv.absent (inv : Inv config s) {pc : Pc} (here : s.pc = pc) (idle : pc.waits = false) :
    s.wake.waiter = .absent :=
  inv.waiter (by rw [here, idle])

theorem maximumInflight_pos (config : Config) : 0 < config.maximumInflight :=
  Nat.lt_of_lt_of_le Nat.zero_lt_one (Nat.le_max_left _ _)

theorem initial_inv : Inv config initial where
  live := rfl
  kicked _ := Nat.le_refl _
  outside _ _ := rfl
  next := rfl
  bounded := Nat.zero_le _
  served := fun nonempty => absurd rfl nonempty
  waiter _ := rfl
  place := Or.inr fun _ => Or.inr (Nat.le_refl _)

theorem Place.undisturbed (place : Place config s) (same : Undisturbed s t)
    (heard : ∀ queue, HeardAt s queue → HeardAt t queue) : Place config t := by
  have all (before : Heard s) : Heard t := fun queue => heard queue (before queue)
  have full : Full config t ↔ Full config s := by rw [Full, Full, same.inflight]
  unfold Place at place ⊢
  rw [same.pc, same.scanQueues, same.polls, full]
  cases pc : s.pc with
  | top | scanCheck =>
      rw [pc] at place
      exact place.imp_right all
  | created | awaiting =>
      rw [pc] at place
      exact all place
  | polling left =>
      rw [pc] at place
      obtain ⟨scanning, room, within, counted, polled⟩ := place
      exact ⟨scanning, room, within, counted, fun i before recent => heard _ (polled i before recent)⟩
  | scanned | select | starting _ =>
      rw [pc] at place
      exact place.imp_left all
  | completing _ _ | writing _ _ | draining | returned _ =>
      rw [pc] at place
      exact place

def Label.stops : Label → Bool
  | .stopDown | .stopRevoke | .stopWake => true
  | _ => false

theorem environment_down {label : Label} (environment : label.environment = true) (going : label.stops = false)
    (stepped : step config s label = some t) : t.down = s.down := by
  cases step_moves stepped with
  | publish | kick | finish | finishDetached => rfl
  | stopDown | stopRevoke | stopWake => cases going
  | _ => cases environment

theorem environment_inv (inv : Inv config s) {label : Label} (environment : label.environment = true)
    (going : label.stops = false) (stepped : step config s label = some t) : Inv config t := by
  have same := environment_undisturbed environment stepped
  cases step_moves stepped with
  | publish configured =>
      refine ⟨inv.live, fun other => ?_, fun other far => ?_, inv.next, inv.bounded, inv.served, inv.waiter,
        inv.place.undisturbed same fun _ heard => heard⟩
      · refine (inv.kicked other).trans ?_
        simp only [Function.update_apply]
        split
        · rename_i here
          rw [here]
          exact Nat.le_succ _
        · exact Nat.le_refl _
      · simp only [Function.update_apply]
        rw [if_neg (by omega)]
        exact inv.outside other far
  | kick =>
      refine ⟨inv.live, fun _ => Nat.le_refl _, inv.outside, inv.next, inv.bounded, inv.served, fun idle => ?_, ?_⟩
      · simp only [Notify.notifyOne, inv.waiter idle]
      · exact inv.place.undisturbed same fun _ _ => Or.inl (s.wake.armed_notifyOne)
  | finish found =>
      refine ⟨inv.live, inv.kicked, inv.outside, inv.next, ?_, fun _ => inv.served ?_, inv.waiter,
        inv.place.undisturbed same fun _ heard => heard⟩
      · simpa using inv.bounded
      · rintro empty
        rw [empty] at found
        cases found
  | finishDetached =>
      exact ⟨inv.live, inv.kicked, inv.outside, inv.next, inv.bounded, inv.served, inv.waiter,
        inv.place.undisturbed same fun _ heard => heard⟩
  | stopDown | stopRevoke | stopWake => cases going
  | _ => cases environment

theorem Heard.mono (heard : Heard s) (armed : s.wake.Armed → t.wake.Armed) (kicked : t.kicked = s.kicked)
    (popped : t.popped = s.popped) : Heard t := by
  intro queue
  rcases heard queue with waiting | served
  · exact Or.inl (armed waiting)
  · exact Or.inr (by rwa [kicked, popped])

theorem abort_inv (live : s.down = false) (kicked : ∀ queue, s.kicked queue ≤ s.published queue)
    (outside : ∀ queue, config.queues ≤ queue → s.published queue = 0) (next : s.nextQueue = s.polls) :
    Inv config (abort s) where
  live := live
  kicked := kicked
  outside := outside
  next := next
  bounded := Nat.zero_le _
  served := fun nonempty => absurd rfl nonempty
  waiter _ := s.wake.drop_waiter
  place := trivial

theorem pass_heard (inv : Inv config s) (pc : s.pc = .polling 0) : Heard s := by
  have place := inv.place
  rw [Place, pc] at place
  obtain ⟨-, -, -, counted, polled⟩ := place
  intro queue
  by_cases inside : queue < config.queues
  · obtain ⟨i, before, recent, rfl⟩ := polled_recently inside counted
    exact polled i before recent
  · refine Or.inr ?_
    have := inv.kicked queue
    have := inv.outside queue (by omega)
    omega

theorem not_full_of_empty (empty : s.pending = []) : ¬Full config s := by
  rw [Full, empty, List.length_nil]
  exact Nat.not_le.mpr (maximumInflight_pos config)

theorem advance_inv (inv : Inv config s) (stepped : advance config s = some t) : Inv config t := by
  have place := inv.place
  unfold Place at place
  cases advance_moves stepped with
  | listen pc idle =>
      simp only [pc] at place
      have heard : Heard s := place.resolve_left (by simp [idle.1])
      exact { inv with
        waiter := fun idle => by cases idle
        place := heard.mono (.create (inv.absent pc rfl)) rfl rfl }
  | proceed pc =>
      simp only [pc] at place
      exact { inv with
        waiter := fun _ => inv.absent pc rfl
        place := place }
  | await pc =>
      simp only [pc] at place
      exact { inv with
        waiter := fun idle => by cases idle
        place := place }
  | scan pc free =>
      -- No poll of this pass is behind, and none has to be heard of.
      refine { inv with
        waiter := fun _ => inv.absent pc rfl
        place := ⟨free.2.1, Nat.not_le.mpr free.2.2, Nat.le_refl _, Nat.le_add_left _ _, ?_⟩ }
      intro i before recent
      omega
  | leaveScan pc blocked =>
      simp only [pc] at place
      refine { inv with
        waiter := fun _ => inv.absent pc rfl
        place := ?_ }
      rcases place with scanning | heard
      · exact Or.inr (Nat.not_lt.mp fun room => blocked ⟨inv.live, scanning, room⟩)
      · exact Or.inl heard
  | endPass pc =>
      have heard := pass_heard inv pc
      exact { inv with
        waiter := fun _ => inv.absent pc rfl
        place := Or.inl heard }
  -- The flag is cleared with every doorbell heard, or with no slot left.
  | idle pc _ empty =>
      simp only [pc] at place
      exact { inv with
        waiter := fun _ => inv.absent pc rfl
        place := Or.inr (place.resolve_right (not_full_of_empty empty)) }
  | select pc =>
      simp only [pc] at place
      exact { inv with
        waiter := fun idle => by cases idle
        place := place.imp_left fun heard => heard.mono (.create (inv.absent pc rfl)) rfl rfl }
  | write pc =>
      simp only [pc] at place
      exact { inv with
        waiter := fun _ => inv.absent pc rfl
        place := place }
  | unlisten _ down | forsake _ down => cases inv.live.symm.trans down
  | drain _ stopped => cases inv.live.symm.trans stopped.1
  | drained pc => simp only [pc] at place

theorem take_inv (inv : Inv config s) {taken : Taken} (stepped : take config s taken = some t)
    (few : t.polls < 2 ^ 64) : Inv config t := by
  have place := inv.place
  have next : (s.nextQueue + 1) % 2 ^ 64 = s.polls + 1 := by
    rw [(take_polls stepped).1] at few
    rw [inv.next, Nat.mod_eq_of_lt few]
  cases take_moves stepped with
  | takeNone pc empty =>
      rw [Place, pc] at place
      obtain ⟨scanning, room, within, counted, polled⟩ := place
      refine { inv with
        next := next
        waiter := fun _ => inv.absent pc rfl
        place := ⟨scanning, room, by omega, by simp only [pollQueue]; omega, ?_⟩ }
      intro i before recent
      simp only [pollQueue] at before recent
      by_cases old : i < s.polls
      · exact polled i old (by omega)
      · have here : i = s.nextQueue := by
          rw [inv.next]
          omega
        refine Or.inr ?_
        rw [here]
        exact Nat.le_trans (inv.kicked _) (Nat.le_of_eq empty.2.symm)
  | takeWork pc =>
      rw [Place, pc] at place
      obtain ⟨scanning, room, within, -⟩ := place
      refine { inv with
        next := next
        bounded := ?_
        served := fun _ => by omega
        waiter := fun _ => inv.absent pc rfl
        place := Or.inl scanning }
      rw [Full, Nat.not_le] at room
      rw [List.length_append]
      exact room
  | takeMalformed | takeFailed => exact abort_inv inv.live inv.kicked inv.outside next

theorem pollWake_inv (inv : Inv config s) (stepped : pollWake s = some t) : Inv config t := by
  have place := inv.place
  unfold Place at place
  cases @pollWake_moves config _ _ stepped with
  | awaitReady _ ready | selectReady _ ready =>
      exact { inv with
        waiter := fun _ => Notify.poll_waiter ready
        place := Or.inl rfl }
  | awaitPending pc waits =>
      simp only [pc] at place
      refine { inv with
        waiter := fun idle => by rw [pc] at idle; cases idle
        place := ?_ }
      rw [Place, pc]
      exact place.mono (fun armed => armed.poll waits) rfl rfl
  | selectPending pc waits =>
      simp only [pc] at place
      refine { inv with
        waiter := fun idle => by rw [pc] at idle; cases idle
        place := ?_ }
      rw [Place, pc]
      exact place.imp_left fun heard => heard.mono (fun armed => armed.poll waits) rfl rfl

theorem pollRequest_inv (inv : Inv config s) {position : Nat} (stepped : pollRequest s position = some t) :
    Inv config t := by
  have place := inv.place
  unfold Place at place
  cases @pollRequest_moves config _ _ _ stepped with
  | requestRefused _ _ _ down => cases inv.live.symm.trans down
  | requestStarting pc =>
      simp only [pc] at place
      exact { inv with
        waiter := fun idle => by cases idle
        place := place }
  | requestRunning => exact inv
  | requestFailed => exact abort_inv inv.live inv.kicked inv.outside inv.next
  | requestReady pc found =>
      obtain ⟨inside, -⟩ := List.getElem?_eq_some_iff.mp found
      have fewer := List.length_eraseIdx_of_lt inside
      have bounded := inv.bounded
      refine { inv with
        bounded := by simp only; omega
        served := fun _ => inv.served (List.ne_nil_of_length_pos (by omega))
        waiter := fun _ => s.wake.drop_waiter
        place := ?_ }
      simp only [Place, Full]
      omega

theorem start_inv (inv : Inv config s) {leases : Option Nat} (stepped : start config s leases = some t) :
    Inv config t := by
  have place := inv.place
  unfold Place at place
  cases start_moves stepped with
  | startWorker pc found =>
      simp only [pc] at place
      refine { inv with
        bounded := by simpa using inv.bounded
        served := fun _ => inv.served (by rintro empty; rw [empty] at found; cases found)
        waiter := fun idle => by cases idle
        place := ?_ }
      simpa only [Place, Full, Heard, HeardAt, List.length_set] using place
  | startFailed => exact abort_inv inv.live inv.kicked inv.outside inv.next

theorem complete_inv (inv : Inv config s) {outcome : Completion} (stepped : complete s outcome = some t) :
    Inv config t := by
  cases @complete_moves config _ _ _ stepped with
  | announced pc =>
      exact { inv with
        waiter := fun _ => inv.absent pc rfl
        place := Or.inl rfl }
  | silent | completeFailed => exact abort_inv inv.live inv.kicked inv.outside inv.next

theorem step_inv (inv : Inv config s) {label : Label} (going : label.stops = false)
    (stepped : step config s label = some t) (few : t.polls < 2 ^ 64) : Inv config t := by
  by_cases environment : label.environment = true
  · exact environment_inv inv environment going stepped
  cases label with
  | advance => exact advance_inv inv stepped
  | take taken => exact take_inv inv stepped few
  | pollWake => exact pollWake_inv inv stepped
  | pollRequest position => exact pollRequest_inv inv stepped
  | start leases => exact start_inv inv stepped
  | complete outcome => exact complete_inv inv stepped
  | _ => exact absurd rfl environment

theorem run_inv {labels : List Label} (run : exec (step config) initial labels = some s)
    (going : ∀ label ∈ labels, label.stops = false) (few : s.polls < 2 ^ 64) : Inv config s := by
  refine Execution.invariant_along (fun s => s.polls < 2 ^ 64 → Inv config s) ?_ (fun _ => initial_inv)
    (Execution.Along.of_forall going initial) run few
  intro s label t inv going stepped few
  exact step_inv (inv (Nat.lt_of_le_of_lt (step_polls stepped) few)) going stepped few

/-- Since the polls were counted, a queue was polled, or nothing can keep the loop from polling one. -/
def Rescans (config : Config) (polls : Nat) (s : State) : Prop :=
  polls < s.polls ∨ polls = s.polls ∧ s.down = false ∧ ¬Full config s ∧
    match s.pc with
    | .completing _ _ | .writing _ _ | .returned _ => True
    | .top | .scanCheck => s.scanQueues = true
    | .polling left => 0 < left
    | _ => False

theorem Rescans.undisturbed {polls : Nat} (rescans : Rescans config polls s) (same : Undisturbed s t)
    (down : t.down = s.down) : Rescans config polls t := by
  unfold Rescans Full at rescans ⊢
  rw [same.polls, same.pc, same.scanQueues, same.inflight, down]
  exact rescans

theorem abort_rescans {polls : Nat} (counted : polls = s.polls) (live : s.down = false) :
    Rescans config polls (abort s) :=
  Or.inr ⟨counted, live, Nat.not_le.mpr (maximumInflight_pos config), trivial⟩

theorem rescans_step {polls : Nat} (served : 0 < config.queues) (rescans : Rescans config polls s) {label : Label}
    (going : label.stops = false) (stepped : step config s label = some t) : Rescans config polls t := by
  by_cases environment : label.environment = true
  · exact rescans.undisturbed (environment_undisturbed environment stepped) (environment_down environment going stepped)
  rcases rescans with done | ⟨counted, live, room, place⟩
  · exact Or.inl (Nat.lt_of_lt_of_le done (step_polls stepped))
  cases step_moves stepped with
  | proceed pc | write pc =>
      simp only [pc] at place
      exact Or.inr ⟨counted, live, room, place⟩
  | scan => exact Or.inr ⟨counted, live, room, served⟩
  | leaveScan pc blocked =>
      simp only [pc] at place
      exact absurd ⟨live, place, Nat.not_le.mp room⟩ blocked
  | listen pc idle =>
      simp only [pc, idle.1] at place
      cases place
  | endPass pc =>
      simp only [pc] at place
      omega
  | forsake _ down => cases live.symm.trans down
  | takeNone | takeWork | takeMalformed | takeFailed => exact Or.inl (Nat.lt_succ_of_le (Nat.le_of_eq counted))
  | announced => exact Or.inr ⟨counted, live, room, rfl⟩
  | silent | completeFailed => exact abort_rescans counted live
  | publish | kick | stopDown | stopRevoke | stopWake | finish | finishDetached => exact absurd rfl environment
  -- The loop is at none of the other places.
  | unlisten pc | await pc | drain pc | idle pc | select pc | drained pc | awaitReady pc | awaitPending pc
  | selectReady pc | selectPending pc | requestRefused pc | requestStarting pc | requestRunning pc | requestFailed pc
  | requestReady pc | startWorker pc | startFailed pc => simp only [pc] at place

def State.Parked (s : State) : Prop := (s.pc = .awaiting ∨ s.pc = .select) ∧ s.wake.waiter = .waiting

theorem Rescans.parked {polls : Nat} (rescans : Rescans config polls s) (parked : s.Parked) : polls < s.polls := by
  rcases rescans with done | ⟨-, -, -, place⟩
  · exact done
  · rcases parked.1 with pc | pc
    all_goals simp only [pc] at place

theorem completing_rescans (inv : Inv config s) {position : Nat} {request : Request} {usedLength : UInt32}
    (stepped : step config s (.pollRequest position) = some t) (completing : t.pc = .completing request usedLength) :
    0 < config.queues ∧ Rescans config t.polls t := by
  have after := pollRequest_inv inv stepped
  have place := after.place
  rw [Place, completing] at place
  refine ⟨inv.served ?_, Or.inr ⟨rfl, after.live, place, by rw [completing]; trivial⟩⟩
  rintro empty
  simp [step, pollRequest, empty] at stepped

/-- No doorbell is lost. A loop that is parked with a slot left and no stored permit has popped all that was published
before the last `kick()`. Also when no slot is left, the next request that ends makes it scan before it parks again. -/
theorem no_lost_doorbell {labels : List Label} (run : exec (step config) initial labels = some s)
    (going : ∀ label ∈ labels, label.stops = false) (few : s.polls < 2 ^ 64) :
    (s.Parked → s.wake.permit = false → s.pc = .awaiting ∨ s.pending.length < config.maximumInflight →
      ∀ queue, s.kicked queue ≤ s.popped queue) ∧
    ∀ position t request usedLength, step config s (.pollRequest position) = some t →
        t.pc = .completing request usedLength →
      ∀ rest u, exec (step config) t rest = some u → (∀ label ∈ rest, label.stops = false) → u.Parked →
        t.polls < u.polls := by
  have inv := run_inv run going few
  constructor
  · rintro ⟨place, waiting⟩ permit free queue
    have settled := Notify.not_armed permit waiting
    have heard : Heard s := by
      have here := inv.place
      unfold Place at here
      rcases place with pc | pc
      · simpa only [pc] using here
      · simp only [pc] at here
        have room := free.resolve_left fun awaiting => by cases pc.symm.trans awaiting
        exact here.resolve_right (Nat.not_le.mpr room)
    exact (heard queue).resolve_left settled
  · intro position t request usedLength stepped completing rest u continued going parked
    obtain ⟨served, rescans⟩ := completing_rescans inv stepped completing
    have later : Rescans config t.polls u := Execution.invariant_along (Rescans config t.polls)
      (fun _ _ _ rescans going stepped => rescans_step served rescans going stepped) rescans
      (Execution.Along.of_forall going t) continued
    exact later.parked parked

def oneTaken : List Label :=
  [.publish 0, .kick, .advance, .advance, .pollWake, .advance, .take .work, .advance, .take .none, .advance, .advance,
    .pollWake]

-- It takes four of five chains, waits with no slot left, and the first of the four ends.
def allTaken : List Label :=
  List.replicate 5 (.publish 0) ++ [.kick, .advance, .advance, .pollWake] ++
    (List.replicate 4 [.advance, .take .work]).flatten ++
    [.advance, .advance, .pollWake, .pollRequest 0, .start (some 1), .finish 0 (some 1)]

def refilled : List Label :=
  [.advance, .complete .announced, .advance, .advance, .take .work, .advance, .advance, .pollWake]

theorem no_lost_doorbell_parked :
    (∃ s, exec (step ⟨1, true⟩) initial oneTaken = some s ∧ s.Parked ∧ s.kicked 0 = 1 ∧ s.kicked 0 ≤ s.popped 0) ∧
    ∃ s t u, exec (step ⟨1, true⟩) initial allTaken = some s ∧ step ⟨1, true⟩ s (.pollRequest 0) = some t ∧
      exec (step ⟨1, true⟩) t refilled = some u ∧ u.Parked ∧ t.polls < u.polls := by
  constructor
  · have ends : (exec (step ⟨1, true⟩) initial oneTaken).map
        (fun s => (s.pc, s.wake, s.pending.length, s.polls, s.kicked 0)) = some (.select, ⟨false, .waiting⟩, 1, 2, 1) := by
      decide +kernel
    obtain ⟨s, run, facts⟩ := Option.map_eq_some_iff.mp ends
    simp only [Prod.mk.injEq] at facts
    obtain ⟨pc, wake, inflight, polls, kicked⟩ := facts
    have parked : s.Parked := ⟨Or.inr pc, by rw [wake]⟩
    have few : s.polls < 2 ^ 64 := by omega
    have room : s.pending.length < Config.maximumInflight ⟨1, true⟩ := by rw [inflight]; decide
    exact ⟨s, run, parked, kicked,
      (no_lost_doorbell run (by decide) few).1 parked (by rw [wake]) (Or.inr room) 0⟩
  · have ends : (exec (step ⟨1, true⟩) initial allTaken).map (fun s => (s.polls, (step ⟨1, true⟩ s (.pollRequest 0)).map
        fun t => (t.pc, (exec (step ⟨1, true⟩) t refilled).map fun u => (u.pc, u.wake.waiter)))) =
        some (4, some (.completing ⟨0, ⟨0, 0⟩, .finished (some 1)⟩ 1, some (.select, .waiting))) := by decide +kernel
    obtain ⟨s, run, next⟩ := Option.map_eq_some_iff.mp ends
    obtain ⟨polls, next⟩ := Prod.mk.inj next
    obtain ⟨t, stepped, next⟩ := Option.map_eq_some_iff.mp next
    obtain ⟨completing, next⟩ := Prod.mk.inj next
    obtain ⟨u, continued, last⟩ := Option.map_eq_some_iff.mp next
    obtain ⟨pc, waiting⟩ := Prod.mk.inj last
    have few : s.polls < 2 ^ 64 := by omega
    have parked : u.Parked := ⟨Or.inr pc, waiting⟩
    exact ⟨s, t, u, run, stepped, continued, parked,
      (no_lost_doorbell run (by decide) few).2 0 t _ _ stepped completing refilled u continued (by decide) parked⟩

end Libvirtio.Run
