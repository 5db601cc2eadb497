import Libvirtio.Run.Crew
import Libvirtio.Run.Doorbell
import Libvirtio.Run.Teardown
import Libvirtio.Run.Wake
import Mathlib.Data.List.InsertIdx

/-!
# The loop with its device

The loop of the block and the filesystem device takes any answer from `take_work`, `execute_work` and `complete_work`.
Here the device gives the answers, and a driver of one queue publishes what it finds there.
-/

namespace Libvirtio.Crew

/-- How far the loop's `execute_work` is with a piece of work. -/
inductive Stage (crew : Crew) where
  | waiting
  | started (ticket : crew.Ticket)
  | done (result : Except Fault crew.Reply)

structure Job (crew : Crew) where
  work : crew.Work
  stage : Stage crew

/-- `jobs` are the works of the loop's pending futures, `hand` is the one that it completes. -/
structure State (crew : Crew) where
  control : Run.State
  driver : Driver.State crew.machine
  jobs : List (Job crew)
  hand : Option (crew.Work × crew.Reply)

inductive Label (crew : Crew) where
  | publish (head : UInt16)
  | reap
  | elsewhere (host : Nat → UInt8)
  | host (change : crew.machine.State → crew.machine.State)
  | kick
  | stopDown
  | revoke (leases : Nat)
  | stopWake
  | finish (position : Nat) (world : crew.World)
  | advance
  | take
  | pollWake
  | pollRequest (position : Nat)
  | start
  | complete

def config (crew : Crew) : Run.Config := ⟨crew.resources.queues.length, crew.holdsLeases⟩

def answer {crew : Crew} : Except Fault crew.Reply → Option UInt32
  | .ok reply => some (crew.usedLength reply)
  | .error _ => none

section
variable {crew : Crew}

def State.see (s : State crew) (view : DeviceView crew.machine.State) : State crew :=
  { s with driver := { s.driver with view } }

/-- The loop goes on with these answers. -/
def State.go (s : State crew) (answers : List Run.Label) : Option (State crew) :=
  (exec (Run.step crew.config) s.control answers).map fun control => { s with control }

variable (queue : VirtQueue) (index : Nat)

/-- A chain on a queue that is not the driver's counts as published once it is found there. -/
def found (other : Nat) (taken : Run.Taken) : List Run.Label :=
  (if other = index then [] else [.publish other]) ++ [.take taken]

def drive (s : State crew) (label : Driver.Label crew.machine) : Option (State crew) :=
  (Driver.step queue index s.driver label).map fun driver => { s with driver }

def take (s : State crew) : Option (State crew) :=
  match s.control.pc with
  | .polling (_ + 1) =>
      let other := (Run.pollQueue crew.config s.control).1
      match crew.takeWork other s.driver.view with
      | (.ok none, view) => (s.see view).go [.take .none]
      | (.ok (some work), view) => ((s.see view).go (found index other .work)).map fun t =>
          { t with jobs := t.jobs ++ [⟨work, .waiting⟩] }
      | (.error _, view) =>
          -- A chain that was popped before its parser failed is lost.
          if view.states[other]? = s.driver.view.states[other]? then (s.see view).go [.take .failed]
          else (s.see view).go (found index other .malformed)
  | _ => none

/-- `past` is what the loop did before in the same poll. -/
def start (s : State crew) (past : List Run.Label) (position : Nat) : Option (State crew) :=
  match s.jobs[position]? with
  | some ⟨work, .waiting⟩ =>
      match crew.startWork work s.driver.view with
      | (.ok ticket, view) => ((s.see view).go (past ++ [.start (some (crew.leases ticket))])).map fun t =>
          { t with jobs := t.jobs.set position ⟨work, .started ticket⟩ }
      | (.error _, view) => (s.see view).go (past ++ [.start none])
  | _ => none

/-- The worker reads and writes the guest's memory in one step, the last one before it ends. -/
def finish (s : State crew) (position : Nat) (world : crew.World) : Option (State crew) :=
  match s.jobs[position]? with
  | some ⟨work, .started ticket⟩ =>
      match crew.runWorker world work ticket s.driver.view with
      | (result, view) => ((s.see view).go [.finish position (answer result)]).map fun t =>
          { t with jobs := t.jobs.set position ⟨work, .done result⟩ }
  | _ => none

-- A worker that takes no lease starts in the poll that finds the device live.
def pollRequest (s : State crew) (position : Nat) : Option (State crew) :=
  match s.jobs[position]? with
  | some ⟨work, .done (.ok reply)⟩ => (s.go [.pollRequest position]).map fun t =>
      { t with jobs := t.jobs.eraseIdx position, hand := some (work, reply) }
  | some ⟨_, .waiting⟩ =>
      if crew.holdsLeases ∨ s.control.down then s.go [.pollRequest position] else start s [.pollRequest position] position
  | some _ => s.go [.pollRequest position]
  | none => none

def complete (s : State crew) : Option (State crew) :=
  match s.control.pc, s.hand with
  | .writing _ _, some (work, reply) =>
      match crew.completeWork work reply s.driver.view with
      | (.ok (), view) => ({ s.see view with hand := none }).go [.complete .announced]
      | (.error _, view) =>
          if view.log.length = s.driver.view.log.length then ({ s.see view with hand := none }).go [.complete .failed]
          else ({ s.see view with hand := none }).go [.complete .silent]
  | _, _ => none

/-- The loop knows of a revocation once it has taken effect. -/
def settle (s : State crew) : State crew :=
  if s.driver.view.guest.leasesLeft = some 0 then { s with control := { s.control with revoked := true } } else s

def act (s : State crew) : Label crew → Option (State crew)
  | .publish head => (drive queue index s (.publish head)).bind fun t => t.go [.publish index]
  | .reap => drive queue index s .reap
  | .elsewhere host => drive queue index s (.elsewhere host)
  | .host change => some (s.see { s.driver.view with backend := change s.driver.view.backend })
  | .kick => s.go [.kick]
  | .stopDown => s.go [.stopDown]
  | .revoke leases =>
      let guest := s.driver.view.guest
      if s.control.down then
        some (s.see { s.driver.view with guest := { guest with leasesLeft := Server.revoke leases guest.leasesLeft } })
      else none
  | .stopWake => s.go [.stopWake]
  | .finish position world => finish s position world
  | .advance => (s.go [.advance]).map fun t => { t with hand := if t.control.pc = .top then none else t.hand }
  | .take => take index s
  | .pollWake => s.go [.pollWake]
  | .pollRequest position => pollRequest s position
  | .start =>
      match s.control.pc with
      | .starting position => start s [] position
      | _ => none
  | .complete => complete s

def step (s : State crew) (label : Label crew) : Option (State crew) := (act queue index s label).map settle

def initial (start : Driver.State crew.machine) : State crew := ⟨Run.initial, start, [], none⟩

end

/-! ## What a step can do -/

section
variable {crew : Crew} {queue : VirtQueue} {index : Nat} {s t : State crew} {label : Label crew}

theorem go_eq_some {answers : List Run.Label} (gone : s.go answers = some t) :
    ∃ control, exec (Run.step crew.config) s.control answers = some control ∧ t = { s with control } := by
  obtain ⟨control, moved, rfl⟩ := Option.map_eq_some_iff.mp gone
  exact ⟨control, moved, rfl⟩

/-- One rule for each branch of `act` after which the loop still runs. -/
inductive Acts (queue : VirtQueue) (index : Nat) (s : State crew) : Label crew → State crew → Prop
  | publish {head : UInt16} {after : Driver.State crew.machine} {control : Run.State}
      (driven : Driver.step queue index s.driver (.publish head) = some after)
      (moved : exec (Run.step crew.config) s.control [.publish index] = some control) :
      Acts queue index s (.publish head) { s with driver := after, control }
  | reap {after : Driver.State crew.machine} (driven : Driver.step queue index s.driver .reap = some after) :
      Acts queue index s .reap { s with driver := after }
  | elsewhere {host : Nat → UInt8} {after : Driver.State crew.machine}
      (driven : Driver.step queue index s.driver (.elsewhere host) = some after) :
      Acts queue index s (.elsewhere host) { s with driver := after }
  | host (change : crew.machine.State → crew.machine.State) :
      Acts queue index s (.host change) (s.see { s.driver.view with backend := change s.driver.view.backend })
  | kick {control : Run.State} (moved : exec (Run.step crew.config) s.control [.kick] = some control) :
      Acts queue index s .kick { s with control }
  | stopDown {control : Run.State} (moved : exec (Run.step crew.config) s.control [.stopDown] = some control) :
      Acts queue index s .stopDown { s with control }
  | revoke (leases : Nat) (down : s.control.down = true) :
      Acts queue index s (.revoke leases) (s.see { s.driver.view with guest := { s.driver.view.guest with
        leasesLeft := Server.revoke leases s.driver.view.guest.leasesLeft } })
  | stopWake {control : Run.State} (moved : exec (Run.step crew.config) s.control [.stopWake] = some control) :
      Acts queue index s .stopWake { s with control }
  | finish {position : Nat} {world : crew.World} {work : crew.Work} {ticket : crew.Ticket}
      {result : Except Fault crew.Reply} {view : DeviceView crew.machine.State} {control : Run.State}
      (located : s.jobs[position]? = some ⟨work, .started ticket⟩)
      (ran : crew.runWorker world work ticket s.driver.view = (result, view))
      (moved : exec (Run.step crew.config) s.control [.finish position (answer result)] = some control) :
      Acts queue index s (.finish position world)
        { s.see view with control, jobs := s.jobs.set position ⟨work, .done result⟩ }
  | advance {control : Run.State} (moved : exec (Run.step crew.config) s.control [.advance] = some control) :
      Acts queue index s .advance { s with control, hand := if control.pc = .top then none else s.hand }
  | takeNone {left : Nat} {view : DeviceView crew.machine.State} {control : Run.State}
      (pc : s.control.pc = .polling (left + 1))
      (answered : crew.takeWork (Run.pollQueue crew.config s.control).1 s.driver.view = (.ok none, view))
      (moved : exec (Run.step crew.config) s.control [.take .none] = some control) :
      Acts queue index s .take { s.see view with control }
  | takeWork {left : Nat} {work : crew.Work} {view : DeviceView crew.machine.State} {control : Run.State}
      (pc : s.control.pc = .polling (left + 1))
      (answered : crew.takeWork (Run.pollQueue crew.config s.control).1 s.driver.view = (.ok (some work), view))
      (moved : exec (Run.step crew.config) s.control (found index (Run.pollQueue crew.config s.control).1 .work) =
        some control) : Acts queue index s .take { s.see view with control, jobs := s.jobs ++ [⟨work, .waiting⟩] }
  | pollWake {control : Run.State} (moved : exec (Run.step crew.config) s.control [.pollWake] = some control) :
      Acts queue index s .pollWake { s with control }
  | grasp {position : Nat} {work : crew.Work} {reply : crew.Reply} {control : Run.State}
      (located : s.jobs[position]? = some ⟨work, .done (.ok reply)⟩)
      (moved : exec (Run.step crew.config) s.control [.pollRequest position] = some control) :
      Acts queue index s (.pollRequest position)
        { s with control, jobs := s.jobs.eraseIdx position, hand := some (work, reply) }
  | pollRequest {position : Nat} {job : Job crew} {control : Run.State} (located : s.jobs[position]? = some job)
      (unfinished : ∀ reply, job.stage ≠ .done (.ok reply))
      (leased : job.stage = .waiting → crew.holdsLeases = true ∨ s.control.down = true)
      (moved : exec (Run.step crew.config) s.control [.pollRequest position] = some control) :
      Acts queue index s (.pollRequest position) { s with control }
  | start {position : Nat} {work : crew.Work} {ticket : crew.Ticket} {view : DeviceView crew.machine.State}
      {control : Run.State} (pc : s.control.pc = .starting position)
      (located : s.jobs[position]? = some ⟨work, .waiting⟩)
      (started : crew.startWork work s.driver.view = (.ok ticket, view))
      (moved : exec (Run.step crew.config) s.control [.start (some (crew.leases ticket))] = some control) :
      Acts queue index s .start { s.see view with control, jobs := s.jobs.set position ⟨work, .started ticket⟩ }
  | startAtOnce {position : Nat} {work : crew.Work} {ticket : crew.Ticket} {view : DeviceView crew.machine.State}
      {control : Run.State} (located : s.jobs[position]? = some ⟨work, .waiting⟩) (live : s.control.down = false)
      (started : crew.startWork work s.driver.view = (.ok ticket, view))
      (moved : exec (Run.step crew.config) s.control [.pollRequest position, .start (some (crew.leases ticket))] =
        some control) :
      Acts queue index s (.pollRequest position)
        { s.see view with control, jobs := s.jobs.set position ⟨work, .started ticket⟩ }
  | complete {request : Run.Request} {usedLength : UInt32} {work : crew.Work} {reply : crew.Reply}
      {view : DeviceView crew.machine.State} {control : Run.State} (pc : s.control.pc = .writing request usedLength)
      (handed : s.hand = some (work, reply)) (answered : crew.completeWork work reply s.driver.view = (.ok (), view))
      (moved : exec (Run.step crew.config) s.control [.complete .announced] = some control) :
      Acts queue index s .complete { s.see view with control, hand := none }

def fatal : Run.Label → Bool
  | .take .malformed | .take .failed | .start none | .complete .silent | .complete .failed => true
  | _ => false

theorem fatal_returns {past : List Run.Label} {last : Run.Label} (gone : s.go (past ++ [last]) = some t)
    (ends : fatal last = true) : ¬t.control.Running := by
  obtain ⟨control, moved, rfl⟩ := go_eq_some gone
  obtain ⟨before, -, moved⟩ := Execution.exec_append_eq_some.mp moved
  rw [Execution.exec_singleton] at moved
  intro running
  cases Run.step_moves moved with
  | takeMalformed | takeFailed | startFailed | silent | completeFailed => exact running false rfl
  | _ => cases ends

theorem take_acts (taken : take index s = some t) (running : t.control.Running) : Acts queue index s .take t := by
  unfold take at taken
  split at taken
  · rename_i left pc
    simp only at taken
    split at taken
    · rename_i view answered
      obtain ⟨control, moved, rfl⟩ := go_eq_some taken
      exact .takeNone pc answered moved
    · rename_i work view answered
      obtain ⟨u, gone, rfl⟩ := Option.map_eq_some_iff.mp taken
      obtain ⟨control, moved, rfl⟩ := go_eq_some gone
      exact .takeWork pc answered moved
    · split at taken
      · exact absurd running (@fatal_returns crew _ _ [] _ taken rfl)
      · exact absurd running (fatal_returns taken rfl)
  · cases taken

theorem start_eq_some {past : List Run.Label} {position : Nat} (started : start s past position = some t)
    (running : t.control.Running) : ∃ work ticket view control, s.jobs[position]? = some ⟨work, .waiting⟩ ∧
      crew.startWork work s.driver.view = (.ok ticket, view) ∧
      exec (Run.step crew.config) s.control (past ++ [.start (some (crew.leases ticket))]) = some control ∧
      t = { s.see view with control, jobs := s.jobs.set position ⟨work, .started ticket⟩ } := by
  unfold start at started
  split at started
  · rename_i work located
    split at started
    · rename_i ticket view answered
      obtain ⟨u, gone, rfl⟩ := Option.map_eq_some_iff.mp started
      obtain ⟨control, moved, rfl⟩ := go_eq_some gone
      exact ⟨work, ticket, view, control, located, answered, moved, rfl⟩
    · exact absurd running (fatal_returns started rfl)
  · cases started

theorem pollRequest_acts {position : Nat} (polled : pollRequest s position = some t) (running : t.control.Running) :
    Acts queue index s (.pollRequest position) t := by
  unfold pollRequest at polled
  split at polled
  · rename_i work reply located
    obtain ⟨u, gone, rfl⟩ := Option.map_eq_some_iff.mp polled
    obtain ⟨control, moved, rfl⟩ := go_eq_some gone
    exact .grasp located moved
  · rename_i work located
    split at polled
    · rename_i leased
      obtain ⟨control, moved, rfl⟩ := go_eq_some polled
      exact .pollRequest located (fun _ => by simp) (fun _ => leased) moved
    · rename_i unleased
      obtain ⟨work, ticket, view, control, located, started, moved, rfl⟩ := start_eq_some polled running
      exact .startAtOnce located (Bool.eq_false_of_not_eq_true fun down => unleased (.inr down)) started moved
  · rename_i job other waits located
    obtain ⟨control, moved, rfl⟩ := go_eq_some polled
    refine .pollRequest located (fun reply done => other job.work reply ?_) (fun waiting => ?_) moved
    · rw [← done]
    · exact absurd (by rw [← waiting]) (waits job.work)
  · cases polled

theorem complete_acts (completed : complete s = some t) (running : t.control.Running) :
    Acts queue index s .complete t := by
  unfold complete at completed
  split at completed
  · rename_i request usedLength work reply pc handed
    split at completed
    · rename_i view answered
      obtain ⟨control, moved, rfl⟩ := go_eq_some completed
      exact .complete pc handed answered moved
    · split at completed
      · exact absurd running (@fatal_returns crew _ _ [] _ completed rfl)
      · exact absurd running (@fatal_returns crew _ _ [] _ completed rfl)
  · cases completed

theorem act_acts (acted : act queue index s label = some t) (running : t.control.Running) :
    Acts queue index s label t := by
  cases label with
  | publish head =>
      obtain ⟨u, driven, gone⟩ := Option.bind_eq_some_iff.mp acted
      obtain ⟨after, published, rfl⟩ := Option.map_eq_some_iff.mp driven
      obtain ⟨control, moved, rfl⟩ := go_eq_some gone
      exact .publish published moved
  | reap =>
      obtain ⟨after, driven, rfl⟩ := Option.map_eq_some_iff.mp acted
      exact .reap driven
  | elsewhere host =>
      obtain ⟨after, driven, rfl⟩ := Option.map_eq_some_iff.mp acted
      exact .elsewhere driven
  | host change =>
      cases acted
      exact .host change
  | kick =>
      obtain ⟨control, moved, rfl⟩ := go_eq_some acted
      exact .kick moved
  | stopDown =>
      obtain ⟨control, moved, rfl⟩ := go_eq_some acted
      exact .stopDown moved
  | revoke leases =>
      simp only [act] at acted
      split at acted
      · rename_i down
        cases acted
        exact .revoke leases down
      · cases acted
  | stopWake =>
      obtain ⟨control, moved, rfl⟩ := go_eq_some acted
      exact .stopWake moved
  | finish position world =>
      simp only [act, finish] at acted
      split at acted
      · rename_i work ticket located
        obtain ⟨u, gone, rfl⟩ := Option.map_eq_some_iff.mp acted
        obtain ⟨control, moved, rfl⟩ := go_eq_some gone
        exact .finish located rfl moved
      · cases acted
  | advance =>
      obtain ⟨u, gone, rfl⟩ := Option.map_eq_some_iff.mp acted
      obtain ⟨control, moved, rfl⟩ := go_eq_some gone
      exact .advance moved
  | take => exact take_acts acted running
  | pollWake =>
      obtain ⟨control, moved, rfl⟩ := go_eq_some acted
      exact .pollWake moved
  | pollRequest position => exact pollRequest_acts acted running
  | start =>
      simp only [act] at acted
      split at acted
      · rename_i position pc
        obtain ⟨work, ticket, view, control, located, started, moved, rfl⟩ := start_eq_some acted running
        exact .start pc located started moved
      · cases acted
  | complete => exact complete_acts acted running

def completes : Run.Pc → Bool
  | .completing _ _ | .writing _ _ => true
  | _ => false

/-- What the driver is seen to have published. -/
def offered (index other : Nat) (published : Nat → Nat) : Nat → Nat :=
  if other = index then published else Function.update published other (published other + 1)

theorem found_eq_some {config : Run.Config} {a b : Run.State} {other : Nat} {taken : Run.Taken}
    (moved : exec (Run.step config) a (found index other taken) = some b) :
    Run.step config { a with published := offered index other a.published } (.take taken) = some b := by
  unfold found at moved
  unfold offered
  split at moved
  · rename_i same
    simpa [same] using moved
  · rename_i distinct
    obtain ⟨u, published, moved⟩ := Execution.exec_cons_eq_some.mp moved
    simp only [if_neg distinct]
    cases Run.step_moves published with
    | publish => simpa using moved

/-- The loop starts a worker, perhaps in the poll that finds the request. -/
structure Starts (position leases : Nat) (a b : Run.State) : Prop where
  phases : b.pending.map Run.Request.phase = (a.pending.map Run.Request.phase).set position (.running leases)
  idle : completes b.pc = completes a.pc
  pc : b.pc = .select
  same : b.down = a.down ∧ b.revoked = a.revoked
  published : b.published = a.published
  popped : b.popped = a.popped

namespace Starts
variable {config : Run.Config} {a b : Run.State} {position leases : Nat}

theorem of_start (pc : a.pc = .starting position)
    (moved : exec (Run.step config) a [.start (some leases)] = some b) : Starts position leases a b := by
  rw [Execution.exec_singleton] at moved
  cases Run.step_moves moved with
  | startWorker here =>
      cases pc.symm.trans here
      exact ⟨List.map_set .., by rw [pc]; rfl, rfl, ⟨rfl, rfl⟩, rfl, rfl⟩

theorem of_poll (moved : exec (Run.step config) a [.pollRequest position, .start (some leases)] = some b) :
    Starts position leases a b := by
  obtain ⟨u, polled, moved⟩ := Execution.exec_cons_eq_some.mp moved
  cases Run.step_moves polled with
  | requestStarting pc =>
      have starts : Starts position leases { a with pc := .starting position } b := .of_start rfl moved
      exact ⟨starts.phases, starts.idle.trans (by rw [pc]; rfl), starts.pc, starts.same, starts.published, starts.popped⟩
  | requestRunning pc =>
      rw [Execution.exec_singleton] at moved
      cases Run.step_moves moved with
      | startWorker here => cases pc.symm.trans here
  | requestRefused | requestFailed | requestReady =>
      rw [Execution.exec_singleton] at moved
      cases Run.step_moves moved with
      | startWorker here => cases here

end Starts

/-! ## The loop makes a run of its own -/

def Label.stops : Label crew → Bool
  | .stopDown | .revoke _ | .stopWake => true
  | _ => false

/-- A run of the loop, by which it may be stopped. -/
def Leads (config : Run.Config) (stops : Bool) (a b : Run.State) : Prop :=
  ∃ path, exec (Run.step config) a path = some b ∧ ∀ label ∈ path, label.stops = true → stops = true

section
variable {config : Run.Config} {stops : Bool} {a b d : Run.State}

theorem Leads.refl (config : Run.Config) (stops : Bool) (a : Run.State) : Leads config stops a a := ⟨[], rfl, by simp⟩

theorem Leads.trans (first : Leads config stops a b) (second : Leads config stops b d) : Leads config stops a d := by
  obtain ⟨early, run, going⟩ := first
  obtain ⟨late, runs, still⟩ := second
  refine ⟨early ++ late, Execution.exec_append_eq_some.mpr ⟨b, run, runs⟩, fun label member => ?_⟩
  exact (List.mem_append.mp member).elim (going label) (still label)

theorem Leads.weaken (leads : Leads config stops a b) : Leads config true a b := by
  obtain ⟨path, run, -⟩ := leads
  exact ⟨path, run, fun _ _ _ => rfl⟩

theorem Leads.running (leads : Leads config stops a b) (running : b.Running) : a.Running := by
  obtain ⟨labels, run, -⟩ := leads
  intro ok returned
  refine Execution.invariant (fun s => s.pc = .returned ok) ?_ returned run |> running ok
  intro s label t ended stepped
  by_cases environment : label.environment = true
  · exact (Run.environment_undisturbed environment stepped).pc.trans ended
  · exact absurd ended (Run.loop_running (by simpa using environment) stepped ok)

end

theorem found_going {other : Nat} {taken : Run.Taken} : ∀ label ∈ found index other taken, label.stops = false := by
  unfold found
  split <;> simp [Run.Label.stops]

theorem Acts.leads (acts : Acts queue index s label t) : Leads crew.config label.stops s.control t.control := by
  cases acts with
  | publish _ moved | kick moved | finish _ _ moved | advance moved | takeNone _ _ moved | pollWake moved
  | grasp _ moved | pollRequest _ _ _ moved | start _ _ _ moved | complete _ _ _ moved =>
      exact ⟨_, moved, by simp [Run.Label.stops]⟩
  | startAtOnce _ _ _ moved => exact ⟨_, moved, by simp [Run.Label.stops]⟩
  | takeWork _ _ moved => exact ⟨_, moved, fun label member stops => by simp [found_going label member] at stops⟩
  | stopDown moved | stopWake moved => exact ⟨_, moved, by simp [Label.stops]⟩
  | reap | elsewhere | host | revoke => exact .refl _ _ _

/-! ## The loop's requests are the device's works -/

def Job.phase (job : Job crew) : Run.Phase :=
  match job.stage with
  | .waiting => .fresh
  | .started ticket => .running (crew.leases ticket)
  | .done result => .finished (answer result)

def State.works (s : State crew) : List crew.Work := s.jobs.map Job.work ++ s.hand.toList.map Prod.fst

structure Aligned (good : crew.Work → Prop) (fit : DmaMemory → crew.Work → crew.Ticket → Prop) (s : State crew) :
    Prop where
  phases : s.control.pending.map Run.Request.phase = s.jobs.map Job.phase
  hand : s.hand.isSome = completes s.control.pc
  begun : ∀ position, s.control.pc = .starting position →
    crew.holdsLeases = true ∧ ∃ work, s.jobs[position]? = some ⟨work, .waiting⟩
  good : ∀ work ∈ s.works, good work
  fit : ∀ job ∈ s.jobs, ∀ ticket, job.stage = .started ticket → fit s.driver.view.guest.memory job.work ticket
  live : s.control.down = false → s.driver.view.guest.leasesLeft = none
  revoked : s.control.revoked = true → s.driver.view.guest.leasesLeft = some 0

variable {good : crew.Work → Prop} {fit : DmaMemory → crew.Work → crew.Ticket → Prop}

namespace Aligned

theorem phase_at (aligned : Aligned good fit s) (position : Nat) :
    s.control.pending[position]?.map Run.Request.phase = s.jobs[position]?.map Job.phase := by
  rw [← List.getElem?_map, ← List.getElem?_map, aligned.phases]

theorem listed (aligned : Aligned good fit s) {position : Nat} {job : Job crew}
    (located : s.jobs[position]? = some job) :
    ∃ request, s.control.pending[position]? = some request ∧ request.phase = job.phase := by
  have phase := aligned.phase_at position
  rw [located] at phase
  exact Option.map_eq_some_iff.mp phase

theorem empty_hand (aligned : Aligned good fit s) (pc : completes s.control.pc = false) : s.hand = none := by
  rw [← aligned.hand] at pc
  exact Option.isNone_iff_eq_none.mp (by simpa using pc)

/-- The loop moves, and neither takes nor completes a chain. -/
theorem steady (aligned : Aligned good fit s) {control : Run.State} (pending : control.pending = s.control.pending)
    (pc : completes control.pc = completes s.control.pc)
    (starting : ∀ position, control.pc = .starting position →
      crew.holdsLeases = true ∧ ∃ work, s.jobs[position]? = some ⟨work, .waiting⟩)
    (down : control.down = false → s.control.down = false) (revoked : control.revoked = true → s.control.revoked = true) :
    Aligned good fit { s with control } where
  phases := pending ▸ aligned.phases
  hand := aligned.hand.trans pc.symm
  begun := starting
  good := aligned.good
  fit := aligned.fit
  live := aligned.live ∘ down
  revoked := aligned.revoked ∘ revoked

/-- The device works, and the loop does not see it. -/
theorem see (aligned : Aligned good fit s) {view : DeviceView crew.machine.State} {allowed : Nat → Prop}
    (touched : s.driver.view.guest.Touched allowed view.guest) : Aligned good fit (s.see view) where
  phases := aligned.phases
  hand := aligned.hand
  begun := aligned.begun
  good := aligned.good
  fit := by
    simp only [State.see, touched.memory]
    exact aligned.fit
  live := touched.live ∘ aligned.live
  revoked := touched.revoked ∘ aligned.revoked

theorem drive (aligned : Aligned good fit s) {label : Driver.Label crew.machine} (driver : ∀ port, label ≠ .round port)
    {after : Driver.State crew.machine} (moved : Driver.step queue index s.driver label = some after) :
    Aligned good fit { s with driver := after } := by
  have beside := Driver.step_beside driver moved
  refine ⟨aligned.phases, aligned.hand, aligned.begun, aligned.good, ?_, ?_, ?_⟩
  · simp only [beside.memory]
    exact aligned.fit
  · simp only [beside.leasesLeft]
    exact aligned.live
  · simp only [beside.leasesLeft]
    exact aligned.revoked

/-- A job comes to its next stage. -/
theorem stage (aligned : Aligned good fit s) {position : Nat} {job : Job crew} (located : s.jobs[position]? = some job)
    {stage : Stage crew} (fits : ∀ ticket, stage = .started ticket → fit s.driver.view.guest.memory job.work ticket)
    {control : Run.State} (phases : control.pending.map Run.Request.phase =
      (s.control.pending.map Run.Request.phase).set position (Job.phase ⟨job.work, stage⟩))
    (pc : completes control.pc = completes s.control.pc)
    (starting : ∀ other, control.pc = .starting other → s.control.pc = .starting other ∧ other ≠ position)
    (same : control.down = s.control.down ∧ control.revoked = s.control.revoked) :
    Aligned good fit { s with control, jobs := s.jobs.set position ⟨job.work, stage⟩ } := by
  have works : ∀ other ∈ (s.jobs.set position ⟨job.work, stage⟩).map Job.work, other ∈ s.jobs.map Job.work := by
    intro other member
    obtain ⟨any, listed, rfl⟩ := List.mem_map.mp member
    rcases List.mem_or_eq_of_mem_set listed with old | rfl
    · exact List.mem_map_of_mem old
    · exact List.mem_map.mpr ⟨job, List.mem_of_getElem? located, rfl⟩
  refine ⟨?_, aligned.hand.trans pc.symm, fun other here => ?_, fun other member => aligned.good other ?_, ?_, ?_, ?_⟩
  · rw [phases, aligned.phases, List.map_set]
  · obtain ⟨pc, distinct⟩ := starting other here
    obtain ⟨leased, work, found⟩ := aligned.begun other pc
    exact ⟨leased, work, (List.getElem?_set_ne distinct.symm).trans found⟩
  · exact List.mem_append.mpr ((List.mem_append.mp member).imp_left (works other))
  · intro other member ticket started
    rcases List.mem_or_eq_of_mem_set member with old | rfl
    · exact aligned.fit other old ticket started
    · exact fits ticket started
  · rw [same.1]
    exact aligned.live
  · rw [same.2]
    exact aligned.revoked

theorem grasp (aligned : Aligned good fit s) {position : Nat} {work : crew.Work} {reply : crew.Reply}
    (located : s.jobs[position]? = some ⟨work, .done (.ok reply)⟩) {request : Run.Request} {usedLength : UInt32}
    (wake : Notify) :
    Aligned good fit
      { s with
        control := { s.control with
          pc := .completing request usedLength, pending := s.control.pending.eraseIdx position, wake }
        jobs := s.jobs.eraseIdx position
        hand := some (work, reply) } := by
  refine ⟨?_, rfl, fun _ impossible => (by cases impossible), fun other member => aligned.good other ?_,
    fun job member => aligned.fit job (List.mem_of_mem_eraseIdx member), aligned.live, aligned.revoked⟩
  · rw [← List.eraseIdx_map, ← List.eraseIdx_map, aligned.phases]
  · refine List.mem_append_left _ ?_
    rcases List.mem_append.mp member with old | new
    · obtain ⟨job, listed, rfl⟩ := List.mem_map.mp old
      exact List.mem_map_of_mem (List.mem_of_mem_eraseIdx listed)
    · rw [List.mem_singleton.mp new]
      exact List.mem_map_of_mem (List.mem_of_getElem? located)

theorem push (aligned : Aligned good fit s) {work : crew.Work} (holds : good work) {control : Run.State}
    {request : Run.Request} (pending : control.pending = s.control.pending ++ [request]) (fresh : request.phase = .fresh)
    (pc : completes control.pc = completes s.control.pc) (idle : ∀ position, control.pc ≠ .starting position)
    (same : control.down = s.control.down ∧ control.revoked = s.control.revoked) :
    Aligned good fit { s with control, jobs := s.jobs ++ [⟨work, .waiting⟩] } := by
  refine ⟨?_, aligned.hand.trans pc.symm, fun position here => absurd here (idle position), fun other member => ?_,
    fun job member ticket started => ?_, ?_, ?_⟩
  · rw [pending, List.map_append, List.map_append, aligned.phases, List.map_singleton, fresh]
    rfl
  · rw [State.works, List.map_append, List.append_assoc] at member
    rcases List.mem_append.mp member with old | member
    · exact aligned.good other (List.mem_append_left _ old)
    rcases List.mem_cons.mp member with rfl | old
    · exact holds
    · exact aligned.good other (List.mem_append_right _ old)
  · rcases List.mem_append.mp member with old | new
    · exact aligned.fit job old ticket started
    · rw [List.mem_singleton.mp new] at started
      cases started
  · rw [same.1]
    exact aligned.live
  · rw [same.2]
    exact aligned.revoked

end Aligned

theorem job_done {job : Job crew} {usedLength : UInt32} (finished : job.phase = .finished (some usedLength)) :
    ∃ reply, job.stage = .done (.ok reply) := by
  rcases job with ⟨work, _ | ticket | result⟩
  · cases finished
  · cases finished
  · cases result with
    | error fault => cases finished
    | ok reply => exact ⟨reply, rfl⟩

theorem job_waits {job : Job crew} (fresh : job.phase = .fresh) : job.stage = .waiting := by
  rcases job with ⟨work, _ | ticket | result⟩
  · rfl
  · cases fresh
  · cases fresh

section
variable (lawful : crew.Lawful good fit)
include lawful

namespace Aligned

omit lawful in
theorem advance (aligned : Aligned good fit s) {control : Run.State}
    (moved : exec (Run.step crew.config) s.control [.advance] = some control) (running : control.Running) :
    Aligned good fit { s with control, hand := if control.pc = .top then none else s.hand } := by
  rw [Execution.exec_singleton] at moved
  have keep (kept : Aligned good fit { s with control }) :
      Aligned good fit { s with control, hand := if control.pc = .top then none else s.hand } := by
    split
    · rename_i top
      have none : s.hand = none := kept.empty_hand (by simp only [top]; rfl)
      rw [← none]
      exact kept
    · exact kept
  cases Run.step_moves moved with
  | listen pc | proceed pc | unlisten pc | await pc | scan pc | leaveScan pc | endPass pc | drain pc | idle pc | select pc
  | write pc =>
      apply keep
      exact aligned.steady rfl (by rw [pc]; rfl) (fun _ impossible => by cases impossible) id id
  | forsake pc =>
      -- The completion is given up, so the hand is empty again.
      refine ⟨aligned.phases, rfl, fun _ impossible => (by cases impossible), fun work member => ?_, aligned.fit,
        aligned.live, aligned.revoked⟩
      refine aligned.good work (List.mem_append_left _ ?_)
      simpa [State.works] using member
  | drained => exact absurd rfl (running true)

omit lawful in
theorem pollRequest (aligned : Aligned good fit s) {position : Nat} {job : Job crew} {control : Run.State}
    (located : s.jobs[position]? = some job) (unfinished : ∀ reply, job.stage ≠ .done (.ok reply))
    (leased : job.stage = .waiting → crew.holdsLeases = true ∨ s.control.down = true)
    (moved : exec (Run.step crew.config) s.control [.pollRequest position] = some control) (running : control.Running) :
    Aligned good fit { s with control } := by
  rw [Execution.exec_singleton] at moved
  obtain ⟨request, pending, phase⟩ := aligned.listed located
  cases Run.step_moves moved with
  | requestReady _ at_ finished =>
      cases pending.symm.trans at_
      obtain ⟨reply, done⟩ := job_done (phase.symm.trans finished)
      exact absurd done (unfinished reply)
  | requestStarting pc at_ fresh live =>
      cases pending.symm.trans at_
      have waiting := job_waits (phase.symm.trans fresh)
      refine aligned.steady rfl (by rw [pc]; rfl) (fun other here => ?_) id id
      cases here
      refine ⟨(leased waiting).resolve_right (by simp [live]), job.work, ?_⟩
      rw [located, ← waiting]
  | requestRunning => exact aligned
  | requestRefused | requestFailed => exact absurd rfl (running false)

theorem starts (aligned : Aligned good fit s) {position : Nat} {work : crew.Work} {ticket : crew.Ticket}
    {view : DeviceView crew.machine.State} (located : s.jobs[position]? = some ⟨work, .waiting⟩)
    (started : crew.startWork work s.driver.view = (.ok ticket, view)) {control : Run.State}
    (starts : Starts position (crew.leases ticket) s.control control) :
    Aligned good fit { s.see view with control, jobs := s.jobs.set position ⟨work, .started ticket⟩ } := by
  have mine : work ∈ s.works := List.mem_append_left _ (List.mem_map_of_mem (List.mem_of_getElem? located))
  obtain ⟨aside, returns⟩ := lawful.start work s.driver.view (aligned.good work mine) s.driver.view (.here trivial)
  rw [started] at aside returns
  refine (aligned.see aside.guest).stage located (fun _ same => ?_) starts.phases starts.idle (fun _ here => ?_) starts.same
  · cases same
    rw [State.see, aside.guest.memory]
    exact (returns ticket rfl).1
  · cases starts.pc.symm.trans here

theorem acts (aligned : Aligned good fit s) (acts : Acts queue index s label t) (running : t.control.Running) :
    Aligned good fit t := by
  cases acts with
  | publish driven moved =>
      rw [Execution.exec_singleton] at moved
      cases Run.step_moves moved with
      | publish => exact (aligned.drive (fun _ => by simp) driven).steady rfl rfl aligned.begun id id
  | reap driven | elsewhere driven => exact aligned.drive (fun _ => by simp) driven
  | host change => exact aligned.see (.refl (fun _ => True) _)
  | kick moved | stopDown moved | stopWake moved =>
      rw [Execution.exec_singleton] at moved
      cases Run.step_moves moved
      exact aligned.steady rfl rfl aligned.begun (by simp) id
  | revoke leases down =>
      refine ⟨aligned.phases, aligned.hand, aligned.begun, aligned.good, aligned.fit, fun live => ?_, fun revoked => ?_⟩
      · cases down.symm.trans live
      · simp only [State.see, aligned.revoked revoked, Server.revoke, Nat.min_zero]
  | @finish position world work ticket result view control located ran moved =>
      have member := List.mem_of_getElem? located
      have mine : work ∈ s.works := List.mem_append_left _ (List.mem_map_of_mem member)
      have aside := (lawful.run world work ticket s.driver.view (aligned.good work mine) (aligned.fit _ member ticket rfl)
        s.driver.view (.here trivial)).1
      rw [ran] at aside
      rw [Execution.exec_singleton] at moved
      cases Run.step_moves moved with
      | finish =>
          refine (aligned.see aside.guest).stage located (fun _ impossible => by cases impossible) (List.map_set ..) rfl
            (fun other here => ⟨here, ?_⟩) ⟨rfl, rfl⟩
          rintro rfl
          obtain ⟨-, waiting, found⟩ := aligned.begun _ here
          cases located.symm.trans found
  | advance moved => exact aligned.advance moved running
  | @takeNone left view control pc answered moved =>
      rw [Execution.exec_singleton] at moved
      rcases lawful.take_cases (Run.pollQueue crew.config s.control).1 s.driver.view [] with
        ⟨fault, after, same, -⟩ | ⟨after, same, -, trace⟩ | ⟨_, _, after, same, -⟩ <;> cases answered.symm.trans same
      cases Run.step_moves moved with
      | takeNone =>
          refine (aligned.see (Abstract.trace_touched trace)).steady rfl ?_ (fun _ impossible => by cases impossible) id id
          simp only [State.see, pc]
          rfl
  | @takeWork left work view control pc answered moved =>
      rcases lawful.take_cases (Run.pollQueue crew.config s.control).1 s.driver.view [] with
        ⟨fault, after, same, -⟩ | ⟨after, same, -⟩ | ⟨_, _, after, same, -, -, holds, trace⟩ <;>
          cases answered.symm.trans same
      cases Run.step_moves (found_eq_some moved) with
      | takeWork =>
          refine (aligned.see (Abstract.trace_touched trace)).push holds rfl rfl ?_ (fun _ impossible => by cases impossible)
            ⟨rfl, rfl⟩
          simp only [State.see, pc]
          rfl
  | pollWake moved =>
      rw [Execution.exec_singleton] at moved
      cases Run.step_moves moved with
      | awaitReady pc | selectReady pc =>
          exact aligned.steady rfl (by rw [pc]; rfl) (fun _ impossible => by cases impossible) id id
      | awaitPending | selectPending => exact aligned.steady rfl rfl aligned.begun id id
  | grasp located moved =>
      rw [Execution.exec_singleton] at moved
      obtain ⟨request, pending, phase⟩ := aligned.listed located
      cases Run.step_moves moved with
      | requestReady => exact aligned.grasp located _
      | requestRefused | requestFailed => exact absurd rfl (running false)
      | requestStarting _ at_ other | requestRunning _ at_ other =>
          cases pending.symm.trans at_
          cases phase.symm.trans other
  | pollRequest located unfinished leased moved => exact aligned.pollRequest located unfinished leased moved running
  | start pc located started moved =>
      exact aligned.starts lawful located started (.of_start pc moved)
  | startAtOnce located _ started moved => exact aligned.starts lawful located started (.of_poll moved)
  | @complete request usedLength work reply view control pc handed answered moved =>
      have mine : work ∈ s.works := by simp [State.works, handed]
      obtain ⟨actions, realized, -⟩ := lawful.complete_realized (aligned.good work mine) reply s.driver.view [] []
      rw [answered] at realized
      have seen := aligned.see (Abstract.trace_touched realized.trace)
      rw [Execution.exec_singleton] at moved
      cases Run.step_moves moved with
      | announced =>
          refine ⟨seen.phases, rfl, fun _ impossible => (by cases impossible), fun other member => ?_, seen.fit, seen.live,
            seen.revoked⟩
          refine aligned.good other (List.mem_append_left _ ?_)
          simpa [State.works, State.see] using member

omit lawful in
theorem settle (aligned : Aligned good fit s) : Aligned good fit (settle s) := by
  unfold Crew.settle
  split
  · rename_i revoked
    exact ⟨aligned.phases, aligned.hand, aligned.begun, aligned.good, aligned.fit, aligned.live, fun _ => revoked⟩
  · exact aligned

omit lawful in
theorem settle_leads (aligned : Aligned good fit s) :
    Leads crew.config true s.control (Crew.settle s).control := by
  unfold Crew.settle
  split
  · rename_i revoked
    have down : s.control.down = true := by
      cases live : s.control.down with
      | true => rfl
      | false => cases (aligned.live live).symm.trans revoked
    exact ⟨[.stopRevoke], by simp [Run.step, down], fun _ _ _ => rfl⟩
  · exact .refl _ _ _

end Aligned

end

theorem settle_running : (settle s).control.Running ↔ s.control.Running := by
  unfold settle
  split <;> rfl

/-- While the loop runs, it is where a run of it can be. -/
def Reached (good : crew.Work → Prop) (fit : DmaMemory → crew.Work → crew.Ticket → Prop) (s : State crew) : Prop :=
  s.control.Running → Leads crew.config true Run.initial s.control ∧ Aligned good fit s

theorem Reached.step (lawful : crew.Lawful good fit) (reached : Reached good fit s)
    (stepped : step queue index s label = some t) : Reached good fit t := by
  obtain ⟨u, acted, rfl⟩ := Option.map_eq_some_iff.mp stepped
  intro running
  have going := settle_running.mp running
  have acts := act_acts acted going
  obtain ⟨past, aligned⟩ := reached (acts.leads.running going)
  have next := aligned.acts lawful acts going
  exact ⟨(past.trans acts.leads.weaken).trans next.settle_leads, next.settle⟩

theorem Aligned.initial {start : Driver.State crew.machine} (live : start.view.guest.leasesLeft = none) :
    Aligned good fit (initial start) where
  phases := rfl
  hand := rfl
  begun _ impossible := by cases impossible
  good _ impossible := by cases impossible
  fit _ impossible := by cases impossible
  live _ := live
  revoked impossible := by cases impossible

/-! ## The answers of the device -/

/-- Whatever the device answers, the loop has a step for it. -/
structure Accepts (queue : VirtQueue) (index : Nat) (s : State crew) : Prop where
  take : ∀ left, s.control.pc = .polling (left + 1) → (step queue index s .take).isSome
  start : ∀ position, s.control.pc = .starting position → (step queue index s .start).isSome
  complete : ∀ request usedLength, s.control.pc = .writing request usedLength → (step queue index s .complete).isSome
  finish : ∀ position work ticket world, s.jobs[position]? = some ⟨work, .started ticket⟩ →
    (step queue index s (.finish position world)).isSome

theorem go_isSome {answers : List Run.Label} :
    (s.go answers).isSome = (exec (Run.step crew.config) s.control answers).isSome :=
  Option.isSome_map

theorem step_isSome : (step queue index s label).isSome = (act queue index s label).isSome := Option.isSome_map

theorem Aligned.finish_isSome (aligned : Aligned good fit s) {position : Nat} {work : crew.Work} {ticket : crew.Ticket}
    (world : crew.World) (located : s.jobs[position]? = some ⟨work, .started ticket⟩) :
    (step queue index s (.finish position world)).isSome := by
  obtain ⟨⟨queueIndex, chain, phase⟩, pending, running⟩ := aligned.listed located
  obtain rfl : phase = .running (crew.leases ticket) := running
  rw [step_isSome]
  simp only [act, finish, located, Option.isSome_map, go_isSome]
  simp [State.see, Run.step, Run.finishWorker, pending]

theorem Aligned.handed (aligned : Aligned good fit s) {request : Run.Request} {usedLength : UInt32}
    (pc : s.control.pc = .writing request usedLength) : ∃ work reply, s.hand = some (work, reply) := by
  have handed : s.hand.isSome := by
    rw [aligned.hand, pc]
    rfl
  obtain ⟨⟨work, reply⟩, hand⟩ := Option.isSome_iff_exists.mp handed
  exact ⟨work, reply, hand⟩

end

end Libvirtio.Crew
