import Libvirtio.Library.Execution
import Libvirtio.Library.Notify

/-!
# The run loop of the block and the filesystem device

`BlockDevice::run` and `FsDevice::run` are one loop. A step is what the loop does between two points where another
task can interfere: the guest, a caller of `kick()` or `stop()`, or a blocking worker. What `take_work`,
`execute_work` and `complete_work` return is part of the label.
-/

namespace Libvirtio.Run

def maximumInflightPerQueue : Nat := 4
def maximumInflightRequests : Nat := 64

structure Config where
  queues : Nat
  /-- The workers of the block device hold leases, those of the filesystem device do not. -/
  holdsLeases : Bool

def Config.maximumInflight (config : Config) : Nat :=
  max 1 (min (config.queues * maximumInflightPerQueue) maximumInflightRequests)

structure Chain where
  queue : Nat
  number : Nat
  deriving DecidableEq, Repr

/-- How far `execute_work` is: not polled yet, waiting for a worker that holds leases, or with the worker's result. -/
inductive Phase where
  | fresh
  | running (leases : Nat)
  | finished (result : Option UInt32)
  deriving DecidableEq, Repr

structure Request where
  queueIndex : Nat
  chain : Chain
  phase : Phase
  deriving DecidableEq, Repr

inductive Pc where
  | top
  | created
  | awaiting
  | scanCheck
  | polling (left : Nat)
  | scanned
  | select
  | starting (position : Nat)
  | completing (request : Request) (usedLength : UInt32)
  | writing (request : Request) (usedLength : UInt32)
  | draining
  | returned (ok : Bool)
  deriving DecidableEq, Repr

structure State where
  published : Nat → Nat
  popped : Nat → Nat
  /-- What had been published at the last finished `kick()`. -/
  kicked : Nat → Nat
  wake : Notify
  down : Bool
  revoked : Bool
  pc : Pc
  scanQueues : Bool
  nextQueue : Nat
  polls : Nat
  pending : List Request
  /-- The leases of workers whose futures are gone. -/
  detached : List Nat
  active : Nat
  completed : List (Nat × Chain × UInt32)
  discarded : List Chain

def initial : State where
  published _ := 0
  popped _ := 0
  kicked _ := 0
  wake := ⟨false, .absent⟩
  down := false
  revoked := false
  pc := .top
  scanQueues := false
  nextQueue := 0
  polls := 0
  pending := []
  detached := []
  active := 0
  completed := []
  discarded := []

/-- What `take_work` returns. A malformed chain is popped before its parser fails. -/
inductive Taken where
  | none
  | work
  | malformed
  | failed
  deriving DecidableEq, Repr

/-- How `complete_work` ends. The chain is in the used ring also when the notifier fails. -/
inductive Completion where
  | announced
  | silent
  | failed
  deriving DecidableEq, Repr

inductive Label where
  | publish (queue : Nat)
  | kick
  | stopDown
  | stopRevoke
  | stopWake
  | finish (position : Nat) (result : Option UInt32)
  | finishDetached (position : Nat)
  | advance
  | take (taken : Taken)
  | pollWake
  | pollRequest (position : Nat)
  | start (leases : Option Nat)
  | complete (outcome : Completion)
  deriving DecidableEq, Repr

def Phase.leases : Phase → Nat
  | .running leases => leases
  | _ => 0

/-- The loop returns an error. Its futures are dropped, and the workers that they waited for go on. -/
def abort (s : State) : State :=
  { s with
    pc := .returned false
    wake := s.wake.drop
    pending := []
    detached := s.detached ++ (s.pending.map fun request => request.phase.leases).filter (0 < ·)
    discarded := s.discarded ++ s.pending.map Request.chain }

def popChain (s : State) (queue : Nat) : State :=
  { s with popped := Function.update s.popped queue (s.popped queue + 1) }

/-! ## The environment -/

def finishWorker (s : State) (position : Nat) (result : Option UInt32) : Option State :=
  match s.pending[position]? with
  | some ⟨queueIndex, chain, .running leases⟩ => some { s with
      pending := s.pending.set position ⟨queueIndex, chain, .finished result⟩
      active := s.active - leases }
  | _ => none

def finishDetached (s : State) (position : Nat) : Option State :=
  match s.detached[position]? with
  | some leases => some { s with detached := s.detached.eraseIdx position, active := s.active - leases }
  | none => none

/-! ## The loop -/

variable (config : Config)

def advance (s : State) : Option State :=
  match s.pc with
  | .top =>
      if s.scanQueues = false ∧ s.pending = [] ∧ s.down = false then
        some { s with pc := .created, wake := s.wake.create }
      else some { s with pc := .scanCheck }
  | .created =>
      if s.down then some { s with pc := .scanCheck, wake := s.wake.drop }
      else some { s with pc := .awaiting }
  | .scanCheck =>
      if s.down = false ∧ s.scanQueues ∧ s.pending.length < config.maximumInflight then
        some { s with pc := .polling config.queues }
      else some { s with pc := .scanned }
  | .polling 0 => some { s with pc := .scanned }
  | .scanned =>
      if s.down ∧ s.pending = [] then some { s with scanQueues := false, pc := .draining }
      else if s.pending = [] then some { s with scanQueues := false, pc := .top }
      else some { s with scanQueues := false, pc := .select, wake := s.wake.create }
  | .completing request usedLength =>
      if s.down then some { s with pc := .top, discarded := s.discarded ++ [request.chain] }
      else some { s with pc := .writing request usedLength }
  | .draining => if s.active = 0 then some { s with pc := .returned true } else none
  | _ => none

def pollQueue (s : State) : Nat × State :=
  (s.nextQueue % config.queues, { s with nextQueue := (s.nextQueue + 1) % 2 ^ 64, polls := s.polls + 1 })

def take (s : State) (taken : Taken) : Option State :=
  match s.pc with
  | .polling (left + 1) =>
      let (queue, polled) := pollQueue config s
      match taken with
      | .none =>
          if s.revoked = false ∧ s.popped queue = s.published queue then some { polled with pc := .polling left }
          else none
      | .work =>
          if s.revoked = false ∧ s.popped queue < s.published queue then
            some { popChain polled queue with
              pc := .scanCheck
              pending := s.pending ++ [⟨queue, ⟨queue, s.popped queue⟩, .fresh⟩] }
          else none
      | .malformed =>
          if s.popped queue < s.published queue then
            some (abort { popChain polled queue with discarded := s.discarded ++ [⟨queue, s.popped queue⟩] })
          else none
      | .failed => some (abort polled)
  | _ => none

def pollWake (s : State) : Option State :=
  match s.pc with
  | .awaiting =>
      match s.wake.poll with
      | (true, wake) => some { s with wake, scanQueues := true, pc := .scanCheck }
      | (false, wake) => some { s with wake }
  | .select =>
      match s.wake.poll with
      | (true, wake) => some { s with wake, scanQueues := true, pc := .top }
      | (false, wake) => some { s with wake }
  | _ => none

/-- `pending.next()` polls one of its futures. A request that is ready ends the `select!`. -/
def pollRequest (s : State) (position : Nat) : Option State :=
  match s.pc, s.pending[position]? with
  | .select, some request =>
      match request.phase with
      | .fresh => if s.down then some (abort s) else some { s with pc := .starting position }
      | .running _ => some s
      | .finished none => some (abort s)
      | .finished (some usedLength) => some { s with
          pc := .completing request usedLength
          pending := s.pending.eraseIdx position
          wake := s.wake.drop }
  | _, _ => none

def start (s : State) (leases : Option Nat) : Option State :=
  match s.pc, leases with
  | .starting position, some leases =>
      match s.pending[position]? with
      | some ⟨queueIndex, chain, .fresh⟩ =>
          if s.revoked = false ∧ (config.holdsLeases = true ↔ 0 < leases) then
            some { s with
              pc := .select
              pending := s.pending.set position ⟨queueIndex, chain, .running leases⟩
              active := s.active + leases }
          else none
      | _ => none
  | .starting _, none => some (abort s)
  | _, _ => none

def enterUsed (s : State) (request : Request) (usedLength : UInt32) : State :=
  { s with completed := s.completed ++ [(request.queueIndex, request.chain, usedLength)] }

def complete (s : State) (outcome : Completion) : Option State :=
  match s.pc, outcome with
  | .writing request usedLength, .announced =>
      if s.revoked then none
      else some { enterUsed s request usedLength with pc := .top, scanQueues := true }
  | .writing request usedLength, .silent =>
      if s.revoked then none else some (abort (enterUsed s request usedLength))
  | .writing request _, .failed => some (abort { s with discarded := s.discarded ++ [request.chain] })
  | _, _ => none

def step (s : State) : Label → Option State
  | .publish queue =>
      if queue < config.queues then
        some { s with published := Function.update s.published queue (s.published queue + 1) }
      else none
  | .kick => some { s with kicked := s.published, wake := s.wake.notifyOne }
  | .stopDown => some { s with down := true }
  | .stopRevoke => if s.down then some { s with revoked := true } else none
  | .stopWake => if s.revoked then some { s with wake := s.wake.notifyWaiters } else none
  | .finish position result => finishWorker s position result
  | .finishDetached position => finishDetached s position
  | .advance => advance config s
  | .take taken => take config s taken
  | .pollWake => pollWake s
  | .pollRequest position => pollRequest s position
  | .start leases => start config s leases
  | .complete outcome => complete s outcome

/-! ## What a step can do -/

/-- One rule for each branch of `step` that gives a state. -/
inductive Moves (s : State) : Label → State → Prop where
  | publish {queue : Nat} (configured : queue < config.queues) :
      Moves s (.publish queue) { s with published := Function.update s.published queue (s.published queue + 1) }
  | kick : Moves s .kick { s with kicked := s.published, wake := s.wake.notifyOne }
  | stopDown : Moves s .stopDown { s with down := true }
  | stopRevoke (down : s.down = true) : Moves s .stopRevoke { s with revoked := true }
  | stopWake (revoked : s.revoked = true) : Moves s .stopWake { s with wake := s.wake.notifyWaiters }
  | finish {position queueIndex leases : Nat} {result : Option UInt32} {chain : Chain}
      (found : s.pending[position]? = some ⟨queueIndex, chain, .running leases⟩) :
      Moves s (.finish position result) { s with
        pending := s.pending.set position ⟨queueIndex, chain, .finished result⟩
        active := s.active - leases }
  | finishDetached {position leases : Nat} (found : s.detached[position]? = some leases) :
      Moves s (.finishDetached position) { s with
        detached := s.detached.eraseIdx position
        active := s.active - leases }
  | listen (pc : s.pc = .top) (idle : s.scanQueues = false ∧ s.pending = [] ∧ s.down = false) :
      Moves s .advance { s with pc := .created, wake := s.wake.create }
  | proceed (pc : s.pc = .top) (busy : ¬(s.scanQueues = false ∧ s.pending = [] ∧ s.down = false)) :
      Moves s .advance { s with pc := .scanCheck }
  | unlisten (pc : s.pc = .created) (down : s.down = true) :
      Moves s .advance { s with pc := .scanCheck, wake := s.wake.drop }
  | await (pc : s.pc = .created) (live : s.down = false) : Moves s .advance { s with pc := .awaiting }
  | scan (pc : s.pc = .scanCheck)
      (free : s.down = false ∧ s.scanQueues = true ∧ s.pending.length < config.maximumInflight) :
      Moves s .advance { s with pc := .polling config.queues }
  | leaveScan (pc : s.pc = .scanCheck)
      (blocked : ¬(s.down = false ∧ s.scanQueues = true ∧ s.pending.length < config.maximumInflight)) :
      Moves s .advance { s with pc := .scanned }
  | endPass (pc : s.pc = .polling 0) : Moves s .advance { s with pc := .scanned }
  | drain (pc : s.pc = .scanned) (stopped : s.down = true ∧ s.pending = []) :
      Moves s .advance { s with scanQueues := false, pc := .draining }
  | idle (pc : s.pc = .scanned) (live : s.down = false) (empty : s.pending = []) :
      Moves s .advance { s with scanQueues := false, pc := .top }
  | select (pc : s.pc = .scanned) (busy : s.pending ≠ []) :
      Moves s .advance { s with scanQueues := false, pc := .select, wake := s.wake.create }
  | forsake {request : Request} {usedLength : UInt32} (pc : s.pc = .completing request usedLength)
      (down : s.down = true) :
      Moves s .advance { s with pc := .top, discarded := s.discarded ++ [request.chain] }
  | write {request : Request} {usedLength : UInt32} (pc : s.pc = .completing request usedLength)
      (live : s.down = false) : Moves s .advance { s with pc := .writing request usedLength }
  | drained (pc : s.pc = .draining) (free : s.active = 0) : Moves s .advance { s with pc := .returned true }
  | takeNone {left : Nat} (pc : s.pc = .polling (left + 1))
      (empty : s.revoked = false ∧ s.popped (pollQueue config s).1 = s.published (pollQueue config s).1) :
      Moves s (.take .none) { (pollQueue config s).2 with pc := .polling left }
  | takeWork {left : Nat} (pc : s.pc = .polling (left + 1))
      (offered : s.revoked = false ∧ s.popped (pollQueue config s).1 < s.published (pollQueue config s).1) :
      Moves s (.take .work) { popChain (pollQueue config s).2 (pollQueue config s).1 with
        pc := .scanCheck
        pending := s.pending ++
          [⟨(pollQueue config s).1, ⟨(pollQueue config s).1, s.popped (pollQueue config s).1⟩, .fresh⟩] }
  | takeMalformed {left : Nat} (pc : s.pc = .polling (left + 1))
      (offered : s.popped (pollQueue config s).1 < s.published (pollQueue config s).1) :
      Moves s (.take .malformed) (abort { popChain (pollQueue config s).2 (pollQueue config s).1 with
        discarded := s.discarded ++ [⟨(pollQueue config s).1, s.popped (pollQueue config s).1⟩] })
  | takeFailed {left : Nat} (pc : s.pc = .polling (left + 1)) :
      Moves s (.take .failed) (abort (pollQueue config s).2)
  | awaitReady {wake : Notify} (pc : s.pc = .awaiting) (ready : s.wake.poll = (true, wake)) :
      Moves s .pollWake { s with wake, scanQueues := true, pc := .scanCheck }
  | awaitPending {wake : Notify} (pc : s.pc = .awaiting) (waits : s.wake.poll = (false, wake)) :
      Moves s .pollWake { s with wake }
  | selectReady {wake : Notify} (pc : s.pc = .select) (ready : s.wake.poll = (true, wake)) :
      Moves s .pollWake { s with wake, scanQueues := true, pc := .top }
  | selectPending {wake : Notify} (pc : s.pc = .select) (waits : s.wake.poll = (false, wake)) :
      Moves s .pollWake { s with wake }
  | requestRefused {position : Nat} {request : Request} (pc : s.pc = .select)
      (found : s.pending[position]? = some request) (fresh : request.phase = .fresh) (down : s.down = true) :
      Moves s (.pollRequest position) (abort s)
  | requestStarting {position : Nat} {request : Request} (pc : s.pc = .select)
      (found : s.pending[position]? = some request) (fresh : request.phase = .fresh) (live : s.down = false) :
      Moves s (.pollRequest position) { s with pc := .starting position }
  | requestRunning {position leases : Nat} {request : Request} (pc : s.pc = .select)
      (found : s.pending[position]? = some request) (running : request.phase = .running leases) :
      Moves s (.pollRequest position) s
  | requestFailed {position : Nat} {request : Request} (pc : s.pc = .select)
      (found : s.pending[position]? = some request) (failed : request.phase = .finished none) :
      Moves s (.pollRequest position) (abort s)
  | requestReady {position : Nat} {request : Request} {usedLength : UInt32} (pc : s.pc = .select)
      (found : s.pending[position]? = some request) (finished : request.phase = .finished (some usedLength)) :
      Moves s (.pollRequest position) { s with
        pc := .completing request usedLength
        pending := s.pending.eraseIdx position
        wake := s.wake.drop }
  | startWorker {position queueIndex leases : Nat} {chain : Chain} (pc : s.pc = .starting position)
      (found : s.pending[position]? = some ⟨queueIndex, chain, .fresh⟩)
      (enabled : s.revoked = false ∧ (config.holdsLeases = true ↔ 0 < leases)) :
      Moves s (.start (some leases)) { s with
        pc := .select
        pending := s.pending.set position ⟨queueIndex, chain, .running leases⟩
        active := s.active + leases }
  | startFailed {position : Nat} (pc : s.pc = .starting position) : Moves s (.start none) (abort s)
  | announced {request : Request} {usedLength : UInt32} (pc : s.pc = .writing request usedLength)
      (granted : s.revoked = false) :
      Moves s (.complete .announced) { enterUsed s request usedLength with pc := .top, scanQueues := true }
  | silent {request : Request} {usedLength : UInt32} (pc : s.pc = .writing request usedLength)
      (granted : s.revoked = false) : Moves s (.complete .silent) (abort (enterUsed s request usedLength))
  | completeFailed {request : Request} {usedLength : UInt32} (pc : s.pc = .writing request usedLength) :
      Moves s (.complete .failed) (abort { s with discarded := s.discarded ++ [request.chain] })

variable {config} {s t : State} {label : Label}

theorem advance_moves (stepped : advance config s = some t) : Moves config s .advance t := by
  unfold advance at stepped
  split at stepped
  · rename_i pc
    split at stepped
    · rename_i idle
      cases stepped
      exact .listen pc idle
    · rename_i busy
      cases stepped
      exact .proceed pc busy
  · rename_i pc
    split at stepped
    · rename_i down
      cases stepped
      exact .unlisten pc down
    · rename_i live
      cases stepped
      exact .await pc (Bool.eq_false_of_not_eq_true live)
  · rename_i pc
    split at stepped
    · rename_i free
      cases stepped
      exact .scan pc free
    · rename_i blocked
      cases stepped
      exact .leaveScan pc blocked
  · rename_i pc
    cases stepped
    exact .endPass pc
  · rename_i pc
    split at stepped
    · rename_i stopped
      cases stepped
      exact .drain pc stopped
    · rename_i going
      split at stepped
      · rename_i empty
        cases stepped
        exact .idle pc (Bool.eq_false_of_not_eq_true fun down => going ⟨down, empty⟩) empty
      · rename_i busy
        cases stepped
        exact .select pc busy
  · rename_i pc
    split at stepped
    · rename_i down
      cases stepped
      exact .forsake pc down
    · rename_i live
      cases stepped
      exact .write pc (Bool.eq_false_of_not_eq_true live)
  · rename_i pc
    split at stepped
    · rename_i free
      cases stepped
      exact .drained pc free
    · cases stepped
  · cases stepped

theorem take_moves {taken : Taken} (stepped : take config s taken = some t) : Moves config s (.take taken) t := by
  unfold take at stepped
  split at stepped
  · rename_i left pc
    cases taken with
    | none =>
        simp only at stepped
        split at stepped
        · rename_i empty
          cases stepped
          exact .takeNone pc empty
        · cases stepped
    | work =>
        simp only at stepped
        split at stepped
        · rename_i offered
          cases stepped
          exact .takeWork pc offered
        · cases stepped
    | malformed =>
        simp only at stepped
        split at stepped
        · rename_i offered
          cases stepped
          exact .takeMalformed pc offered
        · cases stepped
    | failed =>
        cases stepped
        exact .takeFailed pc
  · cases stepped

theorem pollWake_moves (stepped : pollWake s = some t) : Moves config s .pollWake t := by
  unfold pollWake at stepped
  split at stepped
  · rename_i pc
    split at stepped
    · rename_i ready
      cases stepped
      exact .awaitReady pc ready
    · rename_i waits
      cases stepped
      exact .awaitPending pc waits
  · rename_i pc
    split at stepped
    · rename_i ready
      cases stepped
      exact .selectReady pc ready
    · rename_i waits
      cases stepped
      exact .selectPending pc waits
  · cases stepped

theorem pollRequest_moves {position : Nat} (stepped : pollRequest s position = some t) :
    Moves config s (.pollRequest position) t := by
  unfold pollRequest at stepped
  split at stepped
  · rename_i request pc found
    split at stepped
    · rename_i fresh
      split at stepped
      · rename_i down
        cases stepped
        exact .requestRefused pc found fresh down
      · rename_i live
        cases stepped
        exact .requestStarting pc found fresh (Bool.eq_false_of_not_eq_true live)
    · rename_i running
      cases stepped
      exact .requestRunning pc found running
    · rename_i failed
      cases stepped
      exact .requestFailed pc found failed
    · rename_i finished
      cases stepped
      exact .requestReady pc found finished
  · cases stepped

theorem start_moves {leases : Option Nat} (stepped : start config s leases = some t) :
    Moves config s (.start leases) t := by
  unfold start at stepped
  split at stepped
  · rename_i pc
    split at stepped
    · rename_i found
      split at stepped
      · rename_i enabled
        cases stepped
        exact .startWorker pc found enabled
      · cases stepped
    · cases stepped
  · rename_i pc
    cases stepped
    exact .startFailed pc
  · cases stepped

theorem complete_moves {outcome : Completion} (stepped : complete s outcome = some t) :
    Moves config s (.complete outcome) t := by
  unfold complete at stepped
  split at stepped
  · rename_i pc
    split at stepped
    · cases stepped
    · rename_i granted
      cases stepped
      exact .announced pc (Bool.eq_false_of_not_eq_true granted)
  · rename_i pc
    split at stepped
    · cases stepped
    · rename_i granted
      cases stepped
      exact .silent pc (Bool.eq_false_of_not_eq_true granted)
  · rename_i pc
    cases stepped
    exact .completeFailed pc
  · cases stepped

theorem step_moves (stepped : step config s label = some t) : Moves config s label t := by
  cases label with
  | publish queue =>
      simp only [step] at stepped
      split at stepped
      · rename_i configured
        cases stepped
        exact .publish configured
      · cases stepped
  | kick =>
      cases stepped
      exact .kick
  | stopDown =>
      cases stepped
      exact .stopDown
  | stopRevoke =>
      simp only [step] at stepped
      split at stepped
      · rename_i down
        cases stepped
        exact .stopRevoke down
      · cases stepped
  | stopWake =>
      simp only [step] at stepped
      split at stepped
      · rename_i revoked
        cases stepped
        exact .stopWake revoked
      · cases stepped
  | finish position result =>
      simp only [step, finishWorker] at stepped
      split at stepped
      · rename_i found
        cases stepped
        exact .finish found
      · cases stepped
  | finishDetached position =>
      simp only [step, finishDetached] at stepped
      split at stepped
      · rename_i found
        cases stepped
        exact .finishDetached found
      · cases stepped
  | advance => exact advance_moves stepped
  | take taken => exact take_moves stepped
  | pollWake => exact pollWake_moves stepped
  | pollRequest position => exact pollRequest_moves stepped
  | start leases => exact start_moves stepped
  | complete outcome => exact complete_moves stepped

/-! ## Steps of the environment -/

def Label.environment : Label → Bool
  | .publish _ | .kick | .stopDown | .stopRevoke | .stopWake | .finish _ _ | .finishDetached _ => true
  | _ => false

structure Undisturbed (s t : State) : Prop where
  pc : t.pc = s.pc
  scanQueues : t.scanQueues = s.scanQueues
  nextQueue : t.nextQueue = s.nextQueue
  polls : t.polls = s.polls
  popped : t.popped = s.popped
  inflight : t.pending.length = s.pending.length

theorem environment_undisturbed (environment : label.environment = true) (stepped : step config s label = some t) :
    Undisturbed s t := by
  cases step_moves stepped with
  | publish | kick | stopDown | stopRevoke | stopWake | finishDetached => exact ⟨rfl, rfl, rfl, rfl, rfl, rfl⟩
  | finish => exact ⟨rfl, rfl, rfl, rfl, rfl, List.length_set⟩
  | _ => cases environment

/-! ## Polls -/

theorem take_polls {taken : Taken} (stepped : take config s taken = some t) :
    t.polls = s.polls + 1 ∧ t.nextQueue = (s.nextQueue + 1) % 2 ^ 64 := by
  cases take_moves stepped with
  | takeNone | takeWork | takeMalformed | takeFailed => exact ⟨rfl, rfl⟩

theorem polls_unchanged (other : ∀ taken, label ≠ .take taken) (stepped : step config s label = some t) :
    t.polls = s.polls ∧ t.nextQueue = s.nextQueue := by
  cases step_moves stepped with
  | takeNone | takeWork | takeMalformed | takeFailed => exact absurd rfl (other _)
  | _ => exact ⟨rfl, rfl⟩

theorem step_polls (stepped : step config s label = some t) : s.polls ≤ t.polls := by
  by_cases polls : ∃ taken, label = .take taken
  · obtain ⟨taken, rfl⟩ := polls
    exact Nat.le.intro (take_polls stepped).1.symm
  · have other : ∀ taken, label ≠ .take taken := fun taken same => polls ⟨taken, same⟩
    exact Nat.le_of_eq (polls_unchanged other stepped).1.symm

theorem nextQueue_run {labels : List Label} (run : exec (step config) initial labels = some s) :
    s.nextQueue = s.polls % 2 ^ 64 := by
  refine Execution.invariant (fun s => s.nextQueue = s.polls % 2 ^ 64) ?_ rfl run
  intro s label t next stepped
  by_cases polls : ∃ taken, label = .take taken
  · obtain ⟨taken, rfl⟩ := polls
    obtain ⟨counted, moved⟩ := take_polls stepped
    rw [counted, moved, next, Nat.mod_add_mod]
  · have other : ∀ taken, label ≠ .take taken := fun taken same => polls ⟨taken, same⟩
    obtain ⟨counted, kept⟩ := polls_unchanged other stepped
    rw [counted, kept, next]

/-- The last `queues` polls were of all queues. -/
theorem polled_recently {queues polls queue : Nat} (inside : queue < queues) (enough : queues ≤ polls) :
    ∃ i < polls, polls ≤ i + queues ∧ i % queues = queue := by
  let first := polls - queues
  let offset := (queue + queues - first % queues) % queues
  have small : offset < queues := Nat.mod_lt _ (by omega)
  have residue : first % queues < queues := Nat.mod_lt _ (by omega)
  refine ⟨first + offset, by omega, by omega, ?_⟩
  rw [Nat.add_mod, Nat.mod_mod, ← Nat.add_mod, Nat.add_mod, Nat.add_mod_mod,
    show first % queues + (queue + queues - first % queues) = queue + queues by omega, Nat.add_mod_right,
    Nat.mod_eq_of_lt inside]

end Libvirtio.Run
