import Libvirtio.Run.Doorbell
import Libvirtio.Run.Teardown
import Mathlib.Data.List.Perm.Basic

namespace Libvirtio.Run

variable {config : Config} {s t : State} {label : Label} {answered : Chain → UInt32 → Prop}

/-- The request that is on its way from `pending` to the used ring. -/
def State.inHand (s : State) : List (Request × UInt32) :=
  match s.pc with
  | .completing request usedLength | .writing request usedLength => [(request, usedLength)]
  | _ => []

def State.inFlight (s : State) : List Request := s.pending ++ s.inHand.map Prod.fst

def State.placed (s : State) : List Chain :=
  s.inFlight.map Request.chain ++ s.completed.map (fun entry => entry.2.1) ++ s.discarded

structure Placed (config : Config) (answered : Chain → UInt32 → Prop) (s : State) : Prop where
  bounded : s.inFlight.length ≤ config.maximumInflight
  room : ∀ left, s.pc = .polling left → s.pending.length < config.maximumInflight
  distinct : s.placed.Nodup
  popped : ∀ chain, chain ∈ s.placed ↔ chain.number < s.popped chain.queue
  own : ∀ request ∈ s.inFlight, request.queueIndex = request.chain.queue
  finished : ∀ request ∈ s.pending, ∀ usedLength, request.phase = .finished (some usedLength) →
    answered request.chain usedLength
  inHand : ∀ held ∈ s.inHand, answered held.1.chain held.2
  completed : ∀ entry ∈ s.completed, entry.1 = entry.2.1.queue ∧ answered entry.2.1 entry.2.2

theorem eraseIdx_count {requests : List Request} {position : Nat} {request : Request}
    (found : requests[position]? = some request) (chain : Chain) :
    (requests.map Request.chain).count chain =
      ((requests.eraseIdx position).map Request.chain).count chain + [request.chain].count chain := by
  obtain ⟨bound, rfl⟩ := List.getElem?_eq_some_iff.mp found
  have perm := (List.getElem_cons_eraseIdx_perm bound).map Request.chain
  rw [← perm.count_eq, List.map_cons, ← List.singleton_append, List.count_append, Nat.add_comm]

theorem set_chains {requests : List Request} {position queueIndex : Nat} {chain : Chain} {phase : Phase}
    (found : requests[position]? = some ⟨queueIndex, chain, phase⟩) (next : Phase) :
    (requests.set position ⟨queueIndex, chain, next⟩).map Request.chain = requests.map Request.chain := by
  rw [List.map_set]
  obtain ⟨bound, same⟩ := List.getElem?_eq_some_iff.mp found
  apply List.ext_getElem
  · simp
  · intro i _ _
    rw [List.getElem_set]
    split
    · rename_i here
      subst here
      rw [List.getElem_map, same]
    · rfl

namespace Placed

theorem initial : Placed config answered initial where
  bounded := Nat.zero_le _
  room := fun _ polling => by cases polling
  distinct := List.nodup_nil
  popped := fun chain => iff_of_false List.not_mem_nil (Nat.not_lt_zero chain.number)
  own := fun _ member => absurd member List.not_mem_nil
  finished := fun _ member => absurd member List.not_mem_nil
  inHand := fun _ member => absurd member List.not_mem_nil
  completed := fun _ member => absurd member List.not_mem_nil

theorem mono {later : Chain → UInt32 → Prop} (placed : Placed config answered s)
    (grows : ∀ chain usedLength, answered chain usedLength → later chain usedLength) : Placed config later s :=
  { placed with
    finished := fun request member usedLength done => grows _ _ (placed.finished request member usedLength done)
    inHand := fun held member => grows _ _ (placed.inHand held member)
    completed := fun entry member => ⟨(placed.completed entry member).1, grows _ _ (placed.completed entry member).2⟩ }

theorem frame (placed : Placed config answered s) (pending : t.pending = s.pending) (inHand : t.inHand = s.inHand)
    (completed : t.completed = s.completed) (discarded : t.discarded = s.discarded) (popped : t.popped = s.popped)
    (room : ∀ left, t.pc = .polling left → s.pending.length < config.maximumInflight) : Placed config answered t := by
  have inFlight : t.inFlight = s.inFlight := by rw [State.inFlight, State.inFlight, pending, inHand]
  have same : t.placed = s.placed := by rw [State.placed, State.placed, inFlight, completed, discarded]
  exact {
    bounded := by rw [inFlight]; exact placed.bounded
    room := by rw [pending]; exact room
    distinct := by rw [same]; exact placed.distinct
    popped := by rw [same, popped]; exact placed.popped
    own := by rw [inFlight]; exact placed.own
    finished := by rw [pending]; exact placed.finished
    inHand := by rw [inHand]; exact placed.inHand
    completed := by rw [completed]; exact placed.completed }

/-- The chains change places only. -/
theorem permute (placed : Placed config answered s) (moved : t.placed.Perm s.placed) (popped : t.popped = s.popped) :
    t.placed.Nodup ∧ ∀ chain, chain ∈ t.placed ↔ chain.number < t.popped chain.queue := by
  refine ⟨moved.nodup_iff.mpr placed.distinct, fun chain => ?_⟩
  rw [moved.mem_iff, popped]
  exact placed.popped chain

theorem pop (placed : Placed config answered s) {queue : Nat} (moved : t.placed.Perm (⟨queue, s.popped queue⟩ :: s.placed))
    (popped : t.popped = Function.update s.popped queue (s.popped queue + 1)) :
    t.placed.Nodup ∧ ∀ chain, chain ∈ t.placed ↔ chain.number < t.popped chain.queue := by
  constructor
  · rw [moved.nodup_iff, List.nodup_cons, placed.popped]
    exact ⟨Nat.lt_irrefl _, placed.distinct⟩
  · rintro ⟨origin, number⟩
    rw [moved.mem_iff, List.mem_cons, placed.popped, popped]
    by_cases here : origin = queue
    · subst here
      simp only [Chain.mk.injEq, true_and, Function.update_self]
      omega
    · rw [Function.update_of_ne here]
      simp [here]

theorem placed_of_idle (idle : s.inHand = []) :
    s.placed = s.pending.map Request.chain ++ s.completed.map (fun entry => entry.2.1) ++ s.discarded := by
  rw [State.placed, State.inFlight, idle, List.map_nil, List.append_nil]

theorem abort (placed : Placed config answered s) (idle : s.inHand = []) : Placed config answered (abort s) := by
  have moved : (Run.abort s).placed.Perm s.placed := by
    rw [List.perm_iff_count, placed_of_idle idle]
    intro chain
    simp only [State.placed, State.inFlight, State.inHand, Run.abort, List.map_nil, List.nil_append, List.count_append]
    omega
  obtain ⟨distinct, popped⟩ := placed.permute moved rfl
  exact {
    bounded := Nat.zero_le _
    room := fun _ polling => by cases polling
    distinct
    popped
    own := fun _ member => absurd member List.not_mem_nil
    finished := fun _ member => absurd member List.not_mem_nil
    inHand := fun _ member => absurd member List.not_mem_nil
    completed := placed.completed }

/-- The request in hand goes to one of the other places. -/
theorem release (placed : Placed config answered s) (moved : t.placed.Perm s.placed) (pending : t.pending = s.pending)
    (popped : t.popped = s.popped) (top : t.pc = .top)
    (completed : ∀ entry ∈ t.completed, entry.1 = entry.2.1.queue ∧ answered entry.2.1 entry.2.2) :
    Placed config answered t := by
  have idle : t.inHand = [] := by rw [State.inHand, top]
  have inFlight : t.inFlight = s.pending := by rw [State.inFlight, idle, pending, List.map_nil, List.append_nil]
  have bounded := placed.bounded
  rw [State.inFlight, List.length_append] at bounded
  obtain ⟨distinct, counted⟩ := placed.permute moved popped
  exact {
    bounded := by rw [inFlight]; omega
    room := fun _ polling => by cases top.symm.trans polling
    distinct
    popped := counted
    own := by
      rw [inFlight]
      exact fun request member => placed.own request (List.mem_append_left _ member)
    finished := by rw [pending]; exact placed.finished
    inHand := by rw [idle]; exact fun _ member => absurd member List.not_mem_nil
    completed }

/-- What `VirtQueue::complete` was called with goes from the loop's hand to the used ring. -/
theorem deliver (placed : Placed config answered s) {request : Request} {usedLength : UInt32}
    (pc : s.pc = .writing request usedLength) : Placed config answered { enterUsed s request usedLength with pc := .top } := by
  have inHand : s.inHand = [(request, usedLength)] := by rw [State.inHand, pc]
  refine placed.release ?_ rfl rfl rfl ?_
  · rw [List.perm_iff_count, placed_of_idle rfl, State.placed, State.inFlight, inHand]
    intro chain
    simp only [enterUsed, List.map_append, List.map_singleton, List.count_append]
    omega
  · intro entry member
    rcases List.mem_append.mp member with old | new
    · exact placed.completed entry old
    · rw [List.mem_singleton.mp new]
      refine ⟨placed.own request ?_, placed.inHand (request, usedLength) ?_⟩
      · rw [State.inFlight, inHand]
        exact List.mem_append_right _ (List.mem_singleton_self _)
      · rw [inHand]
        exact List.mem_singleton_self _

theorem discard (placed : Placed config answered s) {request : Request} {usedLength : UInt32}
    (inHand : s.inHand = [(request, usedLength)]) :
    Placed config answered { s with pc := .top, discarded := s.discarded ++ [request.chain] } := by
  refine placed.release ?_ rfl rfl rfl placed.completed
  rw [List.perm_iff_count, placed_of_idle rfl, State.placed, State.inFlight, inHand]
  intro chain
  simp only [List.map_append, List.map_singleton, List.count_append]
  omega

/-- A request moves on with another phase. -/
theorem rephase (placed : Placed config answered s) {position queueIndex : Nat} {chain : Chain} {phase next : Phase}
    (found : s.pending[position]? = some ⟨queueIndex, chain, phase⟩)
    (done : ∀ usedLength, next = .finished (some usedLength) → answered chain usedLength)
    (pending : t.pending = s.pending.set position ⟨queueIndex, chain, next⟩) (inHand : t.inHand = s.inHand)
    (completed : t.completed = s.completed) (discarded : t.discarded = s.discarded) (popped : t.popped = s.popped)
    (room : ∀ left, t.pc = .polling left → s.pending.length < config.maximumInflight) : Placed config answered t := by
  have same : t.placed = s.placed := by
    simp only [State.placed, State.inFlight, pending, inHand, completed, discarded, List.map_append, set_chains found next]
  have old : ⟨queueIndex, chain, phase⟩ ∈ s.pending := List.mem_of_getElem? found
  exact {
    bounded := by simpa only [State.inFlight, pending, inHand, List.length_append, List.length_set] using placed.bounded
    room := by simpa only [pending, List.length_set] using room
    distinct := by rw [same]; exact placed.distinct
    popped := by rw [same, popped]; exact placed.popped
    own := by
      rw [State.inFlight, pending, inHand]
      intro request member
      rcases List.mem_append.mp member with waiting | held
      · rcases List.mem_or_eq_of_mem_set waiting with unchanged | rfl
        · exact placed.own request (List.mem_append_left _ unchanged)
        · exact placed.own ⟨queueIndex, chain, phase⟩ (List.mem_append_left _ old)
      · exact placed.own request (List.mem_append_right _ held)
    finished := by
      rw [pending]
      intro request member usedLength finished
      rcases List.mem_or_eq_of_mem_set member with unchanged | rfl
      · exact placed.finished request unchanged usedLength finished
      · exact done usedLength finished
    inHand := by rw [inHand]; exact placed.inHand
    completed := by rw [completed]; exact placed.completed }

theorem advance (placed : Placed config answered s) (stepped : advance config s = some t) :
    Placed config answered t := by
  cases advance_moves stepped with
  | scan pc free => exact placed.frame rfl (by simp only [State.inHand, pc]) rfl rfl rfl fun _ _ => free.2.2
  | forsake pc => exact placed.discard (by rw [State.inHand, pc])
  | listen pc | proceed pc | unlisten pc | await pc | leaveScan pc | endPass pc | drain pc | idle pc | select pc
  | write pc | drained pc =>
      exact placed.frame rfl (by simp only [State.inHand, pc]) rfl rfl rfl fun _ polling => by cases polling

theorem push (placed : Placed config answered s) {queue : Nat} (room : s.pending.length < config.maximumInflight)
    (idle : s.inHand = []) (scanning : t.pc = .scanCheck)
    (pending : t.pending = s.pending ++ [⟨queue, ⟨queue, s.popped queue⟩, .fresh⟩])
    (completed : t.completed = s.completed) (discarded : t.discarded = s.discarded)
    (popped : t.popped = Function.update s.popped queue (s.popped queue + 1)) : Placed config answered t := by
  have emptyHanded : t.inHand = [] := by rw [State.inHand, scanning]
  have inFlight : t.inFlight = s.pending ++ [⟨queue, ⟨queue, s.popped queue⟩, .fresh⟩] := by
    rw [State.inFlight, emptyHanded, pending, List.map_nil, List.append_nil]
  have moved : t.placed.Perm (⟨queue, s.popped queue⟩ :: s.placed) := by
    rw [List.perm_iff_count, placed_of_idle idle, placed_of_idle emptyHanded, ← List.singleton_append]
    intro chain
    simp only [pending, completed, discarded, List.map_append, List.map_cons, List.map_nil, List.count_append]
    omega
  obtain ⟨distinct, counted⟩ := placed.pop moved popped
  exact {
    bounded := by rw [inFlight, List.length_append]; exact room
    room := fun _ polling => by cases scanning.symm.trans polling
    distinct
    popped := counted
    own := by
      rw [inFlight]
      intro request member
      rcases List.mem_append.mp member with old | new
      · exact placed.own request (List.mem_append_left _ old)
      · rw [List.mem_singleton.mp new]
    finished := by
      rw [pending]
      intro request member usedLength finished
      rcases List.mem_append.mp member with old | new
      · exact placed.finished request old usedLength finished
      · rw [List.mem_singleton.mp new] at finished
        cases finished
    inHand := by rw [emptyHanded]; exact fun _ member => absurd member List.not_mem_nil
    completed := by rw [completed]; exact placed.completed }

theorem drop (placed : Placed config answered s) {queue : Nat} (pc : t.pc = s.pc) (pending : t.pending = s.pending)
    (completed : t.completed = s.completed)
    (discarded : t.discarded = s.discarded ++ [⟨queue, s.popped queue⟩])
    (popped : t.popped = Function.update s.popped queue (s.popped queue + 1)) : Placed config answered t := by
  have inHand : t.inHand = s.inHand := by rw [State.inHand, State.inHand, pc]
  have inFlight : t.inFlight = s.inFlight := by rw [State.inFlight, State.inFlight, pending, inHand]
  have moved : t.placed.Perm (⟨queue, s.popped queue⟩ :: s.placed) := by
    rw [List.perm_iff_count, State.placed, State.placed, inFlight, completed, discarded]
    intro chain
    simp only [List.count_append, List.count_cons, List.count_nil]
    omega
  obtain ⟨distinct, counted⟩ := placed.pop moved popped
  exact {
    bounded := by rw [inFlight]; exact placed.bounded
    room := by rw [pending, pc]; exact placed.room
    distinct
    popped := counted
    own := by rw [inFlight]; exact placed.own
    finished := by rw [pending]; exact placed.finished
    inHand := by rw [inHand]; exact placed.inHand
    completed := by rw [completed]; exact placed.completed }

theorem take (placed : Placed config answered s) {taken : Taken} (stepped : take config s taken = some t) :
    Placed config answered t := by
  cases take_moves stepped with
  | takeNone pc =>
      exact placed.frame rfl (by simp only [State.inHand, pc]) rfl rfl rfl fun _ _ => placed.room _ pc
  | takeWork pc => exact placed.push (placed.room _ pc) (by simp only [State.inHand, pc]) rfl rfl rfl rfl rfl
  | takeMalformed pc =>
      apply Placed.abort
      · exact placed.drop rfl rfl rfl rfl rfl
      · simp only [State.inHand, popChain, pollQueue, pc]
  | takeFailed pc =>
      apply Placed.abort
      · exact placed.frame rfl rfl rfl rfl rfl fun _ _ => placed.room _ pc
      · simp only [State.inHand, pollQueue, pc]

theorem pollWake (placed : Placed config answered s) (stepped : pollWake s = some t) : Placed config answered t := by
  cases @pollWake_moves config _ _ stepped with
  | awaitReady pc | selectReady pc =>
      exact placed.frame rfl (by simp only [State.inHand, pc]) rfl rfl rfl fun _ polling => by cases polling
  | awaitPending | selectPending => exact placed.frame rfl rfl rfl rfl rfl placed.room

theorem grasp (placed : Placed config answered s) {position : Nat} {request : Request} {usedLength : UInt32}
    (found : s.pending[position]? = some request) (finished : request.phase = .finished (some usedLength))
    (idle : s.inHand = []) (pc : t.pc = .completing request usedLength)
    (pending : t.pending = s.pending.eraseIdx position) (completed : t.completed = s.completed)
    (discarded : t.discarded = s.discarded) (popped : t.popped = s.popped) : Placed config answered t := by
  have inHand : t.inHand = [(request, usedLength)] := by rw [State.inHand, pc]
  have inFlight : t.inFlight = s.pending.eraseIdx position ++ [request] := by
    rw [State.inFlight, inHand, pending, List.map_singleton]
  have member : request ∈ s.pending := List.mem_of_getElem? found
  have moved : t.placed.Perm s.placed := by
    rw [List.perm_iff_count, placed_of_idle idle, State.placed, inFlight, completed, discarded]
    intro chain
    simp only [List.map_append, List.map_singleton, List.count_append, eraseIdx_count found chain]
  obtain ⟨distinct, counted⟩ := placed.permute moved popped
  have bounded := placed.bounded
  rw [State.inFlight, idle, List.map_nil, List.append_nil] at bounded
  obtain ⟨inside, -⟩ := List.getElem?_eq_some_iff.mp found
  exact {
    bounded := by
      rw [inFlight, List.length_append, List.length_singleton, List.length_eraseIdx_of_lt inside]
      omega
    room := fun _ polling => by cases pc.symm.trans polling
    distinct
    popped := counted
    own := by
      rw [inFlight]
      intro other listed
      apply placed.own
      apply List.mem_append_left
      rcases List.mem_append.mp listed with old | new
      · exact List.mem_of_mem_eraseIdx old
      · rwa [List.mem_singleton.mp new]
    finished := by
      rw [pending]
      exact fun other listed => placed.finished other (List.mem_of_mem_eraseIdx listed)
    inHand := by
      rw [inHand]
      intro held listed
      rw [List.mem_singleton.mp listed]
      exact placed.finished request member usedLength finished
    completed := by rw [completed]; exact placed.completed }

theorem pollRequest (placed : Placed config answered s) {position : Nat} (stepped : pollRequest s position = some t) :
    Placed config answered t := by
  cases @pollRequest_moves config _ _ _ stepped with
  | requestRefused pc | requestFailed pc => exact placed.abort (by simp only [State.inHand, pc])
  | requestStarting pc =>
      exact placed.frame rfl (by simp only [State.inHand, pc]) rfl rfl rfl fun _ polling => by cases polling
  | requestRunning => exact placed
  | requestReady pc found finished =>
      exact placed.grasp found finished (by simp only [State.inHand, pc]) rfl rfl rfl rfl rfl

theorem start (placed : Placed config answered s) {leases : Option Nat} (stepped : start config s leases = some t) :
    Placed config answered t := by
  cases start_moves stepped with
  | startWorker pc found =>
      exact placed.rephase found (fun _ done => by cases done) rfl (by simp only [State.inHand, pc]) rfl rfl rfl
        fun _ polling => by cases polling
  | startFailed pc => exact placed.abort (by simp only [State.inHand, pc])

theorem complete (placed : Placed config answered s) {outcome : Completion} (stepped : complete s outcome = some t) :
    Placed config answered t := by
  cases @complete_moves config _ _ _ stepped with
  | announced pc => exact (placed.deliver pc).frame rfl rfl rfl rfl rfl fun _ polling => by cases polling
  | silent pc => exact (placed.deliver pc).abort rfl
  | completeFailed pc => exact (placed.discard (by rw [State.inHand, pc])).abort rfl

theorem environment (placed : Placed config answered s) (environment : label.environment = true)
    (stepped : step config s label = some t)
    (heard : ∀ position usedLength request, label = .finish position (some usedLength) →
      s.pending[position]? = some request → answered request.chain usedLength) : Placed config answered t := by
  cases step_moves stepped with
  | publish | kick | stopDown | stopRevoke | stopWake | finishDetached =>
      exact placed.frame rfl rfl rfl rfl rfl placed.room
  | finish found =>
      refine placed.rephase found (fun usedLength done => ?_) rfl rfl rfl rfl rfl placed.room
      cases done
      exact heard _ usedLength _ rfl found
  | _ => cases environment

theorem step (placed : Placed config answered s) (stepped : step config s label = some t)
    (heard : ∀ position usedLength request, label = .finish position (some usedLength) →
      s.pending[position]? = some request → answered request.chain usedLength) : Placed config answered t := by
  by_cases environment : label.environment = true
  · exact placed.environment environment stepped heard
  cases label with
  | advance => exact placed.advance stepped
  | take taken => exact placed.take stepped
  | pollWake => exact placed.pollWake stepped
  | pollRequest position => exact placed.pollRequest stepped
  | start leases => exact placed.start stepped
  | complete outcome => exact placed.complete stepped
  | _ => exact absurd rfl environment

end Placed

/-- The worker of a chain returned a used length. -/
def Answered (config : Config) (labels : List Label) (chain : Chain) (usedLength : UInt32) : Prop :=
  ∃ before position after s request, labels = before ++ .finish position (some usedLength) :: after ∧
    exec (step config) initial before = some s ∧ s.pending[position]? = some request ∧ request.chain = chain

theorem placed_run {labels : List Label} (run : exec (step config) initial labels = some s) :
    Placed config (Answered config labels) s := by
  refine Execution.invariant_past (fun past => Placed config (Answered config past)) ?_ .initial run
  intro past s label t before placed stepped
  refine (placed.mono ?_).step stepped ?_
  · rintro chain usedLength ⟨first, position, after, u, request, rfl, reached, found, own⟩
    exact ⟨first, position, after ++ [label], u, request, by simp, reached, found, own⟩
  · rintro position usedLength request rfl found
    exact ⟨past, position, [], s, request, rfl, before, found, rfl⟩

theorem loop_discards (own : label.environment = false) (stepped : step config s label = some t) :
    t.pc = .returned false ∨ t.down = true ∨ t.discarded = s.discarded ∧ t.down = s.down := by
  cases step_moves stepped with
  | forsake _ down => exact Or.inr (Or.inl down)
  | takeMalformed | takeFailed | requestRefused | requestFailed | startFailed | silent | completeFailed =>
      exact Or.inl rfl
  | publish | kick | stopDown | stopRevoke | stopWake | finish | finishDetached => cases own
  | _ => exact Or.inr (Or.inr ⟨rfl, rfl⟩)

theorem environment_discards (environment : label.environment = true) (stepped : step config s label = some t) :
    t.discarded = s.discarded ∧ (s.down = true → t.down = true) := by
  cases step_moves stepped with
  | publish | kick | stopRevoke | stopWake | finish | finishDetached => exact ⟨rfl, id⟩
  | stopDown => exact ⟨rfl, fun _ => rfl⟩
  | _ => cases environment

theorem discarded_run {labels : List Label} (run : exec (step config) initial labels = some s)
    (lost : s.discarded ≠ []) : s.down = true ∨ s.pc = .returned false := by
  refine Execution.invariant (fun s => s.discarded ≠ [] → s.down = true ∨ s.pc = .returned false) ?_
    (fun lost => absurd rfl lost) run lost
  intro s label t excused stepped lost
  cases environment : label.environment with
  | true =>
      obtain ⟨discarded, stays⟩ := environment_discards environment stepped
      rw [discarded] at lost
      rw [(environment_undisturbed environment stepped).pc]
      exact (excused lost).imp_left stays
  | false =>
      rcases loop_discards environment stepped with failed | down | ⟨discarded, down⟩
      · exact Or.inr failed
      · exact Or.inl down
      · rw [discarded] at lost
        rw [down]
        exact Or.inl ((excused lost).resolve_right (loop_running environment stepped false))

theorem run_polls {labels : List Label} (run : exec (step config) s labels = some t) : s.polls ≤ t.polls :=
  Execution.invariant (fun u => s.polls ≤ u.polls) (fun _ _ _ counted stepped => counted.trans (step_polls stepped))
    le_rfl run

/-- Every number of polls that a run passes belongs to a poll of that run. -/
theorem polls_between {labels : List Label} (run : exec (step config) s labels = some t) {poll : Nat}
    (first : s.polls ≤ poll) (last : poll < t.polls) :
    ∃ early taken late u, labels = early ++ .take taken :: late ∧ exec (step config) s early = some u ∧
      u.polls = poll := by
  induction labels generalizing s with
  | nil =>
      cases run
      omega
  | cons label rest ih =>
      obtain ⟨u, stepped, tail⟩ := Execution.exec_cons_eq_some.mp run
      have later (counted : u.polls ≤ poll) : ∃ early taken late v, label :: rest = early ++ .take taken :: late ∧
          exec (step config) s early = some v ∧ v.polls = poll := by
        obtain ⟨early, taken, late, v, rfl, reached, found⟩ := ih tail counted
        exact ⟨label :: early, taken, late, v, rfl, Execution.exec_cons_eq_some.mpr ⟨u, stepped, reached⟩, found⟩
      by_cases polls : ∃ taken, label = .take taken
      · obtain ⟨taken, rfl⟩ := polls
        rcases Nat.eq_or_lt_of_le first with here | before
        · exact ⟨[], taken, rest, s, rfl, rfl, here⟩
        · apply later
          rw [(take_polls stepped).1]
          exact before
      · apply later
        rw [(polls_unchanged (fun taken same => polls ⟨taken, same⟩) stepped).1]
        exact first

theorem pollQueue_run {labels : List Label} (run : exec (step config) initial labels = some s)
    (few : s.polls < 2 ^ 64) : (pollQueue config s).1 = s.polls % config.queues := by
  rw [pollQueue, nextQueue_run run, Nat.mod_eq_of_lt few]

theorem polls_in_turn {labels between : List Label} (run : exec (step config) initial labels = some s) {taken : Taken}
    (continued : exec (step config) s (.take taken :: between) = some t) (few : t.polls < 2 ^ 64)
    (again : (pollQueue config t).1 = (pollQueue config s).1) {queue : Nat} (inside : queue < config.queues)
    (other : queue ≠ (pollQueue config s).1) :
    ∃ early next late u, between = early ++ .take next :: late ∧
      exec (step config) s (.take taken :: early) = some u ∧ (pollQueue config u).1 = queue := by
  obtain ⟨v, stepped, rest⟩ := Execution.exec_cons_eq_some.mp continued
  have counted := (take_polls stepped).1
  have grown := run_polls rest
  rw [pollQueue_run (Execution.exec_append_eq_some.mpr ⟨s, run, continued⟩) few, pollQueue_run run (by omega)] at again
  rw [pollQueue_run run (by omega)] at other
  -- The two polls of one queue are at least a whole turn apart.
  have turn : s.polls + config.queues ≤ t.polls := by
    have divides := Nat.dvd_of_mod_eq_zero (Nat.sub_mod_eq_zero_of_mod_eq again)
    have := Nat.le_of_dvd (by omega) divides
    omega
  obtain ⟨poll, before, recent, rfl⟩ := polled_recently inside (Nat.le_add_left config.queues s.polls)
  have strict : s.polls ≠ poll := fun same => other (by rw [same])
  have first : v.polls ≤ poll := by omega
  obtain ⟨early, next, late, u, rfl, reached, rfl⟩ := polls_between rest first (by omega)
  have path := Execution.exec_cons_eq_some.mpr ⟨v, stepped, reached⟩
  exact ⟨early, next, late, u, rfl, path,
    pollQueue_run (Execution.exec_append_eq_some.mpr ⟨s, run, path⟩) (by omega)⟩

/-- Every popped chain is pending, completed on its own queue with the length that its own worker returned, or discarded
by a stop or an error, and is so only once. Polls of one queue have polls of all others between them. -/
theorem scheduled {labels : List Label} (run : exec (step config) initial labels = some s) :
    s.inFlight.length ≤ config.maximumInflight ∧
    s.placed.Nodup ∧ (∀ chain, chain ∈ s.placed ↔ chain.number < s.popped chain.queue) ∧
    (∀ queue chain usedLength, (queue, chain, usedLength) ∈ s.completed →
      queue = chain.queue ∧ Answered config labels chain usedLength) ∧
    (s.discarded ≠ [] → s.down = true ∨ s.pc = .returned false) ∧
    ∀ before first between second after u v, labels = before ++ .take first :: between ++ .take second :: after →
      exec (step config) initial before = some u → exec (step config) u (.take first :: between) = some v →
      v.polls < 2 ^ 64 → (pollQueue config v).1 = (pollQueue config u).1 →
      ∀ queue < config.queues, queue ≠ (pollQueue config u).1 →
        ∃ early next late w, between = early ++ .take next :: late ∧
          exec (step config) u (.take first :: early) = some w ∧ (pollQueue config w).1 = queue := by
  have placed := placed_run run
  refine ⟨placed.bounded, placed.distinct, placed.popped, fun queue chain usedLength => ?_, discarded_run run, ?_⟩
  · exact placed.completed (queue, chain, usedLength)
  · intro before first between second after u v _ reached continued few again queue inside other
    exact polls_in_turn reached continued few again inside other

-- Two queues with a chain each. The first queue gets a second one, and the worker of its first chain ends.
def twoQueues : List Label :=
  [.publish 0, .publish 0, .publish 1, .kick, .advance, .advance, .pollWake, .advance]

def served : List Label :=
  [.take .none, .take .none, .advance, .advance, .pollRequest 0, .start (some 1), .finish 0 (some 7), .pollRequest 0,
    .advance, .complete .announced]

theorem scheduled_two_queues :
    ∃ u v s, exec (step ⟨2, true⟩) initial twoQueues = some u ∧
      exec (step ⟨2, true⟩) u [.take .work, .advance, .take .work, .advance] = some v ∧
      exec (step ⟨2, true⟩) v (.take .work :: .advance :: served) = some s ∧
      s.inFlight.length = 2 ∧ s.inFlight.length ≤ 8 ∧ (0, ⟨0, 0⟩, 7) ∈ s.completed ∧
      (∃ early next late w, [.advance, .take .work, .advance] = early ++ .take next :: late ∧
        exec (step ⟨2, true⟩) u (.take .work :: early) = some w ∧ (pollQueue ⟨2, true⟩ w).1 = 1) := by
  have ends : (exec (step ⟨2, true⟩) initial twoQueues).map (fun u => (u.nextQueue,
      (exec (step ⟨2, true⟩) u [.take .work, .advance, .take .work, .advance]).map fun v => ((v.polls, v.nextQueue),
        (exec (step ⟨2, true⟩) v (.take .work :: .advance :: served)).map fun s =>
          (s.inFlight.length, decide ((0, ⟨0, 0⟩, 7) ∈ s.completed))))) =
      some (0, some ((2, 2), some (2, true))) := by decide +kernel
  obtain ⟨u, reached, next⟩ := Option.map_eq_some_iff.mp ends
  obtain ⟨first, next⟩ := Prod.mk.inj next
  obtain ⟨v, continued, next⟩ := Option.map_eq_some_iff.mp next
  obtain ⟨counted, next⟩ := Prod.mk.inj next
  obtain ⟨polls, second⟩ := Prod.mk.inj counted
  obtain ⟨s, last, facts⟩ := Option.map_eq_some_iff.mp next
  obtain ⟨two, completed⟩ := Prod.mk.inj facts
  have run := Execution.exec_append_eq_some.mpr ⟨v, Execution.exec_append_eq_some.mpr ⟨u, reached, continued⟩, last⟩
  obtain ⟨bounded, -, -, -, -, turns⟩ := scheduled run
  refine ⟨u, v, s, reached, continued, last, two, bounded, of_decide_eq_true completed, ?_⟩
  have same : (pollQueue ⟨2, true⟩ v).1 = (pollQueue ⟨2, true⟩ u).1 := by simp only [pollQueue, first, second]
  exact turns twoQueues .work _ .work (.advance :: served) u v rfl reached continued (by omega) same 1 (by decide)
    (by simp only [pollQueue, first]; decide)

end Libvirtio.Run
