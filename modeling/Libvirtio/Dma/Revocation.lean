import Libvirtio.Dma.Basic
import Libvirtio.Library.Execution
import Libvirtio.Library.Sums

/-!
# Leases, revocation and drain

`DmaMemory::lease`, `Drop for DmaLease`, `revoke()` and `wait_for_drain()` as steps of any number of
tasks over the shared `DmaLeaseState`. Each atomic operation is one step; a call is suspended between
any two of its steps.
-/

namespace Libvirtio.Revocation

structure LeaseState where
  revoked : Bool
  active : Nat
  notifications : Nat

def LeaseState.fetchAdd (state : LeaseState) : LeaseState :=
  { state with active := (state.active + 1) % 2 ^ 64 }

def LeaseState.fetchSub (state : LeaseState) : LeaseState :=
  { state with active := (if state.active = 0 then 2 ^ 64 else state.active) - 1 }

theorem LeaseState.fetchSub_active {state : LeaseState} (positive : 0 < state.active) :
    state.fetchSub.active = state.active - 1 := by
  simp [fetchSub, Nat.ne_of_gt positive]

inductive Phase where
  | entered
  | admitted
  | counted
  | confirmed
  | rollingBack (error : DeviceError)
  | live (parts : List DmaPart)
  | lastOut (error : Option DeviceError)
  | finished (error : Option DeviceError)

/-- One step of a call: the load, `fetch_add`, second load, translation, `fetch_sub` or
`notify_waiters` that its phase stands before. -/
def advance (memory : DmaMemory) (range : DmaRange) (state : LeaseState) :
    Phase → Option (Phase × LeaseState)
  | .entered =>
      some (if state.revoked then .finished (some (.down .revoked)) else .admitted, state)
  | .admitted => some (.counted, state.fetchAdd)
  | .counted =>
      some (if state.revoked then .rollingBack (.down .revoked) else .confirmed, state)
  | .confirmed =>
      match memory.translate range with
      | .ok parts => some (.live parts, state)
      | .error error => some (.rollingBack error, state)
  | .rollingBack error => some (dropActive (some error))
  | .live _ => some (dropActive none)
  | .lastOut error => some (.finished error, { state with notifications := state.notifications + 1 })
  | .finished _ => none
where
  dropActive (error : Option DeviceError) : Phase × LeaseState :=
    (if state.active = 1 then .lastOut error else .finished error, state.fetchSub)

structure Call where
  range : DmaRange
  phase : Phase

/-- A task in `wait_for_drain`; `seen` counts the `notify_waiters` calls before its future. -/
inductive Waiter where
  | looping
  | created (seen : Nat)
  | waiting (seen : Nat)
  | drained
  deriving DecidableEq

def Waiter.resume (state : LeaseState) : Waiter → Option Waiter
  | .looping => some (.created state.notifications)
  | .created seen => some (if state.active = 0 then .drained else .waiting seen)
  | .waiting seen => if seen < state.notifications then some .looping else none
  | .drained => none

structure System where
  state : LeaseState
  calls : List Call
  waiters : List Waiter

inductive Label where
  | lease (range : DmaRange)
  | advance (call : Nat)
  | revoke
  | waitForDrain
  | resume (waiter : Nat)
  deriving DecidableEq

def Phase.isLive : Phase → Bool
  | .live _ => true
  | _ => false

def Phase.isAttempt : Phase → Bool
  | .counted | .confirmed | .rollingBack _ => true
  | _ => false

def System.liveLeases (s : System) : Nat := s.calls.countP fun call => call.phase.isLive

def System.attempts (s : System) : Nat := s.calls.countP fun call => call.phase.isAttempt

-- Every lease and every attempt occupies memory, so fewer than 2^64 of them exist at a time.
def System.bounded (s : System) : Option System :=
  if s.liveLeases + s.attempts < 2 ^ 64 then some s else none

def step (memory : DmaMemory) (s : System) : Label → Option System
  | .lease range => some { s with calls := s.calls ++ [⟨range, .entered⟩] }
  | .advance i =>
      s.calls[i]?.bind fun call =>
        (advance memory call.range s.state call.phase).bind fun (phase, state) =>
          System.bounded { s with state, calls := s.calls.set i { call with phase } }
  | .revoke => some { s with state := { s.state with revoked := true } }
  | .waitForDrain => some { s with waiters := s.waiters ++ [.looping] }
  | .resume i =>
      s.waiters[i]?.bind fun waiter =>
        (waiter.resume s.state).map fun waiter => { s with waiters := s.waiters.set i waiter }

def initial : System := ⟨⟨false, 0, 0⟩, [], []⟩

/-! ## What one step does -/

/-- One rule for each branch of `advance` that gives a phase. -/
inductive Advances (memory : DmaMemory) (range : DmaRange) (state : LeaseState) : Phase → Phase → LeaseState → Prop where
  | refuse (revoked : state.revoked = true) :
      Advances memory range state .entered (.finished (some (.down .revoked))) state
  | enter (granted : state.revoked = false) : Advances memory range state .entered .admitted state
  | count : Advances memory range state .admitted .counted state.fetchAdd
  | rollBack (revoked : state.revoked = true) :
      Advances memory range state .counted (.rollingBack (.down .revoked)) state
  | confirm (granted : state.revoked = false) : Advances memory range state .counted .confirmed state
  | translate {parts : List DmaPart} (mapped : memory.translate range = .ok parts) :
      Advances memory range state .confirmed (.live parts) state
  | reject {error : DeviceError} (unmapped : memory.translate range = .error error) :
      Advances memory range state .confirmed (.rollingBack error) state
  | rolledBack {error : DeviceError} (others : state.active ≠ 1) :
      Advances memory range state (.rollingBack error) (.finished (some error)) state.fetchSub
  | rolledBackLast {error : DeviceError} (last : state.active = 1) :
      Advances memory range state (.rollingBack error) (.lastOut (some error)) state.fetchSub
  | dropped {parts : List DmaPart} (others : state.active ≠ 1) :
      Advances memory range state (.live parts) (.finished none) state.fetchSub
  | droppedLast {parts : List DmaPart} (last : state.active = 1) :
      Advances memory range state (.live parts) (.lastOut none) state.fetchSub
  | notify {error : Option DeviceError} :
      Advances memory range state (.lastOut error) (.finished error)
        { state with notifications := state.notifications + 1 }

inductive Moves (memory : DmaMemory) (s : System) : Label → System → Prop where
  | lease {range : DmaRange} : Moves memory s (.lease range) { s with calls := s.calls ++ [⟨range, .entered⟩] }
  | advance {i : Nat} {call : Call} {phase : Phase} {state : LeaseState} (located : s.calls[i]? = some call)
      (advances : Advances memory call.range s.state call.phase phase state)
      (bounded : System.liveLeases ⟨state, s.calls.set i ⟨call.range, phase⟩, s.waiters⟩ +
        System.attempts ⟨state, s.calls.set i ⟨call.range, phase⟩, s.waiters⟩ < 2 ^ 64) :
      Moves memory s (.advance i) ⟨state, s.calls.set i ⟨call.range, phase⟩, s.waiters⟩
  | revoke : Moves memory s .revoke { s with state := { s.state with revoked := true } }
  | waitForDrain : Moves memory s .waitForDrain { s with waiters := s.waiters ++ [.looping] }
  | resume {i : Nat} {waiter next : Waiter} (located : s.waiters[i]? = some waiter)
      (resumes : waiter.resume s.state = some next) :
      Moves memory s (.resume i) { s with waiters := s.waiters.set i next }

theorem advance_advances {memory : DmaMemory} {range : DmaRange} {state after : LeaseState} {phase next : Phase}
    (action : advance memory range state phase = some (next, after)) :
    Advances memory range state phase next after := by
  cases phase with
  | entered =>
      simp only [advance, Option.some.injEq, Prod.mk.injEq] at action
      obtain ⟨rfl, rfl⟩ := action
      split
      · rename_i revoked
        exact .refuse revoked
      · rename_i granted
        exact .enter (Bool.eq_false_of_not_eq_true granted)
  | admitted =>
      cases action
      exact .count
  | counted =>
      simp only [advance, Option.some.injEq, Prod.mk.injEq] at action
      obtain ⟨rfl, rfl⟩ := action
      split
      · rename_i revoked
        exact .rollBack revoked
      · rename_i granted
        exact .confirm (Bool.eq_false_of_not_eq_true granted)
  | confirmed =>
      simp only [advance] at action
      split at action
      · rename_i mapped
        cases action
        exact .translate mapped
      · rename_i unmapped
        cases action
        exact .reject unmapped
  | rollingBack error =>
      simp only [advance, advance.dropActive, Option.some.injEq, Prod.mk.injEq] at action
      obtain ⟨rfl, rfl⟩ := action
      split
      · rename_i last
        exact .rolledBackLast last
      · rename_i others
        exact .rolledBack others
  | live parts =>
      simp only [advance, advance.dropActive, Option.some.injEq, Prod.mk.injEq] at action
      obtain ⟨rfl, rfl⟩ := action
      split
      · rename_i last
        exact .droppedLast last
      · rename_i others
        exact .dropped others
  | lastOut error =>
      cases action
      exact .notify
  | finished error => cases action

theorem step_moves {memory : DmaMemory} {s t : System} {label : Label} (h : step memory s label = some t) :
    Moves memory s label t := by
  cases label with
  | lease range =>
      cases h
      exact .lease
  | advance i =>
      simp only [step, System.bounded] at h
      obtain ⟨call, located, h⟩ := Option.bind_eq_some_iff.mp h
      obtain ⟨⟨phase, state⟩, action, h⟩ := Option.bind_eq_some_iff.mp h
      simp only [Option.ite_none_right_eq_some, Option.some.injEq] at h
      obtain ⟨bounded, rfl⟩ := h
      exact .advance located (advance_advances action) bounded
  | revoke =>
      cases h
      exact .revoke
  | waitForDrain =>
      cases h
      exact .waitForDrain
  | resume i =>
      simp only [step] at h
      obtain ⟨waiter, located, h⟩ := Option.bind_eq_some_iff.mp h
      obtain ⟨next, resumes, rfl⟩ := Option.map_eq_some_iff.mp h
      exact .resume located resumes

/-! ## One call -/

def Phase.weight (phase : Phase) : Nat := phase.isLive.toNat + phase.isAttempt.toNat

namespace Advances
variable {memory : DmaMemory} {range : DmaRange} {state after : LeaseState} {phase next : Phase}

theorem active (advances : Advances memory range state phase next after) {others : Nat}
    (counted : state.active = others + phase.weight) (fits : others + next.weight < 2 ^ 64) :
    after.active = others + next.weight := by
  cases advances with
  | refuse | enter | rollBack | confirm | translate | reject | notify => exact counted
  | count =>
      have before : state.active = others := counted
      rw [LeaseState.fetchAdd, before]
      exact Nat.mod_eq_of_lt fits
  | rolledBack | rolledBackLast | dropped | droppedLast =>
      have before : state.active = others + 1 := counted
      rw [LeaseState.fetchSub_active (by omega), before]
      rfl

theorem releases (advances : Advances memory range state phase next after)
    (holds : phase.isLive ∨ ∃ error, phase = .rollingBack error) : phase.weight = 1 ∧ after = state.fetchSub := by
  cases advances with
  | rolledBack | rolledBackLast | dropped | droppedLast => exact ⟨rfl, rfl⟩
  | _ =>
      rcases holds with live | ⟨error, same⟩
      · cases live
      · cases same

theorem stays_revoked (advances : Advances memory range state phase next after) (revoked : state.revoked = true) :
    after.revoked = true := by
  cases advances with
  | _ => exact revoked

/-- The second load sees the flag, so only roll-backs lead out of the counted phase. -/
theorem stays_closed (advances : Advances memory range state phase next after) (revoked : state.revoked = true)
    (quiet : phase ≠ .confirmed ∧ phase.isLive = false) : next ≠ .confirmed ∧ next.isLive = false := by
  cases advances with
  | confirm granted => cases granted.symm.trans revoked
  | translate | reject => exact absurd rfl quiet.1
  | dropped | droppedLast => cases quiet.2
  | _ => exact ⟨fun same => (by cases same), rfl⟩

end Advances

/-! ## The counter -/

theorem outstanding_eq_sum (s : System) :
    s.liveLeases + s.attempts = (s.calls.map fun call => call.phase.weight).sum := by
  unfold System.liveLeases System.attempts
  induction s.calls with
  | nil => rfl
  | cons call rest ih =>
      have weight : call.phase.weight = call.phase.isLive.toNat + call.phase.isAttempt.toNat := rfl
      simp only [List.countP_cons, List.map_cons, List.sum_cons, ← ih, weight]
      cases call.phase.isLive <;> cases call.phase.isAttempt <;>
        simp only [Bool.toNat_true, Bool.toNat_false, Bool.false_eq_true, if_true, if_false] <;> omega

/-- What one call adds to the outstanding leases and attempts, before and after it moves. -/
theorem outstanding_set {s : System} {i : Nat} {call : Call} (located : s.calls[i]? = some call) :
    ∃ others, s.liveLeases + s.attempts = others + call.phase.weight ∧
      ∀ state phase, System.liveLeases ⟨state, s.calls.set i ⟨call.range, phase⟩, s.waiters⟩ +
        System.attempts ⟨state, s.calls.set i ⟨call.range, phase⟩, s.waiters⟩ = others + phase.weight := by
  refine ⟨((s.calls.eraseIdx i).map fun call => call.phase.weight).sum, ?_, fun state phase => ?_⟩
  · rw [outstanding_eq_sum]
    exact Sums.eraseIdx (fun call : Call => call.phase.weight) located
  · rw [outstanding_eq_sum]
    exact Sums.set (fun call : Call => call.phase.weight) located ⟨call.range, phase⟩

def Counted (s : System) : Prop :=
  s.state.active = s.liveLeases + s.attempts ∧ s.liveLeases + s.attempts < 2 ^ 64

theorem counted_step {memory : DmaMemory} {s t : System} {label : Label} (counted : Counted s)
    (h : step memory s label = some t) : Counted t := by
  obtain ⟨active, fits⟩ := counted
  cases step_moves h with
  | lease =>
      unfold Counted
      rw [outstanding_eq_sum] at active fits ⊢
      simpa [Phase.weight, Phase.isLive, Phase.isAttempt] using And.intro active fits
  | advance located advances bounded =>
      obtain ⟨others, before, after⟩ := outstanding_set located
      refine ⟨?_, bounded⟩
      rw [after] at bounded ⊢
      exact advances.active (active.trans before) bounded
  | revoke | waitForDrain | resume => exact ⟨active, fits⟩

theorem counted_run {memory : DmaMemory} {labels : List Label} {s : System}
    (run : exec (step memory) initial labels = some s) : Counted s :=
  Execution.invariant Counted (fun _ _ _ counted h => counted_step counted h)
    (by simp [Counted, initial, System.liveLeases, System.attempts]) run

theorem counted_fetchSub {memory : DmaMemory} {s t : System} {i : Nat} {call : Call} (counted : Counted s)
    (located : s.calls[i]? = some call) (releases : call.phase.isLive ∨ ∃ error, call.phase = .rollingBack error)
    (h : step memory s (.advance i) = some t) : t.state.active + 1 = s.state.active := by
  obtain ⟨others, before, -⟩ := outstanding_set located
  have active := counted.1
  cases step_moves h with
  | advance found advances =>
      cases located.symm.trans found
      obtain ⟨weight, rfl⟩ := advances.releases releases
      rw [LeaseState.fetchSub_active (by omega)]
      omega

/-! ## After the drain -/

def Closed (s : System) : Prop :=
  s.state.revoked = true ∧ ∀ call ∈ s.calls, call.phase ≠ .confirmed ∧ call.phase.isLive = false

theorem closed_step {memory : DmaMemory} {s t : System} {label : Label} (closed : Closed s)
    (h : step memory s label = some t) : Closed t := by
  obtain ⟨revoked, quiet⟩ := closed
  cases step_moves h with
  | lease =>
      refine ⟨revoked, fun call member => ?_⟩
      rcases List.mem_append.mp member with old | new
      · exact quiet call old
      · obtain rfl := List.mem_singleton.mp new
        exact ⟨fun same => (by cases same), rfl⟩
  | advance located advances =>
      refine ⟨advances.stays_revoked revoked, fun other member => ?_⟩
      rcases List.mem_or_eq_of_mem_set member with old | rfl
      · exact quiet other old
      · exact advances.stays_closed revoked (quiet _ (List.mem_of_getElem? located))
  | revoke => exact ⟨rfl, quiet⟩
  | waitForDrain | resume => exact ⟨revoked, quiet⟩

theorem closed_of_drained {s : System} (counted : Counted s) (revoked : s.state.revoked = true)
    (idle : s.state.active = 0) : Closed s := by
  refine ⟨revoked, fun call member => ?_⟩
  have none : s.liveLeases = 0 ∧ s.attempts = 0 := by
    have := counted.1
    omega
  have notLive := List.countP_eq_zero.mp none.1 call member
  have notAttempt := List.countP_eq_zero.mp none.2 call member
  refine ⟨fun eq => ?_, by simpa using notLive⟩
  simp [eq, Phase.isAttempt] at notAttempt

theorem Closed.liveLeases {s : System} (closed : Closed s) : s.liveLeases = 0 :=
  List.countP_eq_zero.mpr fun call member => by simp [(closed.2 call member).2]

theorem revoked_step {memory : DmaMemory} {s t : System} {label : Label}
    (revoked : s.state.revoked = true) (h : step memory s label = some t) : t.state.revoked = true := by
  cases step_moves h with
  | advance _ advances => exact advances.stays_revoked revoked
  | revoke => rfl
  | lease | waitForDrain | resume => exact revoked

theorem revoked_of_mem {memory : DmaMemory} {labels : List Label} {s : System}
    (run : exec (step memory) initial labels = some s) (revoke : Label.revoke ∈ labels) :
    s.state.revoked = true := by
  obtain ⟨before, after, rfl⟩ := List.append_of_mem revoke
  obtain ⟨t, -, tail⟩ := Execution.exec_append_eq_some.mp run
  obtain ⟨u, revoked, tail⟩ := Execution.exec_cons_eq_some.mp tail
  simp only [step, Option.some.injEq] at revoked
  refine Execution.invariant (fun s => s.state.revoked = true)
    (fun _ _ _ revoked h => revoked_step revoked h) ?_ tail
  rw [← revoked]

theorem Closed.advance_not_live {memory : DmaMemory} {s : System} (closed : Closed s) {i : Nat} {call : Call}
    (located : s.calls[i]? = some call) {phase : Phase} {state : LeaseState}
    (action : advance memory call.range s.state call.phase = some (phase, state)) : phase.isLive = false :=
  ((advance_advances action).stays_closed closed.1 (closed.2 call (List.mem_of_getElem? located))).2

theorem resume_drained {waiter : Waiter} {state : LeaseState} (resumes : waiter.resume state = some .drained) :
    state.active = 0 := by
  cases waiter with
  | created seen =>
      by_contra busy
      simp [Waiter.resume, busy] at resumes
  | looping | drained => cases resumes
  | waiting seen => simp [Waiter.resume] at resumes

theorem drained_state {memory : DmaMemory} {s t : System} {i : Nat}
    (h : step memory s (.resume i) = some t) (drained : t.waiters[i]? = some .drained) :
    t.state = s.state ∧ t.calls = s.calls ∧ s.state.active = 0 := by
  cases step_moves h with
  | resume located resumes =>
      obtain ⟨bound, -⟩ := List.getElem?_eq_some_iff.mp located
      rw [List.getElem?_set_self bound, Option.some.injEq] at drained
      rw [drained] at resumes
      exact ⟨rfl, rfl, resume_drained resumes⟩

theorem revocation_protocol (memory : DmaMemory) (before : List Label) (s : System)
    (run : exec (step memory) initial before = some s) :
    (s.state.active = s.liveLeases + s.attempts ∧
      ∀ i call t, s.calls[i]? = some call →
        (call.phase.isLive ∨ ∃ error, call.phase = .rollingBack error) →
        step memory s (.advance i) = some t → t.state.active + 1 = s.state.active) ∧
    (Label.revoke ∈ before → ∀ j t, step memory s (.resume j) = some t →
      t.waiters[j]? = some .drained → ∀ after u, exec (step memory) t after = some u →
        u.liveLeases = 0 ∧ ∀ (i : Nat) call phase state, u.calls[i]? = some call →
          advance memory call.range u.state call.phase = some (phase, state) → phase.isLive = false) := by
  have counted := counted_run run
  refine ⟨⟨counted.1, fun i call t located releases h => counted_fetchSub counted located releases h⟩, ?_⟩
  intro revoke j t h drained after u tail
  obtain ⟨state, calls, idle⟩ := drained_state h drained
  obtain ⟨revoked, quiet⟩ := closed_of_drained counted (revoked_of_mem run revoke) idle
  have start : Closed t := ⟨state ▸ revoked, calls ▸ quiet⟩
  have closed := Execution.invariant Closed (fun _ _ _ closed h => closed_step closed h) start tail
  exact ⟨closed.liveLeases, fun i call phase state located action => closed.advance_not_live located action⟩

theorem revocation_protocol_drop_after_revoke :
    let memory := DmaMemory.single ⟨0x1000, 0, 16⟩ (by decide)
    let before : List Label := [.lease ⟨0x1000, 4⟩, .advance 0, .advance 0, .advance 0, .advance 0,
      .waitForDrain, .resume 0, .revoke, .advance 0, .advance 0]
    ∃ s t, exec (step memory) initial before = some s ∧ step memory s (.resume 0) = some t ∧
      t.waiters[0]? = some .drained ∧ s.state.active = s.liveLeases + s.attempts ∧ t.liveLeases = 0 := by
  intro memory before
  have run : exec (step memory) initial before = some
      ⟨⟨true, 0, 1⟩, [⟨⟨0x1000, 4⟩, .finished none⟩], [.created 0]⟩ := by rfl
  have facts := revocation_protocol memory before _ run
  exact ⟨_, ⟨⟨true, 0, 1⟩, [⟨⟨0x1000, 4⟩, .finished none⟩], [.drained]⟩, run, rfl, rfl, facts.1.1,
    (facts.2 (by decide) 0 _ rfl rfl [] _ rfl).1⟩

end Libvirtio.Revocation
