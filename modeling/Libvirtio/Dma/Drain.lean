import Libvirtio.Dma.Revocation

namespace Libvirtio.Revocation

variable {memory : DmaMemory} {s t : System}

/-- A call has decremented the counter to zero and has its `notify_waiters` still to make. -/
def System.Leaving (s : System) : Prop := ∃ call ∈ s.calls, ∃ error, call.phase = .lastOut error

structure Wakeable (s : System) : Prop where
  created : ∀ seen, .created seen ∈ s.waiters → seen ≤ s.state.notifications
  waiting : ∀ seen, .waiting seen ∈ s.waiters →
    seen < s.state.notifications ∨ seen = s.state.notifications ∧ (0 < s.state.active ∨ s.Leaving)

theorem resume_created {waiter : Waiter} {state : LeaseState} {seen : Nat}
    (resumes : waiter.resume state = some (.created seen)) : seen = state.notifications := by
  cases waiter with
  | looping =>
      cases resumes
      rfl
  | created =>
      simp only [Waiter.resume, Option.some.injEq] at resumes
      split at resumes
      · cases resumes
      · cases resumes
  | waiting => simp [Waiter.resume] at resumes
  | drained => cases resumes

theorem resume_waiting {waiter : Waiter} {state : LeaseState} {seen : Nat}
    (resumes : waiter.resume state = some (.waiting seen)) : waiter = .created seen ∧ 0 < state.active := by
  cases waiter with
  | looping | drained => cases resumes
  | created =>
      simp only [Waiter.resume, Option.some.injEq] at resumes
      split at resumes
      · cases resumes
      · rename_i busy
        cases resumes
        exact ⟨rfl, Nat.pos_of_ne_zero busy⟩
  | waiting => simp [Waiter.resume] at resumes

/-- A call notifies, or it leaves the counter positive or is the one that has to notify. -/
theorem Advances.wakes {range : DmaRange} {state after : LeaseState} {phase next : Phase}
    (advances : Advances memory range state phase next after) {others : Nat}
    (counted : state.active = others + phase.weight) (fits : others + next.weight < 2 ^ 64) :
    state.notifications < after.notifications ∨
    after.notifications = state.notifications ∧ (∀ error, phase ≠ .lastOut error) ∧
      (0 < state.active → 0 < after.active ∨ ∃ error, next = .lastOut error) := by
  have active := advances.active counted fits
  cases advances with
  | notify => exact .inl (Nat.lt_succ_self _)
  | refuse | enter | rollBack | confirm | translate | reject =>
      exact .inr ⟨rfl, fun _ same => (by cases same), .inl⟩
  | count =>
      refine .inr ⟨rfl, fun _ same => (by cases same), fun _ => .inl ?_⟩
      rw [active]
      exact Nat.succ_pos others
  | rolledBackLast | droppedLast => exact .inr ⟨rfl, fun _ same => (by cases same), fun _ => .inr ⟨_, rfl⟩⟩
  | rolledBack more | dropped more =>
      refine .inr ⟨rfl, fun _ same => (by cases same), fun _ => .inl ?_⟩
      have before : state.active = others + 1 := counted
      rw [active]
      change 0 < others
      omega

theorem leaving_set {i : Nat} {call : Call} (located : s.calls[i]? = some call)
    (stays : ∀ error, call.phase ≠ .lastOut error) (leaving : s.Leaving) (phase : Phase) (state : LeaseState) :
    System.Leaving ⟨state, s.calls.set i ⟨call.range, phase⟩, s.waiters⟩ := by
  obtain ⟨other, member, error, last⟩ := leaving
  obtain ⟨k, found⟩ := List.mem_iff_getElem?.mp member
  have elsewhere : i ≠ k := by
    rintro rfl
    cases located.symm.trans found
    exact stays error last
  refine ⟨other, List.mem_of_getElem? (i := k) ?_, error, last⟩
  rw [List.getElem?_set_ne elsewhere, found]

namespace Wakeable

theorem mono (wakeable : Wakeable s) (waiters : t.waiters = s.waiters)
    (later : s.state.notifications < t.state.notifications ∨
      t.state.notifications = s.state.notifications ∧
        (0 < s.state.active ∨ s.Leaving → 0 < t.state.active ∨ t.Leaving)) : Wakeable t := by
  constructor
  · rw [waiters]
    intro seen member
    have := wakeable.created seen member
    omega
  · rw [waiters]
    intro seen member
    rcases wakeable.waiting seen member with told | ⟨same, awaited⟩
    · exact .inl (by omega)
    · rcases later with more | ⟨equal, kept⟩
      · exact .inl (by omega)
      · exact .inr ⟨same.trans equal.symm, kept awaited⟩

theorem step {label : Label} (wakeable : Wakeable s) (counted : Counted s) (h : step memory s label = some t) :
    Wakeable t := by
  cases step_moves h with
  | lease =>
      refine wakeable.mono rfl (.inr ⟨rfl, Or.imp_right ?_⟩)
      rintro ⟨call, member, last⟩
      exact ⟨call, List.mem_append_left _ member, last⟩
  | @advance i call phase state located advances bounded =>
      obtain ⟨others, before, after⟩ := outstanding_set located
      rw [after] at bounded
      rcases advances.wakes (counted.1.trans before) bounded with told | ⟨same, stays, awaited⟩
      · exact wakeable.mono rfl (.inl told)
      · refine wakeable.mono rfl (.inr ⟨same, ?_⟩)
        rintro (active | leaving)
        · refine (awaited active).imp_right ?_
          rintro ⟨error, rfl⟩
          obtain ⟨bound, -⟩ := List.getElem?_eq_some_iff.mp located
          exact ⟨_, List.mem_set bound _, error, rfl⟩
        · exact .inr (leaving_set located stays leaving phase state)
  | revoke => exact wakeable.mono rfl (.inr ⟨rfl, id⟩)
  | waitForDrain =>
      constructor
      · intro seen member
        rcases List.mem_append.mp member with old | new
        · exact wakeable.created seen old
        · cases List.mem_singleton.mp new
      · intro seen member
        rcases List.mem_append.mp member with old | new
        · exact wakeable.waiting seen old
        · cases List.mem_singleton.mp new
  | resume located resumes =>
      constructor
      · intro seen member
        rcases List.mem_or_eq_of_mem_set member with old | rfl
        · exact wakeable.created seen old
        · exact Nat.le_of_eq (resume_created resumes)
      · intro seen member
        rcases List.mem_or_eq_of_mem_set member with old | rfl
        · exact wakeable.waiting seen old
        · -- The counter was loaded after the future was created, and it was positive.
          obtain ⟨rfl, active⟩ := resume_waiting resumes
          have early := wakeable.created seen (List.mem_of_getElem? located)
          exact (Nat.lt_or_eq_of_le early).imp_right fun same => ⟨same, .inl active⟩

end Wakeable

theorem wakeable_run {labels : List Label} (run : exec (step memory) initial labels = some s) : Wakeable s := by
  refine Execution.invariant_past (fun _ => Wakeable) ?_ ?_ run
  · intro past s label t before wakeable h
    exact wakeable.step (counted_run before) h
  · exact ⟨fun _ member => absurd member List.not_mem_nil, fun _ member => absurd member List.not_mem_nil⟩

theorem notify_step (counted : Counted s) {k : Nat} {call : Call} (located : s.calls[k]? = some call)
    {error : Option DeviceError} (last : call.phase = .lastOut error) :
    step memory s (.advance k) = some ⟨{ s.state with notifications := s.state.notifications + 1 },
      s.calls.set k ⟨call.range, .finished error⟩, s.waiters⟩ := by
  obtain ⟨others, before, after⟩ := outstanding_set located
  have fits := counted.2
  rw [before, last] at fits
  simp only [step, located, last, advance, Option.bind_some, System.bounded]
  rw [if_pos]
  rw [after]
  exact fits

/-- A task that waits in `wait_for_drain` and is not notified waits for a lease or an attempt that is still counted, or
for a call that has taken the counter to zero and whose next step notifies the task. -/
theorem drain_awaits_wakeup {labels : List Label} (run : exec (step memory) initial labels = some s) {i seen : Nat}
    (waiting : s.waiters[i]? = some (.waiting seen)) (unnotified : ¬seen < s.state.notifications) :
    0 < s.state.active ∨
    ∃ k call error t, s.calls[k]? = some call ∧ call.phase = .lastOut error ∧
      step memory s (.advance k) = some t ∧ t.waiters[i]? = some (.waiting seen) ∧ seen < t.state.notifications := by
  rcases (wakeable_run run).waiting seen (List.mem_of_getElem? waiting) with told | ⟨same, active | leaving⟩
  · exact absurd told unnotified
  · exact .inl active
  · obtain ⟨call, member, error, last⟩ := leaving
    obtain ⟨k, located⟩ := List.mem_iff_getElem?.mp member
    refine .inr ⟨k, call, error, _, located, last, notify_step (counted_run run) located last, waiting, ?_⟩
    exact Nat.lt_succ_of_le (Nat.le_of_eq same)

-- The last lease is dropped while a task waits, and the drop has not notified yet.
theorem drain_awaits_wakeup_dropped :
    let memory := DmaMemory.single ⟨0x1000, 0, 40⟩ (by decide)
    ∃ s, exec (step memory) initial [.lease ⟨0x1000, 4⟩, .advance 0, .advance 0, .advance 0, .advance 0, .waitForDrain,
        .resume 0, .resume 0, .revoke, .advance 0] = some s ∧
      s.waiters[0]? = some (.waiting 0) ∧ s.state.active = 0 ∧ s.state.notifications = 0 ∧
      ∃ k t, step memory s (.advance k) = some t ∧ 0 < t.state.notifications := by
  intro memory
  have run : exec (step memory) initial [.lease ⟨0x1000, 4⟩, .advance 0, .advance 0, .advance 0, .advance 0,
      .waitForDrain, .resume 0, .resume 0, .revoke, .advance 0] = some
      ⟨⟨true, 0, 0⟩, [⟨⟨0x1000, 4⟩, .lastOut none⟩], [.waiting 0]⟩ := by rfl
  refine ⟨_, run, rfl, rfl, rfl, ?_⟩
  rcases drain_awaits_wakeup run (i := 0) rfl (Nat.lt_irrefl 0) with active | ⟨k, call, error, t, -, -, stepped, -, told⟩
  · exact absurd active (Nat.lt_irrefl 0)
  · exact ⟨k, t, stepped, told⟩

def Waiter.remaining : Waiter → Nat
  | .waiting _ => 3
  | .looping => 2
  | .created _ => 1
  | .drained => 0

theorem resume_remaining {waiter : Waiter} {state : LeaseState} (idle : state.active = 0)
    (told : ∀ seen, waiter = .waiting seen → seen < state.notifications) {n : Nat} (more : waiter.remaining = n + 1) :
    ∃ next, waiter.resume state = some next ∧ next.remaining = n ∧ ∀ seen, next ≠ .waiting seen := by
  cases waiter with
  | waiting seen =>
      cases more
      exact ⟨.looping, if_pos (told seen rfl), rfl, fun _ same => by cases same⟩
  | looping =>
      cases more
      exact ⟨.created state.notifications, rfl, rfl, fun _ same => by cases same⟩
  | created seen =>
      cases more
      refine ⟨.drained, ?_, rfl, fun _ same => by cases same⟩
      rw [Waiter.resume, if_pos idle]
  | drained => cases more

theorem waiter_returns {i : Nat} {waiter : Waiter} (idle : s.state.active = 0) (located : s.waiters[i]? = some waiter)
    (told : ∀ seen, waiter = .waiting seen → seen < s.state.notifications) :
    ∃ t, exec (step memory) s (List.replicate waiter.remaining (.resume i)) = some t ∧
      t.waiters[i]? = some .drained := by
  generalize remaining : waiter.remaining = n
  induction n generalizing s waiter with
  | zero =>
      cases waiter with
      | drained => exact ⟨s, rfl, located⟩
      | waiting | looping | created => cases remaining
  | succ n ih =>
      obtain ⟨next, resumes, fewer, moved⟩ := resume_remaining idle told remaining
      obtain ⟨bound, -⟩ := List.getElem?_eq_some_iff.mp located
      have stepped : step memory s (.resume i) = some { s with waiters := s.waiters.set i next } := by
        simp only [step, located, resumes, Option.bind_some, Option.map_some]
      have replaced : (s.waiters.set i next)[i]? = some next := List.getElem?_set_self bound
      obtain ⟨t, rest, drained⟩ := @ih { s with waiters := s.waiters.set i next } next idle replaced
        (fun seen same => absurd same (moved seen)) fewer
      exact ⟨t, Execution.exec_cons_eq_some.mpr ⟨_, stepped, rest⟩, drained⟩

theorem active_of_finished (counted : Counted s) (ended : ∀ call ∈ s.calls, ∃ error, call.phase = .finished error) :
    s.state.active = 0 := by
  have weightless : s.liveLeases = 0 ∧ s.attempts = 0 := by
    constructor
    all_goals
      refine List.countP_eq_zero.mpr fun call member => ?_
      obtain ⟨error, finished⟩ := ended call member
      rw [finished]
      exact Bool.false_ne_true
  have := counted.1
  omega

/-- Once all calls have ended, every task in `wait_for_drain` returns after at most three steps of its own. -/
theorem waiters_return {labels : List Label} (run : exec (step memory) initial labels = some s)
    (ended : ∀ call ∈ s.calls, ∃ error, call.phase = .finished error) {i : Nat} {waiter : Waiter}
    (located : s.waiters[i]? = some waiter) :
    ∃ t, exec (step memory) s (List.replicate waiter.remaining (.resume i)) = some t ∧
      t.waiters[i]? = some .drained := by
  have idle := active_of_finished (counted_run run) ended
  refine waiter_returns idle located ?_
  rintro seen rfl
  rcases (wakeable_run run).waiting seen (List.mem_of_getElem? located) with told | ⟨-, active | leaving⟩
  · exact told
  · omega
  · obtain ⟨call, member, error, last⟩ := leaving
    obtain ⟨_, finished⟩ := ended call member
    cases last.symm.trans finished

end Libvirtio.Revocation
