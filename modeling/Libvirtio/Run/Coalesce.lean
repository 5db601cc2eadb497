import Libvirtio.Library.Execution
import Libvirtio.Library.Notify

namespace Libvirtio.Coalesce

inductive Pc where
  | top
  | created
  | awaiting
  | woken
  | swapping
  | processing
  | draining
  | returned (ok : Bool)
  deriving DecidableEq, Repr

-- A `kick()` sets a flag and then sends a permit; the loop takes the permit and then swaps the flag.
structure State where
  published : Nat → Nat
  kicked : Bool
  wake : Notify
  down : Bool
  pc : Pc
  /-- For every `kick()` that has set the flag and not sent its permit, what was published when it set it. -/
  kicking : List (Nat → Nat)
  /-- The same for every `kick()` that is finished. -/
  finished : List (Nat → Nat)
  /-- What was published when each pass started. -/
  passes : List (Nat → Nat)

def initial : State where
  published _ := 0
  kicked := false
  wake := ⟨false, .absent⟩
  down := false
  pc := .top
  kicking := []
  finished := []
  passes := []

inductive Label where
  | publish (queue : Nat)
  | kickStore
  | kickNotify (position : Nat)
  | stopDown
  | stopWake
  | advance
  | pollWake
  | processed (ok : Bool)
  deriving DecidableEq, Repr

def kickNotify (s : State) (position : Nat) : Option State :=
  match s.kicking[position]? with
  | some snapshot => some { s with
      wake := s.wake.notifyOne
      kicking := s.kicking.eraseIdx position
      finished := s.finished ++ [snapshot] }
  | none => none

def advance (s : State) : Option State :=
  match s.pc with
  | .top => some { s with pc := .created, wake := s.wake.create }
  | .created =>
      if s.down then some { s with pc := .draining, wake := s.wake.drop } else some { s with pc := .awaiting }
  | .woken => if s.down then some { s with pc := .draining } else some { s with pc := .swapping }
  | .swapping =>
      if s.kicked then some { s with kicked := false, pc := .processing, passes := s.passes ++ [s.published] }
      else some { s with pc := .top }
  | .draining => some { s with pc := .returned true }
  | _ => none

def pollWake (s : State) : Option State :=
  match s.pc, s.wake.poll with
  | .awaiting, (true, wake) => some { s with wake, pc := .woken }
  | .awaiting, (false, wake) => some { s with wake }
  | _, _ => none

def processed (s : State) (ok : Bool) : Option State :=
  match s.pc with
  | .processing => some { s with pc := if ok then .top else .returned false }
  | _ => none

def step (s : State) : Label → Option State
  | .publish queue => some { s with published := Function.update s.published queue (s.published queue + 1) }
  | .kickStore => some { s with kicked := true, kicking := s.kicking ++ [s.published] }
  | .kickNotify position => kickNotify s position
  | .stopDown => some { s with down := true }
  | .stopWake => if s.down then some { s with wake := s.wake.notifyWaiters } else none
  | .advance => advance s
  | .pollWake => pollWake s
  | .processed ok => processed s ok

def Label.goesOn : Label → Bool
  | .stopDown | .stopWake | .processed false => false
  | _ => true

def Seen (s : State) (snapshot : Nat → Nat) : Prop :=
  ∀ queue, ∀ entry < snapshot queue, ∃ pass ∈ s.passes, entry < pass queue

def Pc.waits : Pc → Bool
  | .created | .awaiting => true
  | _ => false

def Pc.holdsPermit : Pc → Bool
  | .woken | .swapping => true
  | _ => false

/-- A flag that is set will be found: its permit is stored or on its way, or the loop is about to swap it. -/
structure Inv (s : State) : Prop where
  live : s.down = false
  found : s.kicked = true → s.wake.Armed ∨ s.kicking ≠ [] ∨ s.pc.holdsPermit = true
  taken : ∀ snapshot ∈ s.kicking ++ s.finished, ∀ queue, snapshot queue ≤ s.published queue
  seen : s.kicked = false → ∀ snapshot ∈ s.kicking ++ s.finished, Seen s snapshot
  absent : s.pc.waits = false → s.wake.waiter = .absent

variable {s t : State} {label : Label}

theorem initial_inv : Inv initial where
  live := rfl
  found := fun kicked => by cases kicked
  taken := fun _ member => absurd member List.not_mem_nil
  seen := fun _ _ member => absurd member List.not_mem_nil
  absent := fun _ => rfl

namespace Inv

theorem publish (inv : Inv s) (queue : Nat) :
    Inv { s with published := Function.update s.published queue (s.published queue + 1) } where
  live := inv.live
  found := inv.found
  taken := fun snapshot member other => by
    refine (inv.taken snapshot member other).trans ?_
    simp only [Function.update_apply]
    split
    · rename_i here
      rw [here]
      exact Nat.le_succ _
    · exact Nat.le_refl _
  seen := inv.seen
  absent := inv.absent

theorem kickStore (inv : Inv s) : Inv { s with kicked := true, kicking := s.kicking ++ [s.published] } where
  live := inv.live
  found := fun _ => Or.inr (Or.inl (List.append_ne_nil_of_right_ne_nil _ (List.cons_ne_nil _ _)))
  taken := fun snapshot member queue => by
    rcases List.mem_append.mp member with early | late
    · rcases List.mem_append.mp early with old | new
      · exact inv.taken snapshot (List.mem_append_left _ old) queue
      · rw [List.mem_singleton.mp new]
    · exact inv.taken snapshot (List.mem_append_right _ late) queue
  seen := fun kicked => by cases kicked
  absent := inv.absent

theorem kickNotify (inv : Inv s) {position : Nat} (stepped : kickNotify s position = some t) : Inv t := by
  unfold Coalesce.kickNotify at stepped
  split at stepped
  · rename_i snapshot found
    cases stepped
    have older : ∀ other ∈ s.kicking.eraseIdx position ++ (s.finished ++ [snapshot]),
        other ∈ s.kicking ++ s.finished := by
      intro other member
      rcases List.mem_append.mp member with kicking | later
      · exact List.mem_append_left _ (List.mem_of_mem_eraseIdx kicking)
      · rcases List.mem_append.mp later with finished | new
        · exact List.mem_append_right _ finished
        · rw [List.mem_singleton.mp new]
          exact List.mem_append_left _ (List.mem_of_getElem? found)
    exact {
      live := inv.live
      found := fun _ => Or.inl (Notify.armed_notifyOne s.wake)
      taken := fun other member => inv.taken other (older other member)
      seen := fun kicked other member => inv.seen kicked other (older other member)
      absent := fun idle => by simp only [Notify.notifyOne, inv.absent idle] }
  · cases stepped

/-- Every snapshot is older than a pass that starts now. -/
theorem swap (inv : Inv s) (idle : s.wake.waiter = .absent) :
    Inv { s with kicked := false, pc := .processing, passes := s.passes ++ [s.published] } where
  live := inv.live
  found := fun kicked => by cases kicked
  taken := inv.taken
  seen := fun _ snapshot member queue entry inside => by
    refine ⟨s.published, List.mem_append_right _ (List.mem_singleton_self _), ?_⟩
    exact Nat.lt_of_lt_of_le inside (inv.taken snapshot member queue)
  absent := fun _ => idle

theorem found_elsewhere (inv : Inv s) (elsewhere : s.pc.holdsPermit = false) (kicked : s.kicked = true) :
    s.wake.Armed ∨ s.kicking ≠ [] := by
  rcases inv.found kicked with armed | kicking | holds
  · exact Or.inl armed
  · exact Or.inr kicking
  · rw [elsewhere] at holds
    cases holds

theorem move (inv : Inv s) {pc : Pc} (elsewhere : s.pc.holdsPermit = false)
    (absent : pc.waits = false → s.wake.waiter = .absent) : Inv { s with pc } :=
  { inv with
    found := fun kicked => (inv.found_elsewhere elsewhere kicked).imp_right Or.inl
    absent }

theorem advance (inv : Inv s) (stepped : advance s = some t) : Inv t := by
  unfold Coalesce.advance at stepped
  split at stepped
  · rename_i pc
    cases stepped
    refine { inv with found := fun kicked => ?_, absent := fun idle => by cases idle }
    rcases inv.found_elsewhere (by rw [pc]; rfl) kicked with armed | kicking
    · exact Or.inl (armed.create (inv.absent (by rw [pc]; rfl)))
    · exact Or.inr (Or.inl kicking)
  · rename_i pc
    split at stepped
    · rename_i down
      cases inv.live.symm.trans down
    · cases stepped
      exact inv.move (by rw [pc]; rfl) fun idle => by cases idle
  · rename_i pc
    split at stepped
    · rename_i down
      cases inv.live.symm.trans down
    · cases stepped
      exact { inv with
        found := fun _ => Or.inr (Or.inr rfl)
        absent := fun _ => inv.absent (by rw [pc]; rfl) }
  · rename_i pc
    have absent := inv.absent (by rw [pc]; rfl)
    split at stepped
    · cases stepped
      exact inv.swap absent
    · rename_i clear
      cases stepped
      exact { inv with found := fun kicked => absurd kicked clear, absent := fun _ => absent }
  · rename_i pc
    cases stepped
    exact inv.move (by rw [pc]; rfl) fun _ => inv.absent (by rw [pc]; rfl)
  · cases stepped

theorem pollWake (inv : Inv s) (stepped : pollWake s = some t) : Inv t := by
  unfold Coalesce.pollWake at stepped
  split at stepped
  · rename_i wake pc ready
    cases stepped
    exact { inv with
      found := fun _ => Or.inr (Or.inr rfl)
      absent := fun _ => Notify.poll_waiter ready }
  · rename_i wake pc waits
    cases stepped
    refine { inv with
      found := fun kicked => (inv.found kicked).imp_left fun armed => armed.poll waits
      absent := fun idle => ?_ }
    simp only [pc] at idle
    cases idle
  · cases stepped

theorem processed (inv : Inv s) (stepped : processed s true = some t) : Inv t := by
  unfold Coalesce.processed at stepped
  split at stepped
  · rename_i pc
    cases stepped
    exact inv.move (by rw [pc]; rfl) fun _ => inv.absent (by rw [pc]; rfl)
  · cases stepped

theorem step (inv : Inv s) (going : label.goesOn = true) (stepped : step s label = some t) : Inv t := by
  cases label with
  | publish queue =>
      cases stepped
      exact inv.publish queue
  | kickStore =>
      cases stepped
      exact inv.kickStore
  | kickNotify position => exact inv.kickNotify stepped
  | stopDown | stopWake => cases going
  | advance => exact inv.advance stepped
  | pollWake => exact inv.pollWake stepped
  | processed ok =>
      cases ok with
      | true => exact inv.processed stepped
      | false => cases going

end Inv

theorem run_inv {labels : List Label} (run : exec step initial labels = some s)
    (going : ∀ label ∈ labels, label.goesOn = true) : Inv s :=
  Execution.invariant_along Inv (fun _ _ _ inv going stepped => inv.step going stepped) initial_inv
    (Execution.Along.of_forall going initial) run

/-- When the loop is parked without a permit and no `kick()` is half done, the flag is clear, and what was published
before a finished `kick()` was there when some pass over the queues started. -/
theorem no_lost_kick {labels : List Label} (run : exec step initial labels = some s)
    (going : ∀ label ∈ labels, label.goesOn = true) (parked : s.pc = .awaiting ∧ s.wake.waiter = .waiting)
    (permit : s.wake.permit = false) (settled : s.kicking = []) :
    s.kicked = false ∧ ∀ snapshot ∈ s.finished, Seen s snapshot := by
  have inv := run_inv run going
  have clear : s.kicked = false := by
    by_contra set
    rcases inv.found_elsewhere (by rw [parked.1]; rfl) (Bool.not_eq_false _ ▸ set) with armed | kicking
    · exact Notify.not_armed permit parked.2 armed
    · exact kicking settled
  refine ⟨clear, fun snapshot member => ?_⟩
  exact inv.seen clear snapshot (List.mem_append_right _ member)

-- The second `kick()` sets the flag before the loop swaps it and sends its permit after. The loop wakes up for nothing.
def absorbed : List Label :=
  [.publish 0, .kickStore, .kickNotify 0, .advance, .advance, .pollWake, .publish 1, .kickStore, .advance, .advance,
    .processed true, .kickNotify 0, .advance, .advance, .pollWake, .advance, .advance, .advance, .advance, .pollWake]

theorem no_lost_kick_absorbed :
    ∃ s, exec step initial absorbed = some s ∧ s.finished.length = 2 ∧ s.passes.length = 1 ∧ s.kicked = false ∧
      ∀ snapshot ∈ s.finished, Seen s snapshot := by
  have ends : (exec step initial absorbed).map
      (fun s => (s.pc, s.wake, s.kicking.length, s.finished.length, s.passes.length)) =
      some (.awaiting, ⟨false, .waiting⟩, 0, 2, 1) := by decide +kernel
  obtain ⟨s, run, facts⟩ := Option.map_eq_some_iff.mp ends
  simp only [Prod.mk.injEq] at facts
  obtain ⟨pc, wake, kicking, finished, passes⟩ := facts
  have settled := no_lost_kick run (by decide) ⟨pc, by rw [wake]⟩ (by rw [wake]) (List.eq_nil_of_length_eq_zero kicking)
  exact ⟨s, run, finished, passes, settled⟩

end Libvirtio.Coalesce
