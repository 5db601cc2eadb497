import Mathlib.Tactic.Ring

/-- The future of one task that waits for a notification. A `notify_waiters` completes every future that exists,
polled or not; a `notify_one` only one that waits. -/
inductive Waiter where
  | absent
  | created (called : Bool)
  | waiting
  | notified (one : Bool)
  deriving DecidableEq, Repr

structure Notify where
  permit : Bool
  waiter : Waiter
  deriving DecidableEq, Repr

namespace Notify

def notifyOne (cell : Notify) : Notify :=
  match cell.waiter with
  | .waiting => { cell with waiter := .notified true }
  | _ => { cell with permit := true }

def notifyWaiters (cell : Notify) : Notify :=
  match cell.waiter with
  | .created _ => { cell with waiter := .created true }
  | .waiting => { cell with waiter := .notified false }
  | _ => cell

def create (cell : Notify) : Notify := { cell with waiter := .created false }

def poll (cell : Notify) : Bool × Notify :=
  match cell.waiter with
  | .created called =>
      if cell.permit then (true, ⟨false, .absent⟩)
      else if called then (true, ⟨false, .absent⟩)
      else (false, ⟨false, .waiting⟩)
  | .notified _ => (true, { cell with waiter := .absent })
  | .waiting | .absent => (false, cell)

/-- A future that was notified alone and is dropped before it was polled passes the notification on. -/
def drop (cell : Notify) : Notify :=
  match cell.waiter with
  | .notified true => ⟨true, .absent⟩
  | _ => { cell with waiter := .absent }

def Armed (cell : Notify) : Prop := cell.permit = true ∨ cell.waiter = .notified true

theorem armed_notifyOne (cell : Notify) : cell.notifyOne.Armed := by
  unfold notifyOne
  split
  · exact Or.inr rfl
  · exact Or.inl rfl

theorem drop_waiter (cell : Notify) : cell.drop.waiter = .absent := by
  unfold drop
  split <;> rfl

theorem poll_waiter {cell next : Notify} (ready : cell.poll = (true, next)) : next.waiter = .absent := by
  unfold poll at ready
  split at ready
  · split at ready
    · cases ready
      rfl
    · split at ready
      · cases ready
        rfl
      · cases ready
  all_goals
    cases ready
    try rfl

theorem Armed.create {cell : Notify} (absent : cell.waiter = .absent) (armed : cell.Armed) : cell.create.Armed := by
  rcases armed with permit | notified
  · exact Or.inl permit
  · rw [absent] at notified
    cases notified

theorem Armed.poll {cell next : Notify} (armed : cell.Armed) (waits : cell.poll = (false, next)) : next.Armed := by
  unfold Notify.poll at waits
  rcases armed with permit | notified
  · split at waits
    · rw [if_pos permit] at waits
      cases waits
    all_goals
      cases waits
      try exact Or.inl permit
  · rw [notified] at waits
    cases waits

theorem not_armed {cell : Notify} (permit : cell.permit = false) (waiting : cell.waiter = .waiting) : ¬cell.Armed := by
  rintro (stored | notified)
  · rw [permit] at stored
    cases stored
  · rw [waiting] at notified
    cases notified

/-- How often the task can be woken before it is notified again. -/
def calls (cell : Notify) : Nat :=
  cell.permit.toNat + match cell.waiter with
    | .notified _ | .created true => 1
    | _ => 0

theorem forall_iff {P : Notify → Prop} : (∀ permit called one, P ⟨permit, .absent⟩ ∧ P ⟨permit, .created called⟩ ∧
    P ⟨permit, .waiting⟩ ∧ P ⟨permit, .notified one⟩) ↔ ∀ cell, P cell := by
  constructor
  · rintro all ⟨permit, waiter⟩
    cases waiter with
    | absent => exact (all permit true true).1
    | created called => exact (all permit called true).2.1
    | waiting => exact (all permit true true).2.2.1
    | notified one => exact (all permit true one).2.2.2
  · exact fun all permit called one => ⟨all _, all _, all _, all _⟩

-- What holds of every cell is decided on the twelve that there are.
instance {P : Notify → Prop} [DecidablePred P] : Decidable (∀ cell, P cell) := decidable_of_iff _ forall_iff

theorem calls_le : ∀ cell : Notify, cell.calls ≤ 2 := by decide

theorem calls_notifyOne : ∀ cell : Notify, cell.notifyOne.calls ≤ cell.calls + 1 := by decide

theorem calls_notifyWaiters : ∀ cell : Notify, cell.notifyWaiters.calls ≤ cell.calls + 1 := by decide

theorem calls_create : ∀ cell : Notify, cell.create.calls ≤ cell.calls := by decide

theorem calls_drop : ∀ cell : Notify, cell.drop.calls ≤ cell.calls := by decide

theorem calls_poll : ∀ cell : Notify, cell.poll.2.calls + cell.poll.1.toNat ≤ cell.calls := by decide

theorem ready_notifyOne : ∀ cell : Notify, cell.poll.1 = true → cell.notifyOne.poll.1 = true := by decide

theorem ready_notifyWaiters : ∀ cell : Notify, cell.waiter ≠ .absent → cell.notifyWaiters.poll.1 = true := by decide

theorem ready_again : ∀ cell : Notify, cell.poll.1 = true → cell.notifyWaiters.poll.1 = true := by decide

theorem present_notifyOne : ∀ cell : Notify, cell.waiter ≠ .absent → cell.notifyOne.waiter ≠ .absent := by decide

theorem present_notifyWaiters : ∀ cell : Notify, cell.waiter ≠ .absent → cell.notifyWaiters.waiter ≠ .absent := by decide

theorem present_poll : ∀ cell : Notify, cell.waiter ≠ .absent → cell.poll.1 = false →
    cell.poll.2.waiter ≠ .absent := by decide

end Notify
