import Libvirtio.Device.Footprint
import Libvirtio.Library.Execution
import Libvirtio.Queue.Faults

namespace Libvirtio

namespace Abstract

/-- A device takes chains, writes to those it holds, and completes them in any order. -/
structure State where
  guest : GuestMemory
  states : List QueueState
  held : List (Nat × DescriptorChain)
  log : List Event

inductive Action where
  | look
  | take (index : Nat) (chain : DescriptorChain)
  | write (index : Nat) (chain : DescriptorChain)
  | complete (index : Nat) (chain : DescriptorChain) (usedLength : UInt32)
  | announce (notifier : Nat) (interrupt : Interrupt)
  | drop (index : Nat) (chain : DescriptorChain)
  | tear (index : Nat) (chain : DescriptorChain) (usedLength : UInt32)

/-- No chain was lost. -/
def Action.Clean : Action → Prop
  | .drop _ _ | .tear _ _ _ => False
  | _ => True

variable (resources : Resources)

structure Configured (s : State) (index : Nat) (queue : VirtQueue) (state : QueueState) : Prop where
  found : resources.queues[index]? = some queue.layout
  valid : queue.layout.validate s.guest.memory = .ok ()
  known : s.states[index]? = some state

def State.put (s : State) (index : Nat) (next : QueueView) : State :=
  { s with guest := next.guest, states := s.states.set index next.state }

inductive Step : State → Action → State → Prop
  | look {s : State} {guest : GuestMemory} (touched : s.guest.Touched (fun _ => False) guest) :
      Step s .look { s with guest }
  | take {s : State} {index : Nat} {queue : VirtQueue} {state : QueueState} {chain : DescriptorChain} {next : QueueView}
      (configured : Configured resources s index queue state)
      (popped : queue.pop ⟨state, s.guest⟩ = (.ok (some chain), next)) :
      Step s (.take index chain) { s.put index next with held := s.held ++ [(index, chain)] }
  | write {s : State} {index : Nat} {chain : DescriptorChain} {guest : GuestMemory} (holds : (index, chain) ∈ s.held)
      (touched : s.guest.Touched chain.Writable guest) : Step s (.write index chain) { s with guest }
  | complete {s : State} {index : Nat} {queue : VirtQueue} {state : QueueState} {chain : DescriptorChain}
      {usedLength : UInt32} {next : QueueView} {before after : List (Nat × DescriptorChain)}
      (holds : s.held = before ++ (index, chain) :: after) (configured : Configured resources s index queue state)
      (completed : queue.complete chain usedLength ⟨state, s.guest⟩ = (.ok (), next)) :
      Step s (.complete index chain usedLength)
        { s.put index next with held := before ++ after, log := s.log ++ [.completed index chain usedLength] }
  | announce {s : State} (notifier : Nat) (interrupt : Interrupt) :
      Step s (.announce notifier interrupt) { s with log := s.log ++ [.notified notifier interrupt] }
  | drop {s : State} {index : Nat} {chain : DescriptorChain} {before after : List (Nat × DescriptorChain)}
      (holds : s.held = before ++ (index, chain) :: after) :
      Step s (.drop index chain) { s with held := before ++ after }
  | tear {s : State} {index : Nat} {queue : VirtQueue} {state : QueueState} {chain : DescriptorChain}
      {usedLength : UInt32} {e : DeviceError} {next : QueueView} {before after : List (Nat × DescriptorChain)}
      (holds : s.held = before ++ (index, chain) :: after) (configured : Configured resources s index queue state)
      (torn : queue.complete chain usedLength ⟨state, s.guest⟩ = (.error e, next)) :
      Step s (.tear index chain usedLength) { s.put index next with held := before ++ after }

end Abstract

theorem QueueLayout.size_pos_of_validate {layout : QueueLayout} {memory : DmaMemory}
    (valid : layout.validate memory = .ok ()) : 0 < layout.size.toNat := by
  unfold QueueLayout.validate at valid
  split at valid
  · cases valid
  · rename_i sized
    rw [Nat.pos_iff_ne_zero]
    exact fun zero => sized (.inl (UInt16.toNat_inj.mp zero))

namespace Abstract
variable {resources : Resources}

/-- Where a device may write that has the chain in hand: what the chain offers, and the used ring it goes to. -/
def Reach (resources : Resources) (index : Nat) (chain : DescriptorChain) (a : Nat) : Prop :=
  chain.Writable a ∨ ∃ layout, resources.queues[index]? = some layout ∧ layout.Used a

theorem step_touched {s t : State} {action : Action} {allowed : Nat → Prop} (step : Step resources s action t)
    (inside : ∀ index chain, (index, chain) ∈ s.held → ∀ a, Reach resources index chain a → allowed a) :
    s.guest.Touched allowed t.guest := by
  have ring {index : Nat} {queue : VirtQueue} {state : QueueState} {chain : DescriptorChain} {usedLength : UInt32}
      {before after : List (Nat × DescriptorChain)} {result : Except DeviceError Unit} {next : QueueView}
      (holds : s.held = before ++ (index, chain) :: after) (configured : Configured resources s index queue state)
      (run : queue.complete chain usedLength ⟨state, s.guest⟩ = (result, next)) : s.guest.Touched allowed next.guest := by
    have sized := QueueLayout.size_pos_of_validate configured.valid
    have touched := queue.complete_touched sized chain usedLength ⟨state, s.guest⟩
    rw [run] at touched
    refine touched.mono fun a used => ?_
    exact inside index chain (by simp [holds]) a (.inr ⟨queue.layout, configured.found, used⟩)
  cases step with
  | look touched => exact touched.mono fun _ impossible => impossible.elim
  | @take index queue state chain next configured popped =>
      have touched := queue.pop_touched allowed ⟨state, s.guest⟩
      rwa [popped] at touched
  | write holds touched => exact touched.mono fun a writable => inside _ _ holds a (.inl writable)
  | complete holds configured completed => exact ring holds configured completed
  | announce notifier interrupt => exact .refl _ _
  | drop holds => exact .refl _ _
  | tear holds configured torn => exact ring holds configured torn

theorem step_held {s t : State} {action : Action} (step : Step resources s action t) {index : Nat}
    {chain : DescriptorChain} (holds : (index, chain) ∈ t.held) : (index, chain) ∈ s.held ∨ action = .take index chain := by
  cases step with
  | look | write | announce => exact .inl holds
  | take configured popped =>
      rcases List.mem_append.mp holds with old | new
      · exact .inl old
      · cases List.mem_singleton.mp new
        exact .inr rfl
  | complete split | drop split | tear split =>
      left
      rw [split]
      exact List.mem_append.mpr ((List.mem_append.mp holds).imp_right (List.mem_cons_of_mem _))

theorem trace_touched {s t : State} {actions : List Action} (trace : Trace (Step resources) s actions t) :
    s.guest.Touched (fun a => ∃ index chain, ((index, chain) ∈ s.held ∨ .take index chain ∈ actions) ∧
      Reach resources index chain a) t.guest := by
  have both := trace.invariant (fun u => s.guest.Touched (fun a => ∃ index chain, ((index, chain) ∈ s.held ∨
      .take index chain ∈ actions) ∧ Reach resources index chain a) u.guest ∧
    ∀ index chain, (index, chain) ∈ u.held → (index, chain) ∈ s.held ∨ .take index chain ∈ actions) ?_
    ⟨.refl _ _, fun _ _ holds => .inl holds⟩
  · exact both.1
  · rintro u action v ⟨touched, hands⟩ member step
    refine ⟨touched.trans ?_, fun index chain holds => ?_⟩
    · refine step_touched step fun index chain holds a reach => ⟨index, chain, hands index chain holds, reach⟩
    · rcases step_held step holds with old | rfl
      · exact hands index chain old
      · exact .inr member

/-- What every device leaves as it is, or only adds to. -/
structure Framed (s t : State) : Prop where
  memory : t.guest.memory = s.guest.memory
  states : t.states.length = s.states.length
  log : s.log <+: t.log

theorem step_framed {s t : State} {action : Action} (step : Step resources s action t) : Framed s t := by
  have memory := (step_touched step fun _ _ _ _ _ => trivial).memory
  cases step with
  | look | write | drop => exact ⟨memory, rfl, List.prefix_refl _⟩
  | announce => exact ⟨memory, rfl, List.prefix_append _ _⟩
  | take | tear => exact ⟨memory, List.length_set, List.prefix_refl _⟩
  | complete => exact ⟨memory, List.length_set, List.prefix_append _ _⟩

theorem trace_framed {s t : State} {actions : List Action} (trace : Trace (Step resources) s actions t) : Framed s t := by
  refine trace.invariant (Framed s) (fun u action v framed _ step => ?_) ⟨rfl, rfl, List.prefix_refl _⟩
  have next := step_framed step
  exact ⟨next.memory.trans framed.memory, next.states.trans framed.states, framed.log.trans next.log⟩

end Abstract

namespace VirtQueue

/-- What a `pop` that returns `popped` leaves of the queue's indices. -/
def counted (state : QueueState) : Option DescriptorChain → QueueState
  | none => state
  | some _ => { state with lastAvailable := state.lastAvailable + 1 }

theorem pop_counted (queue : VirtQueue) (state : QueueState) :
    Fallible.Triple (fun view => view.state = state) queue.pop (fun popped view => view.state = counted state popped)
      (fun _ view => view.state = state) := by
  have reading : Fallible.Triple (fun view : QueueView => view.state = state) Fallible.read
      (fun _ view => view.state = state) (fun (_ : DeviceError) view => view.state = state) :=
    .read fun _ same => same
  refine (onGuest_state _ state).bind fun index => reading.bind fun view => ?_
  refine .ite (fun _ => .pure fun _ same => same) fun _ => .ite (fun _ => .fail fun _ same => same) fun _ => ?_
  refine (onGuest_state _ state).bind fun head => (onGuest_state _ state).bind fun chain => ?_
  rintro ⟨_, guest⟩ rfl
  rfl

theorem pop_state {queue : VirtQueue} {before next : QueueView} {popped : Option DescriptorChain}
    (run : queue.pop before = (.ok popped, next)) : next.state = counted before.state popped := by
  have counts := queue.pop_counted before.state before rfl
  rwa [run] at counts

theorem pop_state_error {queue : VirtQueue} {before next : QueueView} {e : DeviceError}
    (run : queue.pop before = (.error e, next)) : next.state = before.state := by
  have counts := queue.pop_counted before.state before rfl
  rwa [run] at counts

theorem complete_state {queue : VirtQueue} {before next : QueueView} {chain : DescriptorChain} {usedLength : UInt32}
    (run : queue.complete chain usedLength before = (.ok (), next)) :
    next.state = { before.state with nextUsed := before.state.nextUsed + 1 } := by
  obtain ⟨_, _, here, run⟩ := Fallible.bind_eq_ok.mp run
  cases here
  obtain ⟨_, _, written, run⟩ := Fallible.bind_eq_ok.mp run
  have first := (onGuest_eq_ok written).2
  obtain ⟨_, _, written, run⟩ := Fallible.bind_eq_ok.mp run
  have second := (onGuest_eq_ok written).2
  obtain ⟨_, _, counted, run⟩ := Fallible.bind_eq_ok.mp run
  cases counted
  have third := (onGuest_eq_ok run).2
  simp only [second, first] at third
  exact third

theorem complete_available {queue : VirtQueue} {before next : QueueView} {chain : DescriptorChain} {usedLength : UInt32}
    {result : Except DeviceError Unit} (run : queue.complete chain usedLength before = (result, next)) :
    next.state.lastAvailable = before.state.lastAvailable := by
  have written (access : DmaM Unit) : Fallible.Keeps (fun view : QueueView =>
      view.state.lastAvailable = before.state.lastAvailable) (fun _ => True) (onGuest access) :=
    fun _ same => ⟨same, fun _ _ => trivial⟩
  have keeps : Fallible.Keeps (fun view : QueueView => view.state.lastAvailable = before.state.lastAvailable)
      (fun _ => True) (queue.complete chain usedLength) :=
    .bind .read fun _ _ => .bind (written _) fun _ _ => .bind (written _) fun _ _ =>
      .bind (.update fun _ same => same) fun _ _ => written _
  have kept := (keeps before rfl).1
  rwa [run] at kept

end VirtQueue

namespace Abstract

def heldOn (index : Nat) (held : List (Nat × DescriptorChain)) : List DescriptorChain :=
  held.filterMap fun entry => if entry.1 = index then some entry.2 else none

def completedOn (index : Nat) (log : List Event) : List (UInt16 × UInt32) :=
  log.filterMap fun
    | .completed queue chain usedLength => if queue = index then some (chain.head, usedLength) else none
    | .notified _ _ => none

section
variable {index other : Nat} {chain : DescriptorChain} {before after : List (Nat × DescriptorChain)} {log : List Event}

@[simp] theorem heldOn_append (index : Nat) (first second : List (Nat × DescriptorChain)) :
    heldOn index (first ++ second) = heldOn index first ++ heldOn index second :=
  List.filterMap_append

@[simp] theorem heldOn_cons_self (rest : List (Nat × DescriptorChain)) :
    heldOn index ((index, chain) :: rest) = chain :: heldOn index rest := by
  simp [heldOn]

@[simp] theorem heldOn_cons_other (distinct : other ≠ index) (rest : List (Nat × DescriptorChain)) :
    heldOn index ((other, chain) :: rest) = heldOn index rest := by
  simp [heldOn, distinct]

@[simp] theorem heldOn_nil (index : Nat) : heldOn index [] = [] := rfl

theorem completedOn_self (usedLength : UInt32) : completedOn index (log ++ [.completed index chain usedLength]) =
    completedOn index log ++ [(chain.head, usedLength)] := by
  simp [completedOn]

theorem completedOn_other (distinct : other ≠ index) (usedLength : UInt32) :
    completedOn index (log ++ [.completed other chain usedLength]) = completedOn index log := by
  simp [completedOn, distinct]

theorem completedOn_notified (notifier : Nat) (interrupt : Interrupt) :
    completedOn index (log ++ [.notified notifier interrupt]) = completedOn index log := by
  simp [completedOn]

end

/-- The device counts what it took and what it completed. -/
def Counted (s : State) : Prop :=
  ∀ index state, s.states[index]? = some state →
    state.nextUsed = UInt16.ofNat (completedOn index s.log).length ∧
    state.lastAvailable = UInt16.ofNat ((completedOn index s.log).length + (heldOn index s.held).length)

theorem ofNat_succ (n : Nat) : UInt16.ofNat n + 1 = UInt16.ofNat (n + 1) := by
  apply UInt16.toNat_inj.mp
  simp

variable {resources : Resources} {s t : State}

theorem Counted.put {index : Nat} {state next : QueueState} (counted : Counted s) {held : List (Nat × DescriptorChain)}
    {log : List Event} (guest : GuestMemory) (known : s.states[index]? = some state)
    (same : ∀ other, other ≠ index → completedOn other log = completedOn other s.log ∧
      heldOn other held = heldOn other s.held)
    (used : next.nextUsed = UInt16.ofNat (completedOn index log).length)
    (taken : next.lastAvailable = UInt16.ofNat ((completedOn index log).length + (heldOn index held).length)) :
    Counted ⟨guest, s.states.set index next, held, log⟩ := by
  intro other found located
  by_cases here : other = index
  · subst here
    obtain ⟨bound, -⟩ := List.getElem?_eq_some_iff.mp known
    have set : (s.states.set other next)[other]? = some next := List.getElem?_set_self bound
    obtain rfl := Option.some.inj (set.symm.trans located)
    exact ⟨used, taken⟩
  · obtain ⟨completed, holding⟩ := same other here
    have old : s.states[other]? = some found := (List.getElem?_set_ne (Ne.symm here)).symm.trans located
    have counts := counted other found old
    rw [← completed, ← holding] at counts
    exact counts

theorem step_counted {action : Action} (step : Step resources s action t) (clean : action.Clean) (counted : Counted s) :
    Counted t := by
  cases step with
  | look touched => exact counted
  | write holds touched => exact counted
  | announce notifier interrupt =>
      intro index state known
      have counts := counted index state known
      rwa [← completedOn_notified notifier interrupt] at counts
  | @take index queue state chain next configured popped =>
      obtain ⟨used, taken⟩ := counted index state configured.known
      have moved := VirtQueue.pop_state popped
      refine counted.put next.guest configured.known (fun other distinct => ⟨rfl, ?_⟩) ?_ ?_
      · rw [heldOn_append, heldOn_cons_other (Ne.symm distinct), heldOn_nil, List.append_nil]
      · rw [moved]
        exact used
      · rw [moved, heldOn_append, heldOn_cons_self, heldOn_nil, List.length_append, List.length_singleton]
        simp only [VirtQueue.counted, taken, ofNat_succ, Nat.add_assoc]
        rfl
  | @complete index queue state chain usedLength next before after holds configured completed =>
      obtain ⟨used, taken⟩ := counted index state configured.known
      have moved := VirtQueue.complete_state completed
      refine counted.put next.guest configured.known (fun other distinct => ⟨?_, ?_⟩) ?_ ?_
      · rw [completedOn_other (Ne.symm distinct)]
      · rw [holds, heldOn_append, heldOn_append, heldOn_cons_other (Ne.symm distinct)]
      · rw [moved, completedOn_self, List.length_append, List.length_singleton]
        simp only [used, ofNat_succ]
      · rw [holds, heldOn_append, heldOn_cons_self, List.length_append, List.length_cons] at taken
        rw [moved, completedOn_self, heldOn_append, List.length_append, List.length_append, List.length_singleton]
        simp only [taken]
        congr 1
        omega
  | drop holds => exact clean.elim
  | tear holds configured torn => exact clean.elim

theorem trace_counted {actions : List Action} (trace : Trace (Step resources) s actions t)
    (clean : ∀ action ∈ actions, action.Clean) (counted : Counted s) : Counted t :=
  trace.invariant Counted (fun _ _ _ counted member step => step_counted step (clean _ member) counted) counted

/-- How many chains of the queue the device has taken, as long as it lost none. -/
def tally (index : Nat) (s : State) : Nat := (completedOn index s.log).length + (heldOn index s.held).length

def Action.taken (index : Nat) : Action → Nat
  | .take other _ => if other = index then 1 else 0
  | _ => 0

theorem taken_none {actions : List Action} (index : Nat) (quiet : ∀ i chain, .take i chain ∉ actions) :
    (actions.map (Action.taken index)).sum = 0 := by
  apply List.sum_eq_zero
  intro count member
  obtain ⟨action, listed, rfl⟩ := List.mem_map.mp member
  cases action with
  | take i chain => exact absurd listed (quiet i chain)
  | _ => rfl

theorem put_available {index other : Nat} {state next : QueueState} {n : UInt16} (known : s.states[other]? = some state)
    (moved : next.lastAvailable = state.lastAvailable + n) :
    (s.states.set other next)[index]?.map QueueState.lastAvailable =
      s.states[index]?.map fun state => state.lastAvailable + if other = index then n else 0 := by
  obtain ⟨bound, -⟩ := List.getElem?_eq_some_iff.mp known
  by_cases same : other = index
  · subst same
    rw [List.getElem?_set_self bound, known, Option.map_some, Option.map_some, if_pos rfl, moved]
  · rw [List.getElem?_set_ne same, if_neg same]
    simp

theorem step_available {action : Action} (index : Nat) (step : Step resources s action t) :
    t.states[index]?.map QueueState.lastAvailable =
      s.states[index]?.map fun state => state.lastAvailable + UInt16.ofNat (action.taken index) := by
  have ended {other : Nat} {queue : VirtQueue} {state : QueueState} {chain : DescriptorChain} {usedLength : UInt32}
      {result : Except DeviceError Unit} {next : QueueView} (configured : Configured resources s other queue state)
      (run : queue.complete chain usedLength ⟨state, s.guest⟩ = (result, next)) :
      (s.states.set other next.state)[index]?.map QueueState.lastAvailable =
        s.states[index]?.map fun state => state.lastAvailable + 0 := by
    have kept : next.state.lastAvailable = state.lastAvailable + 0 := by
      rw [VirtQueue.complete_available run, UInt16.add_zero]
    rw [put_available configured.known kept, ite_self]
  cases step with
  | look | write | announce | drop => simp [Action.taken]
  | take configured popped =>
      rw [Action.taken, apply_ite UInt16.ofNat]
      exact put_available configured.known (by rw [VirtQueue.pop_state popped]; rfl)
  | complete _ configured completed => exact ended configured completed
  | tear _ configured torn => exact ended configured torn

/-- The position of the device in an available ring moves with the chains it takes, also in rounds that fail. -/
theorem trace_available {actions : List Action} (index : Nat) (trace : Trace (Step resources) s actions t) :
    t.states[index]?.map QueueState.lastAvailable = s.states[index]?.map fun state =>
      state.lastAvailable + UInt16.ofNat (actions.map (Action.taken index)).sum := by
  induction trace with
  | nil s => simp
  | @cons s u t action rest step _ ih =>
      have first := step_available index step
      rw [ih, List.map_cons, List.sum_cons, UInt16.ofNat_add]
      cases before : s.states[index]? <;> cases after : u.states[index]? <;>
        simp only [before, after, Option.map_some, Option.map_none, Option.some.injEq, reduceCtorEq] at first ⊢
      rw [first, UInt16.add_assoc]

theorem step_tally {action : Action} (index : Nat) (step : Step resources s action t) (clean : action.Clean) :
    tally index t = tally index s + action.taken index := by
  cases step with
  | look | write => rfl
  | announce notifier interrupt =>
      simp only [tally, completedOn_notified]
      rfl
  | @take other =>
      by_cases same : other = index
      · subst same
        simp [tally, Action.taken, State.put, Nat.add_assoc]
      · simp [tally, Action.taken, State.put, same]
  | @complete other _ _ chain usedLength _ before after holds =>
      by_cases same : other = index
      · subst same
        simp only [tally, holds, completedOn_self, heldOn_append, heldOn_cons_self, List.length_append, List.length_cons,
          List.length_nil, Action.taken]
        omega
      · simp [tally, holds, completedOn_other same, heldOn_cons_other same, Action.taken]
  | drop => exact clean.elim
  | tear => exact clean.elim

theorem trace_tally {actions : List Action} (index : Nat) (trace : Trace (Step resources) s actions t)
    (clean : ∀ action ∈ actions, action.Clean) :
    tally index t = tally index s + (actions.map (Action.taken index)).sum := by
  induction trace with
  | nil s => rfl
  | cons step _ ih =>
      obtain ⟨first, later⟩ := List.forall_mem_cons.mp clean
      rw [ih later, step_tally index step first, List.map_cons, List.sum_cons, Nat.add_assoc]

end Abstract

section
variable {α β : Type}

def DeviceView.abstract (view : DeviceView β) (held : List (Nat × DescriptorChain)) : Abstract.State :=
  ⟨view.guest, view.states, held, view.log⟩

/-- The device code does to the queues what `actions` say, and loses a chain only where it fails. -/
structure Realized (resources : Resources) (view : DeviceView β) (held held' : List (Nat × DescriptorChain))
    (outcome : Except Fault α × DeviceView β) (actions : List Abstract.Action) : Prop where
  trace : Trace (Abstract.Step resources) (view.abstract held) actions (outcome.2.abstract held')
  clean : ∀ a, outcome.1 = .ok a → ∀ action ∈ actions, action.Clean

variable {resources : Resources} {view after : DeviceView β} {held : List (Nat × DescriptorChain)} {index : Nat}

theorem queueAt_view (resources : Resources) (index : Nat) (view : DeviceView β) :
    (queueAt resources index view).2 = view := by
  unfold queueAt indexed
  cases resources.queues[index]? with
  | none => rfl
  | some layout => rfl

/-- What an access to a queue can do: it is not made, or it is made on the queue's own state. -/
theorem onQueue_cases (resources : Resources) (index : Nat) (access : VirtQueue → QueueM α) (view : DeviceView β)
    (held : List (Nat × DescriptorChain)) :
    (∃ fault, (queueAt resources index >>= fun queue => onState index (access queue)) view = (.error fault, view)) ∨
      ∃ queue state result next, Abstract.Configured resources (view.abstract held) index queue state ∧
        access queue ⟨state, view.guest⟩ = (result, next) ∧
        (queueAt resources index >>= fun queue => onState index (access queue)) view =
          (result.mapError .error, { view with guest := next.guest, states := view.states.set index next.state }) := by
  rcases located : queueAt resources index view with ⟨fault | queue, other⟩
  · left
    refine ⟨fault, ?_⟩
    rw [Fallible.bind_of_error located, ← queueAt_view resources index view, located]
  · obtain ⟨found, valid, same⟩ := queueAt_eq_ok located
    rw [Fallible.bind_of_ok located, same]
    cases known : view.states[index]? with
    | none =>
        left
        refine ⟨.panic "index out of bounds", ?_⟩
        rw [onState, indexed, known]
    | some state =>
        right
        refine ⟨queue, state, _, _, ⟨found, valid, known⟩, rfl, ?_⟩
        rw [onState, indexed, known]

/-- Either a chain is taken, or nothing happens. -/
theorem pop_realized (held : List (Nat × DescriptorChain)) {result : Except Fault (Option DescriptorChain)}
    (run : pop resources index view = (result, after)) :
    after.backend = view.backend ∧
      ((∃ chain, result = .ok (some chain) ∧ Abstract.Step resources (view.abstract held) (.take index chain)
          (after.abstract (held ++ [(index, chain)]))) ∨
        (∀ chain, result ≠ .ok (some chain)) ∧
          Abstract.Step resources (view.abstract held) .look (after.abstract held)) := by
  rcases onQueue_cases resources index VirtQueue.pop view held with
    ⟨fault, failed⟩ | ⟨queue, state, answer, next, configured, popped, made⟩
  · obtain ⟨rfl, rfl⟩ := Prod.mk.inj (run.symm.trans failed)
    exact ⟨rfl, .inr ⟨fun _ same => (by cases same), .look (.refl _ _)⟩⟩
  · obtain ⟨rfl, rfl⟩ := Prod.mk.inj (run.symm.trans made)
    have touched := queue.pop_touched (fun _ => False) ⟨state, view.guest⟩
    rw [popped] at touched
    have unchanged (same : next.state = state) : view.states.set index next.state = view.states := by
      rw [same]
      exact states_set_known configured.known
    refine ⟨rfl, ?_⟩
    rcases answer with e | popped' | chain
    · right
      refine ⟨fun _ same => (by cases same), ?_⟩
      rw [unchanged (VirtQueue.pop_state_error popped)]
      exact .look touched
    · right
      refine ⟨fun _ same => (by cases same), ?_⟩
      rw [unchanged (VirtQueue.pop_state popped)]
      exact .look touched
    · exact .inl ⟨chain, rfl, .take configured popped⟩

/-- A held chain is completed, or lost. -/
theorem completeQueue_realized (before rest : List (Nat × DescriptorChain)) {chain : DescriptorChain}
    {usedLength : UInt32} {result : Except Fault Unit}
    (run : completeQueue resources index chain usedLength view = (result, after)) :
    after.backend = view.backend ∧ ∃ action,
      Abstract.Step resources (view.abstract (before ++ (index, chain) :: rest)) action (after.abstract (before ++ rest)) ∧
        (result = .ok () → action = .complete index chain usedLength) ∧
        ∀ index chain, action ≠ .take index chain := by
  rw [completeQueue, ← Fallible.bind_assoc] at run
  rcases onQueue_cases resources index (fun queue => queue.complete chain usedLength) view
      (before ++ (index, chain) :: rest) with
    ⟨fault, failed⟩ | ⟨queue, state, answer, next, configured, completed, made⟩
  · rw [Fallible.bind_of_error failed] at run
    cases run
    exact ⟨rfl, .drop index chain, .drop rfl, by simp, by simp⟩
  · cases answer with
    | error e =>
        rw [Fallible.bind_of_error made] at run
        cases run
        exact ⟨rfl, .tear index chain usedLength, .tear rfl configured completed, by simp, by simp⟩
    | ok done =>
        rw [Fallible.bind_of_ok made] at run
        cases run
        exact ⟨rfl, .complete index chain usedLength, .complete rfl configured completed, fun _ => rfl, by simp⟩

/-- It interrupts the guest, or does nothing. -/
def Announcement (announce : DeviceM β Unit) : Prop :=
  ∀ view, (announce view).2 = view ∨ ∃ notifier interrupt, (announce view).2 =
    { view with log := view.log ++ [.notified notifier interrupt] }

theorem notify_announcement (resources : Resources) (index : Nat) (made : Except Fault Interrupt) :
    Announcement (notify resources index made : DeviceM β Unit) := by
  intro view
  unfold notify indexed
  cases resources.interrupts[index]? with
  | none => exact .inl rfl
  | some notifier =>
      cases made with
      | error fault => exact .inl rfl
      | ok interrupt =>
          simp only [Fallible.ofExcept_ok_bind]
          rw [Fallible.bind_of_ok (Fallible.read_apply view)]
          cases answered : notifier view.log interrupt with
          | error e => exact .inl rfl
          | ok done => exact .inr ⟨index, interrupt, rfl⟩

theorem notifyConfigured_announcement (resources : Resources) (index : Nat) (missing vectorReason : String) :
    Announcement (notifyConfigured resources index missing vectorReason : DeviceM β Unit) := by
  intro view
  unfold notifyConfigured
  split
  · exact notify_announcement resources index _ view
  · exact .inl rfl

theorem pure_announcement : Announcement (pure () : DeviceM β Unit) := fun _ => .inl rfl

variable {sound : β → Prop}

/-- Work on a held chain up to its completion. -/
def finish (resources : Resources) (index : Nat) (chain : DescriptorChain) (work : DeviceM β UInt32)
    (announce : DeviceM β Unit) : DeviceM β Bool := do
  let usedLength ← work
  completeQueue resources index chain usedLength
  announce
  pure true

theorem Aside.step {chain : DescriptorChain} (aside : Aside chain.Writable sound view after)
    (holds : (index, chain) ∈ held) :
    Abstract.Step resources (view.abstract held) (.write index chain) (after.abstract held) := by
  unfold DeviceView.abstract
  rw [aside.states, aside.log]
  exact .write holds aside.guest

theorem Announcement.trace {announce : DeviceM β Unit} (announcing : Announcement announce) (resources : Resources)
    (held : List (Nat × DescriptorChain)) (view : DeviceView β) :
    (announce view).2.backend = view.backend ∧ ∃ actions,
      Trace (Abstract.Step resources) (view.abstract held) actions ((announce view).2.abstract held) ∧
      ∀ action ∈ actions, ∃ notifier interrupt, action = .announce notifier interrupt := by
  rcases announcing view with same | ⟨notifier, interrupt, same⟩ <;> rw [same]
  · exact ⟨rfl, [], .nil _, fun _ member => by cases member⟩
  · refine ⟨rfl, [.announce notifier interrupt], .single (.announce notifier interrupt), fun action member => ?_⟩
    exact ⟨notifier, interrupt, List.mem_singleton.mp member⟩

theorem finish_realized {chain : DescriptorChain} {work : DeviceM β UInt32} {announce : DeviceM β Unit}
    (resources : Resources) (index : Nat) (before rest : List (Nat × DescriptorChain)) (holds : sound view.backend)
    (aside : WorksAside chain.Writable sound view (fun _ => True) work) (announcing : Announcement announce) :
    sound (finish resources index chain work announce view).2.backend ∧ ∃ actions,
      Realized resources view (before ++ (index, chain) :: rest) (before ++ rest)
        (finish resources index chain work announce view) actions ∧
      ∀ index chain, .take index chain ∉ actions := by
  obtain ⟨worked, -⟩ := aside view (.here holds)
  have held : (index, chain) ∈ before ++ (index, chain) :: rest := by simp
  rcases run : work view with ⟨fault | usedLength, first⟩ <;> rw [run] at worked
  · rw [finish, Fallible.bind_of_error run]
    refine ⟨worked.backend, [.write index chain, .drop index chain], ⟨?_, fun _ ok => by cases ok⟩, ?_⟩
    · exact .cons (worked.step held) (.single (.drop rfl))
    · simp
  · rcases completed : completeQueue resources index chain usedLength first with ⟨fault | done, second⟩ <;>
      obtain ⟨same, action, stepped, clean, fresh⟩ := completeQueue_realized before rest completed
    · rw [finish, Fallible.bind_of_ok run, Fallible.bind_of_error completed]
      refine ⟨same ▸ worked.backend, [.write index chain, action], ⟨?_, fun _ ok => by cases ok⟩, fun i c => ?_⟩
      · exact .cons (worked.step held) (.single stepped)
      · simpa using (fresh i c).symm
    · obtain rfl := clean rfl
      obtain ⟨kept, actions, trace, shape⟩ := announcing.trace resources (before ++ rest) second
      have quiet : ∀ i c, .take i c ∉ actions := by
        intro i c member
        obtain ⟨_, _, other⟩ := shape _ member
        cases other
      have whole : finish resources index chain work announce view =
          ((announce second).1.map fun _ => true, (announce second).2) := by
        rw [finish, Fallible.bind_of_ok run, Fallible.bind_of_ok completed, Fallible.bind_apply]
        rcases announce second with ⟨fault | done, third⟩ <;> rfl
      rw [whole]
      refine ⟨kept ▸ same ▸ worked.backend, .write index chain :: .complete index chain usedLength :: actions,
        ⟨.cons (worked.step held) (.cons stepped trace), fun _ _ => ?_⟩, fun i c => by simpa using quiet i c⟩
      simp only [List.mem_cons, forall_eq_or_imp]
      refine ⟨trivial, trivial, fun action member => ?_⟩
      obtain ⟨notifier, interrupt, rfl⟩ := shape action member
      trivial

/-- Takes a chain, works on it and completes it. -/
def serve (resources : Resources) (index : Nat) (work : DescriptorChain → DeviceM β UInt32) (announce : DeviceM β Unit) :
    DeviceM β Bool := do
  let popped ← pop resources index
  match popped with
  | none => pure false
  | some chain => finish resources index chain (work chain) announce

end

end Libvirtio
