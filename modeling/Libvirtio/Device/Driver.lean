import Libvirtio.Device.Announce
import Libvirtio.Device.Isolation
import Libvirtio.Queue.Contract

namespace Libvirtio

namespace Abstract

/-- The queue as the contract sees it, with the chains the device holds and those it completed. -/
structure Coupled (index : Nat) (s : State) (c : Contract.System) : Prop where
  guest : c.view.guest = s.guest
  state : s.states[index]? = some c.view.state
  outstanding : c.outstanding = heldOn index s.held
  completed : c.completed = completedOn index s.log

def InRings (layout : QueueLayout) (a : Nat) : Prop := layout.available.Contains a ∨ layout.used.Contains a

variable {resources : Resources} {index : Nat} {queue : VirtQueue}

theorem elsewhere_touched {c : Contract.System} {guest : GuestMemory} {allowed : Nat → Prop}
    (live : c.view.guest.leasesLeft = none) (touched : c.view.guest.Touched allowed guest)
    (off : ∀ a, allowed a → ¬InRings queue.layout a) :
    Contract.step queue c (.elsewhere guest.host) = some { c with view := { c.view with guest } } := by
  have available : Store.read guest.flat queue.layout.available.gpa queue.layout.available.length =
      Store.read c.view.guest.flat queue.layout.available.gpa queue.layout.available.length :=
    touched.read_eq fun b low high inside => off b inside (.inl ⟨low, high⟩)
  have used : Store.read guest.flat queue.layout.used.gpa queue.layout.used.length =
      Store.read c.view.guest.flat queue.layout.used.gpa queue.layout.used.length :=
    touched.read_eq fun b low high inside => off b inside (.inr ⟨low, high⟩)
  simp only [Contract.step, Contract.elsewhere, touched.with_host live]
  rw [if_pos ⟨available, used⟩]

/-- What the driver of the queue does not notice. -/
structure Unseen (c d : Contract.System) : Prop where
  published : d.published = c.published
  reaped : d.reaped = c.reaped

theorem Coupled.elsewhere {s : State} {c : Contract.System} (coupled : Coupled index s c) (inv : Contract.Inv queue c)
    (apart : Contract.RingsApart queue) {guest : GuestMemory} {allowed : Nat → Prop}
    (touched : s.guest.Touched allowed guest) (off : ∀ a, allowed a → ¬InRings queue.layout a) :
    ∃ d, Contract.Inv queue d ∧ d.view.guest = guest ∧ d.view.state = c.view.state ∧ d.outstanding = c.outstanding ∧
      d.completed = c.completed ∧ Unseen c d := by
  rw [← coupled.guest] at touched
  refine ⟨_, inv.step apart (elsewhere_touched inv.ready.live touched off), ?_⟩
  exact ⟨rfl, rfl, rfl, rfl, rfl, rfl⟩

theorem Configured.same {s : State} {c : Contract.System} {other : VirtQueue} {state : QueueState}
    (configured : Configured resources s index other state) (found : resources.queues[index]? = some queue.layout)
    (coupled : Coupled index s c) : other = queue ∧ (⟨state, s.guest⟩ : QueueView) = c.view := by
  have layouts := Option.some.inj (configured.found.symm.trans found)
  have states := Option.some.inj (configured.known.symm.trans coupled.state)
  cases other
  cases queue
  simp only at layouts
  rw [layouts, states, ← coupled.guest]
  exact ⟨rfl, rfl⟩

theorem Coupled.set_self {s : State} {c : Contract.System} (coupled : Coupled index s c) (next : QueueState) :
    (s.states.set index next)[index]? = some next := by
  obtain ⟨bound, -⟩ := List.getElem?_eq_some_iff.mp coupled.state
  exact List.getElem?_set_self bound

theorem step_coupled {s t : State} {c : Contract.System} {action : Action} (step : Step resources s action t)
    (clean : action.Clean) (coupled : Coupled index s c) (inv : Contract.Inv queue c)
    (apart : Contract.RingsApart queue) (found : resources.queues[index]? = some queue.layout)
    (off : ∀ i chain, (i, chain) ∈ s.held → ∀ a, chain.Writable a → ¬InRings queue.layout a)
    (others : ∀ i layout, i ≠ index → resources.queues[i]? = some layout →
      ∀ a, layout.Used a → ¬InRings queue.layout a) :
    ∃ d, Contract.Inv queue d ∧ Coupled index t d ∧ Unseen c d := by
  have live : s.guest.leasesLeft = none := coupled.guest ▸ inv.ready.live
  cases step with
  | look touched =>
      have same := touched.eq_of_live live
      exact ⟨c, inv, ⟨coupled.guest.trans same.symm, coupled.state, coupled.outstanding, coupled.completed⟩, rfl, rfl⟩
  | write holds touched =>
      obtain ⟨d, kept, guest, state, outstanding, completed, unseen⟩ :=
        coupled.elsewhere inv apart touched (off _ _ holds)
      exact ⟨d, kept, ⟨guest, state ▸ coupled.state, outstanding.trans coupled.outstanding,
        completed.trans coupled.completed⟩, unseen⟩
  | announce notifier interrupt =>
      refine ⟨c, inv, ⟨coupled.guest, coupled.state, coupled.outstanding, ?_⟩, rfl, rfl⟩
      rw [completedOn_notified]
      exact coupled.completed
  | @take i other state chain next configured popped =>
      by_cases same : i = index
      · subst same
        obtain ⟨rfl, view⟩ := configured.same found coupled
        rw [view] at popped
        have kept := inv.pop_step
        rw [Contract.pop, popped] at kept
        refine ⟨_, kept, ⟨rfl, coupled.set_self _, ?_, coupled.completed⟩, rfl, rfl⟩
        rw [heldOn_append, heldOn_cons_self, heldOn_nil, coupled.outstanding]
      · have touched := other.pop_touched (fun _ => False) ⟨state, s.guest⟩
        rw [popped] at touched
        have guest : next.guest = s.guest := touched.eq_of_live live
        refine ⟨c, inv, ⟨coupled.guest.trans guest.symm, ?_, ?_, coupled.completed⟩, rfl, rfl⟩
        · exact (List.getElem?_set_ne same).trans coupled.state
        · rw [heldOn_append, heldOn_cons_other same, heldOn_nil, List.append_nil, coupled.outstanding]
  | @complete i other state chain usedLength next before after holds configured completed =>
      by_cases same : i = index
      · subst same
        obtain ⟨rfl, view⟩ := configured.same found coupled
        rw [view] at completed
        have outstanding : c.outstanding = heldOn i before ++ chain :: heldOn i after := by
          rw [coupled.outstanding, holds, heldOn_append, heldOn_cons_self]
        have listed : c.outstanding[(heldOn i before).length]? = some chain := by
          rw [outstanding, List.getElem?_append_right (Nat.le_refl _), Nat.sub_self]
          rfl
        have kept := inv.complete_step apart (show Contract.complete other c (heldOn i before).length usedLength = some _ by
          rw [Contract.complete, listed, Option.map_some, completed])
        refine ⟨_, kept, ⟨rfl, coupled.set_self _, ?_, ?_⟩, rfl, rfl⟩
        · rw [outstanding, List.eraseIdx_append_of_length_le (Nat.le_refl _), Nat.sub_self, heldOn_append]
          rfl
        · rw [completedOn_self, coupled.completed]
      · have touched := other.complete_touched (QueueLayout.size_pos_of_validate configured.valid) chain usedLength
          ⟨state, s.guest⟩
        rw [completed] at touched
        obtain ⟨d, kept, guest, view, outstanding, done, unseen⟩ :=
          coupled.elsewhere inv apart touched (others i _ same configured.found)
        refine ⟨d, kept, ⟨guest, ?_, ?_, ?_⟩, unseen⟩
        · rw [view]
          exact (List.getElem?_set_ne same).trans coupled.state
        · rw [outstanding, coupled.outstanding, holds, heldOn_append, heldOn_cons_other same, heldOn_append]
        · rw [completedOn_other same, done, coupled.completed]
  | drop holds => exact clean.elim
  | tear holds configured torn => exact clean.elim

theorem trace_coupled {s t : State} {c : Contract.System} {actions : List Action}
    (trace : Trace (Step resources) s actions t) (clean : ∀ action ∈ actions, action.Clean) (coupled : Coupled index s c)
    (inv : Contract.Inv queue c) (apart : Contract.RingsApart queue)
    (found : resources.queues[index]? = some queue.layout)
    (off : ∀ i chain, (i, chain) ∈ s.held ∨ .take i chain ∈ actions →
      ∀ a, chain.Writable a → ¬InRings queue.layout a)
    (others : ∀ i layout, i ≠ index → resources.queues[i]? = some layout →
      ∀ a, layout.Used a → ¬InRings queue.layout a) :
    ∃ d, Contract.Inv queue d ∧ Coupled index t d ∧ Unseen c d := by
  induction trace generalizing c with
  | nil s => exact ⟨c, inv, coupled, rfl, rfl⟩
  | @cons s u t action rest step tail ih =>
      obtain ⟨first, later⟩ := List.forall_mem_cons.mp clean
      obtain ⟨d, kept, next, unseen⟩ :=
        step_coupled step first coupled inv apart found (fun i chain holds => off i chain (.inl holds)) others
      have still : ∀ i chain, (i, chain) ∈ u.held ∨ .take i chain ∈ rest →
          ∀ a, chain.Writable a → ¬InRings queue.layout a := by
        rintro i chain (holds | taken)
        · rcases step_held step holds with old | rfl
          · exact off i chain (.inl old)
          · exact off i chain (.inr List.mem_cons_self)
        · exact off i chain (.inr (List.mem_cons_of_mem _ taken))
      obtain ⟨e, kept', last, unseen'⟩ := ih later next kept still
      exact ⟨e, kept', last, unseen'.published.trans unseen.published, unseen'.reaped.trans unseen.reaped⟩

end Abstract

namespace Driver

structure State (machine : Machine) where
  view : DeviceView machine.State
  published : List UInt16
  reaped : List (UInt32 × UInt32)

inductive Label (machine : Machine) where
  | publish (head : UInt16)
  | reap
  | elsewhere (host : Nat → UInt8)
  | round (port : machine.Port)

variable {machine : Machine}

/-- What the driver works on. Nothing it does depends on the lists that are empty here. -/
def State.system (s : State machine) (index : Nat) : Contract.System where
  view := ⟨(s.view.states[index]?).getD .new, s.view.guest⟩
  published := s.published
  popped := []
  outstanding := []
  completed := []
  reaped := s.reaped

def State.after (s : State machine) (t : Contract.System) : State machine where
  view := { s.view with guest := t.view.guest }
  published := t.published
  reaped := t.reaped

def step (queue : VirtQueue) (index : Nat) (s : State machine) : Label machine → Option (State machine)
  | .publish head => (Contract.publish queue (s.system index) head).map s.after
  | .reap => (Contract.reap queue (s.system index)).map s.after
  | .elsewhere host => (Contract.elsewhere queue (s.system index) host).map s.after
  | .round port => some { s with view := (machine.round port s.view).2 }

/-- The driver's part of `t` with the device's part of `c`. -/
def carry (c t : Contract.System) : Contract.System :=
  { t with popped := c.popped, outstanding := c.outstanding, completed := c.completed }

theorem publish_carry (queue : VirtQueue) (c s : Contract.System) (head : UInt16) :
    Contract.publish queue (carry c s) head = (Contract.publish queue s head).map (carry c) := by
  unfold Contract.publish
  rw [apply_ite (Option.map (carry c))]
  rfl

theorem reap_carry (queue : VirtQueue) (c s : Contract.System) :
    Contract.reap queue (carry c s) = (Contract.reap queue s).map (carry c) := by
  unfold Contract.reap
  simp only [carry, Option.bind_eq_bind, Option.map_bind]
  congr 1
  funext index
  simp only [Function.comp_apply, apply_ite (Option.map (carry c)), Option.map_none, Option.map_bind]
  rfl

theorem elsewhere_carry (queue : VirtQueue) (c s : Contract.System) (host : Nat → UInt8) :
    Contract.elsewhere queue (carry c s) host = (Contract.elsewhere queue s host).map (carry c) := by
  unfold Contract.elsewhere
  simp only [apply_ite (Option.map (carry c))]
  rfl

theorem publish_state {queue : VirtQueue} {s t : Contract.System} {head : UInt16}
    (run : Contract.publish queue s head = some t) : t.view.state = s.view.state := by
  unfold Contract.publish at run
  split at run
  · cases run
    rfl
  · cases run

theorem reap_view {queue : VirtQueue} {s t : Contract.System} (run : Contract.reap queue s = some t) :
    t.view = s.view := by
  obtain ⟨index, -, run⟩ := Option.bind_eq_some_iff.mp run
  split at run
  · cases run
  · obtain ⟨element, -, run⟩ := Option.bind_eq_some_iff.mp run
    cases run
    rfl

theorem elsewhere_state {queue : VirtQueue} {s t : Contract.System} {host : Nat → UInt8}
    (run : Contract.elsewhere queue s host = some t) : t.view.state = s.view.state := by
  simp only [Contract.elsewhere] at run
  split at run
  · cases run
    rfl
  · cases run

def Label.adds : Label machine → List UInt16
  | .publish head => [head]
  | _ => []

/-- A step of the driver changes bytes in memory and its own lists. -/
structure Beside (s t : State machine) (added : List UInt16) : Prop where
  memory : t.view.guest.memory = s.view.guest.memory
  leasesLeft : t.view.guest.leasesLeft = s.view.guest.leasesLeft
  view : t.view = { s.view with guest := t.view.guest }
  published : t.published = s.published ++ added

theorem store_frame (guest : GuestMemory) (gpa : Nat) (bytes : List UInt8) :
    (guest.store gpa bytes).memory = guest.memory ∧ (guest.store gpa bytes).leasesLeft = guest.leasesLeft := by
  unfold GuestMemory.store
  split <;> exact ⟨rfl, rfl⟩

variable {tracked : Tracked} {queue : VirtQueue} {index : Nat}

theorem step_beside {s t : State machine} {label : Label machine} (driver : ∀ port, label ≠ .round port)
    (stepped : step queue index s label = some t) : Beside s t label.adds := by
  cases label with
  | publish head =>
      obtain ⟨d, published, rfl⟩ := Option.map_eq_some_iff.mp stepped
      unfold Contract.publish at published
      split at published
      · cases published
        have first := store_frame s.view.guest
        have second := store_frame
        exact ⟨(second _ _ _).1.trans (first _ _).1, (second _ _ _).2.trans (first _ _).2, rfl, rfl⟩
      · cases published
  | reap =>
      obtain ⟨d, reaped, rfl⟩ := Option.map_eq_some_iff.mp stepped
      obtain ⟨position, -, reaped⟩ := Option.bind_eq_some_iff.mp reaped
      split at reaped
      · cases reaped
      · obtain ⟨element, -, reaped⟩ := Option.bind_eq_some_iff.mp reaped
        cases reaped
        exact ⟨rfl, rfl, rfl, (List.append_nil _).symm⟩
  | elsewhere host =>
      obtain ⟨d, moved, rfl⟩ := Option.map_eq_some_iff.mp stepped
      simp only [Contract.elsewhere] at moved
      split at moved
      · cases moved
        exact ⟨rfl, rfl, rfl, (List.append_nil _).symm⟩
      · cases moved
  | round port => exact absurd rfl (driver port)

/-- The whole device and the driver's lists, as one state of the contract. -/
structure Coupled (tracked : Tracked) (queue : VirtQueue) (index : Nat) (s : State tracked.machine) (c : Contract.System) :
    Prop where
  device : Abstract.Coupled index (s.view.abstract (tracked.held s.view.backend)) c
  inv : Contract.Inv queue c
  published : c.published = s.published
  reaped : c.reaped = s.reaped
  lawful : tracked.lawful s.view.backend

/-- The round succeeds, and no chain it has in hand offers the rings for writing. -/
def Orderly (tracked : Tracked) (queue : VirtQueue) (s : State tracked.machine) : Label tracked.machine → Prop
  | .round port => (tracked.machine.round port s.view).1 = .ok () ∧
      ∀ i chain, tracked.InHand s.view i chain → ∀ a, chain.Writable a → ¬Abstract.InRings queue.layout a
  | _ => True

namespace Coupled
variable {s t : State tracked.machine} {c : Contract.System}

theorem carried (coupled : Coupled tracked queue index s c) : carry c (s.system index) = c := by
  have state : s.view.states[index]? = some c.view.state := coupled.device.state
  have guest : s.view.guest = c.view.guest := coupled.device.guest.symm
  unfold carry State.system
  rw [state, guest, ← coupled.published, ← coupled.reaped]
  rfl

theorem driver {d : Contract.System} (coupled : Coupled tracked queue index s c)
    (inv : Contract.Inv queue (carry c d)) (state : d.view.state = (s.system index).view.state) :
    Coupled tracked queue index (s.after d) (carry c d) where
  device := {
    guest := rfl
    state := by
      have same : d.view.state = c.view.state := by
        rw [state, ← congrArg (fun system => system.view.state) coupled.carried]
        rfl
      rw [show (carry c d).view.state = c.view.state from same]
      exact coupled.device.state
    outstanding := coupled.device.outstanding
    completed := coupled.device.completed }
  inv := inv
  published := rfl
  reaped := rfl
  lawful := coupled.lawful

theorem drive (coupled : Coupled tracked queue index s c) (apart : Contract.RingsApart queue)
    {label : Label tracked.machine} (driver : ∀ port, label ≠ .round port)
    (stepped : Driver.step queue index s label = some t) : ∃ d, Coupled tracked queue index t d := by
  have carried := coupled.carried
  cases label with
  | publish head =>
      obtain ⟨d, published, rfl⟩ := Option.map_eq_some_iff.mp stepped
      have both : Contract.publish queue c head = some (carry c d) := by
        rw [← carried, publish_carry, published]
        rfl
      exact ⟨_, coupled.driver (coupled.inv.publish_step apart both) (publish_state published)⟩
  | reap =>
      obtain ⟨d, reaped, rfl⟩ := Option.map_eq_some_iff.mp stepped
      have both : Contract.reap queue c = some (carry c d) := by
        rw [← carried, reap_carry, reaped]
        rfl
      exact ⟨_, coupled.driver (coupled.inv.reap_step both) (congrArg QueueView.state (reap_view reaped))⟩
  | elsewhere host =>
      obtain ⟨d, moved, rfl⟩ := Option.map_eq_some_iff.mp stepped
      have both : Contract.elsewhere queue c host = some (carry c d) := by
        rw [← carried, elsewhere_carry, moved]
        rfl
      exact ⟨_, coupled.driver (coupled.inv.elsewhere_step both) (elsewhere_state moved)⟩
  | round port => exact absurd rfl (driver port)

theorem step (coupled : Coupled tracked queue index s c) (shipped : tracked.Shipped) (apart : Contract.RingsApart queue)
    (found : tracked.resources.queues[index]? = some queue.layout)
    (others : ∀ i layout, i ≠ index → tracked.resources.queues[i]? = some layout →
      ∀ a, layout.Used a → ¬Abstract.InRings queue.layout a)
    {label : Label tracked.machine} (orderly : Orderly tracked queue s label)
    (stepped : Driver.step queue index s label = some t) : ∃ d, Coupled tracked queue index t d := by
  cases label with
  | publish | reap | elsewhere => exact coupled.drive apart (fun _ => by simp) stepped
  | round port =>
      cases stepped
      obtain ⟨lawful, actions, realized, takes⟩ := shipped.implements port s.view coupled.lawful
      obtain ⟨d, inv, device, unseen⟩ := Abstract.trace_coupled realized.trace (realized.clean () orderly.1)
        coupled.device coupled.inv apart found
        (fun i chain hands => orderly.2 i chain (hands.imp_right takes.pops)) others
      exact ⟨d, device, inv, unseen.published.trans coupled.published, unseen.reaped.trans coupled.reaped, lawful⟩

theorem initial {start : State tracked.machine}
    (none : tracked.held start.view.backend = [] ∧ tracked.lawful start.view.backend)
    (fresh : start.view.log = [] ∧ start.published = [] ∧ start.reaped = [])
    (known : start.view.states[index]? = some .new) (ready : queue.Ready start.view.guest)
    (available : Store.read start.view.guest.flat (queue.layout.available.gpa + 2) 2 = some [0, 0])
    (used : Store.read start.view.guest.flat (queue.layout.used.gpa + 2) 2 = some [0, 0]) :
    Coupled tracked queue index start (Contract.initial start.view.guest) := by
  refine ⟨⟨rfl, known, ?_, ?_⟩, .initial_of ready available used, fresh.2.1.symm, fresh.2.2.symm, none.2⟩
  · change [] = Abstract.heldOn index (tracked.held start.view.backend)
    rw [none.1, Abstract.heldOn_nil]
  · change [] = Abstract.completedOn index start.view.log
    rw [fresh.1]
    rfl

theorem pop_none_iff (coupled : Coupled tracked queue index s c)
    (found : tracked.resources.queues[index]? = some queue.layout) :
    (pop tracked.resources index s.view).1 = .ok none ↔ c.popped.length = c.published.length := by
  have state : s.view.states[index]? = some c.view.state := coupled.device.state
  have guest : c.view.guest = s.view.guest := coupled.device.guest
  have located : queueAt tracked.resources index s.view = (.ok queue, s.view) :=
    queueAt_ready found (guest ▸ coupled.inv.ready)
  have view : (⟨c.view.state, s.view.guest⟩ : QueueView) = c.view := by rw [← guest]
  have popped : (pop tracked.resources index s.view).1 = (queue.pop c.view).1.mapError .error := by
    rw [pop, Fallible.bind_of_ok located, onState, indexed, state]
    simp only [view]
  rw [popped]
  rcases coupled.inv.pop_cases with ⟨all, eq⟩ | ⟨head, next, eq⟩
  · rw [eq]
    exact iff_of_true rfl all
  · have index := (List.getElem?_eq_some_iff.mp next).1
    rw [eq]
    refine iff_of_false (fun none => ?_) (by omega)
    cases read : (queue.readChain head c.view.guest).1 with
    | ok chain =>
        rw [read] at none
        cases none
    | error e =>
        rw [read] at none
        cases none

end Coupled

/-- Between a driver and a whole device, across every interleaving of the driver's steps with the device's rounds, the
published heads are taken in order, and each of them is completed once or still held. The driver reaps the completions,
all of them, each once and in order. -/
theorem device_exactly_once (shipped : tracked.Shipped) {start s : State tracked.machine}
    {labels : List (Label tracked.machine)} (idle : tracked.machine.idle start.view.backend)
    (fresh : start.view.log = [] ∧ start.published = [] ∧ start.reaped = [])
    (known : start.view.states[index]? = some .new) (found : tracked.resources.queues[index]? = some queue.layout)
    (ready : queue.Ready start.view.guest) (apart : Contract.RingsApart queue)
    (others : ∀ i layout, i ≠ index → tracked.resources.queues[i]? = some layout →
      ∀ a, layout.Used a → ¬Abstract.InRings queue.layout a)
    (available : Store.read start.view.guest.flat (queue.layout.available.gpa + 2) 2 = some [0, 0])
    (used : Store.read start.view.guest.flat (queue.layout.used.gpa + 2) 2 = some [0, 0])
    (orderly : Execution.Along (step queue index) (Orderly tracked queue) start labels)
    (run : exec (step queue index) start labels = some s) :
    let completed := Abstract.completedOn index s.view.log
    let held := Abstract.heldOn index (tracked.held s.view.backend)
    (completed.map Prod.fst ++ held.map DescriptorChain.head).Perm
        (s.published.take (completed.length + held.length)) ∧
      ((pop tracked.resources index s.view).1 = .ok none ↔ completed.length + held.length = s.published.length) ∧
      s.reaped = (completed.map fun entry => (entry.1.toUInt32, entry.2)).take s.reaped.length ∧
      ((step queue index s .reap).isSome ↔ s.reaped.length < completed.length) := by
  intro completed held
  have begins : Coupled tracked queue index start (Contract.initial start.view.guest) :=
    .initial (shipped.start idle) fresh known ready available used
  obtain ⟨c, coupled⟩ := Execution.invariant_along (fun s => ∃ c, Coupled tracked queue index s c)
    (fun _ _ _ holds allowed stepped => holds.elim fun _ coupled =>
      coupled.step shipped apart found others allowed stepped) ⟨_, begins⟩ orderly run
  obtain ⟨outstanding, logged⟩ : c.outstanding = held ∧ c.completed = completed :=
    ⟨coupled.device.outstanding, coupled.device.completed⟩
  have inv := coupled.inv
  have counted := inv.counted
  rw [← outstanding, ← logged, ← coupled.published, ← coupled.reaped, counted]
  refine ⟨inv.heads ▸ inv.handled, coupled.pop_none_iff found, inv.reads, ?_⟩
  have reaped : (step queue index s .reap).isSome = (Contract.reap queue c).isSome := by
    rw [← coupled.carried, reap_carry, step, Option.isSome_map, Option.isSome_map]
  rw [reaped]
  rcases inv.reap_cases with ⟨all, none⟩ | ⟨entry, next, eq⟩
  · simp [none, all]
  · simpa [eq] using (List.getElem?_eq_some_iff.mp next).1

def loneQueue : VirtQueue := ⟨⟨0, 1, ⟨0, 16⟩, ⟨16, 6⟩, ⟨32, 12⟩⟩⟩

def loneResources : Resources where
  queues := [loneQueue.layout]
  interrupts := [fun _ _ => .ok ()]
  negotiatedFeatures := 0

def loneChain : DescriptorChain := ⟨0, [⟨64, 4, virtqDescFWrite, 0⟩]⟩

def loneEntropy : Tracked := .serial (Rng.machine loneResources Tracked.onesEntropy) loneResources

def loneStart : State loneEntropy.machine where
  view := {
    guest := {
      memory := DmaMemory.single ⟨0, 0, 144⟩ (by decide)
      distinct := by decide
      host := fun a => (([64, 0, 0, 0, 0, 0, 0, 0, 4, 0, 0, 0, 2, 0] : List UInt8)[a]?).getD 0
      leasesLeft := none }
    states := [.new]
    backend := ()
    log := [] }
  published := []
  reaped := []

theorem loneChain_in_hand {view : DeviceView loneEntropy.machine.State} {i : Nat} {chain : DescriptorChain}
    (popped : (pop loneResources 0 view).1 = .ok (some loneChain)) (hands : loneEntropy.InHand view i chain) :
    chain = loneChain := by
  rcases hands with holds | taken
  · cases holds
  · cases i with
    | zero => cases popped.symm.trans taken; rfl
    | succ i => cases taken

theorem loneChain_apart {a : Nat} (writable : loneChain.Writable a) : ¬Abstract.InRings loneQueue.layout a := by
  obtain ⟨d, member, -, inside⟩ := writable
  cases List.mem_singleton.mp member
  have low : 64 ≤ a := inside.1
  rintro (ring | ring)
  · have high : a < 22 := ring.2
    omega
  · have high : a < 44 := ring.2
    omega

theorem device_exactly_once_entropy :
    ∃ s, exec (step loneQueue 0) loneStart [.publish 0, .round (), .reap] = some s ∧ s.reaped = [(0, 4)] ∧
      ((step loneQueue 0 s .reap).isSome ↔ s.reaped.length < (Abstract.completedOn 0 s.view.log).length) := by
  have ends : (exec (step loneQueue 0) loneStart [.publish 0, .round (), .reap]).map State.reaped = some [(0, 4)] := by
    decide +kernel
  obtain ⟨s, run, reaped⟩ := Option.map_eq_some_iff.mp ends
  have offered : (step loneQueue 0 loneStart (.publish 0)).map (fun t => (pop loneResources 0 t.view).1) =
      some (.ok (some loneChain)) := by decide +kernel
  have served : (step loneQueue 0 loneStart (.publish 0)).map (fun t => (loneEntropy.machine.round () t.view).1) =
      some (.ok ()) := by decide +kernel
  have orderly : Execution.Along (step loneQueue 0) (Orderly loneEntropy loneQueue) loneStart
      [.publish 0, .round (), .reap] := by
    refine ⟨trivial, fun t stepped => ⟨⟨?_, fun i chain hands a writable => ?_⟩, fun _ _ => ⟨trivial, fun _ _ => trivial⟩⟩⟩
    · rw [stepped] at served
      exact Option.some.inj served
    · rw [stepped] at offered
      obtain rfl := loneChain_in_hand (Option.some.inj offered) hands
      exact loneChain_apart writable
  have others : ∀ i layout, i ≠ 0 → loneEntropy.resources.queues[i]? = some layout →
      ∀ a, layout.Used a → ¬Abstract.InRings loneQueue.layout a := by
    intro i layout distinct found
    obtain ⟨i, rfl⟩ := Nat.exists_eq_succ_of_ne_zero distinct
    cases found
  have contract := device_exactly_once (.rng loneResources Tracked.onesEntropy) trivial ⟨rfl, rfl, rfl⟩ rfl rfl
    (show loneQueue.Ready loneStart.view.guest from ⟨rfl, by decide +kernel⟩) (by decide) others (by decide +kernel)
    (by decide +kernel) orderly run
  exact ⟨s, run, reaped, contract.2.2.2⟩

end Driver

end Libvirtio
