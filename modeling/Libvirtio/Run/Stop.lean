import Libvirtio.Device.Activation
import Libvirtio.Run.Wake

namespace Libvirtio

section
variable {β : Type} {resources : Resources} {sound : β → Prop} {index : Nat} {view : DeviceView β}

/-- What activation establishes and rounds that succeed keep. -/
structure Standing (resources : Resources) (sound : β → Prop) (view : DeviceView β) : Prop where
  states : view.states.length = resources.queues.length
  layouts : ∀ layout ∈ resources.queues, layout.validate view.guest.memory = .ok ()
  backend : sound view.backend

structure Revoked (resources : Resources) (sound : β → Prop) (view : DeviceView β) : Prop
    extends Standing resources sound view where
  none : view.guest.leasesLeft = some 0

theorem VirtQueue.pop_revoked (queue : VirtQueue) {view : QueueView} (none : view.guest.leasesLeft = some 0) :
    queue.pop view = (.error (.down .revoked), view) := by
  have refused (gpa : Nat) : readU16 gpa view.guest = (.error (.down .revoked), view.guest) :=
    Fallible.bind_of_error (Fallible.bind_of_error (GuestMemory.lease_revoked none _))
  refine Fallible.bind_of_error ?_
  simp only [onGuest, Fallible.zoom_apply, refused]

theorem pop_revoked (revoked : Revoked resources sound view) (inside : index < resources.queues.length) :
    pop resources index view = (.error (.error (.down .revoked)), view) := by
  have known : index < view.states.length := by rw [revoked.states]; exact inside
  have located := queueAt_valid (List.getElem?_eq_getElem inside) (revoked.layouts _ (List.getElem_mem inside))
  have state := List.getElem?_eq_getElem known
  rw [pop, Fallible.bind_of_ok located, onState_of_error state (VirtQueue.pop_revoked _ revoked.none), List.set_getElem_self]

/-- The error that a round of a revoked device ends with. -/
def Fault.revoked : Fault := .error (.down .revoked)

/-- On a revoked device the round has nothing to do, or fails because of it. -/
def Withers (resources : Resources) (sound : β → Prop) (round : DeviceM β Bool) : Prop :=
  ∀ view, Revoked resources sound view → Revoked resources sound (round view).2 ∧
    ((round view).1 = .ok false ∨ (round view).1 = .error .revoked)

theorem Withers.pop_bind {body : Option DescriptorChain → DeviceM β Bool} (inside : index < resources.queues.length) :
    Withers resources sound (pop resources index >>= body) := by
  intro view revoked
  rw [Fallible.bind_of_error (pop_revoked revoked inside)]
  exact ⟨revoked, .inr rfl⟩

theorem Withers.pure : Withers resources sound (Pure.pure false : DeviceM β Bool) := fun _ revoked => ⟨revoked, .inl rfl⟩

theorem Turn.withers (turn : Turn β resources) (inside : turn.queue < resources.queues.length) :
    Withers resources sound turn.round := by
  obtain ⟨work, announce, same⟩ := turn.served
  intro view revoked
  rw [same, Fallible.bind_of_ok (Fallible.read_apply view), Fallible.ite_apply]
  split
  · exact Withers.pure view revoked
  · exact Withers.pop_bind inside view revoked

end

namespace Network
variable {γ : Type} {resources : Resources} {backend : Backend γ} {limit : Nat}

theorem nextPair_revoked {view : DeviceView (State γ)} (revoked : Revoked resources (ActiveWithin limit) view) :
    ∃ pair after, nextPair view = (.ok pair, after) ∧ pair < limit ∧ Revoked resources (ActiveWithin limit) after := by
  obtain ⟨positive, bounded⟩ := revoked.backend
  refine ⟨view.backend.nextRxPair % view.backend.activeQueuePairs,
    { view with backend := { view.backend with nextRxPair := (view.backend.nextRxPair + 1) % 2 ^ 64 } }, ?_,
    Nat.lt_of_lt_of_le (Nat.mod_lt _ positive) bounded, ?_⟩
  · rw [nextPair, Fallible.bind_of_ok (Fallible.read_apply view), Fallible.bind_of_ok (show onBackend _ view = _ from rfl),
      Fallible.ite_apply, if_neg (Nat.ne_of_gt positive)]
    rfl
  · exact ⟨⟨revoked.states, revoked.layouts, positive, bounded⟩, revoked.none⟩

theorem rxRound_withers (inside : ∀ pair < limit, rxQueue pair < resources.queues.length) :
    Withers resources (ActiveWithin limit) (rxRound resources backend) := by
  intro view revoked
  rw [rxRound, Fallible.bind_of_ok (Fallible.read_apply view), Fallible.ite_apply]
  split
  · obtain ⟨pair, after, run, below, still⟩ := nextPair_revoked revoked
    rw [Fallible.bind_of_ok run]
    exact Withers.pop_bind (inside pair below) after still
  · exact Withers.pure view revoked

theorem guardedTx_withers {pair : Nat} (inside : txQueue pair < resources.queues.length) {sound : State γ → Prop} :
    Withers resources sound (guardedTx resources backend pair) := by
  intro view revoked
  rcases guardedTx_cases resources backend pair view with same | same <;> rw [same]
  · exact ⟨revoked, .inl rfl⟩
  · exact Withers.pop_bind inside view revoked

theorem activate_memory {spec : NetworkSpec} {guest : GuestMemory} {host : γ} {device : Device γ}
    (activated : spec.activate resources guest host = .ok device) : device.view.guest.memory = guest.memory := by
  obtain ⟨_, -, made⟩ := except_bind_eq_ok.mp activated
  cases made
  rfl

end Network

namespace Server

inductive Activated : (server : Server) → DeviceView server.tracked.machine.State → Prop
  | console {β : Type} {backend : Console.Backend β} {spec : Console.ConsoleSpec} {resources : Resources}
      {guest : GuestMemory} {state : β} {view : DeviceView β}
      (activated : spec.activate resources guest state = .ok view) : Activated (console resources backend) view
  | rng {β : Type} {entropy : Rng.Entropy β} {spec : Rng.RngSpec} {resources : Resources} {guest : GuestMemory}
      {state : β} {view : DeviceView β} (activated : spec.activate resources guest state = .ok view) :
      Activated (rng resources entropy) view
  | memory {β : Type} {backend : Memory.Backend β} {spec : Memory.MemorySpec} {resources : Resources}
      {guest : GuestMemory} {snapshot : Memory.MemoryConfig} {state : β} {view : DeviceView β}
      (activated : spec.activate resources guest snapshot state = .ok view) : Activated (memory resources backend) view
  | vsock {β : Type} {backend : Vsock.Backend β} {spec : Vsock.VsockSpec} {resources : Resources} {guest : GuestMemory}
      {state : β} {view : DeviceView β} (activated : spec.activate resources guest state = .ok view) :
      Activated (vsock resources backend) view
  | network {γ : Type} {backend : Network.Backend γ} {mac : Vector UInt8 6} {queuePairs : Nat}
      {maximumQueueSize : UInt16} {spec : Network.NetworkSpec} {resources : Resources} {guest : GuestMemory} {host : γ}
      {device : Network.Device γ} (accepted : Network.NetworkSpec.new mac queuePairs maximumQueueSize = .ok spec)
      (small : spec.queuePairs ≤ 32767) (activated : spec.activate resources guest host = .ok device) :
      Activated (network resources backend) device.view

/-- What the rounds do to what the device stands on. -/
structure Fit (server : Server) (sound : server.tracked.machine.State → Prop) : Prop where
  kept : ∀ round ∈ server.rounds, ∀ view, Standing server.tracked.resources sound view → ∀ again,
    (round view).1 = .ok again → Standing server.tracked.resources sound (round view).2
  withers : ∀ round ∈ server.rounds, Withers server.tracked.resources sound round
  changed : ∀ change state, sound state → sound (server.change change state)

variable {server : Server}

theorem network_rounds {γ : Type} {resources : Resources} {backend : Network.Backend γ}
    {P : DeviceM (Network.State γ) Bool → Prop} (control : P (Network.controlRound resources))
    (tx : ∀ pair < Network.maximumQueuePairs resources, P (Network.guardedTx resources backend pair))
    (rx : P (Network.rxRound resources backend)) : ∀ round ∈ (network resources backend).rounds, P round := by
  intro round member
  rcases List.mem_append.mp member with turn | last
  · obtain ⟨turn, listed, rfl⟩ := List.mem_map.mp turn
    rcases List.mem_cons.mp listed with rfl | listed
    · exact control
    · obtain ⟨pair, below, rfl⟩ := List.mem_map.mp listed
      exact tx pair (List.mem_range.mp below)
  · cases List.mem_singleton.mp last
    exact rx

theorem Shipped.framed (shipped : Shipped server) {round : DeviceM server.tracked.machine.State Bool}
    (member : round ∈ server.rounds) (view : DeviceView server.tracked.machine.State) :
    (round view).2.guest.memory = view.guest.memory ∧ (round view).2.states.length = view.states.length := by
  rcases shipped.ported round member view with nothing | ⟨port, same⟩
  · rw [nothing]
    exact ⟨rfl, rfl⟩
  · have framed := shipped.tracked.framed port (shipped.holds_none view.backend).2
    rw [same, once_view] at framed
    exact ⟨framed.memory, framed.states⟩

theorem Shipped.standing (shipped : Shipped server) {round : DeviceM server.tracked.machine.State Bool}
    (member : round ∈ server.rounds) {sound : server.tracked.machine.State → Prop}
    {view : DeviceView server.tracked.machine.State} (standing : Standing server.tracked.resources sound view)
    (kept : sound (round view).2.backend) : Standing server.tracked.resources sound (round view).2 := by
  obtain ⟨memory, states⟩ := shipped.framed member view
  exact ⟨states.trans standing.states, memory ▸ standing.layouts, kept⟩

/-- A device whose backend may be in any state. -/
theorem fit_of_turns (shipped : Shipped server) (alone : server.last = [])
    (inside : ∀ turn ∈ server.turns, turn.queue < server.tracked.resources.queues.length) : Fit server fun _ => True where
  kept := fun _ member _ standing _ _ => shipped.standing member standing trivial
  withers := fun round member => by
    rw [rounds, alone, List.append_nil] at member
    obtain ⟨turn, listed, rfl⟩ := List.mem_map.mp member
    exact turn.withers (inside turn listed)
  changed := fun _ _ _ => trivial

theorem fresh_standing {β : Type} {resources : Resources} {guest : GuestMemory} {layout : DeviceLayout} {sound : β → Prop}
    {backend : β} (checked : resources.Checked guest.memory layout) (holds : sound backend) :
    Standing resources sound (.fresh guest layout.queueCount backend) :=
  ⟨List.length_replicate.trans checked.queues.symm, fun queue member => (checked.layouts queue member).2, holds⟩

theorem network_fit {γ : Type} {backend : Network.Backend γ} {resources : Resources} {maximum : Nat}
    (fitted : Network.Fitted resources maximum (Network.maximumQueuePairs resources)) :
    Fit (network resources backend) (Network.ActiveWithin (Network.maximumQueuePairs resources)) := by
  have safe : ∀ round ∈ (network resources backend).rounds, Safe resources.queues.length
      (Network.ActiveWithin (Network.maximumQueuePairs resources)) (fun _ => True) round := by
    refine network_rounds (Network.controlRound_safe fitted.sizes fitted.control fitted.large) (fun pair below => ?_)
      (Network.rxRound_safe fitted.rx)
    exact .bind .read fun _ _ => .ite (fun _ => Network.txRound_safe (fitted.tx pair below)) fun _ => .pure trivial
  refine ⟨fun round member view standing again _ => ?_, ?_, fun _ _ holds => holds⟩
  · refine Shipped.standing (.network resources backend) member standing ?_
    have done := safe round member view ⟨standing.states, standing.backend⟩
    rcases run : round view with ⟨fault | again, after⟩ <;> rw [run] at done <;> exact done.1.backend
  · exact network_rounds (Withers.pop_bind fitted.control)
      (fun pair below => Network.guardedTx_withers (fitted.tx pair below).queue)
      (Network.rxRound_withers fun pair below => (fitted.rx pair below).queue)

theorem Activated.fit {start : DeviceView server.tracked.machine.State} (activated : Activated server start) :
    ∃ sound, Fit server sound ∧ Standing server.tracked.resources sound start := by
  cases activated with
  | @console β backend spec resources guest state view activated =>
      obtain ⟨_, valid, made⟩ := except_bind_eq_ok.mp activated
      cases made
      have checked := Resources.validate_eq_ok.mp valid
      have queues : resources.queues.length = 2 := checked.queues
      refine ⟨fun _ => True, fit_of_turns (.console resources backend) rfl ?_, fresh_standing checked trivial⟩
      refine List.forall_mem_cons.mpr ⟨?_, List.forall_mem_singleton.mpr ?_⟩
      · exact (show 1 < resources.queues.length by omega)
      · exact (show 0 < resources.queues.length by omega)
  | @rng β entropy spec resources guest state view activated =>
      obtain ⟨_, valid, made⟩ := except_bind_eq_ok.mp activated
      cases made
      have checked := Resources.validate_eq_ok.mp valid
      have queues : resources.queues.length = 1 := checked.queues
      refine ⟨fun _ => True, fit_of_turns (.rng resources entropy) rfl ?_, fresh_standing checked trivial⟩
      exact List.forall_mem_singleton.mpr (show 0 < resources.queues.length by omega)
  | @memory β backend spec resources guest snapshot state view activated =>
      obtain ⟨_, valid, made⟩ := except_bind_eq_ok.mp activated
      obtain ⟨_, -, made⟩ := except_bind_eq_ok.mp made
      cases made
      have checked := Resources.validate_eq_ok.mp valid
      have queues : resources.queues.length = 1 := checked.queues
      refine ⟨fun _ => True, fit_of_turns (.memory resources backend) rfl ?_, fresh_standing checked trivial⟩
      exact List.forall_mem_singleton.mpr (show 0 < resources.queues.length by omega)
  | @vsock β backend spec resources guest state view activated =>
      obtain ⟨_, valid, made⟩ := except_bind_eq_ok.mp activated
      cases made
      have checked := Resources.validate_eq_ok.mp valid
      have queues : resources.queues.length = 3 := checked.queues
      refine ⟨fun _ => True, fit_of_turns (.vsock resources backend) rfl ?_, fresh_standing checked trivial⟩
      refine List.forall_mem_cons.mpr ⟨?_, List.forall_mem_cons.mpr ⟨?_, List.forall_mem_singleton.mpr ?_⟩⟩
      · exact (show 1 < resources.queues.length by omega)
      · exact (show 0 < resources.queues.length by omega)
      · exact (show 2 < resources.queues.length by omega)
  | @network γ backend mac queuePairs maximumQueueSize spec resources guest host device accepted small activated =>
      obtain ⟨checked, inv⟩ := Network.activate_ok activated
      have positive := (Network.NetworkSpec.new_ok accepted).1
      have fitted := Network.fitted_of_checked checked small
      rw [← Network.maximumQueuePairs_eq checked] at fitted positive
      have steady := (inv _ positive).steady
      refine ⟨_, network_fit fitted, steady.states, fun layout member => ?_, steady.backend⟩
      rw [Network.activate_memory activated]
      exact (checked.layouts layout member).2

variable {queue : VirtQueue} {index : Nat}

section
variable {sound : server.tracked.machine.State → Prop} (queue index)

theorem occur_standing (fit : Fit server sound) {s : server.Inner} (event : server.Outside)
    (standing : Standing server.tracked.resources sound s.driver.view) :
    Standing server.tracked.resources sound (occur queue index event s).driver.view := by
  have drives {label : Driver.Label server.tracked.machine} (driver : ∀ port, label ≠ .round port) :
      Standing server.tracked.resources sound (s.drive queue index label).driver.view := by
    obtain ⟨added, beside⟩ := @drive_beside _ queue index s _ driver
    rw [beside.view]
    exact ⟨standing.states, beside.memory ▸ standing.layouts, standing.backend⟩
  cases event with
  | publish | reap | elsewhere => exact drives fun _ => by simp
  | guest | revoke | flag => exact ⟨standing.states, standing.layouts, standing.backend⟩
  | host change => exact ⟨standing.states, standing.layouts, fit.changed change _ standing.backend⟩

theorem occur_revoked (fit : Fit server sound) {s : server.Inner} (event : server.Outside)
    (revoked : Revoked server.tracked.resources sound s.driver.view) :
    Revoked server.tracked.resources sound (occur queue index event s).driver.view := by
  refine ⟨occur_standing queue index fit event revoked.toStanding, ?_⟩
  have drives {label : Driver.Label server.tracked.machine} (driver : ∀ port, label ≠ .round port) :
      (s.drive queue index label).driver.view.guest.leasesLeft = some 0 := by
    obtain ⟨added, beside⟩ := @drive_beside _ queue index s _ driver
    exact beside.leasesLeft.trans revoked.none
  cases event with
  | publish | reap | elsewhere => exact drives fun _ => by simp
  | guest | flag | host => exact revoked.none
  | revoke leases =>
      simp only [occur, Inner.setView, revoked.none, revoke, Nat.min_zero]

theorem dies (fit : Fit server sound) :
    WakeLoop.Dies (loop queue index server) (fun s => Revoked server.tracked.resources sound s.driver.view)
      (· = .revoked) := by
  have withers : ∀ round ∈ (loop queue index server).rounds, ∀ s : server.Inner,
      Revoked server.tracked.resources sound s.driver.view →
        Revoked server.tracked.resources sound (round s).2.driver.view ∧
          ((round s).1 = .ok false ∨ (round s).1 = .error .revoked) := by
    intro round member s revoked
    obtain ⟨inner, listed, rfl⟩ := List.mem_map.mp member
    exact fit.withers inner listed s.driver.view revoked
  refine ⟨fun round member s dead again => ?_, fun round member s e dead failed => ?_,
    fun round member s dead => (withers round member s dead).1, fun s dead => ?_,
    fun event s dead => occur_revoked queue index fit event dead⟩
  · rcases (withers round member s dead).2 with idle | error
    · cases idle.symm.trans again
    · cases error.symm.trans again
  · rcases (withers round member s dead).2 with idle | error
    · cases idle.symm.trans failed
    · cases error.symm.trans failed
      rfl
  · simp only [loop]
    split <;> exact dead

end

section
variable {sound : server.tracked.machine.State → Prop}

theorem standing_along (fit : Fit server sound) {inner : server.Inner}
    (standing : Standing server.tracked.resources sound inner.driver.view) {s : WakeLoop.State Fault server.Inner}
    {labels : List (WakeLoop.Label server.Outside)}
    (run : exec (WakeLoop.step (loop queue index server)) (WakeLoop.initial inner) labels = some s) (running : s.Running) :
    Standing server.tracked.resources sound s.inner.driver.view := by
  refine Execution.invariant (fun s => s.Running → Standing server.tracked.resources sound s.inner.driver.view) ?_
    (fun _ => standing) run running
  intro s label t holds stepped
  refine WakeLoop.step_running (P := fun s => Standing server.tracked.resources sound s.driver.view)
    (fun event _ standing => occur_standing queue index fit event standing) (fun standing => ?_)
    (fun round member again _ standing ok => ?_) holds stepped
  · simp only [loop]
    split <;> exact standing
  · obtain ⟨inner, listed, rfl⟩ := List.mem_map.mp member
    exact fit.kept inner listed _ standing again ok

theorem revoked_along (fit : Fit server sound) {s t : WakeLoop.State Fault server.Inner}
    {labels : List (WakeLoop.Label server.Outside)}
    (revoked : s.Running → Revoked server.tracked.resources sound s.inner.driver.view)
    (run : exec (WakeLoop.step (loop queue index server)) s labels = some t) (running : t.Running) :
    Revoked server.tracked.resources sound t.inner.driver.view := by
  have deadly := dies queue index fit
  refine Execution.invariant (fun s => s.Running → Revoked server.tracked.resources sound s.inner.driver.view) ?_
    revoked run running
  intro s label t holds stepped
  exact WakeLoop.step_running (P := fun s => Revoked server.tracked.resources sound s.driver.view)
    (fun event _ => deadly.outside event s.inner) (deadly.gate s.inner)
    (fun round member _ _ dead _ => deadly.round round member s.inner dead) holds stepped

/-- Once `stop()` has set its flag, revoked the memory and woken the loop between two of its steps, the loop makes only a
bounded number of steps before it returns, whatever the guest, the backend and further kicks do in between, and its own
steps alone bring it there. A round is one step: the calls of the backend and of the notifier that it awaits return. The
loop returns without an error or because the memory was revoked. -/
theorem stop_returns {start : DeviceView server.tracked.machine.State} (activated : Activated server start)
    {first second rest : List (WakeLoop.Label server.Outside)} {stopped final : WakeLoop.State Fault server.Inner}
    (run : exec (WakeLoop.step (loop queue index server)) (WakeLoop.initial ⟨⟨start, [], []⟩, false⟩)
      (first ++ .outside (.revoke 0) :: (second ++ [.stopWake])) = some stopped) (running : stopped.Running)
    (after : exec (WakeLoop.step (loop queue index server)) stopped rest = some final) :
    rest.countP WakeLoop.Label.own ≤ server.rounds.length + 5 ∧
      (∀ result, final.pc = .returned result → result = .ok () ∨ result = .error .revoked) ∧
      ∃ own returned, (∀ label ∈ own, WakeLoop.Label.own label = true) ∧
        rest.countP WakeLoop.Label.own + own.length ≤ server.rounds.length + 5 ∧
        exec (WakeLoop.step (loop queue index server)) final own = some returned ∧
        (returned.pc = .returned (.ok ()) ∨ returned.pc = .returned (.error .revoked)) := by
  obtain ⟨sound, fit, standing⟩ := activated.fit
  obtain ⟨u, before, later⟩ := Execution.exec_append_eq_some.mp run
  obtain ⟨v, revoking, later⟩ := Execution.exec_cons_eq_some.mp later
  obtain ⟨w, between, woken⟩ := Execution.exec_append_eq_some.mp later
  obtain ⟨_, waking, last⟩ := Execution.exec_cons_eq_some.mp woken
  cases last
  have dead : v.Running → Revoked server.tracked.resources sound v.inner.driver.view := by
    cases revoking
    intro running
    refine ⟨occur_standing queue index fit (.revoke 0) (standing_along fit standing before running), ?_⟩
    simp only [loop, occur, Inner.setView]
    cases u.inner.driver.view.guest.leasesLeft with
    | none => rfl
    | some left => exact congrArg some (Nat.zero_min left)
  have shaped : WakeLoop.Shaped w := by
    have reached := Execution.exec_append_eq_some.mpr ⟨u, before, Execution.exec_cons_eq_some.mpr ⟨v, revoking, between⟩⟩
    exact WakeLoop.run_shaped reached
  have doomed : WakeLoop.Doomed (fun s : server.Inner => Revoked server.tracked.resources sound s.driver.view)
      (· = .revoked) stopped := by
    refine ⟨WakeLoop.stopping_of_stopWake shaped waking, ?_, fun e here => absurd here (running _)⟩
    obtain ⟨-, rfl⟩ := WakeLoop.stopWake_eq waking
    exact revoked_along (t := w) fit dead between running
  have deadly := dies queue index fit
  have most := WakeLoop.rank_le (loop queue index server) stopped.pc
  obtain ⟨ends, bounded⟩ := doomed.run deadly after
  obtain ⟨own, returned, mine, short, finish, result, here⟩ := ends.finishes deadly
  have gives {s : WakeLoop.State Fault server.Inner} {result : Except Fault Unit} (doomed : WakeLoop.Doomed
      (fun s : server.Inner => Revoked server.tracked.resources sound s.driver.view) (· = .revoked) s)
      (here : s.pc = .returned result) : result = .ok () ∨ result = .error .revoked := by
    cases result with
    | ok _ => exact .inl rfl
    | error e => exact .inr (congrArg Except.error (doomed.failed e here))
  simp only [loop, List.length_map] at most bounded short
  refine ⟨by omega, fun result here => gives ends here, own, returned, mine, by omega, finish, ?_⟩
  rcases gives (ends.run deadly finish).1 here with rfl | rfl
  · exact .inl here
  · exact .inr here

end

def hotplugServer : Server := memory Guarded.hotplugResources Guarded.hotplugBackend

def hotplugLoop : WakeLoop.Loop Fault hotplugServer.Inner hotplugServer.Outside := loop Driver.loneQueue 0 hotplugServer

def hotplugStart : WakeLoop.State Fault hotplugServer.Inner :=
  WakeLoop.initial ⟨⟨.fresh Guarded.hotplugGuest 1 (), [], []⟩, false⟩

/-- The loop waits when `stop()` is called. -/
def hotplugStopped : List (WakeLoop.Label hotplugServer.Outside) :=
  [.advance, .advance, .poll, .stopDown] ++ .outside (.revoke 0) :: ([] ++ [.stopWake])

theorem stop_returns_hotplug :
    ∃ stopped final, exec (WakeLoop.step hotplugLoop) hotplugStart hotplugStopped = some stopped ∧
      exec (WakeLoop.step hotplugLoop) stopped [.poll] = some final ∧
      ∃ own returned, (∀ label ∈ own, WakeLoop.Label.own label = true) ∧ own.length ≤ 5 ∧
        exec (WakeLoop.step hotplugLoop) final own = some returned ∧
        (returned.pc = .returned (.ok ()) ∨ returned.pc = .returned (.error .revoked)) := by
  have stops : (exec (WakeLoop.step hotplugLoop) hotplugStart hotplugStopped).map WakeLoop.State.pc = some .awaiting := by
    decide +kernel
  obtain ⟨stopped, run, pc⟩ := Option.map_eq_some_iff.mp stops
  have wakes : (exec (WakeLoop.step hotplugLoop) hotplugStart (hotplugStopped ++ [.poll])).map WakeLoop.State.pc =
      some .woken := by decide +kernel
  obtain ⟨final, whole, -⟩ := Option.map_eq_some_iff.mp wakes
  obtain ⟨_, again, after⟩ := Execution.exec_append_eq_some.mp whole
  cases run.symm.trans again
  obtain ⟨-, -, own, returned, mine, short, finish, result⟩ :=
    stop_returns (Activated.memory Guarded.hotplug_activated) run (fun result => by simp [pc]) after
  -- A pass has one round, and the poll is one of the six steps.
  have left : own.length ≤ 5 := Nat.le_of_add_le_add_left (show 1 + _ ≤ 1 + 5 from short)
  exact ⟨stopped, final, run, after, own, returned, mine, left, finish, result⟩

end Server

end Libvirtio
