import Libvirtio.Device.Driver
import Libvirtio.Device.Spec
import Libvirtio.Library.WakeLoop

namespace Libvirtio

/-- One of the rounds that a pass repeats: it has nothing to do while it is `idle`, and serves a queue otherwise. -/
structure Turn (β : Type) (resources : Resources) where
  round : DeviceM β Bool
  queue : Nat
  idle : β → Bool
  served : ∃ work announce, round = do
    let view ← Fallible.read
    if idle view.backend then pure false else serve resources queue work announce

def Console.turns {β : Type} (resources : Resources) (backend : Backend β) : List (Turn β resources) :=
  [{ round := processTransmit resources backend
     queue := queueTransmit
     idle := fun _ => false
     served := ⟨_, _, processTransmit_serve resources backend⟩ },
   { round := processReceive resources backend
     queue := queueReceive
     idle := fun state => !backend.hasInput state
     served := ⟨receiveWork backend, notify resources queueReceive (.ok (.queue 0 0)), by
      rw [processReceive_serve]
      congr 1
      funext view
      cases backend.hasInput view.backend <;> rfl⟩ }]

def Rng.turns {β : Type} (resources : Resources) (entropy : Entropy β) : List (Turn β resources) :=
  [{ round := processQueue entropy resources
     queue := queueRng
     idle := fun _ => false
     served := ⟨_, _, processQueue_serve entropy resources⟩ }]

def Memory.turns {β : Type} (resources : Resources) (backend : Backend β) : List (Turn β resources) :=
  [{ round := processRequest resources backend
     queue := requestQueue
     idle := fun _ => false
     served := ⟨_, _, processRequest_serve resources backend⟩ }]

def Vsock.turns {β : Type} (resources : Resources) (backend : Backend β) : List (Turn β resources) :=
  [{ round := txRound resources backend
     queue := queueTx
     idle := fun _ => false
     served := ⟨_, _, txRound_serve resources backend⟩ },
   { round := rxRound resources backend
     queue := queueRx
     idle := fun state => !backend.hasPacket state
     served := ⟨rxWork resources backend, notifyQueue resources queueRx, by
      rw [rxRound_serve]
      congr 1
      funext view
      cases backend.hasPacket view.backend <;> rfl⟩ },
   { round := eventRound resources
     queue := queueEvent
     idle := fun _ => false
     served := ⟨_, _, eventRound_serve resources⟩ }]

namespace Network
variable {γ : Type} (resources : Resources) (backend : Backend γ)

-- Only a control command changes how many pairs are active, so that they are the same all through `process_tx`.
def guardedTx (pair : Nat) : DeviceM (State γ) Bool := do
  let view ← Fallible.read
  if pair < view.backend.activeQueuePairs then txRound resources backend pair else pure false

theorem guardedTx_cases (pair : Nat) (view : DeviceView (State γ)) :
    guardedTx resources backend pair view = (.ok false, view) ∨
      guardedTx resources backend pair view = txRound resources backend pair view := by
  rw [guardedTx, Fallible.bind_of_ok (Fallible.read_apply view), Fallible.ite_apply]
  split
  · exact .inr rfl
  · exact .inl rfl

def txTurn (pair : Nat) : Turn (State γ) resources where
  round := guardedTx resources backend pair
  queue := txQueue pair
  idle := fun state => decide (state.activeQueuePairs ≤ pair)
  served := ⟨txWork backend, announce resources (txQueue pair), by
    unfold guardedTx
    rw [txRound_serve]
    congr 1
    funext view
    by_cases active : pair < view.backend.activeQueuePairs
    · simp [active, Nat.not_le.mpr active]
    · simp [active, Nat.not_lt.mp active]⟩

def turns : List (Turn (State γ) resources) :=
  { round := controlRound resources
    queue := controlQueue (maximumQueuePairs resources)
    idle := fun _ => false
    served := ⟨_, _, controlRound_serve resources⟩ } ::
  (List.range (maximumQueuePairs resources)).map (txTurn resources backend)

end Network

namespace Turn
variable {β : Type} {resources : Resources}

theorem finish_again {index : Nat} {chain : DescriptorChain} {work : DeviceM β UInt32} {announce : DeviceM β Unit}
    {view after : DeviceView β} {again : Bool}
    (run : finish resources index chain work announce view = (.ok again, after)) : again = true := by
  obtain ⟨usedLength, _, -, run⟩ := Fallible.bind_eq_ok.mp run
  obtain ⟨_, _, -, run⟩ := Fallible.bind_eq_ok.mp run
  obtain ⟨_, _, -, run⟩ := Fallible.bind_eq_ok.mp run
  cases run
  rfl

/-- A turn with nothing to do was idle or found its queue empty. -/
theorem empty (turn : Turn β resources) {view after : DeviceView β} (run : turn.round view = (.ok false, after)) :
    turn.idle view.backend = true ∨ (pop resources turn.queue view).1 = .ok none := by
  obtain ⟨work, announce, same⟩ := turn.served
  rw [same, Fallible.bind_of_ok (Fallible.read_apply view), Fallible.ite_apply] at run
  split at run
  · rename_i idle
    exact .inl idle
  · right
    obtain ⟨popped, next, taken, run⟩ := Fallible.bind_eq_ok.mp run
    cases popped with
    | none => rw [taken]
    | some chain => cases finish_again run

end Turn

/-- A device with the rounds of a pass. A `flagged` one makes a pass only when it finds its flag set. -/
structure Server where
  tracked : Tracked
  turns : List (Turn tracked.machine.State tracked.resources)
  last : List (DeviceM tracked.machine.State Bool)
  flagged : Bool
  Change : Type
  change : Change → tracked.machine.State → tracked.machine.State

namespace Server

def rounds (server : Server) : List (DeviceM server.tracked.machine.State Bool) :=
  server.turns.map Turn.round ++ server.last

def console {β : Type} (resources : Resources) (backend : Console.Backend β) : Server where
  tracked := .serial (Console.machine resources backend) resources
  turns := Console.turns resources backend
  last := []
  flagged := false
  Change := β → β
  change := id

def rng {β : Type} (resources : Resources) (entropy : Rng.Entropy β) : Server where
  tracked := .serial (Rng.machine resources entropy) resources
  turns := Rng.turns resources entropy
  last := []
  flagged := false
  Change := β → β
  change := id

def memory {β : Type} (resources : Resources) (backend : Memory.Backend β) : Server where
  tracked := .serial (Memory.machine resources backend) resources
  turns := Memory.turns resources backend
  last := []
  flagged := false
  Change := β → β
  change := id

def vsock {β : Type} (resources : Resources) (backend : Vsock.Backend β) : Server where
  tracked := .serial (Vsock.machine resources backend) resources
  turns := Vsock.turns resources backend
  last := []
  flagged := true
  Change := β → β
  change := id

-- Each round of `process_rx` is on a queue of its own choice.
def network {γ : Type} (resources : Resources) (backend : Network.Backend γ) : Server where
  tracked := .serial (Network.machine resources backend) resources
  turns := Network.turns resources backend
  last := [Network.rxRound resources backend]
  flagged := true
  Change := γ → γ
  change := fun change state => { state with backend := change state.backend }

inductive Shipped : Server → Prop
  | console {β : Type} (resources : Resources) (backend : Console.Backend β) : Shipped (console resources backend)
  | rng {β : Type} (resources : Resources) (entropy : Rng.Entropy β) : Shipped (rng resources entropy)
  | memory {β : Type} (resources : Resources) (backend : Memory.Backend β) : Shipped (memory resources backend)
  | vsock {β : Type} (resources : Resources) (backend : Vsock.Backend β) : Shipped (vsock resources backend)
  | network {γ : Type} (resources : Resources) (backend : Network.Backend γ) : Shipped (network resources backend)

/-- The device with the driver of one queue. -/
structure Inner (server : Server) where
  driver : Driver.State server.tracked.machine
  kicked : Bool

/-- What happens beside the loop. The driver of the queue works on it, the guest may also write all of its memory, and
a revocation takes effect after `leases` more leases. -/
inductive Outside (server : Server) where
  | publish (head : UInt16)
  | reap
  | elsewhere (host : Nat → UInt8)
  | guest (host : Nat → UInt8)
  | revoke (leases : Nat)
  | host (change : server.Change)
  | flag

variable {server : Server} (queue : VirtQueue) (index : Nat)

def Inner.setView (s : server.Inner) (view : DeviceView server.tracked.machine.State) : server.Inner :=
  { s with driver := { s.driver with view } }

def revoke (leases : Nat) : Option Nat → Option Nat
  | none => some leases
  | some left => some (min leases left)

/-- The driver does nothing where its step is not enabled. -/
def Inner.drive (s : server.Inner) (label : Driver.Label server.tracked.machine) : server.Inner :=
  { s with driver := (Driver.step queue index s.driver label).getD s.driver }

def occur (event : server.Outside) (s : server.Inner) : server.Inner :=
  match event with
  | .publish head => s.drive queue index (.publish head)
  | .reap => s.drive queue index .reap
  | .elsewhere host => s.drive queue index (.elsewhere host)
  | .guest host => s.setView { s.driver.view with guest := { s.driver.view.guest with host } }
  | .revoke leases => s.setView { s.driver.view with
      guest := { s.driver.view.guest with leasesLeft := revoke leases s.driver.view.guest.leasesLeft } }
  | .host change => s.setView { s.driver.view with backend := server.change change s.driver.view.backend }
  | .flag => { s with kicked := true }

def onView (round : DeviceM server.tracked.machine.State Bool) : Fallible Fault server.Inner Bool :=
  Fallible.zoom (fun s => s.driver.view) (fun view s => s.setView view) round

/-- `run()` with what `kick()` and `stop()` do to it. The loop holds no lease between two rounds, and a `kick()` of a
flagged device is the event `flag` and then the kick. -/
def loop (server : Server) : WakeLoop.Loop Fault server.Inner server.Outside where
  rounds := server.rounds.map onView
  gate s := if server.flagged then (s.kicked, { s with kicked := false }) else (true, s)
  outside := occur queue index

theorem once_view {β : Type} (round : DeviceM β Bool) (view : DeviceView β) : (once round view).2 = (round view).2 := by
  rw [once_apply]

theorem once_ok {β : Type} {round : DeviceM β Bool} {view : DeviceView β} {again : Bool}
    (ok : (round view).1 = .ok again) : (once round view).1 = .ok () := by
  rw [once_apply, ok]
  rfl

theorem once_congr {β : Type} {round other : DeviceM β Bool} {view : DeviceView β} (same : round view = other view) :
    once round view = once other view := by
  rw [once_apply, once_apply, same]

/-- Each time the round does nothing, or what the device does at one of its ports. -/
def Ported (tracked : Tracked) (round : DeviceM tracked.machine.State Bool) : Prop :=
  ∀ view, round view = (.ok false, view) ∨ ∃ port, tracked.machine.round port view = once round view

theorem Ported.at {tracked : Tracked} {round : DeviceM tracked.machine.State Bool} (port : tracked.machine.Port)
    (same : tracked.machine.round port = once round) : Ported tracked round :=
  fun view => .inr ⟨port, congrFun same view⟩

namespace Shipped

theorem tracked (shipped : Shipped server) : server.tracked.Shipped := by
  cases shipped with
  | console resources backend => exact .console resources backend
  | rng resources entropy => exact .rng resources entropy
  | memory resources backend => exact .memory resources backend
  | vsock resources backend => exact .vsock resources backend
  | network resources backend => exact .network resources backend

theorem holds_none (shipped : Shipped server) (state : server.tracked.machine.State) :
    server.tracked.held state = [] ∧ server.tracked.lawful state := by
  cases shipped with
  | console | rng | memory | vsock | network => exact ⟨rfl, trivial⟩

theorem ported (shipped : Shipped server) : ∀ round ∈ server.rounds, Ported server.tracked round := by
  cases shipped with
  | console resources backend =>
      refine List.forall_mem_cons.mpr ⟨?_, List.forall_mem_singleton.mpr ?_⟩
      · exact .at Console.Port.transmit rfl
      · exact .at Console.Port.receive rfl
  | rng resources entropy => exact List.forall_mem_singleton.mpr (.at () rfl)
  | memory resources backend => exact List.forall_mem_singleton.mpr (.at Memory.Port.request rfl)
  | vsock resources backend =>
      refine List.forall_mem_cons.mpr ⟨?_, List.forall_mem_cons.mpr ⟨?_, List.forall_mem_singleton.mpr ?_⟩⟩
      · exact .at Vsock.Port.tx rfl
      · exact .at Vsock.Port.rx rfl
      · exact .at Vsock.Port.event rfl
  | network resources backend =>
      intro round member
      rcases List.mem_append.mp member with turn | last
      · obtain ⟨turn, listed, rfl⟩ := List.mem_map.mp turn
        rcases List.mem_cons.mp listed with rfl | listed
        · exact .at Network.Port.control rfl
        · obtain ⟨pair, -, rfl⟩ := List.mem_map.mp listed
          intro view
          rcases Network.guardedTx_cases resources backend pair view with nothing | same
          · exact .inl nothing
          · exact .inr ⟨Network.Port.tx pair, once_congr same.symm⟩
      · cases List.mem_singleton.mp last
        exact .at Network.Port.rx rfl

end Shipped

section
variable {queue index}

/-- The guest leaves the queue to its driver, the memory is not revoked, and no chain that the device has in hand offers
the rings for writing. -/
def Orderly (queue : VirtQueue) (s : WakeLoop.State Fault server.Inner) : WakeLoop.Label server.Outside → Prop
  | .outside (.guest _) | .outside (.revoke _) => False
  | .round => ∀ i chain, server.tracked.InHand s.inner.driver.view i chain →
      ∀ a, chain.Writable a → ¬Abstract.InRings queue.layout a
  | _ => True

theorem drive_beside (s : server.Inner) {label : Driver.Label server.tracked.machine}
    (driver : ∀ port, label ≠ .round port) :
    ∃ added, Driver.Beside s.driver (s.drive queue index label).driver added := by
  unfold Inner.drive
  cases stepped : Driver.step queue index s.driver label with
  | none => exact ⟨[], rfl, rfl, rfl, (List.append_nil _).symm⟩
  | some t => exact ⟨_, Driver.step_beside driver stepped⟩

/-- What the driver and the device have done so far is not undone. -/
structure Grown (s t : server.Inner) : Prop where
  published : s.driver.published <+: t.driver.published
  log : s.driver.view.log <+: t.driver.view.log

theorem Grown.refl (s : server.Inner) : Grown s s := ⟨List.prefix_refl _, List.prefix_refl _⟩

theorem Grown.trans {s t u : server.Inner} (first : Grown s t) (second : Grown t u) : Grown s u :=
  ⟨first.published.trans second.published, first.log.trans second.log⟩

theorem occur_grown (s : server.Inner) (event : server.Outside) : Grown s (occur queue index event s) := by
  have drives {label : Driver.Label server.tracked.machine} (driver : ∀ port, label ≠ .round port) :
      Grown s (s.drive queue index label) := by
    obtain ⟨added, beside⟩ := @drive_beside _ queue index s _ driver
    refine ⟨beside.published ▸ List.prefix_append _ _, ?_⟩
    rw [beside.view]
  cases event with
  | publish | reap | elsewhere => exact drives fun _ => by simp
  | guest | revoke | host | flag => exact ⟨List.prefix_refl _, List.prefix_refl _⟩

theorem round_grown (shipped : Shipped server) (s : server.Inner) {round : DeviceM server.tracked.machine.State Bool}
    (member : round ∈ server.rounds) : Grown s (onView round s).2 := by
  refine ⟨List.prefix_refl _, ?_⟩
  change s.driver.view.log <+: (round s.driver.view).2.log
  rcases shipped.ported round member s.driver.view with nothing | ⟨port, same⟩
  · rw [nothing]
  · have framed := shipped.tracked.framed port (shipped.holds_none s.driver.view.backend).2
    rw [same, once_view] at framed
    exact framed.log

theorem grown_along (shipped : Shipped server) {s t : WakeLoop.State Fault server.Inner}
    {labels : List (WakeLoop.Label server.Outside)}
    (run : exec (WakeLoop.step (loop queue index server)) s labels = some t) : Grown s.inner t.inner := by
  refine Execution.invariant (fun t => Grown s.inner t.inner) ?_ (.refl _) run
  intro u label v grown stepped
  apply WakeLoop.step_keeps (P := Grown s.inner) _ _ _ grown stepped
  · exact fun event inner grown => grown.trans (occur_grown inner event)
  · intro inner grown
    simp only [loop]
    split <;> exact ⟨grown.published, grown.log⟩
  · intro round member inner grown
    obtain ⟨round, listed, rfl⟩ := List.mem_map.mp member
    exact grown.trans (round_grown shipped inner listed)

/-- The driver and the device agree on the queue. -/
def Agreed (queue : VirtQueue) (index : Nat) (s : server.Inner) : Prop :=
  ∃ c, Driver.Coupled server.tracked queue index s.driver c

section
variable {s : server.Inner} (shipped : Shipped server) (apart : Contract.RingsApart queue)
  (found : server.tracked.resources.queues[index]? = some queue.layout)
  (others : ∀ i layout, i ≠ index → server.tracked.resources.queues[i]? = some layout →
    ∀ a, layout.Used a → ¬Abstract.InRings queue.layout a)
include shipped apart found others

theorem drive_agreed (agreed : Agreed queue index s) {label : Driver.Label server.tracked.machine}
    (driver : ∀ port, label ≠ .round port) : Agreed queue index (s.drive queue index label) := by
  obtain ⟨c, coupled⟩ := agreed
  unfold Inner.drive
  cases stepped : Driver.step queue index s.driver label with
  | none => exact ⟨c, coupled⟩
  | some u =>
      apply coupled.step shipped.tracked apart found others _ stepped
      cases label with
      | publish | reap | elsewhere => trivial
      | round port => exact absurd rfl (driver port)

theorem occur_agreed (agreed : Agreed queue index s) {event : server.Outside} {around : WakeLoop.State Fault server.Inner}
    (orderly : Orderly queue around (.outside event)) : Agreed queue index (occur queue index event s) := by
  cases event with
  | publish | reap | elsewhere => exact drive_agreed shipped apart found others agreed fun _ => by simp
  | guest | revoke => exact orderly.elim
  | flag => exact agreed
  | host change =>
      obtain ⟨c, coupled⟩ := agreed
      have none := shipped.holds_none
      refine ⟨c, ⟨coupled.device.guest, coupled.device.state, ?_, coupled.device.completed⟩, coupled.inv,
        coupled.published, coupled.reaped, (none _).2⟩
      have outstanding := coupled.device.outstanding
      simp only [DeviceView.abstract, (none _).1] at outstanding
      simp only [occur, Inner.setView, DeviceView.abstract, (none _).1]
      exact outstanding

theorem round_agreed (agreed : Agreed queue index s)
    (clear : ∀ i chain, server.tracked.InHand s.driver.view i chain →
      ∀ a, chain.Writable a → ¬Abstract.InRings queue.layout a)
    {round : DeviceM server.tracked.machine.State Bool} (member : round ∈ server.rounds) {again : Bool}
    (ok : (onView round s).1 = .ok again) : Agreed queue index (onView round s).2 := by
  obtain ⟨c, coupled⟩ := agreed
  rcases shipped.ported round member s.driver.view with nothing | ⟨port, same⟩
  · exact ⟨c, by
      change Driver.Coupled _ _ _ { s.driver with view := (round s.driver.view).2 } c
      rw [nothing]
      exact coupled⟩
  · have succeeds : (server.tracked.machine.round port s.driver.view).1 = .ok () := same ▸ once_ok ok
    obtain ⟨d, next⟩ := coupled.step shipped.tracked apart found others
      (show Driver.Orderly _ _ _ (.round port) from ⟨succeeds, clear⟩) rfl
    rw [same, once_view] at next
    exact ⟨d, next⟩

theorem agreed_along {start u : WakeLoop.State Fault server.Inner} {labels : List (WakeLoop.Label server.Outside)}
    (agreed : Agreed queue index start.inner)
    (orderly : Execution.Along (WakeLoop.step (loop queue index server)) (Orderly queue) start labels)
    (run : exec (WakeLoop.step (loop queue index server)) start labels = some u) (running : u.Running) :
    Agreed queue index u.inner := by
  refine Execution.invariant_along (fun u => u.Running → Agreed queue index u.inner) ?_ (fun _ => agreed) orderly run running
  intro s label t holds allowed stepped
  apply WakeLoop.step_running _ _ _ holds stepped
  · rintro event rfl agreed
    exact occur_agreed shipped apart found others agreed allowed
  · intro agreed
    simp only [loop]
    split <;> exact agreed
  · rintro round member again rfl agreed ok
    obtain ⟨round, listed, rfl⟩ := List.mem_map.mp member
    exact round_agreed shipped apart found others agreed allowed listed ok

end

/-- The heads that the device completed are the first of those that the driver published. -/
theorem Agreed.completed (shipped : Shipped server) {s : server.Inner} (agreed : Agreed queue index s)
    (found : server.tracked.resources.queues[index]? = some queue.layout) :
    let completed := Abstract.completedOn index s.driver.view.log
    (completed.map Prod.fst).Perm (s.driver.published.take completed.length) ∧
      ((pop server.tracked.resources index s.driver.view).1 = .ok none ↔ completed.length = s.driver.published.length) := by
  obtain ⟨c, coupled⟩ := agreed
  have none : c.outstanding = [] := by
    rw [coupled.device.outstanding]
    simp only [DeviceView.abstract, (shipped.holds_none _).1, Abstract.heldOn_nil]
  have logged : c.completed = Abstract.completedOn index s.driver.view.log := coupled.device.completed
  have counted := coupled.inv.counted
  have handled := coupled.inv.handled
  rw [none, List.length_nil, Nat.add_zero] at counted
  rw [coupled.inv.heads, none, List.map_nil, List.append_nil, ← counted, logged, coupled.published] at handled
  rw [coupled.pop_none_iff found, ← counted, logged, coupled.published]
  exact ⟨handled, Iff.rfl⟩

theorem gated (server : Server) : WakeLoop.Gated (loop queue index server) := by
  have open_iff (s : server.Inner) : ((loop queue index server).gate s).1 = true ↔
      (server.flagged = true → s.kicked = true) := by
    simp only [loop]
    split <;> simp_all
  refine ⟨fun event inner => ?_, fun round member inner => ?_⟩
  · rw [open_iff, open_iff]
    intro opened flagged
    cases event with
    | flag => rfl
    | publish | reap | elsewhere | guest | revoke | host => exact opened flagged
  · obtain ⟨round, -, rfl⟩ := List.mem_map.mp member
    rw [open_iff, open_iff]
    exact id

theorem fresh_agreed (shipped : Shipped server) {start : Driver.State server.tracked.machine}
    (fresh : start.view.log = [] ∧ start.published = [] ∧ start.reaped = [])
    (known : start.view.states[index]? = some .new) (ready : queue.Ready start.view.guest)
    (available : Store.read start.view.guest.flat (queue.layout.available.gpa + 2) 2 = some [0, 0])
    (used : Store.read start.view.guest.flat (queue.layout.used.gpa + 2) 2 = some [0, 0]) :
    Agreed queue index (⟨start, false⟩ : server.Inner) :=
  ⟨_, .initial (shipped.holds_none _) fresh known ready available used⟩

/-- When the loop waits after a `kick()`, every chain that was published before the `kick()` has been completed, unless
the device had no use for the queue at some point since. -/
theorem kicked_chains_completed (shipped : Shipped server) {start : Driver.State server.tracked.machine}
    {first middle rest : List (WakeLoop.Label server.Outside)} {kicking kicked parked : WakeLoop.State Fault server.Inner}
    (fresh : start.view.log = [] ∧ start.published = [] ∧ start.reaped = [])
    (known : start.view.states[index]? = some .new)
    (found : server.tracked.resources.queues[index]? = some queue.layout)
    (ready : queue.Ready start.view.guest) (apart : Contract.RingsApart queue)
    (others : ∀ i layout, i ≠ index → server.tracked.resources.queues[i]? = some layout →
      ∀ a, layout.Used a → ¬Abstract.InRings queue.layout a)
    (available : Store.read start.view.guest.flat (queue.layout.available.gpa + 2) 2 = some [0, 0])
    (used : Store.read start.view.guest.flat (queue.layout.used.gpa + 2) 2 = some [0, 0])
    (before : exec (WakeLoop.step (loop queue index server)) (WakeLoop.initial ⟨start, false⟩)
      (first ++ [.outside .flag]) = some kicking)
    (kick : exec (WakeLoop.step (loop queue index server)) kicking (middle ++ [.kick]) = some kicked)
    (after : exec (WakeLoop.step (loop queue index server)) kicked rest = some parked)
    (orderly : Execution.Along (WakeLoop.step (loop queue index server)) (Orderly queue) (WakeLoop.initial ⟨start, false⟩)
      ((first ++ [.outside .flag]) ++ (middle ++ [.kick] ++ rest)))
    (pc : parked.pc = .awaiting) (wake : parked.wake = ⟨false, .waiting⟩)
    {turn : Turn server.tracked.machine.State server.tracked.resources} (member : turn ∈ server.turns)
    (serves : turn.queue = index) :
    kicking.inner.driver.published.Subperm ((Abstract.completedOn index parked.inner.driver.view.log).map Prod.fst) ∨
      ∃ since, since <+: middle ++ [.kick] ++ rest ∧
        ∃ s, exec (WakeLoop.step (loop queue index server)) kicking since = some s ∧
          turn.idle s.inner.driver.view.backend = true := by
  have begins := fresh_agreed shipped fresh known ready available used
  have opened : ((loop queue index server).gate kicking.inner).1 = true := by
    obtain ⟨s, -, last⟩ := Execution.exec_append_eq_some.mp before
    cases last
    simp only [loop]
    split <;> rfl
  obtain ⟨position, located⟩ := List.getElem?_of_mem member
  have listed : (loop queue index server).rounds[position]? = some (onView turn.round) := by
    have bound := (List.getElem?_eq_some_iff.mp located).1
    simp only [loop, rounds, List.getElem?_map]
    rw [List.getElem?_append_left (by rwa [List.length_map]), List.getElem?_map, located]
    rfl
  have whole := Execution.exec_append_eq_some.mpr ⟨kicked, kick, after⟩
  obtain ⟨since, later, s, round, split, run, here, tried, nothing⟩ := WakeLoop.idled_of_parked (gated server) before opened
    kick after pc wake (List.getElem?_eq_some_iff.mp listed).1
  cases tried.symm.trans listed
  rw [split] at whole orderly ⊢
  obtain ⟨t, ran, remains⟩ := Execution.exec_append_eq_some.mp whole
  cases ran.symm.trans run
  have nothingDone : turn.round s.inner.driver.view = (.ok false, _) := Prod.ext nothing rfl
  rcases turn.empty nothingDone with idle | empty
  · exact .inr ⟨since, List.prefix_append _ _, s, run, idle⟩
  · left
    rw [serves] at empty
    rw [← List.append_assoc] at orderly
    have reached := Execution.exec_append_eq_some.mpr ⟨kicking, before, run⟩
    have middleAgreed : Agreed queue index s.inner :=
      agreed_along shipped apart found others begins (Execution.Along.append.mp orderly).1 reached
        (fun result => by simp [here])
    have parkedAgreed : Agreed queue index parked.inner :=
      agreed_along shipped apart found others begins orderly
        (Execution.exec_append_eq_some.mpr ⟨s, reached, remains⟩) (fun result => by simp [pc])
    have all := (middleAgreed.completed shipped found).2.mp empty
    have early := grown_along shipped run
    have late := grown_along shipped remains
    have long : kicking.inner.driver.published.length ≤
        (Abstract.completedOn index parked.inner.driver.view.log).length :=
      calc kicking.inner.driver.published.length
          ≤ s.inner.driver.published.length := early.published.length_le
        _ = (Abstract.completedOn index s.inner.driver.view.log).length := all.symm
        _ ≤ _ := (late.log.filterMap _).length_le
    have first := List.prefix_take_iff.mpr ⟨early.published.trans late.published, long⟩
    exact first.sublist.subperm.trans (parkedAgreed.completed shipped found).1.symm.subperm

end

def entropyServer : Server := rng Driver.loneResources Tracked.onesEntropy

def entropyLoop : WakeLoop.Loop Fault entropyServer.Inner entropyServer.Outside := loop Driver.loneQueue 0 entropyServer

def entropyStart : WakeLoop.State Fault entropyServer.Inner := WakeLoop.initial ⟨Driver.loneStart, false⟩

/-- The loop takes the permit, serves the chain, finds no other and waits. -/
def entropyPass : List (WakeLoop.Label entropyServer.Outside) :=
  [.advance, .advance, .poll, .advance, .advance, .round, .round, .round, .advance, .advance, .poll]

/-- The device finds the chain of the sample or none. -/
def FindsLone (s : WakeLoop.State Fault entropyServer.Inner) : WakeLoop.Label entropyServer.Outside → Prop
  | .outside (.publish _) | .outside .flag | .kick | .advance | .poll => True
  | .round => (pop Driver.loneResources 0 s.inner.driver.view).1 = .ok (some Driver.loneChain) ∨
      (pop Driver.loneResources 0 s.inner.driver.view).1 = .ok none
  | _ => False

instance (s : WakeLoop.State Fault entropyServer.Inner) : (label : WakeLoop.Label entropyServer.Outside) →
    Decidable (FindsLone s label)
  | .outside (.publish _) | .outside .flag | .kick | .advance | .poll => isTrue trivial
  | .round => inferInstanceAs (Decidable (_ ∨ _))
  | .outside .reap | .outside (.elsewhere _) | .outside (.guest _) | .outside (.revoke _) | .outside (.host _)
  | .stopDown | .stopWake => isFalse id

theorem FindsLone.orderly {s : WakeLoop.State Fault entropyServer.Inner} {label : WakeLoop.Label entropyServer.Outside}
    (finds : FindsLone s label) : Orderly Driver.loneQueue s label := by
  cases label with
  | outside event =>
      cases event with
      | publish | flag => trivial
      | reap | elsewhere | guest | revoke | host => exact finds.elim
  | kick | advance | poll => trivial
  | stopDown | stopWake => exact finds.elim
  | round =>
      rintro i chain (holds | taken) a writable
      · cases holds
      · cases i with
        | succ i => cases taken
        | zero =>
            rcases finds with some | none
            · cases some.symm.trans taken
              exact Driver.loneChain_apart writable
            · cases none.symm.trans taken

theorem kicked_chains_completed_entropy :
    ∃ kicking parked, exec (WakeLoop.step entropyLoop) entropyStart ([.outside (.publish 0)] ++ [.outside .flag]) =
        some kicking ∧
      exec (WakeLoop.step entropyLoop) kicking ([] ++ [.kick] ++ entropyPass) = some parked ∧
      kicking.inner.driver.published = [0] ∧
      kicking.inner.driver.published.Subperm ((Abstract.completedOn 0 parked.inner.driver.view.log).map Prod.fst) := by
  have starts : (exec (WakeLoop.step entropyLoop) entropyStart ([.outside (.publish 0)] ++ [.outside .flag])).map
      (fun s => s.inner.driver.published) = some [0] := by decide +kernel
  obtain ⟨kicking, before, published⟩ := Option.map_eq_some_iff.mp starts
  have ends : (exec (WakeLoop.step entropyLoop) entropyStart
      (([.outside (.publish 0)] ++ [.outside .flag]) ++ ([] ++ [.kick] ++ entropyPass))).map
      (fun s => (s.wake, s.pc)) = some (⟨false, .waiting⟩, .awaiting) := by decide +kernel
  obtain ⟨parked, run, last⟩ := Option.map_eq_some_iff.mp ends
  obtain ⟨wake, pc⟩ := Prod.mk.inj last
  have finds : Execution.Along (WakeLoop.step entropyLoop) FindsLone entropyStart
      (([.outside (.publish 0)] ++ [.outside .flag]) ++ ([] ++ [.kick] ++ entropyPass)) :=
    @of_decide_eq_true _ (Execution.Along.decidable _ _) (by decide +kernel)
  obtain ⟨_, again, after⟩ := Execution.exec_append_eq_some.mp run
  cases before.symm.trans again
  obtain ⟨kicked, kick, waits⟩ := Execution.exec_append_eq_some.mp after
  have others : ∀ i layout, i ≠ 0 → Driver.loneResources.queues[i]? = some layout →
      ∀ a, layout.Used a → ¬Abstract.InRings Driver.loneQueue.layout a := by
    intro i layout distinct found
    obtain ⟨i, rfl⟩ := Nat.exists_eq_succ_of_ne_zero distinct
    cases found
  refine ⟨kicking, parked, before, after, published, ?_⟩
  have done := kicked_chains_completed (Shipped.rng Driver.loneResources Tracked.onesEntropy) ⟨rfl, rfl, rfl⟩ rfl rfl
    (show Driver.loneQueue.Ready Driver.loneStart.view.guest from ⟨rfl, by decide +kernel⟩) (by decide) others
    (by decide +kernel) (by decide +kernel) before kick waits (finds.mono fun _ _ => FindsLone.orderly) pc wake
    List.mem_cons_self rfl
  rcases done with completed | ⟨_, -, _, -, idle⟩
  · exact completed
  · cases idle

end Server

end Libvirtio
