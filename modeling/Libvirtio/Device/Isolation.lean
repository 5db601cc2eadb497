import Libvirtio.Device.Announce
import Libvirtio.Device.Refinement
import Libvirtio.Device.UsedLength

namespace Libvirtio

/-- A machine with its resources and the chains that a state of it holds. -/
structure Tracked where
  machine : Machine
  resources : Resources
  held : machine.State → List (Nat × DescriptorChain)
  lawful : machine.State → Prop

namespace Tracked

def block {F : Type} (host : Block.HostFile F) (device : Block.Device) (resources : Resources) : Tracked where
  machine := Block.machine host device resources
  resources := resources
  held := Block.State.held
  lawful := Block.State.Lawful

def fs (root : Fs.Path) (resources : Resources) : Tracked where
  machine := Fs.machine root resources
  resources := resources
  held := Fs.State.held
  lawful := Fs.State.Lawful

/-- The other devices hold no chain between two rounds. -/
def serial (machine : Machine) (resources : Resources) : Tracked where
  machine := machine
  resources := resources
  held _ := []
  lawful _ := True

inductive Shipped : Tracked → Prop
  | block {F : Type} (host : Block.HostFile F) (device : Block.Device) (resources : Resources) :
      Shipped (block host device resources)
  | fs (root : Fs.Path) (resources : Resources) : Shipped (fs root resources)
  | network {γ : Type} (resources : Resources) (backend : Network.Backend γ) :
      Shipped (serial (Network.machine resources backend) resources)
  | vsock {β : Type} (resources : Resources) (backend : Vsock.Backend β) :
      Shipped (serial (Vsock.machine resources backend) resources)
  | console {β : Type} (resources : Resources) (backend : Console.Backend β) :
      Shipped (serial (Console.machine resources backend) resources)
  | rng {β : Type} (resources : Resources) (entropy : Rng.Entropy β) :
      Shipped (serial (Rng.machine resources entropy) resources)
  | memory {β : Type} (resources : Resources) (backend : Memory.Backend β) :
      Shipped (serial (Memory.machine resources backend) resources)

variable {tracked : Tracked}

theorem Shipped.start (shipped : tracked.Shipped) {state : tracked.machine.State} (idle : tracked.machine.idle state) :
    tracked.held state = [] ∧ tracked.lawful state := by
  cases shipped with
  | block host device resources =>
      refine ⟨?_, fun work member => ?_⟩
      · exact congrArg (List.map _) idle
      · rw [show state.pending = [] from idle] at member
        cases member
  | fs root resources =>
      refine ⟨?_, fun work member => ?_⟩
      · exact congrArg (List.map _) idle
      · rw [show state.pending = [] from idle] at member
        cases member
  | network | vsock | console | rng | memory => exact ⟨rfl, trivial⟩

theorem nextPair_only {γ : Type} (view : DeviceView (Network.State γ)) :
    ∃ backend, (Network.nextPair view).2 = { view with backend } := by
  rw [Network.nextPair, Fallible.bind_of_ok (Fallible.read_apply view)]
  refine ⟨{ view.backend with nextRxPair := (view.backend.nextRxPair + 1) % 2 ^ 64 }, ?_⟩
  rw [Fallible.bind_of_ok (show onBackend _ view = _ from rfl), Fallible.ite_apply]
  split <;> rfl

/-- Every round of every device does to the queues what the abstract device does. -/
theorem Shipped.implements (shipped : tracked.Shipped) (port : tracked.machine.Port) :
    Implements tracked.resources tracked.held tracked.lawful (tracked.machine.round port) := by
  cases shipped with
  | block host device resources =>
      cases port with
      | take index => exact (Block.takeRound_implements index).once
      | finish down position => exact (Block.finishRound_implements down position).once
      | host change => exact .changed (fun _ => rfl) fun _ lawful => lawful
  | fs root resources =>
      cases port with
      | take index => exact (Fs.takeRound_implements index).once
      | finish down host position => exact (Fs.finishRound_implements down position).once
  | network resources backend =>
      cases port with
      | tx pair =>
          refine .once ?_
          rw [Network.txRound_serve]
          exact serve_implements (fun _ _ => Network.txWork_aside) (notify_announcement _ _ _)
      | rx =>
          refine .once ?_
          rw [Network.rxRound_serve]
          refine .read_bind fun _ => .ite (.prelude (fun view => ?_) fun pair => ?_) (.pure false)
          · obtain ⟨backend, same⟩ := nextPair_only view
            exact ⟨backend, same, rfl, id⟩
          · exact serve_implements (fun _ _ => Network.rxWork_aside) (notify_announcement _ _ _)
      | control =>
          refine .once ?_
          rw [Network.controlRound_serve]
          exact serve_implements (fun _ _ => Network.controlWork_aside) (notify_announcement _ _ _)
      | host change => exact .changed (fun _ => rfl) fun _ _ => trivial
  | vsock resources backend =>
      cases port with
      | tx =>
          refine .once ?_
          rw [Vsock.txRound_serve]
          exact serve_implements (fun _ _ => Vsock.txWork_aside) (notify_announcement _ _ _)
      | rx =>
          refine .once ?_
          rw [Vsock.rxRound_serve]
          refine .read_bind fun _ => .ite ?_ (.pure false)
          exact serve_implements (fun _ _ => Vsock.rxWork_aside) (notify_announcement _ _ _)
      | event =>
          refine .once ?_
          rw [Vsock.eventRound_serve]
          exact serve_implements (fun _ _ => .pure trivial) pure_announcement
      | host change => exact .changed (fun _ => rfl) fun _ _ => trivial
  | console resources backend =>
      cases port with
      | transmit =>
          refine .once ?_
          rw [Console.processTransmit_serve]
          exact serve_implements (fun _ _ => Console.transmitWork_aside) (notify_announcement _ _ _)
      | receive =>
          refine .once ?_
          rw [Console.processReceive_serve]
          refine .read_bind fun _ => .ite ?_ (.pure false)
          exact serve_implements (fun _ _ => Console.receiveWork_aside) (notify_announcement _ _ _)
      | host change => exact .changed (fun _ => rfl) fun _ _ => trivial
  | rng resources entropy =>
      refine .once ?_
      rw [Rng.processQueue_serve]
      exact serve_implements (fun _ _ => Rng.fillChain_aside) (notify_announcement _ _ _)
  | memory resources backend =>
      cases port with
      | request =>
          refine .once ?_
          rw [Memory.processRequest_serve]
          exact serve_implements (fun _ _ => Memory.requestWork_aside) (notify_announcement _ _ _)
      | host change => exact .changed (fun _ => rfl) fun _ _ => trivial

theorem Shipped.framed (shipped : tracked.Shipped) (port : tracked.machine.Port) {view : DeviceView tracked.machine.State}
    (lawful : tracked.lawful view.backend) :
    Abstract.Framed (view.abstract (tracked.held view.backend))
      ((tracked.machine.round port view).2.abstract (tracked.held (tracked.machine.round port view).2.backend)) := by
  obtain ⟨-, actions, realized, -⟩ := shipped.implements port view lawful
  exact Abstract.trace_framed realized.trace

theorem Shipped.lawful_along (shipped : tracked.Shipped) {start view : DeviceView tracked.machine.State}
    {labels : List (Machine.Label tracked.machine)} (idle : tracked.machine.idle start.backend)
    (run : exec tracked.machine.step start labels = some view) : tracked.lawful view.backend := by
  refine Execution.invariant (fun view => tracked.lawful view.backend) ?_ (shipped.start idle).2 run
  intro before label after lawful stepped
  cases label with
  | guest host leasesLeft =>
      cases stepped
      exact lawful
  | round port =>
      cases stepped
      exact (shipped.implements port before lawful).1

/-- The chains that a next round can work on: those that the device holds, and the next one of each queue. -/
def InHand (tracked : Tracked) (view : DeviceView tracked.machine.State) (index : Nat) (chain : DescriptorChain) : Prop :=
  (index, chain) ∈ tracked.held view.backend ∨ (pop tracked.resources index view).1 = .ok (some chain)

/-- The round takes the chain: the queue returns it, and the device is one further in the queue after the round. -/
def Takes (tracked : Tracked) (port : tracked.machine.Port) (view : DeviceView tracked.machine.State) (index : Nat)
    (chain : DescriptorChain) : Prop :=
  (pop tracked.resources index view).1 = .ok (some chain) ∧
    ∃ state next, view.states[index]? = some state ∧
      (tracked.machine.round port view).2.states[index]? = some next ∧
      next.lastAvailable = state.lastAvailable + 1

theorem takes_of_realized {port : tracked.machine.Port} {view : DeviceView tracked.machine.State}
    {held held' : List (Nat × DescriptorChain)} {actions : List Abstract.Action} {index : Nat} {chain : DescriptorChain}
    (realized : Realized tracked.resources view held held' (tracked.machine.round port view) actions)
    (first : TakesFirst tracked.resources view actions) (member : .take index chain ∈ actions) :
    tracked.Takes port view index chain := by
  obtain ⟨popped, one⟩ := first.taken member
  have known : ∃ state, view.states[index]? = some state := by
    rcases onQueue_cases tracked.resources index VirtQueue.pop view held with
      ⟨fault, failed⟩ | ⟨_, state, _, _, configured, -⟩
    · cases popped.symm.trans (congrArg Prod.fst failed)
    · exact ⟨state, configured.known⟩
  obtain ⟨state, known⟩ := known
  have moved := Abstract.trace_available index realized.trace
  rw [one, DeviceView.abstract, DeviceView.abstract, known, Option.map_some] at moved
  obtain ⟨next, found, further⟩ := Option.map_eq_some_iff.mp moved
  exact ⟨popped, state, next, known, found, further⟩

/-- After any run, a round of a device, whether it fails or not, changes a host byte only if that byte is mapped at a
guest address that a chain offers for writing, or at one of the used ring that the chain goes to, and the device holds
the chain or takes it in this round. -/
theorem writes_in_hand (shipped : tracked.Shipped) {start view : DeviceView tracked.machine.State}
    {labels : List (Machine.Label tracked.machine)} (idle : tracked.machine.idle start.backend)
    (run : exec tracked.machine.step start labels = some view) (port : tracked.machine.Port) {b : Nat}
    (changed : (tracked.machine.round port view).2.guest.host b ≠ view.guest.host b) :
    ∃ index chain, ((index, chain) ∈ tracked.held view.backend ∨ tracked.Takes port view index chain) ∧
      ∃ a, view.guest.memory.hostAddress a = some b ∧
        (chain.Writable a ∨ ∃ layout, tracked.resources.queues[index]? = some layout ∧ layout.Used a) := by
  obtain ⟨-, actions, realized, first⟩ := shipped.implements port view (shipped.lawful_along idle run)
  by_contra outside
  apply changed
  refine (Abstract.trace_touched realized.trace).host b ?_
  rintro ⟨a, located, index, chain, hands, reach⟩
  exact outside ⟨index, chain, hands.imp_right (takes_of_realized realized first), a, located, reach⟩

def onesEntropy : Rng.Entropy Unit := ⟨fun n _ => (List.replicate n 1, ()), fun _ _ => List.length_replicate⟩

theorem writes_in_hand_entropy :
    ∃ index chain, (serial (Rng.machine Machine.ringResources onesEntropy) Machine.ringResources).Takes ()
        (Machine.ringView ⟨64, 4, virtqDescFWrite, 0⟩ []) index chain ∧
      ∃ a, (Machine.ringView ⟨64, 4, virtqDescFWrite, 0⟩ []).guest.memory.hostAddress a = some 65 ∧
        (chain.Writable a ∨ ∃ layout, Machine.ringResources.queues[index]? = some layout ∧ layout.Used a) := by
  obtain ⟨index, chain, hands, reach⟩ := @writes_in_hand _ (.rng Machine.ringResources onesEntropy)
    (Machine.ringView ⟨64, 4, virtqDescFWrite, 0⟩ []) _ [] trivial rfl () 65 (by decide +kernel)
  exact ⟨index, chain, hands.resolve_left List.not_mem_nil, reach⟩

/-- Whatever the guest does, as long as no round fails the two indices of every queue are the number of chains that the
device completed and, with those it still holds, took. -/
theorem indices_conserved (shipped : tracked.Shipped) {start view : DeviceView tracked.machine.State}
    {labels : List (Machine.Label tracked.machine)} (idle : tracked.machine.idle start.backend)
    (fresh : start.log = [] ∧ ∀ state ∈ start.states, state = .new)
    (succeeds : Execution.Along tracked.machine.step tracked.machine.Succeeds start labels)
    (run : exec tracked.machine.step start labels = some view) {index : Nat} {state : QueueState}
    (known : view.states[index]? = some state) :
    state.nextUsed = UInt16.ofNat (Abstract.completedOn index view.log).length ∧
      state.lastAvailable = UInt16.ofNat ((Abstract.completedOn index view.log).length +
        (Abstract.heldOn index (tracked.held view.backend)).length) := by
  have begins : Abstract.Counted (start.abstract (tracked.held start.backend)) := by
    intro index state known
    rw [(shipped.start idle).1]
    simp only [DeviceView.abstract] at known ⊢
    rw [fresh.2 state (List.mem_of_getElem? known), fresh.1]
    exact ⟨rfl, rfl⟩
  have counted := Execution.invariant_along (fun view => tracked.lawful view.backend ∧
    Abstract.Counted (view.abstract (tracked.held view.backend))) ?_ ⟨(shipped.start idle).2, begins⟩ succeeds run
  · exact counted.2 index state known
  · rintro before label after ⟨lawful, counted⟩ ok stepped
    cases label with
    | guest host leasesLeft =>
        cases stepped
        exact ⟨lawful, counted⟩
    | round port =>
        cases stepped
        obtain ⟨still, actions, realized, -⟩ := shipped.implements port before lawful
        exact ⟨still, Abstract.trace_counted realized.trace (realized.clean () ok) counted⟩

theorem indices_conserved_entropy :
    ∃ view, exec (Machine.step (Rng.machine Machine.ringResources onesEntropy))
        (Machine.ringView ⟨64, 4, virtqDescFWrite, 0⟩ []) [.round (), .round ()] = some view ∧
      view.states[0]? = some ⟨1, 1⟩ ∧ (1 : UInt16) = UInt16.ofNat (Abstract.completedOn 0 view.log).length := by
  have ends : (exec (Machine.step (Rng.machine Machine.ringResources onesEntropy))
      (Machine.ringView ⟨64, 4, virtqDescFWrite, 0⟩ []) [.round (), .round ()]).map (fun view => view.states[0]?) =
      some (some ⟨1, 1⟩) := by decide +kernel
  have succeeds : Execution.Along (Machine.step (Rng.machine Machine.ringResources onesEntropy))
      (Machine.Succeeds (Rng.machine Machine.ringResources onesEntropy))
      (Machine.ringView ⟨64, 4, virtqDescFWrite, 0⟩ []) [.round (), .round ()] :=
    @of_decide_eq_true _ (Execution.Along.decidable _ _) (by decide +kernel)
  obtain ⟨view, run, known⟩ := Option.map_eq_some_iff.mp ends
  refine ⟨view, run, known, ?_⟩
  exact (@indices_conserved _ (.rng Machine.ringResources onesEntropy) _ _ _ trivial ⟨rfl, by decide⟩
    succeeds run _ _ known).1

end Tracked

end Libvirtio
