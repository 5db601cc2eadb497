import Libvirtio.Block.Device
import Libvirtio.Device.Console
import Libvirtio.Device.Memory
import Libvirtio.Device.Network
import Libvirtio.Device.Rng
import Libvirtio.Device.Vsock
import Libvirtio.Fs.Device

/-!
# The devices as machines

Each device is the set of rounds that its loops repeat. A run is any sequence of rounds, with a guest that writes its
memory in between.
-/

namespace Libvirtio

inductive Kind where
  | block | fs | network | vsock | console | rng | memory
  deriving DecidableEq, Repr

/-- A round may also be a change that the host makes to what is behind the backend. No request is in flight in an
`idle` state. -/
structure Machine where
  kind : Kind
  State : Type
  Port : Type
  round : Port → DeviceM State Unit
  idle : State → Prop

def changed {β : Type} (change : β → β) : DeviceM β Unit := onBackend fun state => ((), change state)

def once {β : Type} (round : DeviceM β Bool) : DeviceM β Unit := do
  let _ ← round
  pure ()

inductive Block.Port (F : Type) where
  | take (index : Nat)
  | finish (down : Bool) (position : Nat)
  | host (change : F → F)

def Block.machine {F : Type} (host : HostFile F) (device : Block.Device) (resources : Resources) : Machine where
  kind := .block
  State := State F
  Port := Port F
  round
    | .take index => once (takeRound resources index)
    | .finish down position => once (finishRound resources host device down position)
    | .host change => changed fun state => { state with file := change state.file }
  idle state := state.pending = []

inductive Fs.Port where
  | take (index : Nat)
  | finish (down : Bool) (host : Host) (position : Nat)

def Fs.machine (root : Path) (resources : Resources) : Machine where
  kind := .fs
  State := State
  Port := Port
  round
    | .take index => once (takeRound resources index)
    | .finish down host position => once (finishRound resources down root host position)
  idle state := state.pending = []

inductive Network.Port (γ : Type) where
  | tx (pair : Nat)
  | rx
  | control
  | host (change : γ → γ)

def Network.machine {γ : Type} (resources : Resources) (backend : Backend γ) : Machine where
  kind := .network
  State := State γ
  Port := Port γ
  round
    | .tx pair => once (txRound resources backend pair)
    | .rx => once (rxRound resources backend)
    | .control => once (controlRound resources)
    | .host change => changed fun state => { state with backend := change state.backend }
  idle _ := True

inductive Vsock.Port (β : Type) where
  | tx
  | rx
  | event
  | host (change : β → β)

def Vsock.machine {β : Type} (resources : Resources) (backend : Backend β) : Machine where
  kind := .vsock
  State := β
  Port := Port β
  round
    | .tx => once (txRound resources backend)
    | .rx => once (rxRound resources backend)
    | .event => once (eventRound resources)
    | .host change => changed change
  idle _ := True

inductive Console.Port (β : Type) where
  | transmit
  | receive
  | host (change : β → β)

def Console.machine {β : Type} (resources : Resources) (backend : Backend β) : Machine where
  kind := .console
  State := β
  Port := Port β
  round
    | .transmit => once (processTransmit resources backend)
    | .receive => once (processReceive resources backend)
    | .host change => changed change
  idle _ := True

def Rng.machine {β : Type} (resources : Resources) (entropy : Entropy β) : Machine where
  kind := .rng
  State := β
  Port := Unit
  round _ := once (processQueue entropy resources)
  idle _ := True

inductive Memory.Port (β : Type) where
  | request
  | host (change : β → β)

def Memory.machine {β : Type} (resources : Resources) (backend : Backend β) : Machine where
  kind := .memory
  State := β
  Port := Port β
  round
    | .request => once (processRequest resources backend)
    | .host change => changed change
  idle _ := True

/-- The seven devices, with any resources, images, backends and sources of entropy. -/
inductive Shipped : Machine → Prop
  | block {F : Type} (host : Block.HostFile F) (device : Block.Device) (resources : Resources) :
      Shipped (Block.machine host device resources)
  | fs (root : Fs.Path) (resources : Resources) : Shipped (Fs.machine root resources)
  | network {γ : Type} (resources : Resources) (backend : Network.Backend γ) :
      Shipped (Network.machine resources backend)
  | vsock {β : Type} (resources : Resources) (backend : Vsock.Backend β) : Shipped (Vsock.machine resources backend)
  | console {β : Type} (resources : Resources) (backend : Console.Backend β) :
      Shipped (Console.machine resources backend)
  | rng {β : Type} (resources : Resources) (entropy : Rng.Entropy β) : Shipped (Rng.machine resources entropy)
  | memory {β : Type} (resources : Resources) (backend : Memory.Backend β) :
      Shipped (Memory.machine resources backend)

namespace Machine

/-- Between two rounds the guest may write all of its memory, and a revocation may come near. -/
inductive Label (machine : Machine) where
  | guest (host : Nat → UInt8) (leasesLeft : Option Nat)
  | round (port : machine.Port)

def step (machine : Machine) (view : DeviceView machine.State) : Label machine → Option (DeviceView machine.State)
  | .guest host leasesLeft => some { view with guest := { view.guest with host, leasesLeft } }
  | .round port => some (machine.round port view).2

end Machine

end Libvirtio
