import Libvirtio.Device.Basic

namespace Libvirtio.Network

def virtioFVersion1 : UInt64 := 0x100000000
def virtioNetFMac : UInt64 := 0x20
def virtioNetFStatus : UInt64 := 0x10000
def virtioNetFCtrlVq : UInt64 := 0x20000
def virtioNetFMq : UInt64 := 0x400000
def virtioNetCtrlMq : UInt8 := 4
def virtioNetCtrlMqVqPairsSet : UInt8 := 0
def virtioNetOk : UInt8 := 0
def virtioNetErr : UInt8 := 1
def headerSize : Nat := 12
def maximumFrameSize : Nat := 65536

structure Backend (γ : Type) where
  transmit : List UInt8 → γ → Except DeviceError Unit × γ
  hasFrame : γ → Bool
  takeFrame : γ → Option (List UInt8) × γ

structure NetworkSpec where
  mac : Vector UInt8 6
  queuePairs : Nat
  maximumQueueSize : UInt16
  deriving DecidableEq, Repr

def NetworkSpec.new (mac : Vector UInt8 6) (queuePairs : Nat) (maximumQueueSize : UInt16) :
    Except DeviceError NetworkSpec :=
  if queuePairs = 0 ∨ queuePairs > 65535 then .error (.invalidLayout "invalid virtio-net queue pair count")
  else if maximumQueueSize = 0 ∨ isPowerOfTwo maximumQueueSize = false then
    .error (.invalidLayout "invalid virtio-net queue size")
  else if mac = Vector.replicate 6 0 ∨ mac[0] &&& 1 ≠ 0 then .error (.invalidLayout "invalid virtio-net MAC address")
  else .ok { mac, queuePairs, maximumQueueSize }

def NetworkSpec.layout (spec : NetworkSpec) : DeviceLayout where
  queueCount := spec.queuePairs * 2 + 1
  maximumQueueSize := spec.maximumQueueSize
  notifierCount := spec.queuePairs * 2 + 2
  requiredFeatures := virtioFVersion1
  optionalFeatures := virtioNetFMac ||| virtioNetFStatus ||| virtioNetFCtrlVq ||| virtioNetFMq

structure State (γ : Type) where
  backend : γ
  activeQueuePairs : Nat
  nextRxPair : Nat

def rxQueue (pair : Nat) : Nat := pair * 2

def txQueue (pair : Nat) : Nat := pair * 2 + 1

def controlQueue (queuePairs : Nat) : Nat := queuePairs * 2

def readChain (chain : DescriptorChain) : DmaM (List UInt8) := readDescriptors chain.descriptors

def readTxFrame (chain : DescriptorChain) : DmaM (List UInt8) :=
  if chain.descriptors.any Descriptor.writable then Fallible.fail (.descriptor "virtio-net TX chain is writable")
  else do
    let bytes ← readChain chain
    if bytes.length ≤ headerSize ∨ bytes.length - headerSize > maximumFrameSize then
      Fallible.fail (.descriptor "invalid virtio-net TX frame length")
    else pure (bytes.drop headerSize)

def writeChain (chain : DescriptorChain) (bytes : List UInt8) : DmaM Unit := do
  let capacity ← Fallible.ofExcept (capacityFrom "virtio-net RX capacity overflows usize" chain.descriptors 0)
  if capacity < bytes.length then Fallible.fail (.descriptor "virtio-net RX chain is too short")
  else copyDescriptors bytes chain.descriptors 0

def writeRxFrame (chain : DescriptorChain) (frame : List UInt8) : DmaM UInt32 :=
  if frame = [] ∨ frame.length > maximumFrameSize then
    Fallible.fail (.descriptor "invalid virtio-net RX frame length")
  else if chain.descriptors.any (fun d => !d.writable) then
    Fallible.fail (.descriptor "virtio-net RX chain is readable")
  else do
    let bytes := List.replicate headerSize 0 ++ frame
    writeChain chain bytes
    if bytes.length < 2 ^ 32 then pure (UInt32.ofNat bytes.length)
    else Fallible.fail (.descriptor "virtio-net used length overflow")

def readChainRange (address length : Nat) : DmaM (List UInt8) := do
  let parts ← lease ⟨address, length⟩
  let guest ← Fallible.read
  let bytes := gather guest.host parts
  if bytes.length ≠ length then Fallible.fail (.descriptor "short virtio-net control read") else pure bytes

section
variable {γ : Type} (resources : Resources)

def maximumQueuePairs : Nat := (resources.queues.length - 1) / 2

def handleControl (chain : DescriptorChain) : DeviceM (State γ) UInt8 :=
  match chain.descriptors with
  | header :: data :: _ =>
      if header.writable ∨ header.length ≠ 2 then raise (.descriptor "invalid virtio-net control header")
      else do
        let command ← onDma (readChainRange header.address.toNat 2)
        if command ≠ [virtioNetCtrlMq, virtioNetCtrlMqVqPairsSet] then pure virtioNetErr
        else if data.writable ∨ data.length ≠ 2 then raise (.descriptor "invalid virtio-net queue-pair request")
        else do
          let bytes ← onDma (readChainRange data.address.toNat 2)
          let pairs := LittleEndian.decode bytes
          if pairs = 0 ∨ pairs > maximumQueuePairs resources then pure virtioNetErr
          else do
            onBackend fun state => ((), { state with activeQueuePairs := pairs })
            pure virtioNetOk
  | _ => raise (.descriptor "virtio-net control chain is too short")

def storeFirst (value : UInt8) : List DmaPart → DeviceM (State γ) Unit
  | [] => Fallible.fail (.panic "index out of bounds")
  | part :: _ =>
      if part.length = 0 then Fallible.fail (.panic "index out of bounds")
      else Fallible.update fun view =>
        { view with guest := { view.guest with host := Store.save view.guest.host part.base [value] } }

def writeControlStatus (chain : DescriptorChain) (status : UInt8) : DeviceM (State γ) Unit :=
  match chain.descriptors.getLast? with
  | none => Fallible.fail (.panic "checked control chain length")
  | some descriptor =>
      if ¬descriptor.writable ∨ descriptor.length ≠ 1 then raise (.descriptor "invalid virtio-net control status")
      else do
        let parts ← onDma (lease ⟨descriptor.address.toNat, 1⟩)
        storeFirst status parts

variable (backend : Backend γ)

def complete (index : Nat) (chain : DescriptorChain) (usedLength : UInt32) : DeviceM (State γ) Unit := do
  completeQueue resources index chain usedLength
  notify resources index (do
    let queueIndex ← expectU16 index "fixed queue index"
    let vector ← expectU16 index "fixed vector"
    pure (.queue queueIndex vector))

def onHost {α : Type} (call : γ → α × γ) (state : State γ) : α × State γ :=
  ((call state.backend).1, { state with backend := (call state.backend).2 })

-- The `usize` counter wraps; a remainder by no active pair panics.
def nextPair : DeviceM (State γ) Nat := do
  let view ← Fallible.read
  let active := view.backend.activeQueuePairs
  let current := view.backend.nextRxPair
  onBackend fun state => ((), { state with nextRxPair := (current + 1) % 2 ^ 64 })
  if active = 0 then Fallible.fail (.panic "attempt to calculate the remainder with a divisor of zero")
  else pure (current % active)

def txRound (pair : Nat) : DeviceM (State γ) Bool := do
  let popped ← pop resources (txQueue pair)
  match popped with
  | none => pure false
  | some chain => do
      let frame ← onDma (readTxFrame chain)
      tryBackend (onHost (backend.transmit frame))
      complete resources (txQueue pair) chain 0
      pure true

def takeFrame : DeviceM (State γ) (List UInt8) := do
  let taken ← onBackend (onHost backend.takeFrame)
  match taken with
  | none => raise (.descriptor "virtio-net frame disappeared")
  | some frame => pure frame

def rxRound : DeviceM (State γ) Bool := do
  let view ← Fallible.read
  if backend.hasFrame view.backend.backend then do
    let pair ← nextPair
    let popped ← pop resources (rxQueue pair)
    match popped with
    | none => pure false
    | some chain => do
        let frame ← takeFrame backend
        let usedLength ← onDma (writeRxFrame chain frame)
        complete resources (rxQueue pair) chain usedLength
        pure true
  else pure false

/-- The pass over one chain, and the status that it answers with. -/
def controlPass (chain : DescriptorChain) : DeviceM (State γ) UInt8 := do
  let status ← handleControl resources chain
  writeControlStatus chain status
  complete resources (controlQueue (maximumQueuePairs resources)) chain 1
  pure status

def controlRound : DeviceM (State γ) Bool := do
  let popped ← pop resources (controlQueue (maximumQueuePairs resources))
  match popped with
  | none => pure false
  | some chain => do
      let _ ← controlPass resources chain
      pure true

/-- Where the loop is: waiting for a `kick()`, in one of the three loops of a pass, or left with a fault. -/
inductive Pc where
  | parked
  | control
  | tx (pair activeQueuePairs : Nat)
  | rx
  | returned (fault : Fault)
  deriving DecidableEq

structure Device (γ : Type) where
  view : DeviceView (State γ)
  pc : Pc

def NetworkSpec.activate (spec : NetworkSpec) (guest : GuestMemory) (host : γ) : Except DeviceError (Device γ) := do
  resources.validate guest.memory spec.layout
  pure {
    view := {
      guest
      states := List.replicate resources.queues.length QueueState.new
      backend := { backend := host, activeQueuePairs := 1, nextRxPair := 0 }
      log := [] }
    pc := .parked }

inductive Label (γ : Type) where
  | guest (host : Nat → UInt8) (leasesLeft : Option Nat)
  | host (change : γ → γ)
  | kick
  | round

def ran (again finished : DeviceView (State γ) → Pc) : Except Fault Bool × DeviceView (State γ) → Device γ
  | (.ok true, view) => ⟨view, again view⟩
  | (.ok false, view) => ⟨view, finished view⟩
  | (.error fault, view) => ⟨view, .returned fault⟩

def round (s : Device γ) : Option (Device γ) :=
  match s.pc with
  | .parked | .returned _ => none
  | .control => some (ran (fun _ => .control) (fun view => .tx 0 view.backend.activeQueuePairs)
      (controlRound resources s.view))
  | .tx pair active =>
      if pair < active then
        some (ran (fun _ => .tx pair active) (fun _ => .tx (pair + 1) active) (txRound resources backend pair s.view))
      else some { s with pc := .rx }
  | .rx => some (ran (fun _ => .rx) (fun _ => .parked) (rxRound resources backend s.view))

def step (s : Device γ) : Label γ → Option (Device γ)
  | .guest host leasesLeft => some { s with view := { s.view with guest := { s.view.guest with host, leasesLeft } } }
  | .host change => some { s with
      view := { s.view with backend := { s.view.backend with backend := change s.view.backend.backend } } }
  | .kick => match s.pc with
      | .parked => some { s with pc := .control }
      | _ => some s
  | .round => round resources backend s

end

end Libvirtio.Network
