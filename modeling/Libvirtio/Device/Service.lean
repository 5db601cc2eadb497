import Libvirtio.Device.Abstract

namespace Libvirtio

section
variable {β : Type} {resources : Resources}

theorem eq_serve {index : Nat} {work : DescriptorChain → DeviceM β UInt32} {announce : DeviceM β Unit}
    {body : Option DescriptorChain → DeviceM β Bool} (absent : body none = pure false)
    (present : ∀ chain, body (some chain) = finish resources index chain (work chain) announce) :
    (pop resources index >>= body) = serve resources index work announce := by
  unfold serve
  congr 1
  funext popped
  cases popped with
  | none => exact absent
  | some chain => exact present chain

end

namespace Console
variable {β : Type} (resources : Resources) (backend : Backend β)

def transmitWork (chain : DescriptorChain) : DeviceM β UInt32 := do
  let bytes ← onDma (readChain chain)
  tryBackend (backend.writeOutput bytes)
  pure 0

def receiveWork (chain : DescriptorChain) : DeviceM β UInt32 := do
  let capacity ← ofResult (writableCapacity chain)
  let bytes ← readInput backend capacity
  onDma (writeChain chain bytes)
  ofResult (inputLength bytes)

theorem processTransmit_serve : processTransmit resources backend =
    serve resources queueTransmit (transmitWork backend) (notify resources queueTransmit (.ok (.queue 1 1))) :=
  eq_serve rfl fun chain => by simp only [finish, transmitWork, Fallible.bind_assoc, Fallible.pure_bind]

theorem processReceive_serve : processReceive resources backend = (do
    let view ← Fallible.read
    if backend.hasInput view.backend then
      serve resources queueReceive (receiveWork backend) (notify resources queueReceive (.ok (.queue 0 0)))
    else pure false) := by
  unfold processReceive
  congr 1
  funext view
  congr 1
  exact eq_serve rfl fun chain => by simp only [finish, receiveWork, Fallible.bind_assoc]

end Console

theorem Rng.processQueue_serve {β : Type} (entropy : Entropy β) (resources : Resources) : processQueue entropy resources =
    serve resources queueRng (fillChain entropy) (notify resources queueRng (.ok (.queue 0 0))) :=
  eq_serve rfl fun _ => rfl

namespace Memory
variable {β : Type} (resources : Resources) (backend : Backend β)

def requestWork (chain : DescriptorChain) : DeviceM β UInt32 := do
  let request ← onDma (parseRequest chain)
  let response ← tryBackend (backend.handle request)
  writeResponse chain response
  pure (UInt32.ofNat responseSize)

theorem processRequest_serve : processRequest resources backend =
    serve resources requestQueue (requestWork backend) (notify resources requestQueue (.ok (.queue 0 0))) :=
  eq_serve rfl fun chain => by simp only [finish, requestWork, Fallible.bind_assoc, Fallible.pure_bind]

end Memory

namespace Network
variable {γ : Type} (resources : Resources) (backend : Backend γ)

def announce (index : Nat) : DeviceM (State γ) Unit :=
  notify resources index (do
    let queueIndex ← expectU16 index "fixed queue index"
    let vector ← expectU16 index "fixed vector"
    pure (.queue queueIndex vector))

def txWork (chain : DescriptorChain) : DeviceM (State γ) UInt32 := do
  let frame ← onDma (readTxFrame chain)
  tryBackend (onHost (backend.transmit frame))
  pure 0

def rxWork (chain : DescriptorChain) : DeviceM (State γ) UInt32 := do
  let frame ← takeFrame backend
  onDma (writeRxFrame chain frame)

def controlWork (chain : DescriptorChain) : DeviceM (State γ) UInt32 := do
  let status ← handleControl resources chain
  writeControlStatus chain status
  pure 1

theorem txRound_serve (pair : Nat) : txRound resources backend pair =
    serve resources (txQueue pair) (txWork backend) (announce resources (txQueue pair)) :=
  eq_serve rfl fun chain => by simp only [finish, txWork, complete, announce, Fallible.bind_assoc, Fallible.pure_bind]

theorem rxRound_serve : rxRound resources backend = (do
    let view ← Fallible.read
    if backend.hasFrame view.backend.backend then do
      let pair ← nextPair
      serve resources (rxQueue pair) (rxWork backend) (announce resources (rxQueue pair))
    else pure false) := by
  unfold rxRound
  congr 1
  funext view
  congr 2
  funext pair
  exact eq_serve rfl fun chain => by simp only [finish, rxWork, complete, announce, Fallible.bind_assoc]

theorem controlRound_serve : (controlRound resources : DeviceM (State γ) Bool) =
    serve resources (controlQueue (maximumQueuePairs resources)) (controlWork resources)
      (announce resources (controlQueue (maximumQueuePairs resources))) :=
  eq_serve rfl fun chain => by
    simp only [finish, controlPass, controlWork, complete, announce, Fallible.bind_assoc, Fallible.pure_bind]

end Network

namespace Vsock
variable {β : Type} (resources : Resources) (backend : Backend β)

def txWork (chain : DescriptorChain) : DeviceM β UInt32 := do
  let packet ← onDma (readPacket chain)
  ofResult (validatePacketType resources packet)
  tryBackend (backend.receivePacket packet)
  pure (txLength packet)

def rxWork (chain : DescriptorChain) : DeviceM β UInt32 := do
  let packet ← takePacket backend
  ofResult (validatePacketType resources packet)
  let bytes ← ofResult (packetBytes packet)
  onDma (writePacket chain bytes)
  ofResult (rxLength bytes)

theorem txRound_serve : txRound resources backend =
    serve resources queueTx (txWork resources backend) (notifyQueue resources queueTx) :=
  eq_serve rfl fun chain => by simp only [finish, txWork, Fallible.bind_assoc, Fallible.pure_bind]

theorem rxRound_serve : rxRound resources backend = (do
    let view ← Fallible.read
    if backend.hasPacket view.backend then
      serve resources queueRx (rxWork resources backend) (notifyQueue resources queueRx)
    else pure false) := by
  unfold rxRound
  congr 1
  funext view
  congr 1
  exact eq_serve rfl fun chain => by simp only [finish, rxWork, Fallible.bind_assoc]

theorem eventRound_serve : (eventRound resources : DeviceM β Bool) =
    serve resources queueEvent (fun _ => pure 0) (pure ()) :=
  eq_serve rfl fun _ => by simp only [finish, Fallible.pure_bind]

end Vsock

end Libvirtio
