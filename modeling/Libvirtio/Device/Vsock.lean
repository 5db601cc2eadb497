import Libvirtio.Device.Basic

namespace Libvirtio.Vsock

def virtioVsockFSeqpacket : UInt64 := (1 : UInt64) <<< 1
def vsockTypeStream : UInt16 := 1
def vsockTypeSeqpacket : UInt16 := 2
def queueRx : Nat := 0
def queueTx : Nat := 1
def queueEvent : Nat := 2
def headerSize : Nat := 44
def maximumPacketSize : Nat := 64 * 1024

structure Header where
  sourceCid : UInt64
  destinationCid : UInt64
  sourcePort : UInt32
  destinationPort : UInt32
  length : UInt32
  packetType : UInt16
  operation : UInt16
  flags : UInt32
  bufferAllocation : UInt32
  forwardCount : UInt32
  deriving DecidableEq, Repr

def Header.decode (bytes : List UInt8) : Except DeviceError Header :=
  if bytes.length ≠ headerSize then .error (.descriptor "invalid virtio-vsock header length")
  else .ok {
    sourceCid := UInt64.ofNat (field bytes 0 8)
    destinationCid := UInt64.ofNat (field bytes 8 8)
    sourcePort := UInt32.ofNat (field bytes 16 4)
    destinationPort := UInt32.ofNat (field bytes 20 4)
    length := UInt32.ofNat (field bytes 24 4)
    packetType := UInt16.ofNat (field bytes 28 2)
    operation := UInt16.ofNat (field bytes 30 2)
    flags := UInt32.ofNat (field bytes 32 4)
    bufferAllocation := UInt32.ofNat (field bytes 36 4)
    forwardCount := UInt32.ofNat (field bytes 40 4) }

def Header.encode (header : Header) : List UInt8 :=
  LittleEndian.encode 8 header.sourceCid.toNat ++ LittleEndian.encode 8 header.destinationCid.toNat ++
    LittleEndian.encode 4 header.sourcePort.toNat ++ LittleEndian.encode 4 header.destinationPort.toNat ++
    LittleEndian.encode 4 header.length.toNat ++ LittleEndian.encode 2 header.packetType.toNat ++
    LittleEndian.encode 2 header.operation.toNat ++ LittleEndian.encode 4 header.flags.toNat ++
    LittleEndian.encode 4 header.bufferAllocation.toNat ++ LittleEndian.encode 4 header.forwardCount.toNat

structure Packet where
  header : Header
  payload : List UInt8
  deriving DecidableEq, Repr

def Packet.validate (packet : Packet) : Except DeviceError Unit :=
  if ¬(packet.header.packetType = vsockTypeStream ∨ packet.header.packetType = vsockTypeSeqpacket) ∨
      packet.header.length.toNat ≠ packet.payload.length ∨ packet.payload.length > maximumPacketSize then
    .error (.descriptor "invalid virtio-vsock packet")
  else .ok ()

structure Backend (β : Type) where
  receivePacket : Packet → β → Except DeviceError Unit × β
  hasPacket : β → Bool
  takePacket : β → Option Packet × β

def readChain (chain : DescriptorChain) : DmaM (List UInt8) := readDescriptors chain.descriptors

def readPacket (chain : DescriptorChain) : DmaM Packet :=
  if chain.descriptors.any Descriptor.writable then Fallible.fail (.descriptor "vsock TX chain is writable")
  else do
    let bytes ← readChain chain
    if bytes.length < headerSize then Fallible.fail (.descriptor "short virtio-vsock TX chain")
    else do
      let header ← Fallible.ofExcept (Header.decode (bytes.take headerSize))
      if bytes.length ≠ headerSize + header.length.toNat then
        Fallible.fail (.descriptor "virtio-vsock TX chain length mismatch")
      else do
        let packet := { header, payload := bytes.drop headerSize }
        Fallible.ofExcept packet.validate
        pure packet

def packetBytes (packet : Packet) : Except DeviceError (List UInt8) := do
  packet.validate
  pure (packet.header.encode ++ packet.payload)

def writePacket (chain : DescriptorChain) (bytes : List UInt8) : DmaM Unit :=
  if chain.descriptors.any (fun d => !d.writable) then Fallible.fail (.descriptor "vsock RX chain is readable")
  else do
    let capacity ← Fallible.ofExcept (capacityFrom "vsock RX capacity overflows usize" chain.descriptors 0)
    if capacity < bytes.length then Fallible.fail (.descriptor "virtio-vsock RX chain is too short")
    else copyDescriptors bytes chain.descriptors 0

section
variable {β : Type} (resources : Resources) (backend : Backend β)

-- Streams are always on; only the other type is negotiated.
def validatePacketType (packet : Packet) : Except DeviceError Unit :=
  if packet.header.packetType = vsockTypeStream ∨ (packet.header.packetType = vsockTypeSeqpacket ∧
      resources.negotiatedFeatures &&& virtioVsockFSeqpacket ≠ 0) then .ok ()
  else .error (.descriptor "virtio-vsock packet type was not negotiated")

def notifyQueue (queue : Nat) : DeviceM β Unit :=
  notify resources queue (do
    let queueIndex ← expectU16 queue "fixed queue index"
    let vector ← expectU16 queue "fixed queue vector"
    pure (.queue queueIndex vector))

-- `saturating_add` in 32 bits.
def txLength (packet : Packet) : UInt32 := UInt32.ofNat (min (packet.header.length.toNat + headerSize) (2 ^ 32 - 1))

def txRound : DeviceM β Bool := do
  let popped ← pop resources queueTx
  match popped with
  | none => pure false
  | some chain => do
      let packet ← onDma (readPacket chain)
      ofResult (validatePacketType resources packet)
      tryBackend (backend.receivePacket packet)
      completeQueue resources queueTx chain (txLength packet)
      notifyQueue resources queueTx
      pure true

def takePacket : DeviceM β Packet := do
  let taken ← onBackend backend.takePacket
  match taken with
  | none => raise (.descriptor "vsock packet disappeared")
  | some packet => pure packet

def rxLength (bytes : List UInt8) : Except DeviceError UInt32 :=
  if bytes.length < 2 ^ 32 then .ok (UInt32.ofNat bytes.length) else .error (.descriptor "vsock packet too large")

def rxRound : DeviceM β Bool := do
  let view ← Fallible.read
  if backend.hasPacket view.backend then do
    let popped ← pop resources queueRx
    match popped with
    | none => pure false
    | some chain => do
        let packet ← takePacket backend
        ofResult (validatePacketType resources packet)
        let bytes ← ofResult (packetBytes packet)
        onDma (writePacket chain bytes)
        let usedLength ← ofResult (rxLength bytes)
        completeQueue resources queueRx chain usedLength
        notifyQueue resources queueRx
        pure true
  else pure false

-- No interrupt follows here.
def eventRound : DeviceM β Bool := do
  let popped ← pop resources queueEvent
  match popped with
  | none => pure false
  | some chain => do
      completeQueue resources queueEvent chain 0
      pure true

def processTx : Nat → DeviceView β → Option (Except Fault Unit × DeviceView β) :=
  Fallible.loop (txRound resources backend)

def processRx : Nat → DeviceView β → Option (Except Fault Unit × DeviceView β) :=
  Fallible.loop (rxRound resources backend)

end

end Libvirtio.Vsock
