import Libvirtio.Device.Basic

namespace Libvirtio.Memory

def virtioMemReqPlug : UInt16 := 0
def virtioMemReqUnplug : UInt16 := 1
def virtioMemReqUnplugAll : UInt16 := 2
def virtioMemReqState : UInt16 := 3
def virtioMemRespAck : UInt16 := 0
def virtioMemRespNack : UInt16 := 1
def virtioMemRespBusy : UInt16 := 2
def virtioMemRespError : UInt16 := 3
def requestQueue : Nat := 0
def requestSize : Nat := 24
def responseSize : Nat := 10

inductive Request where
  | plug (addr : UInt64) (blocks : UInt16)
  | unplug (addr : UInt64) (blocks : UInt16)
  | unplugAll
  | state (addr : UInt64) (blocks : UInt16)
  deriving DecidableEq, Repr

inductive Response where
  | ack
  | nack
  | busy
  | error
  | state (value : UInt16)
  deriving DecidableEq, Repr

structure Backend (β : Type) where
  handle : Request → β → Except DeviceError Response × β

def requestOf (ty : UInt16) (addr : UInt64) (blocks : UInt16) : Except DeviceError Request :=
  if ty = virtioMemReqPlug then .ok (.plug addr blocks)
  else if ty = virtioMemReqUnplug then .ok (.unplug addr blocks)
  else if ty = virtioMemReqUnplugAll then .ok .unplugAll
  else if ty = virtioMemReqState then .ok (.state addr blocks)
  else .error (.descriptor "unknown virtio-mem request")

def parseRequest (chain : DescriptorChain) : DmaM Request :=
  match chain.descriptors with
  | [request, response] =>
      if request.writable ∨ request.length.toNat ≠ requestSize then
        Fallible.fail (.descriptor "invalid virtio-mem request descriptor")
      else if ¬response.writable ∨ response.length.toNat ≠ responseSize then
        Fallible.fail (.descriptor "invalid virtio-mem response descriptor")
      else do
        let parts ← lease ⟨request.address.toNat, requestSize⟩
        let guest ← Fallible.read
        let bytes := gather guest.host parts
        Fallible.ofExcept (requestOf (UInt16.ofNat (field bytes 0 2)) (UInt64.ofNat (field bytes 8 8))
          (UInt16.ofNat (field bytes 16 2)))
  | _ => Fallible.fail (.descriptor "virtio-mem request must have two descriptors")

def Response.type : Response → UInt16
  | .ack | .state _ => virtioMemRespAck
  | .nack => virtioMemRespNack
  | .busy => virtioMemRespBusy
  | .error => virtioMemRespError

def Response.bytes (response : Response) : List UInt8 :=
  LittleEndian.encode 2 response.type.toNat ++ List.replicate 6 0 ++
    match response with
    | .state value => LittleEndian.encode 2 value.toNat
    | _ => [0, 0]

section
variable {β : Type} (resources : Resources) (backend : Backend β)

def writeResponse (chain : DescriptorChain) (response : Response) : DeviceM β Unit :=
  match chain.descriptors[1]? with
  | none => Fallible.fail (.panic "index out of bounds")
  | some descriptor => do
      let parts ← onDma (lease ⟨descriptor.address.toNat, responseSize⟩)
      Fallible.update fun view =>
        { view with guest := { view.guest with host := scatter view.guest.host parts response.bytes } }

def processRequest : DeviceM β Bool := do
  let popped ← pop resources requestQueue
  match popped with
  | none => pure false
  | some chain => do
      let request ← onDma (parseRequest chain)
      let response ← tryBackend (backend.handle request)
      writeResponse chain response
      completeQueue resources requestQueue chain (UInt32.ofNat responseSize)
      notify resources requestQueue (.ok (.queue 0 0))
      pure true

end

def configSize : Nat := 56

structure MemoryConfig where
  blockSize : UInt64
  nodeId : UInt16
  addr : UInt64
  regionSize : UInt64
  usableRegionSize : UInt64
  pluggedSize : UInt64
  requestedSize : UInt64
  deriving DecidableEq, Repr

namespace MemoryConfig

def isPowerOfTwo (n : UInt64) : Bool := (List.range 64).any fun k => n.toNat == 2 ^ k

def validate (config : MemoryConfig) : Except DeviceError MemoryConfig :=
  if config.blockSize = 0 ∨ isPowerOfTwo config.blockSize = false then
    .error (.invalidLayout "virtio-mem block size is not a power of two")
  else if [config.addr, config.regionSize, config.usableRegionSize, config.pluggedSize, config.requestedSize].any
      fun value => value % config.blockSize != 0 then
    .error (.invalidLayout "virtio-mem value is not block aligned")
  else if config.usableRegionSize > config.regionSize ∨ config.pluggedSize > config.usableRegionSize ∨
      config.requestedSize > config.usableRegionSize then
    .error (.invalidLayout "invalid virtio-mem region sizes")
  else .ok config

def encode (config : MemoryConfig) : List UInt8 :=
  LittleEndian.encode 8 config.blockSize.toNat ++ LittleEndian.encode 2 config.nodeId.toNat ++
    List.replicate 6 0 ++ LittleEndian.encode 8 config.addr.toNat ++
    LittleEndian.encode 8 config.regionSize.toNat ++ LittleEndian.encode 8 config.usableRegionSize.toNat ++
    LittleEndian.encode 8 config.pluggedSize.toNat ++ LittleEndian.encode 8 config.requestedSize.toNat

/-- `ConfigView::read` of the configuration that it finds under the lock. -/
def read (config : MemoryConfig) (offset length : Nat) : Except DeviceError (List UInt8) :=
  match checkedAdd offset length with
  | none => .error (.invalidLayout "virtio-mem config offset overflow")
  | some stop =>
      if stop > configSize then .error (.invalidLayout "virtio-mem config read exceeds size")
      else .ok ((config.encode.drop offset).take length)

end MemoryConfig

end Libvirtio.Memory
