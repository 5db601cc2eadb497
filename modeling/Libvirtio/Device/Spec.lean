import Libvirtio.Device.Machine

namespace Libvirtio

def checkQueueSize (maximumQueueSize : UInt16) (reason : String) : Except DeviceError Unit :=
  if maximumQueueSize = 0 ∨ isPowerOfTwo maximumQueueSize = false then .error (.invalidLayout reason) else .ok ()

/-- A device that was just activated. -/
def DeviceView.fresh {β : Type} (guest : GuestMemory) (queueCount : Nat) (backend : β) : DeviceView β where
  guest := guest
  states := List.replicate queueCount .new
  backend := backend
  log := []

namespace Console

def virtioFVersion1 : UInt64 := (1 : UInt64) <<< 32
def queueCount : Nat := 2

structure ConsoleSpec where
  maximumQueueSize : UInt16
  deriving DecidableEq, Repr

namespace ConsoleSpec

def new (maximumQueueSize : UInt16) : Except DeviceError ConsoleSpec := do
  checkQueueSize maximumQueueSize "invalid virtio-console queue size"
  pure { maximumQueueSize }

def layout (spec : ConsoleSpec) : DeviceLayout where
  queueCount := queueCount
  maximumQueueSize := spec.maximumQueueSize
  notifierCount := queueCount
  requiredFeatures := virtioFVersion1
  optionalFeatures := 0

def activate {β : Type} (spec : ConsoleSpec) (resources : Resources) (guest : GuestMemory) (backend : β) :
    Except DeviceError (DeviceView β) := do
  resources.validate guest.memory spec.layout
  pure (.fresh guest queueCount backend)

end ConsoleSpec

end Console

namespace Rng

def virtioFVersion1 : UInt64 := (1 : UInt64) <<< 32
def queueCount : Nat := 1

structure RngSpec where
  maximumQueueSize : UInt16
  deriving DecidableEq, Repr

namespace RngSpec

def new (maximumQueueSize : UInt16) : Except DeviceError RngSpec := do
  checkQueueSize maximumQueueSize "invalid virtio-rng queue size"
  pure { maximumQueueSize }

def layout (spec : RngSpec) : DeviceLayout where
  queueCount := queueCount
  maximumQueueSize := spec.maximumQueueSize
  notifierCount := queueCount
  requiredFeatures := virtioFVersion1
  optionalFeatures := 0

def activate {β : Type} (spec : RngSpec) (resources : Resources) (guest : GuestMemory) (entropy : β) :
    Except DeviceError (DeviceView β) := do
  resources.validate guest.memory spec.layout
  pure (.fresh guest queueCount entropy)

end RngSpec

end Rng

namespace Memory

def virtioFVersion1 : UInt64 := (1 : UInt64) <<< 32
def virtioMemFUnpluggedInaccessible : UInt64 := (1 : UInt64) <<< 1

structure MemorySpec where
  maximumQueueSize : UInt16
  optionalFeatures : UInt64
  deriving DecidableEq, Repr

namespace MemorySpec

def new (maximumQueueSize : UInt16) : Except DeviceError MemorySpec := do
  checkQueueSize maximumQueueSize "invalid virtio-mem queue size"
  pure { maximumQueueSize, optionalFeatures := virtioMemFUnpluggedInaccessible }

-- The second notifier is for the configuration.
def layout (spec : MemorySpec) : DeviceLayout where
  queueCount := 1
  maximumQueueSize := spec.maximumQueueSize
  notifierCount := 2
  requiredFeatures := virtioFVersion1
  optionalFeatures := spec.optionalFeatures

def activate {β : Type} (spec : MemorySpec) (resources : Resources) (guest : GuestMemory) (snapshot : MemoryConfig)
    (backend : β) : Except DeviceError (DeviceView β) := do
  resources.validate guest.memory spec.layout
  let _ ← snapshot.validate
  pure (.fresh guest 1 backend)

end MemorySpec

end Memory

namespace Vsock

def virtioFVersion1 : UInt64 := (1 : UInt64) <<< 32
def virtioVsockFStream : UInt64 := (1 : UInt64) <<< 0
def vsockHostCid : UInt64 := 2
def queueCount : Nat := 3

structure VsockSpec where
  guestCid : UInt64
  maximumQueueSize : UInt16
  deriving DecidableEq, Repr

namespace VsockSpec

def new (guestCid : UInt64) (maximumQueueSize : UInt16) : Except DeviceError VsockSpec :=
  if guestCid ≤ vsockHostCid ∨ maximumQueueSize = 0 ∨ isPowerOfTwo maximumQueueSize = false then
    .error (.invalidLayout "invalid virtio-vsock spec")
  else .ok { guestCid, maximumQueueSize }

def layout (spec : VsockSpec) : DeviceLayout where
  queueCount := queueCount
  maximumQueueSize := spec.maximumQueueSize
  notifierCount := queueCount + 1
  requiredFeatures := virtioFVersion1
  optionalFeatures := virtioVsockFStream ||| virtioVsockFSeqpacket

def activate {β : Type} (spec : VsockSpec) (resources : Resources) (guest : GuestMemory) (backend : β) :
    Except DeviceError (DeviceView β) := do
  resources.validate guest.memory spec.layout
  pure (.fresh guest queueCount backend)

end VsockSpec

end Vsock

namespace Block

def virtioBlkFMq : UInt64 := (1 : UInt64) <<< 12
def virtioFVersion1 : UInt64 := (1 : UInt64) <<< 32

structure ImageMetadata where
  isFile : Bool
  length : UInt64
  deriving DecidableEq, Repr

/-- What the device asks of the host when it opens its image. -/
structure HostImages (F : Type) where
  metadata : List UInt8 → Except IoError ImageMetadata
  openFile : List UInt8 → Bool → Except IoError F
  fileLength : F → Except IoError UInt64

structure BlockSpec where
  path : List UInt8
  capacity : UInt64
  queueCount : Nat
  maximumQueueSize : UInt16
  readOnly : Bool
  deriving DecidableEq, Repr

structure BlockConfig where
  capacitySectors : UInt64
  readOnly : Bool
  queueCount : UInt16
  deriving DecidableEq, Repr

namespace BlockSpec
variable {F : Type} (host : HostImages F)

def openSpec (path : List UInt8) (queueCount : Nat) (maximumQueueSize : UInt16) : Except DeviceError BlockSpec := do
  let metadata ← (host.metadata path).mapError .io
  let capacity := metadata.length
  if metadata.isFile = false ∨ capacity = 0 ∨ capacity.toNat % virtioBlkSectorSize ≠ 0 then
    .error (.invalidLayout "block image must be a non-zero sector-aligned regular file")
  else if queueCount = 0 ∨ queueCount > 65535 then .error (.invalidLayout "invalid block queue count")
  else .ok { path, capacity, queueCount, maximumQueueSize, readOnly := false }

def config (spec : BlockSpec) : Except Fault BlockConfig := do
  let queueCount ← expectU16 spec.queueCount "validated queue count"
  let capacitySectors := UInt64.ofNat (spec.capacity.toNat / virtioBlkSectorSize)
  pure { capacitySectors, readOnly := spec.readOnly, queueCount }

def layout (spec : BlockSpec) : DeviceLayout where
  queueCount := spec.queueCount
  maximumQueueSize := spec.maximumQueueSize
  notifierCount := spec.queueCount
  requiredFeatures := virtioFVersion1
  optionalFeatures := virtioBlkFFlush ||| if spec.queueCount > 1 then virtioBlkFMq else 0

def openDevice (spec : BlockSpec) (resources : Resources) (guest : GuestMemory) :
    Except DeviceError (Device × DeviceView (State F)) := do
  let file ← (host.openFile spec.path (!spec.readOnly)).mapError .io
  let capacity ← (host.fileLength file).mapError .io
  if capacity ≠ spec.capacity then .error (.invalidLayout "block image changed after spec")
  else
    let device := { readOnly := spec.readOnly, capacity, negotiatedFeatures := resources.negotiatedFeatures }
    .ok (device, .fresh guest resources.queues.length { file, pending := [] })

def activate (spec : BlockSpec) (resources : Resources) (guest : GuestMemory) :
    Except DeviceError (Device × DeviceView (State F)) := do
  resources.validate guest.memory spec.layout
  openDevice host spec resources guest

end BlockSpec

end Block

namespace Fs

def virtioFVersion1 : UInt64 := (1 : UInt64) <<< 32
def virtioFsTagSize : Nat := 36

structure HostRoots where
  canonicalize : Bytes → Except IoError Path
  isDir : Path → Bool

structure FsSpec where
  root : Path
  tag : Vector UInt8 virtioFsTagSize
  requestQueueCount : Nat
  maximumQueueSize : UInt16
  deriving DecidableEq, Repr

structure FsConfig where
  tag : Vector UInt8 virtioFsTagSize
  requestQueueCount : UInt32
  deriving DecidableEq, Repr

namespace FsSpec

-- The end of a string is always a character boundary.
def openSpec (host : HostRoots) (root tag : Bytes) (requestQueueCount : Nat) (maximumQueueSize : UInt16) :
    Except DeviceError FsSpec := do
  let root ← (host.canonicalize root).mapError .io
  if host.isDir root = false then .error (.invalidLayout "virtio-fs root is not a directory")
  else if tag = [] ∨ tag.length > virtioFsTagSize then .error (.invalidLayout "invalid virtio-fs tag")
  else if requestQueueCount = 0 ∨ requestQueueCount > 65534 then
    .error (.invalidLayout "invalid virtio-fs request queue count")
  else .ok { root, tag := .ofFn fun i => (tag[i.val]?).getD 0, requestQueueCount, maximumQueueSize }

def config (spec : FsSpec) : Except Fault FsConfig :=
  if spec.requestQueueCount < 2 ^ 32 then
    .ok { tag := spec.tag, requestQueueCount := UInt32.ofNat spec.requestQueueCount }
  else .error (.panic "validated request queue count")

def layout (spec : FsSpec) : DeviceLayout where
  queueCount := spec.requestQueueCount + 1
  maximumQueueSize := spec.maximumQueueSize
  notifierCount := spec.requestQueueCount + 1
  requiredFeatures := virtioFVersion1
  optionalFeatures := 0

def activate (spec : FsSpec) (resources : Resources) (guest : GuestMemory) : Except DeviceError (DeviceView State) := do
  resources.validate guest.memory spec.layout
  pure (.fresh guest resources.queues.length { inodes := .new spec.root, pending := [] })

end FsSpec

end Fs

end Libvirtio
