import Libvirtio.Dma.Basic
import Libvirtio.Library.LittleEndian

namespace Libvirtio

def virtqDescSize : Nat := 16
def virtqDescFNext : UInt16 := 1
def virtqAvailHeaderSize : Nat := 4
def virtqUsedHeaderSize : Nat := 4
def virtqUsedElementSize : Nat := 8

def isPowerOfTwo (n : UInt16) : Bool := (List.range 16).any fun k => n.toNat == 2 ^ k

structure QueueLayout where
  index : UInt16
  size : UInt16
  descriptors : DmaRange
  available : DmaRange
  used : DmaRange
  deriving DecidableEq, Repr

def QueueLayout.validate (layout : QueueLayout) (memory : DmaMemory) : Except DeviceError Unit :=
  if layout.size = 0 ∨ isPowerOfTwo layout.size = false then
    .error (.invalidQueue layout.index "size must be a non-zero power of two")
  else if layout.descriptors.length < layout.size.toNat * virtqDescSize ∨
      layout.available.length < virtqAvailHeaderSize + layout.size.toNat * 2 ∨
      layout.used.length < virtqUsedHeaderSize + layout.size.toNat * virtqUsedElementSize then
    .error (.invalidQueue layout.index "virtqueue ring is too small")
  else do
    memory.checkRange layout.descriptors
    memory.checkRange layout.available
    memory.checkRange layout.used

structure QueueState where
  lastAvailable : UInt16
  nextUsed : UInt16
  deriving DecidableEq, Repr

def QueueState.new : QueueState := ⟨0, 0⟩

structure Descriptor where
  address : UInt64
  length : UInt32
  flags : UInt16
  next : UInt16
  deriving DecidableEq, Repr

def virtqDescFWrite : UInt16 := 2

def Descriptor.writable (descriptor : Descriptor) : Bool := descriptor.flags &&& virtqDescFWrite != 0

def Descriptor.range (descriptor : Descriptor) : DmaRange :=
  ⟨descriptor.address.toNat, descriptor.length.toNat⟩

structure DescriptorChain where
  head : UInt16
  descriptors : List Descriptor
  deriving DecidableEq, Repr

def DescriptorChain.writableLength (chain : DescriptorChain) : Nat :=
  ((chain.descriptors.filter Descriptor.writable).map fun d => d.length.toNat).sum

structure VirtQueue where
  layout : QueueLayout
  deriving DecidableEq, Repr

def VirtQueue.new (layout : QueueLayout) (memory : DmaMemory) : Except DeviceError VirtQueue := do
  layout.validate memory
  pure ⟨layout⟩

def copyFromLease (parts : List DmaPart) (length : Nat) : DmaM (List UInt8) := do
  let guest ← Fallible.read
  let result := gather guest.host parts
  if result.length ≠ length then Fallible.fail (.descriptor "short virtqueue read") else pure result

def readBytes (gpa length : Nat) : DmaM (List UInt8) := do
  let parts ← lease ⟨gpa, length⟩
  copyFromLease parts length

def writeBytes (gpa : Nat) (bytes : List UInt8) : DmaM Unit := do
  let parts ← lease ⟨gpa, bytes.length⟩
  Fallible.update fun guest => { guest with host := scatter guest.host parts bytes }
  if (parts.map DmaPart.length).sum ≠ bytes.length then
    Fallible.fail (.descriptor "short virtqueue write")
  else pure ()

def readU16 (gpa : Nat) : DmaM UInt16 := do
  let bytes ← readBytes gpa 2
  pure (UInt16.ofNat (LittleEndian.decode bytes))

def field (bytes : List UInt8) (offset length : Nat) : Nat :=
  LittleEndian.decode ((bytes.drop offset).take length)

theorem field_lt (bytes : List UInt8) (offset length : Nat) : field bytes offset length < 256 ^ length :=
  (LittleEndian.decode_lt _).trans_le (Nat.pow_le_pow_right (by decide) (List.length_take_le _ _))

namespace VirtQueue

def readDescriptor (queue : VirtQueue) (index : UInt16) : DmaM Descriptor :=
  match checkedAdd queue.layout.descriptors.gpa (index.toNat * virtqDescSize) with
  | none => Fallible.fail (.descriptor "descriptor GPA overflow")
  | some gpa => do
      let bytes ← readBytes gpa virtqDescSize
      pure {
        address := UInt64.ofNat (field bytes 0 8)
        length := UInt32.ofNat (field bytes 8 4)
        flags := UInt16.ofNat (field bytes 12 2)
        next := UInt16.ofNat (field bytes 14 2) }

def readChainFrom (queue : VirtQueue) (head : UInt16) :
    Nat → UInt16 → List Descriptor → DmaM DescriptorChain
  | 0, _, _ => Fallible.fail (.descriptor "descriptor chain loop")
  | rounds + 1, current, descriptors => do
      let descriptor ← queue.readDescriptor current
      if descriptor.flags &&& virtqDescFNext = 0 then
        pure ⟨head, descriptors ++ [descriptor]⟩
      else if descriptor.next ≥ queue.layout.size then
        Fallible.fail (.descriptor "next index exceeds queue size")
      else queue.readChainFrom head rounds descriptor.next (descriptors ++ [descriptor])

def readChain (queue : VirtQueue) (head : UInt16) : DmaM DescriptorChain :=
  if head ≥ queue.layout.size then Fallible.fail (.descriptor "head index exceeds queue size")
  else queue.readChainFrom head queue.layout.size.toNat head []

end VirtQueue

structure QueueView where
  state : QueueState
  guest : GuestMemory

abbrev QueueM := Fallible DeviceError QueueView

def onGuest {α : Type} (access : DmaM α) : QueueM α :=
  Fallible.zoom QueueView.guest (fun guest view => { view with guest }) access

namespace VirtQueue

def pop (queue : VirtQueue) : QueueM (Option DescriptorChain) := do
  let availableIndex ← onGuest (readU16 (queue.layout.available.gpa + 2))
  let view ← Fallible.read
  let lastAvailable := view.state.lastAvailable
  if availableIndex = lastAvailable then pure none
  else if availableIndex - lastAvailable > queue.layout.size then
    Fallible.fail (.invalidQueue queue.layout.index "available index exceeds queue size")
  else do
    let slot := (lastAvailable % queue.layout.size).toNat
    let head ← onGuest (readU16 (queue.layout.available.gpa + virtqAvailHeaderSize + slot * 2))
    let chain ← onGuest (queue.readChain head)
    Fallible.update fun view =>
      { view with state := { view.state with lastAvailable := view.state.lastAvailable + 1 } }
    pure (some chain)

def complete (queue : VirtQueue) (chain : DescriptorChain) (usedLength : UInt32) : QueueM Unit := do
  let view ← Fallible.read
  let slot := (view.state.nextUsed % queue.layout.size).toNat
  let offset := queue.layout.used.gpa + virtqUsedHeaderSize + slot * virtqUsedElementSize
  onGuest (writeBytes offset (LittleEndian.encode 4 chain.head.toNat))
  onGuest (writeBytes (offset + 4) (LittleEndian.encode 4 usedLength.toNat))
  Fallible.update fun view =>
    { view with state := { view.state with nextUsed := view.state.nextUsed + 1 } }
  onGuest (writeBytes (queue.layout.used.gpa + 2)
    (LittleEndian.encode 2 (view.state.nextUsed + 1).toNat))

end VirtQueue

end Libvirtio
