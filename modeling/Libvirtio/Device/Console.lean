import Libvirtio.Device.Basic

namespace Libvirtio.Console

def queueReceive : Nat := 0
def queueTransmit : Nat := 1

structure Backend (β : Type) where
  hasInput : β → Bool
  readInput : Nat → β → Option (List UInt8) × β
  writeOutput : List UInt8 → β → Except DeviceError Unit × β

def readChain (chain : DescriptorChain) : DmaM (List UInt8) :=
  if chain.descriptors.any Descriptor.writable then Fallible.fail (.descriptor "console transmit chain is writable")
  else readDescriptors chain.descriptors

def writableCapacityFrom : List Descriptor → Nat → Except DeviceError Nat
  | [], total => .ok total
  | descriptor :: rest, total =>
      if ¬descriptor.writable then .error (.descriptor "console receive chain is readable")
      else
        match checkedAdd total descriptor.length.toNat with
        | none => .error (.descriptor "console receive capacity overflows usize")
        | some total => writableCapacityFrom rest total

def writableCapacity (chain : DescriptorChain) : Except DeviceError Nat := writableCapacityFrom chain.descriptors 0

def writeChain (chain : DescriptorChain) (bytes : List UInt8) : DmaM Unit := do
  let capacity ← Fallible.ofExcept (writableCapacity chain)
  if bytes.length > capacity then Fallible.fail (.descriptor "console receive chain is too short")
  else copyDescriptors bytes chain.descriptors 0

def inputLength (bytes : List UInt8) : Except DeviceError UInt32 :=
  if bytes.length < 2 ^ 32 then .ok (UInt32.ofNat bytes.length) else .error (.descriptor "console input too large")

section
variable {β : Type} (resources : Resources) (backend : Backend β)

def processTransmit : DeviceM β Bool := do
  let popped ← pop resources queueTransmit
  match popped with
  | none => pure false
  | some chain => do
      let bytes ← onDma (readChain chain)
      tryBackend (backend.writeOutput bytes)
      completeQueue resources queueTransmit chain 0
      notify resources queueTransmit (.ok (.queue 1 1))
      pure true

def readInput (capacity : Nat) : DeviceM β (List UInt8) := do
  let input ← onBackend (backend.readInput capacity)
  match input with
  | none => raise (.down .stop)
  | some bytes => pure bytes

def processReceive : DeviceM β Bool := do
  let view ← Fallible.read
  if backend.hasInput view.backend then do
    let popped ← pop resources queueReceive
    match popped with
    | none => pure false
    | some chain => do
        let capacity ← ofResult (writableCapacity chain)
        let bytes ← readInput backend capacity
        onDma (writeChain chain bytes)
        let usedLength ← ofResult (inputLength bytes)
        completeQueue resources queueReceive chain usedLength
        notify resources queueReceive (.ok (.queue 0 0))
        pure true
  else pure false

end

end Libvirtio.Console
