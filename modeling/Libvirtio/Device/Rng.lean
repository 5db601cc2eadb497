import Libvirtio.Device.Basic

namespace Libvirtio.Rng

def queueRng : Nat := 0

/-- `arc4random_buf`. -/
structure Entropy (β : Type) where
  fill : Nat → β → List UInt8 × β
  length_fill : ∀ n state, (fill n state).1.length = n

section
variable {β : Type} (entropy : Entropy β)

def fillParts : List DmaPart → Nat → DeviceM β Nat
  | [], length => pure length
  | part :: rest, length => do
      let bytes ← onBackend (entropy.fill part.length)
      Fallible.update fun view =>
        { view with guest := { view.guest with host := Store.save view.guest.host part.base bytes } }
      match checkedAdd length part.length with
      | none => raise (.descriptor "virtio-rng length overflow")
      | some length => fillParts rest length

def fillDescriptors : List Descriptor → Nat → DeviceM β Nat
  | [], length => pure length
  | descriptor :: rest, length =>
      if ¬descriptor.writable ∨ descriptor.length = 0 then raise (.descriptor "virtio-rng descriptor is not writable")
      else do
        let parts ← onDma (lease descriptor.range)
        let length ← fillParts entropy parts length
        fillDescriptors rest length

def fillChain (chain : DescriptorChain) : DeviceM β UInt32 := do
  let length ← fillDescriptors entropy chain.descriptors 0
  if length < 2 ^ 32 then pure (UInt32.ofNat length) else raise (.descriptor "virtio-rng length exceeds u32")

def processQueue (resources : Resources) : DeviceM β Bool := do
  let popped ← pop resources queueRng
  match popped with
  | none => pure false
  | some chain => do
      let length ← fillChain entropy chain
      completeQueue resources queueRng chain length
      notify resources queueRng (.ok (.queue 0 0))
      pure true

end

end Libvirtio.Rng
