import Libvirtio.Queue.Basic

namespace Libvirtio

inductive Interrupt where
  | queue (queueIndex vector : UInt16)
  | config (vector : UInt16)
  deriving DecidableEq, Repr

inductive Event where
  | completed (queue : Nat) (chain : DescriptorChain) (usedLength : UInt32)
  | notified (notifier : Nat) (interrupt : Interrupt)
  deriving DecidableEq, Repr

/-- `DeviceResources` but for the memory, which is in the view. A notifier may answer each time differently. -/
structure Resources where
  queues : List QueueLayout
  interrupts : List (List Event → Interrupt → Except DeviceError Unit)
  negotiatedFeatures : UInt64

structure DeviceLayout where
  queueCount : Nat
  maximumQueueSize : UInt16
  notifierCount : Nat
  requiredFeatures : UInt64
  optionalFeatures : UInt64
  deriving DecidableEq, Repr

def checkQueues (memory : DmaMemory) (maximumQueueSize : UInt16) : List QueueLayout → Except DeviceError Unit
  | [] => .ok ()
  | queue :: rest =>
      if queue.size > maximumQueueSize then
        .error (.invalidQueue queue.index "queue size exceeds device limit")
      else do
        queue.validate memory
        checkQueues memory maximumQueueSize rest

def Resources.validate (resources : Resources) (memory : DmaMemory) (layout : DeviceLayout) :
    Except DeviceError Unit :=
  if resources.queues.length ≠ layout.queueCount then .error (.invalidLayout "unexpected queue count")
  else if resources.interrupts.length < layout.notifierCount then
    .error (.invalidLayout "missing interrupt notifier")
  else if resources.negotiatedFeatures &&& layout.requiredFeatures ≠ layout.requiredFeatures then
    .error (.invalidLayout "required feature not negotiated")
  else checkQueues memory layout.maximumQueueSize resources.queues

/-- What device code works on: guest memory, the device's queue indices and the state of its backend. The log is
what it has done so far. -/
structure DeviceView (β : Type) where
  guest : GuestMemory
  states : List QueueState
  backend : β
  log : List Event

abbrev DeviceM (β : Type) := Fallible Fault (DeviceView β)

section
variable {α β : Type}

def raise (error : DeviceError) : DeviceM β α := Fallible.fail (.error error)

def ofResult (result : Except DeviceError α) : DeviceM β α := Fallible.ofExcept (result.mapError .error)

def onDma (access : DmaM α) : DeviceM β α := fun view =>
  ((access view.guest).1.mapError .error, { view with guest := (access view.guest).2 })

def onBackend (call : β → α × β) : DeviceM β α := fun view =>
  (.ok (call view.backend).1, { view with backend := (call view.backend).2 })

def tryBackend (call : β → Except DeviceError α × β) : DeviceM β α := do
  let result ← onBackend call
  ofResult result

def emit (event : Event) : DeviceM β Unit := Fallible.update fun view => { view with log := view.log ++ [event] }

def indexed {γ : Type} (items : List γ) (index : Nat) : Except Fault γ :=
  match items[index]? with
  | some item => .ok item
  | none => .error (.panic "index out of bounds")

def expectU16 (n : Nat) (message : String) : Except Fault UInt16 :=
  if n < 2 ^ 16 then .ok (UInt16.ofNat n) else .error (.panic message)

def fitsU16 (n : Nat) (reason : String) : Except Fault UInt16 :=
  if n < 2 ^ 16 then .ok (UInt16.ofNat n) else .error (.error (.invalidLayout reason))

variable (resources : Resources)

def queueAt (index : Nat) : DeviceM β VirtQueue := do
  let layout ← Fallible.ofExcept (indexed resources.queues index)
  let view ← Fallible.read
  ofResult (VirtQueue.new layout view.guest.memory)

def onState (index : Nat) (access : QueueM α) : DeviceM β α := fun view =>
  match indexed view.states index with
  | .error fault => (.error fault, view)
  | .ok state =>
      match access ⟨state, view.guest⟩ with
      | (result, after) =>
          (result.mapError .error, { view with guest := after.guest, states := view.states.set index after.state })

def pop (index : Nat) : DeviceM β (Option DescriptorChain) := do
  let queue ← queueAt resources index
  onState index queue.pop

def completeQueue (index : Nat) (chain : DescriptorChain) (usedLength : UInt32) : DeviceM β Unit := do
  let queue ← queueAt resources index
  onState index (queue.complete chain usedLength)
  emit (.completed index chain usedLength)

def notify (index : Nat) (interrupt : Except Fault Interrupt) : DeviceM β Unit := do
  let notifier ← Fallible.ofExcept (indexed resources.interrupts index)
  let interrupt ← Fallible.ofExcept interrupt
  let view ← Fallible.read
  ofResult (notifier view.log interrupt)
  emit (.notified index interrupt)

-- The block and the filesystem device look their notifier up and report what does not fit as errors.
def notifyConfigured (index : Nat) (missing vectorReason : String) : DeviceM β Unit :=
  if index < resources.interrupts.length then
    notify resources index (do
      let queueIndex ← fitsU16 index "queue index exceeds u16"
      let vector ← fitsU16 index vectorReason
      pure (.queue queueIndex vector))
  else raise (.invalidLayout missing)

end

def readDescriptors : List Descriptor → DmaM (List UInt8)
  | [] => pure []
  | descriptor :: rest => do
      let parts ← lease descriptor.range
      let guest ← Fallible.read
      let bytes ← readDescriptors rest
      pure (gather guest.host parts ++ bytes)

def capacityFrom (reason : String) : List Descriptor → Nat → Except DeviceError Nat
  | [], total => .ok total
  | descriptor :: rest, total =>
      match checkedAdd total descriptor.length.toNat with
      | none => .error (.descriptor reason)
      | some total => capacityFrom reason rest total

def copyParts (bytes : List UInt8) : List DmaPart → Nat → (Nat → UInt8) → Nat × (Nat → UInt8)
  | [], offset, host => (offset, host)
  | part :: rest, offset, host =>
      if offset = bytes.length then (offset, host)
      else
        let count := min part.length (bytes.length - offset)
        copyParts bytes rest (offset + count) (Store.save host part.base ((bytes.drop offset).take count))

def copyDescriptors (bytes : List UInt8) : List Descriptor → Nat → DmaM Unit
  | [], _ => pure ()
  | descriptor :: rest, offset =>
      if offset = bytes.length then pure ()
      else do
        let parts ← lease descriptor.range
        let guest ← Fallible.read
        let (offset, host) := copyParts bytes parts offset guest.host
        Fallible.update fun guest => { guest with host }
        copyDescriptors bytes rest offset

end Libvirtio
