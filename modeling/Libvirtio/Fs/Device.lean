import Libvirtio.Device.Basic
import Libvirtio.Fs.Request

namespace Libvirtio.Fs

def descriptorRange (descriptor : Descriptor) : Except DeviceError DmaRange :=
  if descriptor.length = 0 then .error (.descriptor "zero-length virtio-fs descriptor")
  else .ok descriptor.range

def readRange (range : DmaRange) : DmaM Bytes := do
  let parts ← lease range
  let guest ← Fallible.read
  pure (gather guest.host parts)

def parseDescriptors : List Descriptor → Bytes → List DmaRange → DmaM (Bytes × List DmaRange)
  | [], request, reply => pure (request, reply)
  | descriptor :: rest, request, reply => do
      let range ← Fallible.ofExcept (descriptorRange descriptor)
      if descriptor.writable then parseDescriptors rest request (reply ++ [range])
      else do
        let bytes ← readRange range
        parseDescriptors rest (request ++ bytes) reply

def parseChain (chain : DescriptorChain) : DmaM (Bytes × List DmaRange) := do
  let (request, reply) ← parseDescriptors chain.descriptors [] []
  if request.length < fuseInHeaderSize ∨ reply = [] then
    Fallible.fail (.descriptor "invalid virtio-fs descriptor directions")
  else pure (request, reply)

def replyCapacity : List DmaRange → Nat → Option Nat
  | [], total => some total
  | range :: rest, total => (checkedAdd total range.length).bind (replyCapacity rest)

def writeParts (reply : Bytes) : List DmaPart → Nat → (Nat → UInt8) → Nat × (Nat → UInt8)
  | [], copied, host => (copied, host)
  | part :: rest, copied, host =>
      let length := min (reply.length - copied) part.length
      let target := Store.save host part.base ((reply.drop copied).take length)
      if copied + length = reply.length then (copied + length, target)
      else writeParts reply rest (copied + length) target

-- `copied` is below the reply's length at each lease: the loops return once it gets there.
def writeRanges (reply : Bytes) : List DmaRange → Nat → DmaM UInt32
  | [], _ => Fallible.fail (.descriptor "short virtio-fs reply write")
  | range :: rest, copied => do
      let parts ← lease range
      let guest ← Fallible.read
      let (copied, host) := writeParts reply parts copied guest.host
      Fallible.update fun guest => { guest with host }
      if copied = reply.length then
        if copied < 2 ^ 32 then pure (UInt32.ofNat copied)
        else Fallible.fail (.descriptor "virtio-fs reply too large")
      else writeRanges reply rest copied

def writeReply (ranges : List DmaRange) (reply : Bytes) : DmaM UInt32 :=
  if reply = [] then pure 0
  else
    match replyCapacity ranges 0 with
    | none => Fallible.fail (.descriptor "virtio-fs reply capacity overflow")
    | some capacity =>
        if reply.length > capacity then Fallible.fail (.descriptor "virtio-fs reply does not fit descriptors")
        else writeRanges reply ranges 0

structure Work where
  queueIndex : Nat
  chain : DescriptorChain
  request : Bytes
  reply : List DmaRange
  deriving DecidableEq

structure State where
  inodes : FsInodes
  pending : List Work

/-- A panic of the blocking worker reaches the caller as a join error. -/
def joined {α : Type} : Except Fault α → Except DeviceError α
  | .ok a => .ok a
  | .error (.error error) => .error error
  | .error (.panic message) => .error (.worker message)

section
variable (resources : Resources)

def takeWork (index : Nat) : DeviceM State (Option Work) := do
  let popped ← pop resources index
  match popped with
  | none => pure none
  | some chain => do
      let (request, reply) ← onDma (parseChain chain)
      pure (some { queueIndex := index, chain, request, reply })

def checkLive (down : Bool) : DeviceM State Unit := if down then raise (.down .revoked) else pure ()

def runWorker (root : Path) (host : Host) (request : Bytes) (state : State) : Except DeviceError Bytes × State :=
  match (executeRequest root request).run host state.inodes with
  | (result, inodes) => (joined result, { state with inodes })

def executeWork (down : Bool) (root : Path) (host : Host) (request : Bytes) : DeviceM State Bytes := do
  checkLive down
  tryBackend (runWorker root host request)

def finishWork (index : Nat) (chain : DescriptorChain) (ranges : List DmaRange) (reply : Bytes) :
    DeviceM State Unit := do
  let usedLength ← onDma (writeReply ranges reply)
  completeQueue resources index chain usedLength

def completeWork (work : Work) (reply : Bytes) : DeviceM State Unit := do
  finishWork resources work.queueIndex work.chain work.reply reply
  notifyConfigured resources work.queueIndex "missing virtio-fs interrupt notifier" "queue vector exceeds u16"

/-- A popped chain on its way through `parse_chain`, `execute_request`, `write_reply` and `VirtQueue::complete`. -/
def process (down : Bool) (root : Path) (host : Host) (index : Nat) (chain : DescriptorChain) : DeviceM State Unit := do
  let (request, ranges) ← onDma (parseChain chain)
  let reply ← executeWork down root host request
  finishWork resources index chain ranges reply

def takeRound (index : Nat) : DeviceM State Bool := do
  let taken ← takeWork resources index
  match taken with
  | none => pure false
  | some work => onBackend fun state => (true, { state with pending := state.pending ++ [work] })

def finishRound (down : Bool) (root : Path) (host : Host) (position : Nat) : DeviceM State Bool := do
  let ready ← onBackend fun state => (state.pending[position]?, { state with pending := state.pending.eraseIdx position })
  match ready with
  | none => pure false
  | some work => do
      let reply ← executeWork down root host work.request
      completeWork resources work reply
      pure true

end

end Libvirtio.Fs
