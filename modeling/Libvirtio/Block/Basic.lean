import Libvirtio.Queue.Basic

namespace Libvirtio

namespace Block

def virtioBlkFFlush : UInt64 := (1 : UInt64) <<< 9
def virtioBlkTIn : UInt32 := 0
def virtioBlkTOut : UInt32 := 1
def virtioBlkTFlush : UInt32 := 4
def virtioBlkSOk : UInt8 := 0
def virtioBlkSIoerr : UInt8 := 1
def virtioBlkSUnsupp : UInt8 := 2
def virtioBlkHeaderSize : Nat := 16
def virtioBlkSectorSize : Nat := 512

inductive RequestType where
  | tIn
  | tOut
  | flush
  | unsupported (code : UInt32)
  deriving DecidableEq, Repr

structure Request where
  requestType : RequestType
  sector : UInt64
  payload : List DmaRange
  status : DmaRange
  deriving DecidableEq, Repr

structure Completion where
  status : UInt8
  usedLength : UInt32
  deriving DecidableEq, Repr

def descriptorRange (descriptor : Descriptor) : Except DeviceError DmaRange :=
  if descriptor.length = 0 then .error (.descriptor "zero-length descriptor")
  else .ok descriptor.range

def copyFromLease (host : Nat → UInt8) (length : Nat) : List DmaPart → List UInt8 → Except DeviceError (List UInt8)
  | [], copied =>
      if copied.length ≠ length then .error (.descriptor "block header is truncated") else .ok copied
  | part :: rest, copied =>
      match checkedAdd copied.length part.length with
      | none => .error (.descriptor "header overflow")
      | some stop =>
          if stop > length then .error (.descriptor "block header has invalid length")
          else copyFromLease host length rest (copied ++ part.readSlice host)

def requestTypeOf (code : UInt32) : RequestType :=
  if code = virtioBlkTIn then .tIn
  else if code = virtioBlkTOut then .tOut
  else if code = virtioBlkTFlush then .flush
  else .unsupported code

def checkDirection (requestType : RequestType) (writable : Bool) : Except DeviceError Unit :=
  match requestType, writable with
  | .tIn, false => .error (.descriptor "block read payload is not writable")
  | .tOut, true => .error (.descriptor "block write payload is writable")
  | .flush, _ => .error (.descriptor "block flush has payload")
  | _, _ => .ok ()

def parsePayload (requestType : RequestType) : List Descriptor → DmaM (List DmaRange)
  | [] => pure []
  | descriptor :: rest => do
      Fallible.ofExcept (checkDirection requestType descriptor.writable)
      let range ← Fallible.ofExcept (descriptorRange descriptor)
      checkRange range
      let ranges ← parsePayload requestType rest
      pure (range :: ranges)

def RequestType.transfers : RequestType → Bool
  | .tIn | .tOut => true
  | _ => false

def parseRequest (chain : DescriptorChain) : DmaM Request :=
  match chain.descriptors with
  | header :: next :: rest => do
      let status := (next :: rest).getLast (List.cons_ne_nil next rest)
      if header.writable ∨ header.length.toNat ≠ virtioBlkHeaderSize then
        Fallible.fail (.descriptor "invalid block request header")
      else if ¬status.writable ∨ status.length ≠ 1 then
        Fallible.fail (.descriptor "invalid block request status byte")
      else do
        let headerRange ← Fallible.ofExcept (descriptorRange header)
        let statusRange ← Fallible.ofExcept (descriptorRange status)
        let headerLease ← lease headerRange
        let guest ← Fallible.read
        let bytes ← Fallible.ofExcept (copyFromLease guest.host virtioBlkHeaderSize headerLease [])
        let requestType := requestTypeOf (UInt32.ofNat (field bytes 0 4))
        let payload ← parsePayload requestType (next :: rest).dropLast
        if requestType.transfers ∧ payload = [] then
          Fallible.fail (.descriptor "block request has no payload")
        else do
          checkRange statusRange
          pure { requestType, sector := UInt64.ofNat (field bytes 8 8), payload, status := statusRange }
  | _ => Fallible.fail (.descriptor "block request has too few descriptors")

/-- The host's calls on the open image file. `preadv` and `pwritev` return what the system call
returns; the bytes of `preadv` are those it stored, in the order of the vectors. -/
structure HostFile (F : Type) where
  tryClone : F → Except IoError Unit
  syncData : F → Bool × F
  preadv : F → List Nat → Nat → Int × List UInt8 × F
  pwritev : F → List UInt8 → Nat → Int × F

structure IoView (F : Type) where
  guest : GuestMemory
  file : F

abbrev IoM (F : Type) := Fallible DeviceError (IoView F)

def onMemory {F α : Type} (access : DmaM α) : IoM F α :=
  Fallible.zoom IoView.guest (fun guest view => { view with guest }) access

def checkedSum (width : Nat) (reason : String) : Nat → List DmaPart → Except DeviceError Nat
  | total, [] => .ok total
  | total, part :: rest =>
      if total + part.length < 2 ^ width then checkedSum width reason (total + part.length) rest
      else .error (.descriptor reason)

def payloadLength (payload : List (List DmaPart)) : Except DeviceError Nat :=
  checkedSum 64 "block request length overflow" 0 payload.flatten

def usedLengthOf (payload : List (List DmaPart)) : Except DeviceError Nat :=
  checkedSum 32 "used length overflow" 1 payload.flatten

section
variable {F : Type} (host : HostFile F)

def preadv (iovecs : List DmaPart) (offset : Nat) (view : IoView F) : Int × IoView F :=
  let (result, bytes, file) := host.preadv view.file (iovecs.map DmaPart.length) offset
  (result, ⟨{ view.guest with host := scatter view.guest.host iovecs bytes }, file⟩)

def pwritev (iovecs : List DmaPart) (offset : Nat) (view : IoView F) : Int × IoView F :=
  let (result, file) := host.pwritev view.file (gather view.guest.host iovecs) offset
  (result, { view with file })

def syncData (view : IoView F) : Bool × IoView F :=
  let (result, file) := host.syncData view.file
  (result, { view with file })

def vectoredIo (requestType : RequestType) (iovecs : List DmaPart) (offset : Nat) (view : IoView F) :
    Int × IoView F :=
  if requestType = .tIn then preadv host iovecs offset view else pwritev host iovecs offset view

def transfer (requestType : RequestType) (iovecs : List DmaPart) (offset length : Nat) : IoM F UInt8 :=
  if iovecs.length ≥ 2 ^ 31 then Fallible.fail (.descriptor "too many block I/O vectors")
  else if offset ≥ 2 ^ 63 then Fallible.fail (.descriptor "block offset exceeds host off_t")
  else do
    let result ← Fallible.modifyGet (vectoredIo host requestType iovecs offset)
    if result < 0 ∨ result.toNat ≠ length then pure virtioBlkSIoerr else pure virtioBlkSOk

def Request.offset (request : Request) : Nat := request.sector.toNat * virtioBlkSectorSize

def transferStatus (capacity : UInt64) (readOnly : Bool) (request : Request) (payload : List (List DmaPart)) :
    IoM F UInt8 :=
  if request.offset ≥ 2 ^ 64 then Fallible.fail (.descriptor "block sector overflow")
  else do
    let length ← Fallible.ofExcept (payloadLength payload)
    if request.offset > capacity.toNat ∨ length > capacity.toNat - request.offset ∨
        (request.requestType = .tOut ∧ readOnly = true) then
      pure virtioBlkSIoerr
    else transfer host request.requestType payload.flatten request.offset length

def requestStatus (capacity : UInt64) (readOnly flushSupported : Bool) (request : Request)
    (payload : List (List DmaPart)) : IoM F UInt8 :=
  match request.requestType with
  | .flush =>
      if flushSupported then
        if payload ≠ [] then Fallible.fail (.descriptor "block flush has payload")
        else do
          let synced ← Fallible.modifyGet (syncData host)
          if synced then pure virtioBlkSOk else pure virtioBlkSIoerr
      else pure virtioBlkSUnsupp
  | .unsupported _ => pure virtioBlkSUnsupp
  | .tIn | .tOut => transferStatus host capacity readOnly request payload

def completionLength (status : UInt8) (request : Request) (payload : List (List DmaPart)) :
    Except DeviceError Nat :=
  if status = virtioBlkSOk ∧ request.requestType = .tIn then usedLengthOf payload else .ok 1

def executeBlocking (capacity : UInt64) (readOnly flushSupported : Bool) (request : Request)
    (payload : List (List DmaPart)) : IoM F (Completion × UInt8) := do
  let status ← requestStatus host capacity readOnly flushSupported request payload
  let usedLength ← Fallible.ofExcept (completionLength status request payload)
  pure (⟨status, UInt32.ofNat usedLength⟩, status)

def writeStatus (parts : List DmaPart) (status : UInt8) : DmaM Unit :=
  match parts with
  | [part] =>
      if part.length ≠ 1 then Fallible.fail (.descriptor "block status lease is malformed")
      else Fallible.update fun guest => { guest with host := Store.save guest.host part.base [status] }
  | _ => Fallible.fail (.descriptor "block status lease is malformed")

structure Device where
  readOnly : Bool
  capacity : UInt64
  negotiatedFeatures : UInt64

def Device.flushSupported (device : Device) : Bool := device.negotiatedFeatures &&& virtioBlkFFlush != 0

def leaseAll : List DmaRange → DmaM (List (List DmaPart))
  | [] => pure []
  | range :: rest => do
      let parts ← lease range
      let leases ← leaseAll rest
      pure (parts :: leases)

def checkLive (down : Bool) : DmaM Unit := if down then Fallible.fail (.down .revoked) else pure ()

def tryClone : IoM F Unit := fun view =>
  match host.tryClone view.file with
  | .ok () => (.ok (), view)
  | .error e => (.error (.io e), view)

def execute (device : Device) (down : Bool) (request : Request) : IoM F Completion := do
  onMemory (checkLive down)
  let payload ← onMemory (leaseAll request.payload)
  let status ← onMemory (lease request.status)
  tryClone host
  let (completion, value) ←
    executeBlocking host device.capacity device.readOnly device.flushSupported request payload
  onMemory (writeStatus status value)
  pure completion

end

end Block

end Libvirtio
