import Libvirtio.Fs.Inodes
import Libvirtio.Library.Program
import Libvirtio.Queue.Basic

namespace Libvirtio.Fs

def fuseLookup : UInt32 := 1
def fuseForget : UInt32 := 2
def fuseGetattr : UInt32 := 3
def fuseOpen : UInt32 := 14
def fuseRead : UInt32 := 15
def fuseRelease : UInt32 := 18
def fuseStatfs : UInt32 := 17
def fuseInit : UInt32 := 26
def fuseOpendir : UInt32 := 27
def fuseReaddir : UInt32 := 28
def fuseReleasedir : UInt32 := 29
def fuseDestroy : UInt32 := 38
def fuseInHeaderSize : Nat := 40
def fuseOutHeaderSize : Nat := 16
def fuseInitOutSize : Nat := 64
def fuseAttrSize : Nat := 88
def fuseEntryOutSize : Nat := 128
def fuseAttrOutSize : Nat := 104
def fuseOpenOutSize : Nat := 16
def fuseStatfsOutSize : Nat := 80
def fuseMinVersion : UInt32 := 7
def fuseMinMinor : UInt32 := 31
def fuseMaxRead : Nat := 1024 * 1024

def eio : Nat := 5
def efault : Nat := 14
def einval : Nat := 22
def enosys : Nat := 38

inductive FileType where
  | directory | symlink | other
  deriving DecidableEq, Repr

structure Metadata where
  fileType : FileType
  length : UInt64
  deriving DecidableEq, Repr

structure OpenFile where
  seek : UInt64 → Except IoError Unit
  read : UInt64 → Nat → Except IoError Bytes
  bounded : ∀ offset size bytes, read offset size = .ok bytes → bytes.length ≤ size

/-- What the host answers at one moment. The entries of a directory have plain names. -/
structure Host where
  symlinkMetadata : Path → Except IoError Metadata
  isDir : Path → Bool
  readDir : Path → Except IoError (List (Except IoError Bytes))
  openFile : Path → Except IoError OpenFile
  plain : ∀ path entries, readDir path = .ok entries → ∀ name, .ok name ∈ entries → Plain name

/-- A handler is a program over the inode table: each section under the inode lock is one step, and so is each look at
the host file system outside of it. -/
abbrev FsM := Program Host FsInodes DeviceError

def ioResult {α : Type} (result : Except IoError α) : Except DeviceError α := result.mapError .io

def readField (width : Nat) (bytes : Bytes) (offset : Nat) : Except DeviceError Nat :=
  match checkedAdd offset width with
  | none => .error (.descriptor "FUSE field overflow")
  | some stop =>
      if stop ≤ bytes.length then .ok (field bytes offset width) else .error (.descriptor "short FUSE field")

def readU32 (bytes : Bytes) (offset : Nat) : Except DeviceError UInt32 :=
  (readField 4 bytes offset).map UInt32.ofNat

def readU64 (bytes : Bytes) (offset : Nat) : Except DeviceError UInt64 :=
  (readField 8 bytes offset).map UInt64.ofNat

structure FuseInHeader where
  length : UInt32
  opcode : UInt32
  unique : UInt64
  nodeId : UInt64
  deriving DecidableEq, Repr

def FuseInHeader.parse (bytes : Bytes) : Except DeviceError FuseInHeader :=
  if bytes.length < fuseInHeaderSize then .error (.descriptor "short FUSE request header")
  else do
    let length ← readU32 bytes 0
    let opcode ← readU32 bytes 4
    let unique ← readU64 bytes 8
    let nodeId ← readU64 bytes 16
    pure { length, opcode, unique, nodeId }

def patch (bytes : Bytes) (field : Nat × Bytes) : Bytes :=
  bytes.take field.1 ++ field.2 ++ bytes.drop (field.1 + field.2.length)

def record (size : Nat) (fields : List (Nat × Bytes)) : Bytes := fields.foldl patch (List.replicate size 0)

def successReply (unique : UInt64) (body : Bytes) : Except Fault Bytes :=
  let length := fuseOutHeaderSize + body.length
  if length ≥ 2 ^ 64 then .error (.panic "FUSE response fits usize")
  else if length ≥ 2 ^ 32 then .error (.panic "FUSE response fits u32")
  else .ok (LittleEndian.encode 4 length ++ LittleEndian.encode 4 0 ++ LittleEndian.encode 8 unique.toNat ++ body)

-- The error field is the two's complement of a positive error number.
def errorReply (unique : UInt64) (error : Nat) : Bytes :=
  LittleEndian.encode 4 fuseOutHeaderSize ++ LittleEndian.encode 4 (2 ^ 32 - error) ++
    LittleEndian.encode 8 unique.toNat

def fuseErrno : DeviceError → Nat
  | .io error => error.rawOsError.getD eio
  | .descriptor _ | .invalidLayout _ => einval
  | .dmaRange _ _ | .dmaAlignment _ => efault
  | .down _ => eio
  | .invalidQueue _ _ | .worker _ => eio

def fuseAttr (nodeId : UInt64) (metadata : Metadata) : Bytes :=
  record fuseAttrSize [
    (0, LittleEndian.encode 8 nodeId.toNat),
    (8, LittleEndian.encode 8 metadata.length.toNat),
    (60, LittleEndian.encode 4 (if metadata.fileType = .directory then 0o040555 else 0o100444)),
    (64, LittleEndian.encode 4 1),
    (84, LittleEndian.encode 4 4096)]

def entryOut (nodeId : UInt64) (metadata : Metadata) : Bytes :=
  record fuseEntryOutSize [
    (0, LittleEndian.encode 8 nodeId.toNat),
    (16, LittleEndian.encode 8 1),
    (24, LittleEndian.encode 8 1),
    (40, fuseAttr nodeId metadata)]

def dirent (nodeId : UInt64) (offset : Nat) (name : Bytes) (metadata : Metadata) : Except DeviceError Bytes :=
  if name.length ≥ 2 ^ 32 then .error (.descriptor "directory name too long")
  else
    match (checkedAdd 24 name.length).bind fun raw => checkedAdd raw 7 with
    | none => .error (.descriptor "directory entry overflow")
    | some padded => .ok (record (padded / 8 * 8) [
        (0, LittleEndian.encode 8 nodeId.toNat),
        (8, LittleEndian.encode 8 offset),
        (16, LittleEndian.encode 4 name.length),
        (20, LittleEndian.encode 4 (if metadata.fileType = .directory then 4 else 8)),
        (24, name)])

def initReply (payload : Bytes) : Except DeviceError Bytes :=
  if payload.length < 16 then .error (.descriptor "short FUSE_INIT request")
  else do
    let major ← readU32 payload 0
    if major ≠ fuseMinVersion then .error (.descriptor "unsupported FUSE major version")
    else pure (record fuseInitOutSize [
      (0, LittleEndian.encode 4 fuseMinVersion.toNat),
      (4, LittleEndian.encode 4 fuseMinMinor.toNat),
      (8, LittleEndian.encode 4 fuseMaxRead),
      (20, LittleEndian.encode 4 fuseMaxRead),
      (24, LittleEndian.encode 4 1),
      (28, LittleEndian.encode 2 256)])

def statfsReply : Bytes :=
  record fuseStatfsOutSize [
    (40, LittleEndian.encode 4 4096),
    (44, LittleEndian.encode 4 255),
    (48, LittleEndian.encode 4 4096)]

def isContinuation (b : UInt8) : Bool := 0x80 ≤ b && b ≤ 0xbf

/-- `std::str::from_utf8` accepts the bytes. -/
def utf8Valid : Bytes → Bool
  | [] => true
  | a :: rest =>
      if a < 0x80 then utf8Valid rest
      else
        match rest with
        | [] => false
        | b :: rest =>
            if 0xc2 ≤ a && a ≤ 0xdf then isContinuation b && utf8Valid rest
            else
              match rest with
              | [] => false
              | c :: rest =>
                  if 0xe0 ≤ a && a ≤ 0xef then
                    isContinuation b && (a != 0xe0 || 0xa0 ≤ b) && (a != 0xed || b ≤ 0x9f) &&
                      isContinuation c && utf8Valid rest
                  else
                    match rest with
                    | [] => false
                    | d :: rest =>
                        0xf0 ≤ a && a ≤ 0xf4 && isContinuation b && (a != 0xf0 || 0x90 ≤ b) &&
                          (a != 0xf4 || b ≤ 0x8f) && isContinuation c && isContinuation d && utf8Valid rest

def lookupName (payload : Bytes) : Except DeviceError Bytes :=
  if payload.getLast? ≠ some 0 then .error (.descriptor "FUSE_LOOKUP name is not NUL terminated")
  else
    let name := payload.dropLast
    if utf8Valid name = false then .error (.descriptor "FUSE_LOOKUP name is not UTF-8")
    else if name = [] ∨ name = dot ∨ name = dotDot ∨ slash ∈ name then
      .error (.descriptor "unsafe FUSE_LOOKUP name")
    else .ok name

section
variable (host : Host)

def lookupLocked (root : Path) (parent : UInt64) (name : Bytes) : Fallible DeviceError FsInodes Bytes := do
  let inodes ← Fallible.read
  match inodes.byId parent with
  | none => Fallible.fail (.descriptor "unknown FUSE parent inode")
  | some parentPath => do
      let path := join parentPath name
      let metadata ← Fallible.ofExcept (ioResult (host.symlinkMetadata path))
      if metadata.fileType = .symlink ∨ startsWith path root = false then
        Fallible.fail (.descriptor "virtio-fs symlink is not supported")
      else do
        let nodeId ← FsInodes.idForPath path
        pure (entryOut nodeId metadata)

def regularMetadata (nodeId : UInt64) : Fallible DeviceError FsInodes Metadata := do
  let inodes ← Fallible.read
  match inodes.byId nodeId with
  | none => Fallible.fail (.descriptor "unknown FUSE inode")
  | some path => do
      let metadata ← Fallible.ofExcept (ioResult (host.symlinkMetadata path))
      if metadata.fileType = .symlink then Fallible.fail (.descriptor "virtio-fs symlink is not supported")
      else pure metadata

def getattrLocked (nodeId : UInt64) : Fallible DeviceError FsInodes Bytes := do
  let metadata ← regularMetadata host nodeId
  pure (record fuseAttrOutSize [(0, LittleEndian.encode 8 1), (16, fuseAttr nodeId metadata)])

def openLocked (nodeId : UInt64) : Fallible DeviceError FsInodes Bytes := do
  let _ ← regularMetadata host nodeId
  pure (record fuseOpenOutSize [(0, LittleEndian.encode 8 nodeId.toNat)])

def readFile (path : Path) (offset : UInt64) (size : Nat) : Except DeviceError Bytes := do
  let file ← ioResult (host.openFile path)
  ioResult (file.seek offset)
  ioResult (file.read offset size)

end

def pathOf (nodeId : UInt64) : FsM Path :=
  .atomic fun _ => do
    let inodes ← Fallible.read
    match inodes.byId nodeId with
    | none => Fallible.fail (.descriptor "unknown FUSE inode")
    | some path => pure path

def lookupReply (root : Path) (parent : UInt64) (payload : Bytes) : FsM Bytes := do
  let name ← .ofExcept (lookupName payload)
  .atomic fun host => lookupLocked host root parent name

def getattrReply (nodeId : UInt64) : FsM Bytes := .atomic fun host => getattrLocked host nodeId

def openReply (nodeId : UInt64) : FsM Bytes := .atomic fun host => openLocked host nodeId

def readReply (nodeId : UInt64) (payload : Bytes) : FsM Bytes :=
  if payload.length < 24 then .fail (.descriptor "short FUSE_READ request")
  else do
    let offset ← .ofExcept (readU64 payload 8)
    let size ← .ofExcept (readU32 payload 16)
    let path ← pathOf nodeId
    .ask fun host => readFile host path offset (min size.toNat fuseMaxRead)

def readdirEntries (path : Path) (offset : UInt64) (maximum : Nat) :
    List (Except IoError Bytes) → Nat → Bytes → FsM Bytes
  | [], _, entries => pure entries
  | .error e :: _, _, _ => .fail (.io e)
  | .ok name :: rest, index, entries =>
      if index < offset.toNat then readdirEntries path offset maximum rest (index + 1) entries
      else do
        let metadata ← .ask fun host => ioResult (host.symlinkMetadata (join path name))
        if metadata.fileType = .symlink then readdirEntries path offset maximum rest (index + 1) entries
        else if utf8Valid name = false then .fail (.descriptor "non-UTF-8 virtio-fs name")
        else do
          let id ← .atomic fun _ => FsInodes.idForPath (join path name)
          let entry ← .ofExcept (dirent id (index + 1) name metadata)
          if entries.length + entry.length ≥ 2 ^ 64 ∨ entries.length + entry.length > maximum then pure entries
          else readdirEntries path offset maximum rest (index + 1) (entries ++ entry)

def listDirectory (root path : Path) (host : Host) : Except DeviceError (List (Except IoError Bytes)) :=
  if startsWith path root = false ∨ host.isDir path = false then
    .error (.descriptor "FUSE_READDIR inode is not a directory")
  else ioResult (host.readDir path)

def readdirReply (root : Path) (nodeId : UInt64) (payload : Bytes) : FsM Bytes :=
  if payload.length < 24 then .fail (.descriptor "short FUSE_READDIR request")
  else do
    let offset ← .ofExcept (readU64 payload 8)
    let maximum ← .ofExcept (readU32 payload 16)
    let path ← pathOf nodeId
    let names ← .ask (listDirectory root path)
    readdirEntries path offset maximum.toNat names 0 []

def silentOpcodes : List UInt32 := [fuseForget, fuseRelease, fuseReleasedir, fuseDestroy]

def handler (root : Path) (header : FuseInHeader) (payload : Bytes) : Option (FsM Bytes) :=
  if header.opcode = fuseInit then some (.ofExcept (initReply payload))
  else if header.opcode = fuseLookup then some (lookupReply root header.nodeId payload)
  else if header.opcode = fuseGetattr then some (getattrReply header.nodeId)
  else if header.opcode = fuseOpen ∨ header.opcode = fuseOpendir then some (openReply header.nodeId)
  else if header.opcode = fuseRead then some (readReply header.nodeId payload)
  else if header.opcode = fuseReaddir then some (readdirReply root header.nodeId payload)
  else if header.opcode = fuseStatfs then some (pure statfsReply)
  else none

def finishReply (unique : UInt64) : Except DeviceError Bytes → Except Fault Bytes
  | .ok body => successReply unique body
  | .error error => .ok (errorReply unique (fuseErrno error))

def executeRequest (root : Path) (request : Bytes) : Program Host FsInodes Fault Bytes :=
  match FuseInHeader.parse request with
  | .error error => .fail (.error error)
  | .ok header =>
      if header.length.toNat ≠ request.length then pure (errorReply header.unique einval)
      else if header.opcode ∈ silentOpcodes then pure []
      else
        match handler root header (request.drop fuseInHeaderSize) with
        | none => pure (errorReply header.unique enosys)
        | some program => do
            let result ← program.attempt
            .ofExcept (finishReply header.unique result)

end Libvirtio.Fs
