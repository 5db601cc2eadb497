import Libvirtio.Fs.Dirent
import Libvirtio.Fs.Table

namespace Libvirtio.Fs

/-- The header of a reply, and its body. -/
def frame (length error : Nat) (unique : UInt64) (body : Bytes) : Bytes :=
  LittleEndian.encode 4 length ++ LittleEndian.encode 4 error ++ LittleEndian.encode 8 unique.toNat ++ body

section
variable {length error : Nat} {unique : UInt64} {body reply : Bytes}

theorem length_frame : (frame length error unique body).length = fuseOutHeaderSize + body.length := by
  simp only [frame, List.length_append, LittleEndian.length_encode, fuseOutHeaderSize]

theorem drop_frame : (frame length error unique body).drop fuseOutHeaderSize = body :=
  List.drop_left' (by simp [fuseOutHeaderSize])

theorem field_frame_length (fits : length < 2 ^ 32) : field (frame length error unique body) 0 4 = length := by
  simp only [frame, List.append_assoc]
  exact field_append List.length_nil fits

theorem field_frame_error (fits : error < 2 ^ 32) : field (frame length error unique body) 4 4 = error := by
  simp only [frame, List.append_assoc]
  exact field_append (by simp) fits

theorem field_frame_unique : field (frame length error unique body) 8 8 = unique.toNat := by
  rw [frame, List.append_assoc]
  exact field_append (by simp) unique.toNat_lt

theorem errorReply_eq (unique : UInt64) (errno : Nat) :
    errorReply unique errno = frame fuseOutHeaderSize (2 ^ 32 - errno) unique [] := by
  rw [errorReply, frame, List.append_nil]

theorem successReply_eq_ok : successReply unique body = .ok reply ↔
    fuseOutHeaderSize + body.length < 2 ^ 32 ∧ frame (fuseOutHeaderSize + body.length) 0 unique body = reply := by
  unfold successReply
  simp only
  split
  · exact iff_of_false (by simp) fun fits => by omega
  split
  · exact iff_of_false (by simp) fun fits => by omega
  · rename_i short
    rw [Except.ok.injEq]
    exact ⟨fun made => ⟨by omega, made⟩, And.right⟩

theorem successReply_eq_panic : successReply unique body = .error (.panic "FUSE response fits u32") ↔
    2 ^ 32 ≤ fuseOutHeaderSize + body.length ∧ fuseOutHeaderSize + body.length < 2 ^ 64 := by
  unfold successReply
  simp only
  split
  · exact iff_of_false (by simp) (by omega)
  split
  · exact iff_of_true rfl (by omega)
  · exact iff_of_false (by simp) (by omega)

end

def AnsweredError (unique : UInt64) (result : Except Fault Bytes) : Prop :=
  ∃ errno, 0 < errno ∧ errno < 2 ^ 31 ∧ result = .ok (errorReply unique errno)

theorem fuseErrno_range (error : DeviceError) : 0 < fuseErrno error ∧ fuseErrno error < 2 ^ 31 := by
  cases error with
  | io e =>
      cases code : e.rawOsError with
      | none => simp [fuseErrno, code, eio]
      | some errno =>
          have := e.inRange errno code
          simpa [fuseErrno, code] using this
  | _ => simp [fuseErrno, eio, einval, efault]

theorem errorReply_ne_successReply {unique : UInt64} {errno : Nat} {body : Bytes} (positive : 0 < errno)
    (small : errno < 2 ^ 31) : successReply unique body ≠ .ok (errorReply unique errno) := by
  intro same
  have frames := (successReply_eq_ok.mp same).2
  rw [errorReply_eq] at frames
  have errors := congrArg (fun reply => field reply 4 4) frames
  beta_reduce at errors
  rw [field_frame_error (by decide), field_frame_error (by omega)] at errors
  omega

theorem finishReply_error {unique : UInt64} {result : Except DeviceError Bytes} :
    AnsweredError unique (finishReply unique result) ↔ ∃ error, result = .error error := by
  cases result with
  | error error =>
      obtain ⟨positive, small⟩ := fuseErrno_range error
      exact ⟨fun _ => ⟨error, rfl⟩, fun _ => ⟨_, positive, small, rfl⟩⟩
  | ok body =>
      constructor
      · rintro ⟨errno, positive, small, same⟩
        exact absurd same (errorReply_ne_successReply positive small)
      · rintro ⟨error, same⟩
        cases same

section
variable {root : Path} {host : Host} {inodes : FsInodes}

theorem executeRequest_run {request : Bytes} {header : FuseInHeader} {program : FsM Bytes}
    (parsed : FuseInHeader.parse request = .ok header) (length : header.length.toNat = request.length)
    (speaks : header.opcode ∉ silentOpcodes)
    (dispatched : handler root header (request.drop fuseInHeaderSize) = some program) :
    (executeRequest root request).run host inodes =
      (finishReply header.unique (program.run host inodes).1, (program.run host inodes).2) := by
  unfold executeRequest
  rw [parsed]
  simp only [length, ne_eq, not_true_eq_false, if_false, speaks, dispatched]
  rw [Program.run_bind, Program.run_attempt]
  rfl

theorem lookupReply_stat {parent : UInt64} {payload name : Bytes} {path : Path} {metadata : Metadata}
    (parsed : lookupName payload = .ok name) (bound : inodes.byId parent = some path)
    (stat : host.symlinkMetadata (join path name) = .ok metadata) :
    (lookupReply root parent payload).run host inodes =
      if metadata.fileType = .symlink ∨ startsWith (join path name) root = false then
        (.error (.descriptor "virtio-fs symlink is not supported"), inodes)
      else ((FsInodes.idForPath (join path name) inodes).1.map (entryOut · metadata),
        (FsInodes.idForPath (join path name) inodes).2) := by
  rw [lookupReply, parsed, Program.ofExcept_ok_bind, Program.run_atomic, lookupLocked,
    Fallible.bind_of_ok (Fallible.read_apply inodes), bound]
  simp only
  rw [stat, Fallible.bind_of_ok (show Fallible.ofExcept (ioResult (.ok metadata)) inodes = (.ok metadata, inodes) from rfl),
    Fallible.ite_apply]
  split
  · rfl
  · rw [Fallible.bind_apply]
    rcases FsInodes.idForPath (join path name) inodes with ⟨e | id, after⟩
    · rfl
    · rfl

theorem lookupReply_run {parent : UInt64} {payload name : Bytes} {path : Path} {metadata : Metadata}
    (parsed : lookupName payload = .ok name) (bound : inodes.byId parent = some path)
    (stat : host.symlinkMetadata (join path name) = .ok metadata) (regular : metadata.fileType ≠ .symlink)
    (below : startsWith (join path name) root = true) :
    (lookupReply root parent payload).run host inodes =
      ((FsInodes.idForPath (join path name) inodes).1.map (entryOut · metadata),
        (FsInodes.idForPath (join path name) inodes).2) := by
  have kept : ¬(metadata.fileType = .symlink ∨ startsWith (join path name) root = false) :=
    not_or.mpr ⟨regular, by simp [below]⟩
  rw [lookupReply_stat parsed bound stat, if_neg kept]

theorem readField_eq {width offset : Nat} {bytes : Bytes} (small : offset + width < 2 ^ 64)
    (inside : offset + width ≤ bytes.length) : readField width bytes offset = .ok (field bytes offset width) := by
  rw [readField, checkedAdd, if_pos small]
  simp only [if_pos inside]

theorem FuseInHeader.parse_eq {bytes : Bytes} (long : fuseInHeaderSize ≤ bytes.length) :
    FuseInHeader.parse bytes = .ok ⟨UInt32.ofNat (field bytes 0 4), UInt32.ofNat (field bytes 4 4),
      UInt64.ofNat (field bytes 8 8), UInt64.ofNat (field bytes 16 8)⟩ := by
  unfold fuseInHeaderSize at long
  rw [FuseInHeader.parse, fuseInHeaderSize, if_neg (by omega), readU32, readU32, readU64, readU64,
    readField_eq (by decide) (by omega), readField_eq (by decide) (by omega), readField_eq (by decide) (by omega),
    readField_eq (by decide) (by omega)]
  rfl

def readOffset (payload : Bytes) : UInt64 := UInt64.ofNat (field payload 8 8)

def readSize (payload : Bytes) : UInt32 := UInt32.ofNat (field payload 16 4)

theorem readFields {payload : Bytes} (long : 24 ≤ payload.length) :
    readU64 payload 8 = .ok (readOffset payload) ∧ readU32 payload 16 = .ok (readSize payload) := by
  constructor
  · rw [readU64, readField_eq (by decide) (by omega)]
    rfl
  · rw [readU32, readField_eq (by decide) (by omega)]
    rfl

theorem readReply_eq {nodeId : UInt64} {payload : Bytes} (long : 24 ≤ payload.length) :
    readReply nodeId payload = pathOf nodeId >>= fun path =>
      .ask fun host => readFile host path (readOffset payload) (min (readSize payload).toNat fuseMaxRead) := by
  obtain ⟨offset, size⟩ := readFields long
  rw [readReply, if_neg (Nat.not_lt.mpr long), offset, size, Program.ofExcept_ok_bind, Program.ofExcept_ok_bind]

theorem readdirReply_eq {nodeId : UInt64} {payload : Bytes} (long : 24 ≤ payload.length) :
    readdirReply root nodeId payload = pathOf nodeId >>= fun path => .ask (listDirectory root path) >>= fun names =>
      readdirEntries path (readOffset payload) (readSize payload).toNat names 0 [] := by
  obtain ⟨offset, size⟩ := readFields long
  rw [readdirReply, if_neg (Nat.not_lt.mpr long), offset, size, Program.ofExcept_ok_bind, Program.ofExcept_ok_bind]

theorem pathOf_run {nodeId : UInt64} {path : Path} (bound : inodes.byId nodeId = some path) :
    (pathOf nodeId).run host inodes = (.ok path, inodes) := by
  rw [pathOf_eq]
  change ((inodes.byId nodeId).elim _ _, inodes) = _
  rw [bound]
  rfl

theorem pathOf_unbound {nodeId : UInt64} (unbound : inodes.byId nodeId = none) :
    (pathOf nodeId).run host inodes = (.error (.descriptor "unknown FUSE inode"), inodes) := by
  rw [pathOf_eq]
  change ((inodes.byId nodeId).elim _ _, inodes) = _
  rw [unbound]
  rfl

theorem readReply_run {nodeId : UInt64} {payload : Bytes} {path : Path} (long : 24 ≤ payload.length)
    (bound : inodes.byId nodeId = some path) :
    ((readReply nodeId payload).run host inodes).1 =
      readFile host path (readOffset payload) (min (readSize payload).toNat fuseMaxRead) := by
  rw [readReply_eq long, Program.run_bind, pathOf_run bound]
  rfl

theorem readdirReply_run {nodeId : UInt64} {payload : Bytes} (long : 24 ≤ payload.length) :
    ((readdirReply root nodeId payload).run host inodes).1 =
      ((pathOf nodeId).run host inodes).1.bind fun path => (listDirectory root path host).bind fun names =>
        ((readdirEntries path (readOffset payload) (readSize payload).toNat names 0 []).run host inodes).1 := by
  rw [readdirReply_eq long, Program.run_bind]
  cases bound : inodes.byId nodeId with
  | none =>
      rw [pathOf_unbound bound]
      rfl
  | some path =>
      rw [pathOf_run bound]
      simp only
      rw [Program.run_bind, Program.run_ask]
      cases listed : listDirectory root path host with
      | error e => simp only [Except.bind, listed]
      | ok names => simp only [Except.bind, listed]

/-- The directory entries that the host yields can be listed: up to the one that does not fit any more, each has
metadata, a name of valid UTF-8 and an id. -/
def Listable (host : Host) (path : Path) (offset : UInt64) (maximum : Nat) :
    FsInodes → List (Except IoError Bytes) → Nat → Nat → Prop
  | _, [], _, _ => True
  | _, .error _ :: _, _, _ => False
  | inodes, .ok name :: rest, index, used =>
      if index < offset.toNat then Listable host path offset maximum inodes rest (index + 1) used
      else
        match host.symlinkMetadata (join path name) with
        | .error _ => False
        | .ok metadata =>
            if metadata.fileType = .symlink then Listable host path offset maximum inodes rest (index + 1) used
            else
              utf8Valid name = true ∧ name.length < 2 ^ 32 ∧
              ((inodes.byPath (join path name)).isSome ∨ inodes.next.toNat + 1 < 2 ^ 64) ∧
              (used + direntLength name ≤ maximum →
                Listable host path offset maximum (FsInodes.idForPath (join path name) inodes).2 rest (index + 1)
                  (used + direntLength name))

theorem dirent_cases (id : UInt64) (index : Nat) (name : Bytes) (metadata : Metadata) :
    (name.length < 2 ^ 32 ∧ ∃ entry, dirent id index name metadata = .ok entry ∧ entry.length = direntLength name) ∨
      (¬name.length < 2 ^ 32 ∧ ∃ error, dirent id index name metadata = .error error) := by
  by_cases short : name.length < 2 ^ 32
  · exact Or.inl ⟨short, _, dirent_eq id index short metadata, Dirent.length_bytes _⟩
  · rw [dirent, if_pos (by omega)]
    exact Or.inr ⟨short, _, rfl⟩

theorem idForPath_ok {path : Path} :
    (∃ id, (FsInodes.idForPath path inodes).1 = .ok id) ↔
      (inodes.byPath path).isSome ∨ inodes.next.toNat + 1 < 2 ^ 64 := by
  unfold FsInodes.idForPath
  cases bound : inodes.byPath path with
  | some id => simp
  | none =>
      simp only [Option.isSome_none, Bool.false_eq_true, false_or]
      split
      · rename_i room
        exact ⟨fun _ => room, fun _ => ⟨_, rfl⟩⟩
      · rename_i full
        exact iff_of_false (by simp) full

theorem readdirEntries_ok {path : Path} {offset : UInt64} {maximum : Nat} (bounded : maximum < 2 ^ 64)
    (names : List (Except IoError Bytes)) (index : Nat) (entries : Bytes) :
    (∃ data, ((readdirEntries path offset maximum names index entries).run host inodes).1 = .ok data) ↔
      Listable host path offset maximum inodes names index entries.length := by
  induction names generalizing inodes index entries with
  | nil => exact ⟨fun _ => trivial, fun _ => ⟨entries, rfl⟩⟩
  | cons first rest ih =>
      cases first with
      | error e => exact iff_of_false (by simp [readdirEntries]) id
      | ok name =>
          unfold readdirEntries Listable
          by_cases skipped : index < offset.toNat
          · rw [if_pos skipped, if_pos skipped]
            exact ih _ _
          rw [if_neg skipped, if_neg skipped, Program.run_bind, Program.run_ask]
          cases host.symlinkMetadata (join path name) with
          | error e => exact iff_of_false (by simp [ioResult, Except.mapError]) id
          | ok metadata =>
              simp only [ioResult, Except.mapError]
              by_cases link : metadata.fileType = .symlink
              · rw [if_pos link, if_pos link]
                exact ih _ _
              rw [if_neg link, if_neg link]
              by_cases invalid : utf8Valid name = false
              · rw [if_pos invalid]
                exact iff_of_false (by simp) fun listed => Bool.false_ne_true (invalid.symm.trans listed.1)
              rw [if_neg invalid, Program.run_bind, Program.run_atomic, ← idForPath_ok]
              rw [Bool.not_eq_false] at invalid
              rcases bound : FsInodes.idForPath (join path name) inodes with ⟨result, table⟩
              cases result with
              | error e => exact iff_of_false (by simp) (by simp)
              | ok id =>
                  simp only
                  rw [Program.run_bind, Program.run_ofExcept]
                  rcases dirent_cases id (index + 1) name metadata with ⟨short, entry, made, length⟩ | ⟨long, e, refused⟩
                  · rw [made]
                    simp only [invalid, short, true_and]
                    split
                    · rename_i full
                      exact ⟨fun _ => ⟨⟨id, rfl⟩, fun fits => by omega⟩, fun _ => ⟨entries, rfl⟩⟩
                    · rename_i room
                      rw [ih, List.length_append, length]
                      exact ⟨fun listed => ⟨⟨id, rfl⟩, fun _ => listed⟩, fun listed => listed.2 (by omega)⟩
                  · rw [refused]
                    exact iff_of_false (by simp) fun listed => long listed.2.1

theorem readdirReply_ok_iff {nodeId : UInt64} {payload : Bytes} :
    (∃ body, ((readdirReply root nodeId payload).run host inodes).1 = .ok body) ↔ 24 ≤ payload.length ∧
      ∃ path names, inodes.byId nodeId = some path ∧ listDirectory root path host = .ok names ∧
        Listable host path (readOffset payload) (readSize payload).toNat inodes names 0 0 := by
  by_cases long : 24 ≤ payload.length
  · have bounded : (readSize payload).toNat < 2 ^ 64 := Nat.lt_trans (readSize payload).toNat_lt (by decide)
    rw [readdirReply_run long, and_iff_right long]
    cases bound : inodes.byId nodeId with
    | none =>
        rw [pathOf_unbound bound]
        simp [Except.bind]
    | some path =>
        rw [pathOf_run bound]
        cases listed : listDirectory root path host with
        | error e => simp [Except.bind, listed]
        | ok names =>
            simp only [Except.bind, listed, Option.some.injEq]
            rw [readdirEntries_ok bounded names 0 []]
            constructor
            · exact fun listable => ⟨path, names, rfl, listed, listable⟩
            · rintro ⟨_, _, rfl, again, listable⟩
              cases listed.symm.trans again
              exact listable
  · rw [readdirReply, if_pos (by omega)]
    exact iff_of_false (by simp) fun both => long both.1

def IsSymlink (host : Host) (path : Path) : Prop :=
  ∃ metadata, host.symlinkMetadata path = .ok metadata ∧ metadata.fileType = .symlink

/-- The path that a request is about: its inode's, or for `FUSE_LOOKUP` the name below its inode's. -/
def resolvedPath (inodes : FsInodes) (header : FuseInHeader) (payload : Bytes) : Option Path :=
  if header.opcode = fuseLookup then
    match lookupName payload with
    | .ok name => (inodes.byId header.nodeId).map fun parent => join parent name
    | .error _ => none
  else if header.opcode ∈ [fuseGetattr, fuseOpen, fuseOpendir, fuseRead, fuseReaddir] then inodes.byId header.nodeId
  else none

/-- A `FUSE_READ` that the host serves from the file behind `path`, or a `FUSE_READDIR` that lists the directory
behind it. -/
def Followed (root : Path) (host : Host) (inodes : FsInodes) (header : FuseInHeader) (request : Bytes)
    (path : Path) : Prop :=
  let payload := request.drop fuseInHeaderSize
  header.length.toNat = request.length ∧ 24 ≤ payload.length ∧
  ((header.opcode = fuseRead ∧ ∃ data,
      readFile host path (readOffset payload) (min (readSize payload).toNat fuseMaxRead) = .ok data) ∨
    (header.opcode = fuseReaddir ∧ startsWith path root = true ∧ host.isDir path = true ∧
      ∃ names, host.readDir path = .ok names ∧
        Listable host path (readOffset payload) (readSize payload).toNat inodes names 0 0))

theorem regularMetadata_symlink {nodeId : UInt64} {path : Path} (bound : inodes.byId nodeId = some path)
    (symlink : IsSymlink host path) :
    regularMetadata host nodeId inodes = (.error (.descriptor "virtio-fs symlink is not supported"), inodes) := by
  obtain ⟨metadata, found, kind⟩ := symlink
  rw [regularMetadata, Fallible.bind_of_ok (Fallible.read_apply inodes), bound]
  simp only
  rw [found, Fallible.bind_of_ok (show Fallible.ofExcept (ioResult (.ok metadata)) inodes = (.ok metadata, inodes) from rfl),
    if_pos kind]
  rfl

theorem lookupReply_symlink {parent : UInt64} {payload name : Bytes} {path : Path}
    (parsed : lookupName payload = .ok name) (bound : inodes.byId parent = some path)
    (symlink : IsSymlink host (join path name)) :
    ((lookupReply root parent payload).run host inodes).1 =
      .error (.descriptor "virtio-fs symlink is not supported") := by
  obtain ⟨metadata, found, kind⟩ := symlink
  rw [lookupReply_stat parsed bound found, if_pos (Or.inl kind)]

theorem getattrReply_symlink {nodeId : UInt64} {path : Path} (bound : inodes.byId nodeId = some path)
    (symlink : IsSymlink host path) :
    ((getattrReply nodeId).run host inodes).1 = .error (.descriptor "virtio-fs symlink is not supported") := by
  rw [getattrReply, Program.run_atomic, getattrLocked, Fallible.bind_of_error (regularMetadata_symlink bound symlink)]

theorem openReply_symlink {nodeId : UInt64} {path : Path} (bound : inodes.byId nodeId = some path)
    (symlink : IsSymlink host path) :
    ((openReply nodeId).run host inodes).1 = .error (.descriptor "virtio-fs symlink is not supported") := by
  rw [openReply, Program.run_atomic, openLocked, Fallible.bind_of_error (regularMetadata_symlink bound symlink)]

theorem readReply_symlink {request : Bytes} {header : FuseInHeader} {path : Path}
    (length : header.length.toNat = request.length) (opcode : header.opcode = fuseRead)
    (bound : inodes.byId header.nodeId = some path) :
    (∃ error, ((readReply header.nodeId (request.drop fuseInHeaderSize)).run host inodes).1 = .error error) ↔
      ¬Followed root host inodes header request path := by
  have other : fuseRead ≠ fuseReaddir := by decide
  by_cases long : 24 ≤ (request.drop fuseInHeaderSize).length
  · rw [readReply_run long bound]
    simp only [Followed, length, long, opcode, other, true_and, false_and, or_false]
    cases readFile host path _ _ with
    | error e => simp
    | ok data => simp
  · have short : (readReply header.nodeId (request.drop fuseInHeaderSize)).run host inodes =
        (.error (.descriptor "short FUSE_READ request"), inodes) := by
      rw [readReply, if_pos (by omega)]
      rfl
    rw [short]
    exact ⟨fun _ followed => long followed.2.1, fun _ => ⟨_, rfl⟩⟩

theorem readdirReply_symlink {request : Bytes} {header : FuseInHeader} {path : Path}
    (length : header.length.toNat = request.length) (opcode : header.opcode = fuseReaddir)
    (bound : inodes.byId header.nodeId = some path) :
    (∃ error, ((readdirReply root header.nodeId (request.drop fuseInHeaderSize)).run host inodes).1 = .error error) ↔
      ¬Followed root host inodes header request path := by
  have other : fuseReaddir ≠ fuseRead := by decide
  have followed : Followed root host inodes header request path ↔
      ∃ body, ((readdirReply root header.nodeId (request.drop fuseInHeaderSize)).run host inodes).1 = .ok body := by
    simp only [readdirReply_ok_iff, Followed, length, opcode, other, bound, listDirectory_eq_ok, true_and, false_and,
      false_or, Option.some.injEq, exists_and_left, exists_eq_left', and_assoc]
  rw [followed]
  cases ((readdirReply root header.nodeId (request.drop fuseInHeaderSize)).run host inodes).1 with
  | error e => simp
  | ok body => simp

variable (root) in
theorem handler_symlink {request : Bytes} {header : FuseInHeader} {path : Path}
    (length : header.length.toNat = request.length)
    (resolved : resolvedPath inodes header (request.drop fuseInHeaderSize) = some path)
    (symlink : IsSymlink host path) :
    ∃ program, header.opcode ∉ silentOpcodes ∧
      handler root header (request.drop fuseInHeaderSize) = some program ∧
      ((∃ error, (program.run host inodes).1 = .error error) ↔ ¬Followed root host inodes header request path) := by
  unfold resolvedPath at resolved
  split at resolved
  · rename_i opcode
    split at resolved
    · rename_i name parsed
      obtain ⟨parent, bound, rfl⟩ := Option.map_eq_some_iff.mp resolved
      refine ⟨lookupReply root header.nodeId (request.drop fuseInHeaderSize), by rw [opcode]; decide, ?_, ?_⟩
      · rw [handler, opcode]
        rfl
      · rw [lookupReply_symlink parsed bound symlink]
        simp [Followed, opcode, fuseLookup, fuseRead, fuseReaddir]
    · cases resolved
  split at resolved
  · rename_i _ known
    simp only [List.mem_cons, List.not_mem_nil, or_false] at known
    rcases known with opcode | opcode | opcode | opcode | opcode
    · refine ⟨getattrReply header.nodeId, by rw [opcode]; decide, by rw [handler, opcode]; rfl, ?_⟩
      rw [getattrReply_symlink resolved symlink]
      simp [Followed, opcode, fuseGetattr, fuseRead, fuseReaddir]
    · refine ⟨openReply header.nodeId, by rw [opcode]; decide, by rw [handler, opcode]; rfl, ?_⟩
      rw [openReply_symlink resolved symlink]
      simp [Followed, opcode, fuseOpen, fuseRead, fuseReaddir]
    · refine ⟨openReply header.nodeId, by rw [opcode]; decide, by rw [handler, opcode]; rfl, ?_⟩
      rw [openReply_symlink resolved symlink]
      simp [Followed, opcode, fuseOpendir, fuseRead, fuseReaddir]
    · refine ⟨readReply header.nodeId (request.drop fuseInHeaderSize), by rw [opcode]; decide,
        by rw [handler, opcode]; rfl, ?_⟩
      exact readReply_symlink length opcode resolved
    · refine ⟨readdirReply root header.nodeId (request.drop fuseInHeaderSize), by rw [opcode]; decide,
        by rw [handler, opcode]; rfl, ?_⟩
      exact readdirReply_symlink length opcode resolved
  · cases resolved

theorem symlink_error_iff {request : Bytes} {header : FuseInHeader} {path : Path}
    (parsed : FuseInHeader.parse request = .ok header)
    (resolved : resolvedPath inodes header (request.drop fuseInHeaderSize) = some path)
    (symlink : IsSymlink host path) :
    AnsweredError header.unique ((executeRequest root request).run host inodes).1 ↔
      ¬Followed root host inodes header request path := by
  by_cases length : header.length.toNat = request.length
  · obtain ⟨program, speaks, dispatched, followed⟩ := handler_symlink root length resolved symlink
    rw [executeRequest_run parsed length speaks dispatched]
    exact finishReply_error.trans followed
  · have refused : (executeRequest root request).run host inodes = (.ok (errorReply header.unique einval), inodes) := by
      rw [executeRequest, parsed]
      simp only [ne_eq, length, not_false_eq_true, if_true]
      rfl
    rw [refused]
    exact ⟨fun _ followed => length followed.1, fun _ => ⟨einval, by decide, by decide, rfl⟩⟩

end

structure Exchange where
  request : Bytes
  host : Host
  inodes : FsInodes
  reply : Except Fault Bytes

structure Session where
  inodes : FsInodes
  exchanges : List Exchange

namespace Session

def start (root : Path) : Session := ⟨FsInodes.new root, []⟩

def step (root : Path) (s : Session) (next : Bytes × Host) : Option Session :=
  let (reply, inodes) := (executeRequest root next.1).run next.2 s.inodes
  some ⟨inodes, s.exchanges ++ [⟨next.1, next.2, s.inodes, reply⟩]⟩

variable {root : Path} {requests : List (Bytes × Host)} {s : Session}

theorem reply_eq (run : exec (step root) (start root) requests = some s) :
    ∀ e ∈ s.exchanges, e.reply = ((executeRequest root e.request).run e.host e.inodes).1 := by
  refine Execution.invariant
    (fun s : Session => ∀ e ∈ s.exchanges, e.reply = ((executeRequest root e.request).run e.host e.inodes).1)
    ?_ (fun e member => absurd member List.not_mem_nil) run
  intro s next t answered stepped e member
  cases stepped
  rcases List.mem_append.mp member with earlier | last
  · exact answered e earlier
  · rw [List.mem_singleton.mp last]

end Session

/-- In every session, whatever the host did in between, a request to a symlink is answered with an error unless it is
a `FUSE_READ` or `FUSE_READDIR` that the host serves from the link's target. -/
theorem symlink_replies_iff {root : Path} {requests : List (Bytes × Host)} {s : Session}
    (run : exec (Session.step root) (Session.start root) requests = some s) {e : Exchange} (member : e ∈ s.exchanges)
    {header : FuseInHeader} {path : Path} (parsed : FuseInHeader.parse e.request = .ok header)
    (resolved : resolvedPath e.inodes header (e.request.drop fuseInHeaderSize) = some path)
    (symlink : IsSymlink e.host path) :
    AnsweredError header.unique e.reply ↔ ¬Followed root e.host e.inodes header e.request path := by
  rw [Session.reply_eq run e member]
  exact symlink_error_iff parsed resolved symlink

theorem symlink_replies_iff_lookup :
    ∃ s e, exec (Session.step sampleRoot) (Session.start sampleRoot)
        [(sampleRequest fuseLookup 1 [0x61, 0], sampleHost .symlink)] = some s ∧ e ∈ s.exchanges ∧
      IsSymlink e.host [[0x72], [0x61]] ∧ AnsweredError 7 e.reply := by
  have parsed : FuseInHeader.parse (sampleRequest fuseLookup 1 [0x61, 0]) =
      .ok { length := 42, opcode := fuseLookup, unique := 7, nodeId := 1 } := by decide +kernel
  have resolved : resolvedPath (FsInodes.new sampleRoot) { length := 42, opcode := fuseLookup, unique := 7, nodeId := 1 }
      ((sampleRequest fuseLookup 1 [0x61, 0]).drop fuseInHeaderSize) = some [[0x72], [0x61]] := by decide +kernel
  have symlink : IsSymlink (sampleHost .symlink) [[0x72], [0x61]] := ⟨_, rfl, rfl⟩
  obtain ⟨s, reply, run, member⟩ : ∃ s reply, exec (Session.step sampleRoot) (Session.start sampleRoot)
        [(sampleRequest fuseLookup 1 [0x61, 0], sampleHost .symlink)] = some s ∧
      ⟨sampleRequest fuseLookup 1 [0x61, 0], sampleHost .symlink, FsInodes.new sampleRoot, reply⟩ ∈ s.exchanges :=
    ⟨_, _, rfl, List.mem_singleton_self _⟩
  have short : ¬24 ≤ ((sampleRequest fuseLookup 1 [0x61, 0]).drop fuseInHeaderSize).length := by decide
  exact ⟨s, _, run, member, symlink,
    (symlink_replies_iff run member parsed resolved symlink).mpr fun followed => short followed.2.1⟩

-- The table after a `FUSE_LOOKUP` of `a`, made while it was a plain file.
def sampleInodes : FsInodes :=
  ((executeRequest sampleRoot (sampleRequest fuseLookup 1 [0x61, 0])).run (sampleHost .other)
    (FsInodes.new sampleRoot)).2

-- Since then `a` has become a symlink.
def linkedHost : Host :=
  { sampleHost .other with
    symlinkMetadata := fun path => .ok ⟨if path = [[0x72], [0x61]] then .symlink else .other, 1⟩ }

theorem symlink_read_followed :
    sampleInodes.byId 2 = some [[0x72], [0x61]] ∧ IsSymlink linkedHost [[0x72], [0x61]] ∧
      ¬AnsweredError 7
        ((executeRequest sampleRoot (sampleRequest fuseRead 2 sampleReaddir)).run linkedHost sampleInodes).1 ∧
      ¬AnsweredError 7
        ((executeRequest sampleRoot (sampleRequest fuseReaddir 2 sampleReaddir)).run linkedHost sampleInodes).1 := by
  have read : ((executeRequest sampleRoot (sampleRequest fuseRead 2 sampleReaddir)).run linkedHost sampleInodes).1 =
      successReply 7 [0x2a] := by decide +kernel
  have listed : ((executeRequest sampleRoot (sampleRequest fuseReaddir 2 sampleReaddir)).run linkedHost
      sampleInodes).1 = successReply 7 (record 32 [(0, [3]), (8, [1]), (16, [1]), (20, [8]), (24, [0x62])]) := by
    decide +kernel
  refine ⟨by decide +kernel, ⟨_, rfl, rfl⟩, ?_, ?_⟩
  · rintro ⟨errno, positive, small, same⟩
    exact errorReply_ne_successReply positive small (read.symm.trans same)
  · rintro ⟨errno, positive, small, same⟩
    exact errorReply_ne_successReply positive small (listed.symm.trans same)

end Libvirtio.Fs
