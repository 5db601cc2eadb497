import Libvirtio.Fs.Listing

namespace Libvirtio.Fs

open FsInodes

def attrIno (attr : Bytes) : UInt64 := UInt64.ofNat (field attr 0 8)

def attrMode (attr : Bytes) : Nat := field attr 60 4

-- The file type bits of a mode, as `S_IFMT` selects them, are `S_IFDIR`.
def DirectoryMode (mode : Nat) : Prop := mode &&& 0o170000 = 0o040000

def entryNode (body : Bytes) : UInt64 := UInt64.ofNat (field body 0 8)

def entryAttr (body : Bytes) : Bytes := slice body 40 fuseAttrSize

def attrOut (nodeId : UInt64) (metadata : Metadata) : Bytes :=
  record fuseAttrOutSize [(0, LittleEndian.encode 8 1), (16, fuseAttr nodeId metadata)]

def outAttr (body : Bytes) : Bytes := slice body 16 fuseAttrSize

section
variable (nodeId : UInt64) (metadata : Metadata)

theorem fuseAttr_layout (mode : Nat) :
    Layout fuseAttrSize [(0, LittleEndian.encode 8 nodeId.toNat), (8, LittleEndian.encode 8 metadata.length.toNat),
      (60, LittleEndian.encode 4 mode), (64, LittleEndian.encode 4 1), (84, LittleEndian.encode 4 4096)] where
  inside := by simp [fuseAttrSize]
  apart := by simp [Apart]

theorem length_fuseAttr : (fuseAttr nodeId metadata).length = fuseAttrSize :=
  length_record (fuseAttr_layout nodeId metadata _).inside

theorem attrIno_fuseAttr : attrIno (fuseAttr nodeId metadata) = nodeId :=
  u64At_record (fuseAttr_layout nodeId metadata _) (by simp)

theorem attrMode_fuseAttr :
    attrMode (fuseAttr nodeId metadata) = if metadata.fileType = .directory then 0o040555 else 0o100444 := by
  rw [attrMode, fuseAttr]
  refine field_record (fuseAttr_layout nodeId metadata _) (by simp) ?_
  split <;> decide

theorem directoryMode_iff :
    DirectoryMode (attrMode (fuseAttr nodeId metadata)) ↔ direntKind metadata.fileType = 4 := by
  rw [attrMode_fuseAttr, DirectoryMode, direntKind]
  split <;> decide

theorem entryOut_layout :
    Layout fuseEntryOutSize [(0, LittleEndian.encode 8 nodeId.toNat), (16, LittleEndian.encode 8 1),
      (24, LittleEndian.encode 8 1), (40, fuseAttr nodeId metadata)] where
  inside := by simp [length_fuseAttr, fuseAttrSize, fuseEntryOutSize]
  apart := by simp [Apart]

theorem entryNode_entryOut : entryNode (entryOut nodeId metadata) = nodeId :=
  u64At_record (entryOut_layout nodeId metadata) (by simp)

theorem entryAttr_entryOut : entryAttr (entryOut nodeId metadata) = fuseAttr nodeId metadata := by
  have read := slice_record (entryOut_layout nodeId metadata) (show (40, fuseAttr nodeId metadata) ∈ _ by simp)
  rw [length_fuseAttr] at read
  exact read

theorem attrOut_layout : Layout fuseAttrOutSize [(0, LittleEndian.encode 8 1), (16, fuseAttr nodeId metadata)] where
  inside := by simp [length_fuseAttr, fuseAttrSize, fuseAttrOutSize]
  apart := by simp [Apart]

theorem outAttr_attrOut : outAttr (attrOut nodeId metadata) = fuseAttr nodeId metadata := by
  have read := slice_record (attrOut_layout nodeId metadata) (show (16, fuseAttr nodeId metadata) ∈ _ by simp)
  rw [length_fuseAttr] at read
  exact read

end

/-- The number of an entry: bound to its path, which the host has as something other than a symlink. -/
structure Numbered (host : Host) (inodes : FsInodes) (directory : UInt64) (name : Bytes) (path : Path) (id : UInt64)
    (metadata : Metadata) : Prop where
  parent : inodes.byId directory = some path
  bound : inodes.byId id = some (join path name)
  plain : Plain name
  valid : utf8Valid name = true
  stat : host.symlinkMetadata (join path name) = .ok metadata
  regular : metadata.fileType ≠ .symlink

theorem Numbered.mono {host : Host} {before after : FsInodes} {directory id : UInt64} {name : Bytes} {path : Path}
    {metadata : Metadata} (numbered : Numbered host before directory name path id metadata)
    (extended : Extends before after) : Numbered host after directory name path id metadata :=
  { numbered with parent := extended _ _ numbered.parent, bound := extended _ _ numbered.bound }

/-- What a successful reply to the three requests holds, each part of it as one of `hosts` had it. -/
structure Handled (hosts : Host → Prop) (header : FuseInHeader) (payload : Bytes) (inodes : FsInodes) (body : Bytes) :
    Prop where
  lookup : header.opcode = fuseLookup → ∃ host name path id metadata, hosts host ∧ payload = name ++ [0] ∧
    Numbered host inodes header.nodeId name path id metadata ∧ body = entryOut id metadata
  getattr : header.opcode = fuseGetattr → ∃ host path metadata, hosts host ∧ inodes.byId header.nodeId = some path ∧
    host.symlinkMetadata path = .ok metadata ∧ body = attrOut header.nodeId metadata
  readdir : header.opcode = fuseReaddir → Listing hosts inodes header.nodeId payload body

theorem Handled.mono {hosts : Host → Prop} {header : FuseInHeader} {payload body : Bytes} {before after : FsInodes}
    (handled : Handled hosts header payload before body) (extended : Extends before after) :
    Handled hosts header payload after body where
  lookup opcode := by
    obtain ⟨host, name, path, id, metadata, met, parsed, numbered, made⟩ := handled.lookup opcode
    exact ⟨host, name, path, id, metadata, met, parsed, numbered.mono extended, made⟩
  getattr opcode := by
    obtain ⟨host, path, metadata, met, bound, stat, made⟩ := handled.getattr opcode
    exact ⟨host, path, metadata, met, extended _ _ bound, stat, made⟩
  readdir opcode := (handled.readdir opcode).mono extended

section
variable {root : Path} {host : Host} {hosts : Host → Prop} {s t u : FsInodes}

theorem lookupLocked_eq_ok {parent : UInt64} {name body : Bytes}
    (run : lookupLocked host root parent name t = (.ok body, u)) :
    ∃ path id metadata, t.byId parent = some path ∧ host.symlinkMetadata (join path name) = .ok metadata ∧
      metadata.fileType ≠ .symlink ∧ idForPath (join path name) t = (.ok id, u) ∧ body = entryOut id metadata := by
  rw [lookupLocked, Fallible.bind_of_ok (Fallible.read_apply t)] at run
  cases bound : t.byId parent with
  | none =>
      rw [bound] at run
      cases run
  | some path =>
      rw [bound] at run
      obtain ⟨metadata, v, asked, run⟩ := Fallible.bind_eq_ok.mp run
      obtain ⟨stat, rfl⟩ := Fallible.ofExcept_eq_ok.mp asked
      rw [Fallible.ite_apply] at run
      split at run
      · cases run
      rename_i accepted
      obtain ⟨id, w, registered, made⟩ := Fallible.bind_eq_ok.mp run
      cases made
      exact ⟨path, id, metadata, rfl, ioResult_eq_ok.mp stat, (not_or.mp accepted).1, registered, rfl⟩

theorem regularMetadata_eq_ok {nodeId : UInt64} {metadata : Metadata} :
    regularMetadata host nodeId t = (.ok metadata, u) ↔ ∃ path, t.byId nodeId = some path ∧
      host.symlinkMetadata path = .ok metadata ∧ metadata.fileType ≠ .symlink ∧ u = t := by
  rw [regularMetadata, Fallible.bind_of_ok (Fallible.read_apply t)]
  cases bound : t.byId nodeId with
  | none =>
      constructor
      · intro run
        cases run
      · rintro ⟨_, same, -⟩
        cases same
  | some path =>
      constructor
      · intro run
        obtain ⟨found, v, asked, run⟩ := Fallible.bind_eq_ok.mp run
        obtain ⟨stat, rfl⟩ := Fallible.ofExcept_eq_ok.mp asked
        rw [Fallible.ite_apply] at run
        split at run
        · cases run
        · rename_i regular
          cases run
          exact ⟨path, rfl, ioResult_eq_ok.mp stat, regular, rfl⟩
      · rintro ⟨_, ⟨⟩, stat, regular, rfl⟩
        simp only
        rw [Fallible.bind_of_ok (Fallible.ofExcept_eq_ok.mpr ⟨ioResult_eq_ok.mpr stat, rfl⟩), if_neg regular]
        rfl

theorem lookupReply_settles (parent : UInt64) (payload : Bytes) :
    (lookupReply root parent payload).Settles hosts (Inv root) Extends
      (fun t body => ∃ host name path id metadata, hosts host ∧ payload = name ++ [0] ∧
        Numbered host t parent name path id metadata ∧ body = entryOut id metadata) s := by
  unfold lookupReply
  cases parsed : lookupName payload with
  | error e => exact Program.Settles.fail _
  | ok name =>
      obtain ⟨ends, valid, plain⟩ := lookupName_eq_ok parsed
      rw [Program.ofExcept_ok_bind]
      apply Program.Settles.atomic
      intro host t body met inv _ replied
      obtain ⟨u, run⟩ : ∃ u, lookupLocked host root parent name t = (.ok body, u) := ⟨_, Prod.ext replied rfl⟩
      obtain ⟨path, id, metadata, parentBound, stat, regular, registered, rfl⟩ := lookupLocked_eq_ok run
      obtain ⟨-, extended, bound⟩ := inv.idForPath ((inv.confined parent path parentBound).join plain)
      rw [registered] at extended bound
      rw [run]
      exact ⟨host, name, path, id, metadata, met, ends,
        ⟨extended _ _ parentBound, bound id rfl, plain, valid, stat, regular⟩, rfl⟩

theorem getattrReply_settles (nodeId : UInt64) :
    (getattrReply nodeId).Settles hosts (Inv root) Extends
      (fun t body => ∃ host path metadata, hosts host ∧ t.byId nodeId = some path ∧
        host.symlinkMetadata path = .ok metadata ∧ body = attrOut nodeId metadata) s := by
  apply Program.Settles.atomic
  intro host t body met _ _ replied
  obtain ⟨u, run⟩ : ∃ u, getattrLocked host nodeId t = (.ok body, u) := ⟨_, Prod.ext replied rfl⟩
  obtain ⟨metadata, v, found, made⟩ := Fallible.bind_eq_ok.mp run
  obtain ⟨path, bound, stat, -, rfl⟩ := regularMetadata_eq_ok.mp found
  cases made
  rw [run]
  exact ⟨host, path, metadata, met, bound, stat, rfl⟩

theorem handler_settles {header : FuseInHeader} {payload : Bytes} {program : FsM Bytes}
    (dispatched : handler root header payload = some program) :
    program.Settles hosts (Inv root) Extends (Handled hosts header payload) s := by
  have others (lookup : header.opcode ≠ fuseLookup) (getattr : header.opcode ≠ fuseGetattr)
      (readdir : header.opcode ≠ fuseReaddir) : program.Settles hosts (Inv root) Extends (Handled hosts header payload) s :=
    Program.Settles.of_forall fun _ _ => ⟨fun same => absurd same lookup, fun same => absurd same getattr,
      fun same => absurd same readdir⟩
  unfold handler at dispatched
  split at dispatched
  · rename_i opcode
    exact others (by rw [opcode]; decide) (by rw [opcode]; decide) (by rw [opcode]; decide)
  split at dispatched
  · rename_i opcode
    cases dispatched
    refine (lookupReply_settles header.nodeId payload).weaken fun _ _ found => ⟨fun _ => found, ?_, ?_⟩
    all_goals
      rw [opcode]
      intro same
      cases same
  split at dispatched
  · rename_i opcode
    cases dispatched
    refine (getattrReply_settles header.nodeId).weaken fun _ _ found => ⟨?_, fun _ => found, ?_⟩
    all_goals
      rw [opcode]
      intro same
      cases same
  rename_i lookup getattr
  split at dispatched
  · rename_i opcode
    exact others lookup getattr (by rcases opcode with opcode | opcode <;> rw [opcode] <;> decide)
  split at dispatched
  · rename_i opcode
    exact others lookup getattr (by rw [opcode]; decide)
  split at dispatched
  · rename_i opcode
    cases dispatched
    exact (readdirReply_settles header.nodeId payload).weaken fun _ _ found =>
      ⟨fun same => absurd same lookup, fun same => absurd same getattr, fun _ => found⟩
  · rename_i readdir
    exact others lookup getattr readdir

/-- If the reply is a success, then its body is what the request asks for. -/
def Answer (hosts : Host → Prop) (request : Bytes) (inodes : FsInodes) (reply : Bytes) : Prop :=
  ∀ header body, FuseInHeader.parse request = .ok header → successReply header.unique body = .ok reply →
    Handled hosts header (request.drop fuseInHeaderSize) inodes body

theorem drop_successReply {unique : UInt64} {body reply : Bytes} (made : successReply unique body = .ok reply) :
    reply ≠ [] ∧ reply.drop fuseOutHeaderSize = body := by
  obtain ⟨-, rfl⟩ := successReply_eq_ok.mp made
  exact ⟨by simp [frame, LittleEndian.encode], drop_frame⟩

theorem executeRequest_settles (request : Bytes) :
    (executeRequest root request).Settles hosts (Inv root) Extends (Answer hosts request) s := by
  unfold executeRequest
  split
  · exact Program.Settles.fail _
  rename_i header parsed
  have refused (errno : Nat) (positive : 0 < errno) (small : errno < 2 ^ 31) :
      (pure (errorReply header.unique errno) : Program Host FsInodes Fault Bytes).Settles hosts (Inv root) Extends
        (Answer hosts request) s := by
    intro other body same made
    cases parsed.symm.trans same
    exact absurd made (errorReply_ne_successReply positive small)
  split
  · exact refused einval (by decide) (by decide)
  split
  · exact Program.Settles.pure fun _ _ _ made => absurd rfl (drop_successReply made).1
  split
  · exact refused enosys (by decide) (by decide)
  · rename_i program dispatched
    apply (handler_settles dispatched).attempt.bind
    intro result t handled
    apply Program.Settles.ofExcept
    intro reply finished other body same made
    cases parsed.symm.trans same
    cases result with
    | error e =>
        obtain ⟨positive, small⟩ := fuseErrno_range e
        cases finished
        exact absurd made (errorReply_ne_successReply positive small)
    | ok found =>
        have bodies : found = body := (drop_successReply finished).2.symm.trans (drop_successReply made).2
        exact bodies ▸ handled found rfl

end

section
variable (labels : List (Program.Schedule Host Bytes)) (s : Requests)

/-- Among the requests was one to `nodeId` that succeeded with `body`. -/
def Succeeded (opcode : UInt32) (nodeId : UInt64) (payload body : Bytes) : Prop :=
  ∃ request reply header, Program.Pool.Answered labels s request reply ∧ FuseInHeader.parse request = .ok header ∧
    header.opcode = opcode ∧ header.nodeId = nodeId ∧ request.drop fuseInHeaderSize = payload ∧
    successReply header.unique body = .ok reply

end

section
variable {root : Path} {hosts : Host → Prop} {labels : List (Program.Schedule Host Bytes)} {s : Requests}
  (met : ∀ label ∈ labels, Program.Pool.Meets hosts label)
  (run : exec (Program.Pool.step (executeRequest root)) (Requests.start root) labels = some s)
include met run

theorem Succeeded.handled {opcode : UInt32} {nodeId : UInt64} {payload body : Bytes}
    (succeeded : Succeeded labels s opcode nodeId payload body) :
    ∃ header, header.opcode = opcode ∧ header.nodeId = nodeId ∧ Handled hosts header payload s.state body := by
  obtain ⟨request, reply, header, answered, parsed, op, node, rfl, made⟩ := succeeded
  have answer : Answer hosts request s.state reply :=
    Program.Pool.Settling.answered Extends.refl Extends.trans
      (fun _ _ _ _ _ extended answer other body same made => (answer other body same made).mono extended)
      (executeRequest_keeps root) (fun request _ => executeRequest_settles request) (new_inv root) met run answered
  exact ⟨header, op, node, answer header body parsed made⟩

theorem Succeeded.lookup {directory : UInt64} {payload body : Bytes}
    (succeeded : Succeeded labels s fuseLookup directory payload body) :
    ∃ host name path id metadata, hosts host ∧ payload = name ++ [0] ∧
      Numbered host s.state directory name path id metadata ∧ body = entryOut id metadata := by
  obtain ⟨header, opcode, rfl, handled⟩ := succeeded.handled met run
  exact handled.lookup opcode

theorem Succeeded.readdir {directory : UInt64} {payload body : Bytes}
    (succeeded : Succeeded labels s fuseReaddir directory payload body) : Listing hosts s.state directory payload body := by
  obtain ⟨header, opcode, rfl, handled⟩ := succeeded.handled met run
  exact handled.readdir opcode

end

/-- The number stands for the name in the directory, in this state and in every later one. -/
def Resolves (root : Path) (s : Requests) (directory : UInt64) (name : Bytes) (id : UInt64) : Prop :=
  ∃ path, s.state.byId directory = some path ∧ s.state.byId id = some (join path name) ∧
    ∀ more t, exec (Program.Pool.step (executeRequest root)) s more = some t →
      t.state.byId directory = some path ∧ t.state.byId id = some (join path name)

/-- Whatever requests run, however their steps interleave and whatever the host does in between, the table stays a
bijection of paths below the root, and a binding is never changed. The numbers that replies to `FUSE_LOOKUP` and
`FUSE_READDIR` hand out stand for the names they come with, then and later. -/
theorem inodes_invariant (root : Path) {labels : List (Program.Schedule Host Bytes)} {s : Requests}
    (run : exec (Program.Pool.step (executeRequest root)) (Requests.start root) labels = some s) :
    Inv root s.state ∧
    (∀ more t, exec (Program.Pool.step (executeRequest root)) s more = some t → Extends s.state t.state) ∧
    (∀ path id, Confined root path → (idForPath path s.state).1 = .ok id →
      (idForPath path s.state).2.byId id = some path) ∧
    (∀ directory payload body, Succeeded labels s fuseLookup directory payload body →
      ∃ name, payload = name ++ [0] ∧ Resolves root s directory name (entryNode body)) ∧
    (∀ directory payload body, Succeeded labels s fuseReaddir directory payload body →
      ∃ records, direntsOf body = some records ∧ ∀ r ∈ records, Resolves root s directory r.name r.ino) := by
  have sound := Requests.sound root run
  have later {more : List (Program.Schedule Host Bytes)} {t : Requests}
      (runs : exec (Program.Pool.step (executeRequest root)) s more = some t) : Extends s.state t.state :=
    Program.Pool.extends_later Extends.refl Extends.trans (executeRequest_keeps root) sound runs
  have resolves {directory id : UInt64} {name : Bytes} {path : Path} (parent : s.state.byId directory = some path)
      (bound : s.state.byId id = some (join path name)) : Resolves root s directory name id :=
    ⟨path, parent, bound, fun _ _ runs => ⟨later runs _ _ parent, later runs _ _ bound⟩⟩
  have any : ∀ label ∈ labels, Program.Pool.Meets (fun _ => True) label := by
    intro label _
    cases label <;> trivial
  refine ⟨sound.holds, fun _ _ => later, ?_, ?_, ?_⟩
  · intro path id confined found
    exact (sound.holds.idForPath confined).2.2 id found
  · intro directory payload body succeeded
    obtain ⟨_, name, path, id, metadata, -, parsed, numbered, rfl⟩ := succeeded.lookup any run
    rw [entryNode_entryOut]
    exact ⟨name, parsed, resolves numbered.parent numbered.bound⟩
  · intro directory payload body succeeded
    obtain ⟨_, path, _, records, -, parent, -, rfl, scans⟩ := succeeded.readdir any run
    exact ⟨records, direntsOf_flatMap records, fun r member => resolves parent (scans.bound r member)⟩

theorem successReply_ok (unique : UInt64) {body : Bytes} (short : fuseOutHeaderSize + body.length < 2 ^ 32) :
    ∃ reply, successReply unique body = .ok reply :=
  ⟨_, successReply_eq_ok.mpr ⟨short, rfl⟩⟩

-- The entry that is looked up is a directory then, and what the listing sees is not.
def changingLabels : List (Program.Schedule Host Bytes) :=
  [.spawn (sampleRequest fuseReaddir 1 sampleReaddir), .spawn (sampleRequest fuseLookup 1 [0x61, 0]),
    .advance 0 (sampleHost .other), .advance 0 (sampleHost .other), .advance 1 (sampleHost .directory),
    .advance 0 (sampleHost .other), .advance 0 (sampleHost .other)]

theorem inodes_invariant_interleaved :
    ∃ s, exec (Program.Pool.step (executeRequest sampleRoot)) (Requests.start sampleRoot) changingLabels = some s ∧
      Inv sampleRoot s.state ∧ s.state.byId 3 = some [[0x72], [0x62]] ∧
      Succeeded changingLabels s fuseLookup 1 [0x61, 0] (entryOut 2 ⟨.directory, 1⟩) ∧
      Resolves sampleRoot s 1 [0x61] 2 := by
  have ends : (exec (Program.Pool.step (executeRequest sampleRoot)) (Requests.start sampleRoot) changingLabels).map
      (fun s => (s.state.byId 3, s.programs.map Program.result?)) =
        some (some [[0x72], [0x62]], [(successReply 7 (Dirent.bytes ⟨3, 1, 8, [0x62], by decide⟩)).toOption,
          (successReply 7 (entryOut 2 ⟨.directory, 1⟩)).toOption]) := by
    decide +kernel
  obtain ⟨s, run, facts⟩ := Option.map_eq_some_iff.mp ends
  obtain ⟨third, replies⟩ := Prod.mk.inj facts
  obtain ⟨entry, made⟩ :=
    successReply_ok 7 (by decide +kernel : fuseOutHeaderSize + (entryOut 2 ⟨.directory, 1⟩).length < 2 ^ 32)
  rw [made] at replies
  have succeeded : Succeeded changingLabels s fuseLookup 1 [0x61, 0] (entryOut 2 ⟨.directory, 1⟩) :=
    ⟨_, entry, ⟨42, fuseLookup, 7, 1⟩, ⟨1, rfl, s.result_of replies 1⟩, by decide +kernel, rfl, rfl, by decide +kernel,
      made⟩
  obtain ⟨inv, -, -, looked, -⟩ := inodes_invariant sampleRoot run
  obtain ⟨name, same, resolves⟩ := looked 1 [0x61, 0] _ succeeded
  obtain rfl : [0x61] = name := List.append_cancel_right (show [0x61] ++ [0] = name ++ [0] from same)
  rw [entryNode_entryOut] at resolves
  exact ⟨s, run, inv, third, succeeded, resolves⟩

end Libvirtio.Fs
