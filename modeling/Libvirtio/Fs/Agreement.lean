import Libvirtio.Fs.Exchange

namespace Libvirtio.Fs

open FsInodes

theorem Numbered.eq_iff {root : Path} {host : Host} {inodes : FsInodes} (inv : Inv root inodes)
    {directory directory' id id' : UInt64} {name name' : Bytes} {path path' : Path} {metadata metadata' : Metadata}
    (first : Numbered host inodes directory name path id metadata)
    (second : Numbered host inodes directory' name' path' id' metadata') :
    id = id' ↔ directory = directory' ∧ name = name' := by
  have unique {path : Path} {number number' : UInt64} (left : inodes.byId number = some path)
      (right : inodes.byId number' = some path) : number = number' :=
    Option.some.inj (((inv.inverse _ _).mp left).symm.trans ((inv.inverse _ _).mp right))
  constructor
  · rintro rfl
    have same := Option.some.inj (first.bound.symm.trans second.bound)
    rw [join_of_plain _ first.plain, join_of_plain _ second.plain] at same
    obtain ⟨rfl, names⟩ := List.append_inj' same rfl
    exact ⟨unique first.parent second.parent, List.singleton_inj.mp names⟩
  · rintro ⟨rfl, rfl⟩
    obtain rfl := Option.some.inj (first.parent.symm.trans second.parent)
    exact unique first.bound second.bound

section
variable {root : Path} {host : Host} {s : FsInodes}

theorem getattrReply_run {nodeId : UInt64} {path : Path} {metadata : Metadata} (bound : s.byId nodeId = some path)
    (stat : host.symlinkMetadata path = .ok metadata) (regular : metadata.fileType ≠ .symlink) :
    (getattrReply nodeId).run host s = (.ok (attrOut nodeId metadata), s) := by
  have found : regularMetadata host nodeId s = (.ok metadata, s) :=
    regularMetadata_eq_ok.mpr ⟨path, bound, stat, regular, rfl⟩
  rw [getattrReply, Program.run_atomic, getattrLocked, Fallible.bind_of_ok found]
  rfl

theorem executeRequest_getattr {request : Bytes} {header : FuseInHeader} {path : Path} {metadata : Metadata}
    (parsed : FuseInHeader.parse request = .ok header) (length : header.length.toNat = request.length)
    (opcode : header.opcode = fuseGetattr) (bound : s.byId header.nodeId = some path)
    (stat : host.symlinkMetadata path = .ok metadata) (regular : metadata.fileType ≠ .symlink) :
    (executeRequest root request).run host s = (successReply header.unique (attrOut header.nodeId metadata), s) := by
  have dispatched : handler root header (request.drop fuseInHeaderSize) = some (getattrReply header.nodeId) := by
    rw [handler, opcode]
    rfl
  rw [executeRequest_run parsed length (by rw [opcode]; decide) dispatched, getattrReply_run bound stat regular]
  rfl

theorem lookupName_append {name : Bytes} (plain : Plain name) (valid : utf8Valid name = true) :
    lookupName (name ++ [0]) = .ok name := by
  obtain ⟨nonempty, notDot, notDotDot, noSlash⟩ := plain
  simp [lookupName, valid, nonempty, notDot, notDotDot, noSlash]

theorem executeRequest_lookup {request name : Bytes} {header : FuseInHeader} {path : Path} {id : UInt64}
    {metadata : Metadata} (inv : Inv root s) (parsed : FuseInHeader.parse request = .ok header)
    (length : header.length.toNat = request.length) (opcode : header.opcode = fuseLookup)
    (payload : request.drop fuseInHeaderSize = name ++ [0])
    (numbered : Numbered host s header.nodeId name path id metadata) :
    (executeRequest root request).run host s = (successReply header.unique (entryOut id metadata), s) := by
  have dispatched : handler root header (request.drop fuseInHeaderSize) =
      some (lookupReply root header.nodeId (name ++ [0])) := by
    rw [handler, opcode, payload]
    rfl
  have registered : idForPath (join path name) s = (.ok id, s) := by
    simp only [idForPath, (inv.inverse _ _).mp numbered.bound]
  have below := ((inv.confined _ _ numbered.parent).join numbered.plain).startsWith
  rw [executeRequest_run parsed length (by rw [opcode]; decide) dispatched,
    lookupReply_run (lookupName_append numbered.plain numbered.valid) numbered.parent numbered.stat numbered.regular
      below, registered]
  rfl

end

structure IsRequest (request : Bytes) (header : FuseInHeader) (opcode : UInt32) (nodeId : UInt64) : Prop where
  parsed : FuseInHeader.parse request = .ok header
  length : header.length.toNat = request.length
  opcode : header.opcode = opcode
  nodeId : header.nodeId = nodeId

/-- The request succeeds with `body` and leaves the table as it is. -/
def Answers (root : Path) (host : Host) (inodes : FsInodes) (request : Bytes) (header : FuseInHeader)
    (body : Bytes) : Prop :=
  ∃ reply, (executeRequest root request).run host inodes = (.ok reply, inodes) ∧
    successReply header.unique body = .ok reply

theorem Answers.of_run {root : Path} {host : Host} {inodes : FsInodes} {request body : Bytes} {header : FuseInHeader}
    (run : (executeRequest root request).run host inodes = (successReply header.unique body, inodes))
    (short : fuseOutHeaderSize + body.length < 2 ^ 32) : Answers root host inodes request header body := by
  obtain ⟨reply, made⟩ := successReply_ok header.unique short
  exact ⟨reply, made ▸ run, made⟩

section
variable (labels : List (Program.Schedule Host Bytes)) (s : Requests)

def LooksUp (directory : UInt64) (name body : Bytes) : Prop := Succeeded labels s fuseLookup directory (name ++ [0]) body

def ListedIn (directory : UInt64) (r : Dirent) : Prop :=
  ∃ payload body records, Succeeded labels s fuseReaddir directory payload body ∧ direntsOf body = some records ∧
    r ∈ records

def Reports (directory : UInt64) (name : Bytes) (id : UInt64) : Prop :=
  (∃ body, LooksUp labels s directory name body ∧ entryNode body = id) ∨
  (∃ r, ListedIn labels s directory r ∧ r.name = name ∧ r.ino = id)

/-- The attributes in the reply to `FUSE_LOOKUP` are those of the number it gives: the ones that `FUSE_GETATTR` answers
with, then and later, and of the type that `FUSE_READDIR` shows. -/
structure AttributesAgree (root : Path) (host : Host) (directory : UInt64) (name body : Bytes) : Prop where
  ino : attrIno (entryAttr body) = entryNode body
  kind : ∀ r, ListedIn labels s directory r → r.name = name →
    (r.kind = 4 ↔ DirectoryMode (attrMode (entryAttr body)))
  getattr : ∀ payload other, Succeeded labels s fuseGetattr (entryNode body) payload other →
    outAttr other = entryAttr body
  later : ∀ more t, exec (Program.Pool.step (executeRequest root)) s more = some t →
    ∀ request header, IsRequest request header fuseGetattr (entryNode body) →
      ∃ other, Answers root host t.state request header other ∧ outAttr other = entryAttr body

end

section
variable {root : Path} {host : Host} {labels : List (Program.Schedule Host Bytes)} {s : Requests}
  (fixed : ∀ label ∈ labels, Program.Pool.Under host label)
  (run : exec (Program.Pool.step (executeRequest root)) (Requests.start root) labels = some s)
include fixed run

theorem LooksUp.numbered {directory : UInt64} {name body : Bytes} (found : LooksUp labels s directory name body) :
    ∃ path id metadata, Numbered host s.state directory name path id metadata ∧ body = entryOut id metadata := by
  obtain ⟨_, other, path, id, metadata, rfl, same, numbered, made⟩ := Succeeded.lookup fixed run found
  obtain rfl := List.append_cancel_right same
  exact ⟨path, id, metadata, numbered, made⟩

theorem ListedIn.numbered {directory : UInt64} {r : Dirent} (listed : ListedIn labels s directory r) :
    ∃ path metadata, Numbered host s.state directory r.name path r.ino metadata ∧
      r.kind = direntKind metadata.fileType := by
  obtain ⟨payload, body, records, succeeded, parsed, member⟩ := listed
  obtain ⟨path, names, bound, listing, found, shown, hidden, split, described, made, -⟩ :=
    (succeeded.readdir fixed run).lists
  rw [made, direntsOf_flatMap, Option.some.injEq] at parsed
  subst parsed
  obtain ⟨index, rfl⟩ := List.mem_iff_get.mp member
  have describes := described.get index.isLt (described.length_eq ▸ index.isLt)
  obtain ⟨listed, regular, metadata, stat, same⟩ :=
    mem_visible (mem_of_remaining split (List.mem_append_left hidden (List.get_mem shown _)))
  rw [← describes.name] at stat listed
  exact ⟨path, metadata, ⟨bound, describes.bound, host.plain path names listing _ listed, describes.valid, stat,
    same ▸ regular⟩, same ▸ describes.kind⟩

theorem Reports.numbered {directory id : UInt64} {name : Bytes} (reports : Reports labels s directory name id) :
    ∃ path metadata, Numbered host s.state directory name path id metadata := by
  rcases reports with ⟨body, found, rfl⟩ | ⟨r, listed, rfl, rfl⟩
  · obtain ⟨path, id, metadata, numbered, rfl⟩ := found.numbered fixed run
    rw [entryNode_entryOut]
    exact ⟨path, metadata, numbered⟩
  · obtain ⟨path, metadata, numbered, -⟩ := listed.numbered fixed run
    exact ⟨path, metadata, numbered⟩

theorem LooksUp.attributesAgree {directory : UInt64} {name body : Bytes}
    (found : LooksUp labels s directory name body) : AttributesAgree labels s root host directory name body := by
  obtain ⟨path, id, metadata, numbered, rfl⟩ := found.numbered fixed run
  have sound := Requests.sound root run
  refine ⟨?_, ?_, ?_, ?_⟩
  · rw [entryAttr_entryOut, attrIno_fuseAttr, entryNode_entryOut]
  · rintro r listed rfl
    obtain ⟨base, data, other, kind⟩ := listed.numbered fixed run
    obtain rfl := Option.some.inj (numbered.parent.symm.trans other.parent)
    cases numbered.stat.symm.trans other.stat
    rw [entryAttr_entryOut, directoryMode_iff, kind]
  · intro payload other succeeded
    rw [entryNode_entryOut] at succeeded
    obtain ⟨header, opcode, rfl, handled⟩ := succeeded.handled fixed run
    obtain ⟨_, base, data, rfl, bound, stat, rfl⟩ := handled.getattr opcode
    obtain rfl := Option.some.inj (numbered.bound.symm.trans bound)
    cases numbered.stat.symm.trans stat
    rw [outAttr_attrOut, entryAttr_entryOut]
  · intro more t later request header asked
    have extended := Program.Pool.extends_later Extends.refl Extends.trans (executeRequest_keeps root) sound later
    have bound := extended _ _ numbered.bound
    have node : header.nodeId = id := asked.nodeId.trans (entryNode_entryOut id metadata)
    rw [← node] at bound
    refine ⟨attrOut header.nodeId metadata, Answers.of_run (executeRequest_getattr asked.parsed asked.length asked.opcode
      bound numbered.stat numbered.regular) ?_, ?_⟩
    · rw [attrOut, length_record (attrOut_layout _ _).inside]
      decide
    · rw [outAttr_attrOut, entryAttr_entryOut, node]

/-- `FUSE_LOOKUP` and `FUSE_READDIR` report one number for each name in each directory, and `FUSE_GETATTR` agrees with
the attributes that come with it. A number once reported is what a later `FUSE_LOOKUP` answers with. -/
theorem numbers_agree :
    (∀ directory name id directory' name' id', Reports labels s directory name id →
      Reports labels s directory' name' id' → (id = id' ↔ directory = directory' ∧ name = name')) ∧
    (∀ directory name body, LooksUp labels s directory name body →
      AttributesAgree labels s root host directory name body) ∧
    (∀ directory name id, Reports labels s directory name id →
      ∀ more t, exec (Program.Pool.step (executeRequest root)) s more = some t →
        ∀ request header, IsRequest request header fuseLookup directory →
          request.drop fuseInHeaderSize = name ++ [0] →
          ∃ body, Answers root host t.state request header body ∧ entryNode body = id) := by
  have sound := Requests.sound root run
  refine ⟨?_, ?_, ?_⟩
  · intro directory name id directory' name' id' first second
    obtain ⟨path, metadata, numbered⟩ := first.numbered fixed run
    obtain ⟨path', metadata', numbered'⟩ := second.numbered fixed run
    exact numbered.eq_iff sound.holds numbered'
  · intro directory name body found
    exact found.attributesAgree fixed run
  · intro directory name id reports more t later request header asked payload
    obtain ⟨path, metadata, numbered⟩ := reports.numbered fixed run
    have extended := Program.Pool.extends_later Extends.refl Extends.trans (executeRequest_keeps root) sound later
    have inv := (sound.exec Extends.trans (executeRequest_keeps root) later).holds
    obtain rfl := asked.nodeId
    refine ⟨entryOut id metadata, Answers.of_run (executeRequest_lookup inv asked.parsed asked.length asked.opcode payload
      (numbered.mono extended)) ?_, entryNode_entryOut id metadata⟩
    rw [entryOut, length_record (entryOut_layout _ _).inside]
    decide

end

def sampleLabels : List (Program.Schedule Host Bytes) :=
  [.spawn (sampleRequest fuseReaddir 1 sampleReaddir), .spawn (sampleRequest fuseLookup 1 [0x62, 0]),
    .advance 0 (sampleHost .other), .advance 0 (sampleHost .other), .advance 1 (sampleHost .other),
    .advance 0 (sampleHost .other), .advance 0 (sampleHost .other)]

def sampleDirent : Dirent := ⟨2, 1, 8, [0x62], by decide⟩

theorem numbers_agree_interleaved :
    ∃ s, exec (Program.Pool.step (executeRequest sampleRoot)) (Requests.start sampleRoot) sampleLabels = some s ∧
      LooksUp sampleLabels s 1 [0x62] (entryOut 2 ⟨.other, 1⟩) ∧ ListedIn sampleLabels s 1 sampleDirent ∧
      AttributesAgree sampleLabels s sampleRoot (sampleHost .other) 1 [0x62] (entryOut 2 ⟨.other, 1⟩) := by
  have ends : (exec (Program.Pool.step (executeRequest sampleRoot)) (Requests.start sampleRoot) sampleLabels).map
      (fun s => s.programs.map Program.result?) =
        some [(successReply 7 sampleDirent.bytes).toOption, (successReply 7 (entryOut 2 ⟨.other, 1⟩)).toOption] := by
    decide +kernel
  obtain ⟨s, run, replies⟩ := Option.map_eq_some_iff.mp ends
  obtain ⟨listing, listingMade⟩ := successReply_ok 7 (by decide : fuseOutHeaderSize + sampleDirent.bytes.length < 2 ^ 32)
  obtain ⟨entry, entryMade⟩ :=
    successReply_ok 7 (by decide +kernel : fuseOutHeaderSize + (entryOut 2 ⟨.other, 1⟩).length < 2 ^ 32)
  rw [listingMade, entryMade] at replies
  have fixed : ∀ label ∈ sampleLabels, Program.Pool.Under (sampleHost .other) label := by
    simp [sampleLabels, Program.Pool.Under, Program.Pool.Meets]
  have found : LooksUp sampleLabels s 1 [0x62] (entryOut 2 ⟨.other, 1⟩) :=
    ⟨_, entry, ⟨42, fuseLookup, 7, 1⟩, ⟨1, rfl, s.result_of replies 1⟩, by decide +kernel, rfl, rfl, by decide +kernel,
      entryMade⟩
  have listed : ListedIn sampleLabels s 1 sampleDirent :=
    ⟨sampleReaddir, sampleDirent.bytes, [sampleDirent], ⟨_, listing, ⟨64, fuseReaddir, 7, 1⟩, ⟨0, rfl, s.result_of replies 0⟩,
      by decide +kernel, rfl, rfl, by decide +kernel, listingMade⟩, by decide +kernel, List.mem_singleton_self _⟩
  exact ⟨s, run, found, listed, (numbers_agree fixed run).2.1 1 [0x62] _ found⟩

end Libvirtio.Fs
