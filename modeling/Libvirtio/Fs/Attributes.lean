import Libvirtio.Fs.Agreement

namespace Libvirtio.Fs

structure FuseAttr where
  ino : UInt64
  size : UInt64
  blocks : UInt64
  atime : UInt64
  mtime : UInt64
  ctime : UInt64
  atimensec : UInt32
  mtimensec : UInt32
  ctimensec : UInt32
  mode : UInt32
  nlink : UInt32
  uid : UInt32
  gid : UInt32
  rdev : UInt32
  blksize : UInt32
  padding : UInt32
  deriving DecidableEq, Repr

structure FuseEntryOut where
  nodeid : UInt64
  generation : UInt64
  entryValid : UInt64
  attrValid : UInt64
  entryValidNsec : UInt32
  attrValidNsec : UInt32
  attr : FuseAttr
  deriving DecidableEq, Repr

structure FuseAttrOut where
  attrValid : UInt64
  attrValidNsec : UInt32
  dummy : UInt32
  attr : FuseAttr
  deriving DecidableEq, Repr

def FuseAttr.decode (bytes : Bytes) : FuseAttr where
  ino := u64At bytes 0
  size := u64At bytes 8
  blocks := u64At bytes 16
  atime := u64At bytes 24
  mtime := u64At bytes 32
  ctime := u64At bytes 40
  atimensec := u32At bytes 48
  mtimensec := u32At bytes 52
  ctimensec := u32At bytes 56
  mode := u32At bytes 60
  nlink := u32At bytes 64
  uid := u32At bytes 68
  gid := u32At bytes 72
  rdev := u32At bytes 76
  blksize := u32At bytes 80
  padding := u32At bytes 84

-- The kernel takes no body of another size.
def FuseEntryOut.decode (body : Bytes) : Option FuseEntryOut :=
  if body.length = 128 then
    some {
      nodeid := u64At body 0
      generation := u64At body 8
      entryValid := u64At body 16
      attrValid := u64At body 24
      entryValidNsec := u32At body 32
      attrValidNsec := u32At body 36
      attr := .decode (slice body 40 88) }
  else none

def FuseAttrOut.decode (body : Bytes) : Option FuseAttrOut :=
  if body.length = 104 then
    some {
      attrValid := u64At body 0
      attrValidNsec := u32At body 8
      dummy := u32At body 12
      attr := .decode (slice body 16 88) }
  else none

def attrOf (nodeId : UInt64) (metadata : Metadata) : FuseAttr where
  ino := nodeId
  size := metadata.length
  blocks := 0
  atime := 0
  mtime := 0
  ctime := 0
  atimensec := 0
  mtimensec := 0
  ctimensec := 0
  mode := if metadata.fileType = .directory then 0o040555 else 0o100444
  nlink := 1
  uid := 0
  gid := 0
  rdev := 0
  blksize := 4096
  padding := 0

/-- The body of a `FUSE_LOOKUP`, but for how long it is valid. -/
def EntryDescribes (nodeId : UInt64) (metadata : Metadata) (body : Bytes) : Prop :=
  ∃ entryValid attrValid, FuseEntryOut.decode body =
    some ⟨nodeId, 0, entryValid, attrValid, 0, 0, attrOf nodeId metadata⟩

/-- The body of a `FUSE_GETATTR`, but for how long it is valid. -/
def AttrDescribes (nodeId : UInt64) (metadata : Metadata) (body : Bytes) : Prop :=
  ∃ attrValid, FuseAttrOut.decode body = some ⟨attrValid, 0, 0, attrOf nodeId metadata⟩

/-- The block size is where the padding should be. -/
def FuseAttr.misplaced (attr : FuseAttr) : FuseAttr := { attr with blksize := attr.padding, padding := attr.blksize }

section
variable (nodeId : UInt64) (metadata : Metadata)

theorem decode_fuseAttr : FuseAttr.decode (fuseAttr nodeId metadata) = (attrOf nodeId metadata).misplaced := by
  have layout := fuseAttr_layout nodeId metadata (if metadata.fileType = .directory then 0o040555 else 0o100444)
  have ino : u64At (fuseAttr nodeId metadata) 0 = nodeId := u64At_record layout (by simp)
  have size : u64At (fuseAttr nodeId metadata) 8 = metadata.length := u64At_record layout (by simp)
  have mode : u32At (fuseAttr nodeId metadata) 60 = (attrOf nodeId metadata).mode := by
    have small : (if metadata.fileType = .directory then 0o040555 else 0o100444) < 2 ^ 32 := by split <;> decide
    rw [fuseAttr, u32At_record layout (by simp) small, apply_ite UInt32.ofNat]
    rfl
  have nlink : u32At (fuseAttr nodeId metadata) 64 = 1 := u32At_record layout (by simp) (by decide)
  have padding : u32At (fuseAttr nodeId metadata) 84 = 4096 := u32At_record layout (by simp) (by decide)
  have zero64 (offset : Nat) (free : 16 ≤ offset ∧ offset + 8 ≤ 60) : u64At (fuseAttr nodeId metadata) offset = 0 := by
    refine u64At_record_apart layout (by unfold fuseAttrSize; omega) ?_
    simp only [Apart, List.forall_mem_cons, List.length_replicate, LittleEndian.length_encode, List.not_mem_nil,
      false_implies, implies_true, and_true]
    omega
  have zero32 (offset : Nat) (free : 16 ≤ offset ∧ offset + 4 ≤ 60 ∨ 68 ≤ offset ∧ offset + 4 ≤ 84) :
      u32At (fuseAttr nodeId metadata) offset = 0 := by
    refine u32At_record_apart layout (by unfold fuseAttrSize; omega) ?_
    simp only [Apart, List.forall_mem_cons, List.length_replicate, LittleEndian.length_encode, List.not_mem_nil,
      false_implies, implies_true, and_true]
    omega
  rw [FuseAttr.decode, ino, size, mode, nlink, padding, zero64 16 (by omega), zero64 24 (by omega),
    zero64 32 (by omega), zero64 40 (by omega), zero32 48 (by omega), zero32 52 (by omega), zero32 56 (by omega),
    zero32 68 (by omega), zero32 72 (by omega), zero32 76 (by omega), zero32 80 (by omega)]
  rfl

theorem decode_entryOut : FuseEntryOut.decode (entryOut nodeId metadata) =
    some ⟨nodeId, 0, 1, 1, 0, 0, (attrOf nodeId metadata).misplaced⟩ := by
  have layout := entryOut_layout nodeId metadata
  have length : (entryOut nodeId metadata).length = 128 := length_record layout.inside
  have nodeid : u64At (entryOut nodeId metadata) 0 = nodeId := u64At_record layout (by simp)
  have entryValid : u64At (entryOut nodeId metadata) 16 = 1 := u64At_record layout (by simp)
  have attrValid : u64At (entryOut nodeId metadata) 24 = 1 := u64At_record layout (by simp)
  have generation : u64At (entryOut nodeId metadata) 8 = 0 :=
    u64At_record_apart layout (by decide) (by simp [Apart])
  have entryValidNsec : u32At (entryOut nodeId metadata) 32 = 0 :=
    u32At_record_apart layout (by decide) (by simp [Apart])
  have attrValidNsec : u32At (entryOut nodeId metadata) 36 = 0 :=
    u32At_record_apart layout (by decide) (by simp [Apart])
  have attr : slice (entryOut nodeId metadata) 40 88 = fuseAttr nodeId metadata := entryAttr_entryOut nodeId metadata
  rw [FuseEntryOut.decode, if_pos length, nodeid, generation, entryValid, attrValid, entryValidNsec, attrValidNsec, attr,
    decode_fuseAttr]

theorem decode_attrOut : FuseAttrOut.decode (attrOut nodeId metadata) =
    some ⟨1, 0, 0, (attrOf nodeId metadata).misplaced⟩ := by
  have layout := attrOut_layout nodeId metadata
  have length : (attrOut nodeId metadata).length = 104 := length_record layout.inside
  have attrValid : u64At (attrOut nodeId metadata) 0 = 1 := u64At_record layout (by simp)
  have attrValidNsec : u32At (attrOut nodeId metadata) 8 = 0 :=
    u32At_record_apart layout (by decide) (by simp [Apart])
  have dummy : u32At (attrOut nodeId metadata) 12 = 0 :=
    u32At_record_apart layout (by decide) (by simp [Apart])
  have attr : slice (attrOut nodeId metadata) 16 88 = fuseAttr nodeId metadata := outAttr_attrOut nodeId metadata
  rw [FuseAttrOut.decode, if_pos length, attrValid, attrValidNsec, dummy, attr, decode_fuseAttr]

theorem misplaced_ne_attrOf : (attrOf nodeId metadata).misplaced ≠ attrOf nodeId metadata := by
  intro same
  have blksize : (0 : UInt32) = 4096 := congrArg FuseAttr.blksize same
  exact absurd blksize (by decide)

end

/-- No attribute block is read back as it was meant: the kernel finds a block size of zero, and 4096 in the padding. All
its other fields are right. -/
theorem attributes_misplaced (nodeId : UInt64) (metadata : Metadata) :
    (FuseEntryOut.decode (entryOut nodeId metadata) =
        some ⟨nodeId, 0, 1, 1, 0, 0, { attrOf nodeId metadata with blksize := 0, padding := 4096 }⟩ ∧
      ¬EntryDescribes nodeId metadata (entryOut nodeId metadata)) ∧
    ∀ (host : Host) (inodes : FsInodes) (path : Path), inodes.byId nodeId = some path →
      host.symlinkMetadata path = .ok metadata → metadata.fileType ≠ .symlink →
      ∃ body, (getattrReply nodeId).run host inodes = (.ok body, inodes) ∧
        FuseAttrOut.decode body = some ⟨1, 0, 0, { attrOf nodeId metadata with blksize := 0, padding := 4096 }⟩ ∧
        ¬AttrDescribes nodeId metadata body := by
  refine ⟨⟨decode_entryOut nodeId metadata, ?_⟩, ?_⟩
  · rintro ⟨entryValid, attrValid, described⟩
    rw [decode_entryOut, Option.some.injEq] at described
    exact misplaced_ne_attrOf nodeId metadata (congrArg FuseEntryOut.attr described)
  · intro host inodes path bound stat regular
    refine ⟨attrOut nodeId metadata, getattrReply_run bound stat regular, decode_attrOut nodeId metadata, ?_⟩
    rintro ⟨attrValid, described⟩
    rw [decode_attrOut, Option.some.injEq] at described
    exact misplaced_ne_attrOf nodeId metadata (congrArg FuseAttrOut.attr described)

theorem attributes_misplaced_root :
    FuseEntryOut.decode (entryOut 2 ⟨.directory, 4096⟩) =
      some ⟨2, 0, 1, 1, 0, 0, { attrOf 2 ⟨.directory, 4096⟩ with blksize := 0, padding := 4096 }⟩ ∧
    ∃ body, (getattrReply fuseRootId).run (sampleHost .directory) (FsInodes.new sampleRoot) =
        (.ok body, FsInodes.new sampleRoot) ∧
      ¬AttrDescribes fuseRootId ⟨.directory, 1⟩ body := by
  refine ⟨(attributes_misplaced 2 ⟨.directory, 4096⟩).1.1, ?_⟩
  obtain ⟨body, run, -, misread⟩ := (attributes_misplaced fuseRootId ⟨.directory, 1⟩).2 (sampleHost .directory)
    (FsInodes.new sampleRoot) sampleRoot rfl rfl (by decide)
  exact ⟨body, run, misread⟩

-- Entry 9 is a file of four bytes.
theorem block_size_in_padding :
    (FuseEntryOut.decode (entryOut 9 ⟨.other, 4⟩)).map (fun entry => (entry.attr.blksize, entry.attr.padding)) =
      some (0, 4096) ∧
    (FuseAttrOut.decode (attrOut 9 ⟨.other, 4⟩)).map (fun out => (out.attr.blksize, out.attr.padding)) =
      some (0, 4096) ∧
    ¬EntryDescribes 9 ⟨.other, 4⟩ (entryOut 9 ⟨.other, 4⟩) ∧ ¬AttrDescribes 9 ⟨.other, 4⟩ (attrOut 9 ⟨.other, 4⟩) := by
  have entry : (FuseEntryOut.decode (entryOut 9 ⟨.other, 4⟩)).map
      (fun entry => (entry.attr.blksize, entry.attr.padding)) = some (0, 4096) := by decide +kernel
  have out : (FuseAttrOut.decode (attrOut 9 ⟨.other, 4⟩)).map (fun out => (out.attr.blksize, out.attr.padding)) =
      some (0, 4096) := by decide +kernel
  refine ⟨entry, out, ?_, ?_⟩
  · rintro ⟨entryValid, attrValid, described⟩
    rw [described] at entry
    have blksize : (4096 : UInt32) = 0 := (Prod.mk.inj (Option.some.inj entry)).1
    exact absurd blksize (by decide)
  · rintro ⟨attrValid, described⟩
    rw [described] at out
    have blksize : (4096 : UInt32) = 0 := (Prod.mk.inj (Option.some.inj out)).1
    exact absurd blksize (by decide)

end Libvirtio.Fs
