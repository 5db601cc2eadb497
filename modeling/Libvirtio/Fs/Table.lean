import Libvirtio.Fs.Request

namespace Libvirtio.Fs

open FsInodes

section
variable {root : Path}

abbrev KeepsTable (root : Path) {ε α : Type} (post : α → Prop) (program : Program Host FsInodes ε α) : Prop :=
  program.Ensures (Inv root) Extends post

theorem lookupName_eq_ok {payload name : Bytes} (parsed : lookupName payload = .ok name) :
    payload = name ++ [0] ∧ utf8Valid name = true ∧ Plain name := by
  unfold lookupName at parsed
  split at parsed
  · cases parsed
  rename_i ends
  simp only at parsed
  split at parsed
  · cases parsed
  rename_i valid
  split at parsed
  · cases parsed
  rename_i safe
  cases parsed
  rw [not_not] at ends
  refine ⟨(List.dropLast_append_getLast? 0 ends).symm, by simpa using valid, ?_⟩
  simpa [not_or, Plain] using safe

theorem ioResult_eq_ok {α : Type} {result : Except IoError α} {a : α} : ioResult result = .ok a ↔ result = .ok a := by
  cases result with
  | error e => simp [ioResult, Except.mapError]
  | ok other => simp [ioResult, Except.mapError]

theorem listDirectory_eq_ok {host : Host} {path : Path} {names : List (Except IoError Bytes)} :
    listDirectory root path host = .ok names ↔
      startsWith path root = true ∧ host.isDir path = true ∧ host.readDir path = .ok names := by
  unfold listDirectory
  split
  · rename_i refused
    refine iff_of_false (by simp) fun listed => ?_
    rcases refused with outside | file
    · exact Bool.false_ne_true (outside.symm.trans listed.1)
    · exact Bool.false_ne_true (file.symm.trans listed.2.1)
  · rename_i accepted
    obtain ⟨inside, isDir⟩ := not_or.mp accepted
    rw [Bool.not_eq_false] at inside isDir
    simp only [ioResult_eq_ok, inside, isDir, true_and]

theorem regularMetadata_unchanged (host : Host) (nodeId : UInt64) (inodes : FsInodes) :
    (regularMetadata host nodeId inodes).2 = inodes := by
  rw [regularMetadata, Fallible.bind_of_ok (Fallible.read_apply inodes)]
  cases inodes.byId nodeId with
  | none => rfl
  | some path =>
      simp only [Fallible.bind_apply, Fallible.ofExcept_apply]
      cases ioResult (host.symlinkMetadata path) with
      | error e => rfl
      | ok metadata =>
          simp only [Fallible.ite_apply]
          split <;> rfl

theorem lookupLocked_keeps (host : Host) (parent : UInt64) {name : Bytes} (plain : Plain name)
    {inodes : FsInodes} (inv : Inv root inodes) :
    Inv root (lookupLocked host root parent name inodes).2 ∧
      Extends inodes (lookupLocked host root parent name inodes).2 := by
  rw [lookupLocked, Fallible.bind_of_ok (Fallible.read_apply inodes)]
  cases bound : inodes.byId parent with
  | none => exact ⟨inv, .refl inodes⟩
  | some parentPath =>
      obtain ⟨kept, extended, -⟩ := inv.idForPath ((inv.confined parent parentPath bound).join plain)
      simp only [Fallible.bind_apply, Fallible.ofExcept_apply]
      cases ioResult (host.symlinkMetadata (join parentPath name)) with
      | error e => exact ⟨inv, .refl inodes⟩
      | ok metadata =>
          simp only [Fallible.ite_apply]
          split
          · exact ⟨inv, .refl inodes⟩
          · rw [Fallible.bind_apply]
            rcases run : idForPath (join parentPath name) inodes with ⟨e | id, after⟩
            · rw [run] at kept extended
              exact ⟨kept, extended⟩
            · rw [run] at kept extended
              exact ⟨kept, extended⟩

theorem lookupReply_keeps (parent : UInt64) (payload : Bytes) :
    KeepsTable root (fun _ => True) (lookupReply root parent payload) := by
  have named : KeepsTable root Plain (.ofExcept (lookupName payload) : FsM Bytes) :=
    Program.Ensures.ofExcept fun name parsed => (lookupName_eq_ok parsed).2.2
  apply named.bind
  intro name plain
  exact Program.Ensures.atomic (fun host _ inv => lookupLocked_keeps host parent plain inv) fun _ _ _ _ _ => trivial

theorem atomic_unchanged {f : Host → Fallible DeviceError FsInodes Bytes}
    (unchanged : ∀ host inodes, (f host inodes).2 = inodes) :
    KeepsTable root (fun _ => True) (Program.atomic f) := by
  refine Program.Ensures.atomic (fun host inodes inv => ?_) fun _ _ _ _ _ => trivial
  rw [unchanged host inodes]
  exact ⟨inv, .refl inodes⟩

theorem regularReply_keeps (nodeId : UInt64) (reply : Metadata → Bytes) :
    KeepsTable root (fun _ => True) (Program.atomic fun host => do
      let metadata ← regularMetadata host nodeId
      pure (reply metadata)) := by
  apply atomic_unchanged
  intro host inodes
  have unchanged := regularMetadata_unchanged host nodeId inodes
  rw [Fallible.bind_apply]
  rcases run : regularMetadata host nodeId inodes with ⟨e | metadata, after⟩
  · rw [run] at unchanged
    exact unchanged
  · rw [run] at unchanged
    exact unchanged

theorem getattrReply_keeps (nodeId : UInt64) : KeepsTable root (fun _ => True) (getattrReply nodeId) :=
  regularReply_keeps nodeId _

theorem openReply_keeps (nodeId : UInt64) : KeepsTable root (fun _ => True) (openReply nodeId) :=
  regularReply_keeps nodeId _

theorem pathOf_eq (nodeId : UInt64) :
    pathOf nodeId = .atomic fun _ inodes =>
      ((inodes.byId nodeId).elim (.error (.descriptor "unknown FUSE inode")) .ok, inodes) := by
  refine congrArg Program.atomic (funext fun _ => funext fun inodes => ?_)
  rw [Fallible.bind_of_ok (Fallible.read_apply inodes)]
  cases inodes.byId nodeId with
  | none => rfl
  | some path => rfl

theorem elim_eq_ok {ε α : Type} {found : Option α} {e : ε} {a : α} :
    found.elim (.error e) .ok = Except.ok a ↔ found = some a := by
  cases found with
  | none => simp
  | some b => simp

theorem pathOf_keeps (nodeId : UInt64) : KeepsTable root (Confined root) (pathOf nodeId) := by
  rw [pathOf_eq]
  refine Program.Ensures.atomic (fun _ inodes inv => ⟨inv, .refl inodes⟩) fun _ inodes path inv found => ?_
  exact inv.confined nodeId path (elim_eq_ok.mp found)

theorem ofExcept_keeps {α : Type} (result : Except DeviceError α) :
    KeepsTable root (fun _ => True) (.ofExcept result : FsM α) :=
  Program.Ensures.ofExcept fun _ _ => trivial

theorem readReply_keeps (nodeId : UInt64) (payload : Bytes) :
    KeepsTable root (fun _ => True) (readReply nodeId payload) := by
  unfold readReply
  split
  · exact Program.Ensures.fail _
  · apply (ofExcept_keeps (readU64 payload 8)).bind
    intro offset _
    apply (ofExcept_keeps (readU32 payload 16)).bind
    intro size _
    apply (pathOf_keeps nodeId).bind
    intro path _
    exact Program.Ensures.ask Extends.refl fun _ _ _ => trivial

theorem readdirEntries_keeps {path : Path} (confined : Confined root path) (offset : UInt64) (maximum : Nat)
    {names : List (Except IoError Bytes)} (plain : ∀ name, .ok name ∈ names → Plain name) (index : Nat)
    (entries : Bytes) : KeepsTable root (fun _ => True) (readdirEntries path offset maximum names index entries) := by
  induction names generalizing index entries with
  | nil => exact Program.Ensures.pure trivial
  | cons first rest ih =>
      have others : ∀ name, .ok name ∈ rest → Plain name := fun name member => plain name (List.mem_cons_of_mem _ member)
      cases first with
      | error e => exact Program.Ensures.fail _
      | ok name =>
          have child := confined.join (plain name List.mem_cons_self)
          unfold readdirEntries
          split
          · exact ih others _ _
          · have asked : KeepsTable root (fun _ => True)
                (.ask fun host => ioResult (host.symlinkMetadata (join path name)) : FsM Metadata) :=
              Program.Ensures.ask Extends.refl fun _ _ _ => trivial
            apply asked.bind
            intro metadata _
            split
            · exact ih others _ _
            split
            · exact Program.Ensures.fail _
            have registered : KeepsTable root (fun _ => True)
                (.atomic fun _ => idForPath (join path name) : FsM UInt64) :=
              Program.Ensures.atomic (fun _ _ inv => ⟨(inv.idForPath child).1, (inv.idForPath child).2.1⟩)
                fun _ _ _ _ _ => trivial
            apply registered.bind
            intro id _
            apply (ofExcept_keeps (dirent id (index + 1) name metadata)).bind
            intro entry _
            split
            · exact Program.Ensures.pure trivial
            · exact ih others _ _

theorem readdirReply_keeps (nodeId : UInt64) (payload : Bytes) :
    KeepsTable root (fun _ => True) (readdirReply root nodeId payload) := by
  unfold readdirReply
  split
  · exact Program.Ensures.fail _
  · apply (ofExcept_keeps (readU64 payload 8)).bind
    intro offset _
    apply (ofExcept_keeps (readU32 payload 16)).bind
    intro maximum _
    apply (pathOf_keeps nodeId).bind
    intro path confined
    have listed : KeepsTable root (fun names : List (Except IoError Bytes) => ∀ name, .ok name ∈ names → Plain name)
        (.ask (listDirectory root path) : FsM (List (Except IoError Bytes))) :=
      Program.Ensures.ask Extends.refl fun host names found => host.plain path names (listDirectory_eq_ok.mp found).2.2
    apply listed.bind
    intro names plain
    exact readdirEntries_keeps confined offset maximum.toNat plain 0 []

theorem handler_keeps {header : FuseInHeader} {payload : Bytes} {program : FsM Bytes}
    (dispatched : handler root header payload = some program) : KeepsTable root (fun _ => True) program := by
  unfold handler at dispatched
  split at dispatched
  · cases dispatched
    exact ofExcept_keeps _
  split at dispatched
  · cases dispatched
    exact lookupReply_keeps header.nodeId payload
  split at dispatched
  · cases dispatched
    exact getattrReply_keeps header.nodeId
  split at dispatched
  · cases dispatched
    exact openReply_keeps header.nodeId
  split at dispatched
  · cases dispatched
    exact readReply_keeps header.nodeId payload
  split at dispatched
  · cases dispatched
    exact readdirReply_keeps header.nodeId payload
  split at dispatched
  · cases dispatched
    exact Program.Ensures.pure trivial
  · cases dispatched

theorem executeRequest_keeps (root : Path) (request : Bytes) :
    KeepsTable root (fun _ => True) (executeRequest root request) := by
  unfold executeRequest
  split
  · exact Program.Ensures.fail _
  split
  · exact Program.Ensures.pure trivial
  split
  · exact Program.Ensures.pure trivial
  split
  · exact Program.Ensures.pure trivial
  · rename_i program dispatched
    apply (handler_keeps dispatched).attempt.bind
    intro result _
    exact Program.Ensures.ofExcept fun _ _ => trivial

end

/-- Requests in flight, and the host that each of their steps meets. -/
abbrev Requests := Program.Pool Host FsInodes Fault Bytes

def Requests.start (root : Path) : Requests := ⟨FsInodes.new root, []⟩

theorem Requests.sound (root : Path) {labels : List (Program.Schedule Host Bytes)} {s : Requests}
    (run : exec (Program.Pool.step (executeRequest root)) (Requests.start root) labels = some s) :
    Program.Pool.Sound (Inv root) Extends (fun _ => True) (FsInodes.new root) s :=
  Program.Pool.Sound.exec Extends.trans (executeRequest_keeps root)
    ⟨new_inv root, .refl _, fun _ member => absurd member List.not_mem_nil⟩ run

def sampleRequest (opcode : UInt32) (nodeId : UInt64) (payload : Bytes) : Bytes :=
  LittleEndian.encode 4 (fuseInHeaderSize + payload.length) ++ LittleEndian.encode 4 opcode.toNat ++
    LittleEndian.encode 8 7 ++ LittleEndian.encode 8 nodeId.toNat ++ List.replicate 16 0 ++ payload

def sampleHost (fileType : FileType) : Host where
  symlinkMetadata _ := .ok ⟨fileType, 1⟩
  isDir _ := true
  readDir _ := .ok [.ok [0x62]]
  openFile _ := .ok {
    seek := fun _ => .ok ()
    read := fun _ size => .ok ([0x2a].take size)
    bounded := fun _ size bytes read => by
      cases read
      rw [List.length_take]
      exact Nat.min_le_left _ _ }
  plain _ entries read name member := by
    cases read
    obtain rfl : name = [0x62] := by simpa using member
    decide

def sampleRoot : Path := [[0x72]]

def sampleReaddir : Bytes := List.replicate 16 0 ++ LittleEndian.encode 4 4096 ++ List.replicate 4 0

end Libvirtio.Fs
