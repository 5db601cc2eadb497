import Libvirtio.Fs.Listing

namespace Libvirtio.Fs

open FsInodes

structure Entry where
  name : Bytes
  fileType : FileType
  deriving DecidableEq

def Entry.shown? (entry : Entry × Nat) : Option Listed :=
  if entry.1.fileType = .symlink then none else some ⟨entry.2, entry.1.name, entry.1.fileType⟩

def shownEntries (entries : List Entry) (start : Nat) : List Listed := (entries.zipIdx start).filterMap Entry.shown?

theorem entry_of_shown {entries : List Entry} {start : Nat} {e : Listed} (member : e ∈ shownEntries entries start) :
    ∃ entry ∈ entries, entry.name = e.name := by
  obtain ⟨entry, within, shown⟩ := List.mem_filterMap.mp member
  refine ⟨entry.1, List.fst_mem_of_mem_zipIdx within, ?_⟩
  unfold Entry.shown? at shown
  split at shown
  · cases shown
  · cases shown
    rfl

structure Directory (host : Host) (path : Path) (entries : List Entry) : Prop where
  directory : host.isDir path = true
  listing : host.readDir path = .ok (entries.map fun e => .ok e.name)
  stat : ∀ e ∈ entries, ∃ metadata, host.symlinkMetadata (join path e.name) = .ok metadata ∧
    metadata.fileType = e.fileType
  valid : ∀ e ∈ entries, utf8Valid e.name = true

section
variable {host : Host} {path : Path} {entries : List Entry} {inodes : FsInodes}

theorem visible_eq_shownEntries (start : Nat)
    (stat : ∀ e ∈ entries, ∃ metadata, host.symlinkMetadata (join path e.name) = .ok metadata ∧
      metadata.fileType = e.fileType) :
    visible host path (entries.map fun e => .ok e.name) start = shownEntries entries start := by
  induction entries generalizing start with
  | nil => rfl
  | cons e rest ih =>
      obtain ⟨⟨metadata, found, same⟩, others⟩ := List.forall_mem_cons.mp stat
      have here : listed? host path (.ok e.name, start) = Entry.shown? (e, start) := by
        simp only [listed?, found, same, Entry.shown?]
      rw [List.map_cons, visible_cons, here, ih _ others, shownEntries, shownEntries, List.zipIdx_cons,
        List.filterMap_cons]
      cases Entry.shown? (e, start) with
      | none => rfl
      | some listed => rfl

def unbound (inodes : FsInodes) (path : Path) (entries : List Entry) : Nat :=
  entries.countP fun e => e.fileType ≠ .symlink ∧ inodes.byPath (join path e.name) = none

def Room (inodes : FsInodes) (path : Path) (entries : List Entry) : Prop :=
  inodes.next.toNat + unbound inodes path entries < 2 ^ 64

instance (inodes : FsInodes) (path : Path) (entries : List Entry) : Decidable (Room inodes path entries) :=
  inferInstanceAs (Decidable (_ < _))

theorem unbound_cons_le (e : Entry) (rest : List Entry) : unbound inodes path rest ≤ unbound inodes path (e :: rest) :=
  (List.sublist_cons_self e rest).countP_le

theorem room_idForPath {e : Entry} {rest : List Entry} (plain : e.fileType ≠ .symlink)
    (room : Room inodes path (e :: rest)) :
    ((inodes.byPath (join path e.name)).isSome ∨ inodes.next.toNat + 1 < 2 ^ 64) ∧
      Room (idForPath (join path e.name) inodes).2 path rest := by
  unfold Room at room ⊢
  cases bound : inodes.byPath (join path e.name) with
  | some id =>
      have unchanged : (idForPath (join path e.name) inodes).2 = inodes := by simp only [idForPath, bound]
      rw [unchanged]
      exact ⟨Or.inl rfl, (Nat.add_le_add_left (unbound_cons_le e rest) _).trans_lt room⟩
  | none =>
      have counted : unbound inodes path (e :: rest) = unbound inodes path rest + 1 :=
        List.countP_cons_of_pos (by simp [plain, bound])
      have next : inodes.next.toNat + 1 < 2 ^ 64 := by omega
      have after : (idForPath (join path e.name) inodes).2 = inodes.bind inodes.next (join path e.name) := by
        simp only [idForPath, bound, if_pos next]
      have raised : (inodes.next + 1).toNat = inodes.next.toNat + 1 := by
        rw [UInt64.toNat_add, UInt64.toNat_one, Nat.mod_eq_of_lt next]
      have fewer : unbound (inodes.bind inodes.next (join path e.name)) path rest ≤ unbound inodes path rest := by
        apply List.countP_mono_left
        intro other _ counted
        rw [decide_eq_true_eq] at counted ⊢
        obtain ⟨regular, free⟩ := counted
        refine ⟨regular, ?_⟩
        simp only [FsInodes.bind] at free
        split at free
        · cases free
        · exact free
      rw [after]
      refine ⟨Or.inr next, ?_⟩
      change (inodes.next + 1).toNat + _ < _
      omega

theorem listable_of_room {offset : UInt64} {maximum : Nat}
    (stat : ∀ e ∈ entries, ∃ metadata, host.symlinkMetadata (join path e.name) = .ok metadata ∧
      metadata.fileType = e.fileType)
    (valid : ∀ e ∈ entries, utf8Valid e.name = true)
    (short : ∀ e ∈ entries, e.fileType ≠ .symlink → e.name.length < 2 ^ 32) (room : Room inodes path entries)
    (index used : Nat) :
    Listable host path offset maximum inodes (entries.map fun e => .ok e.name) index used := by
  induction entries generalizing inodes index used with
  | nil => trivial
  | cons e rest ih =>
      obtain ⟨⟨metadata, found, same⟩, stats⟩ := List.forall_mem_cons.mp stat
      obtain ⟨validName, valids⟩ := List.forall_mem_cons.mp valid
      obtain ⟨shortName, shorts⟩ := List.forall_mem_cons.mp short
      have fewer : Room inodes path rest := (Nat.add_le_add_left (unbound_cons_le e rest) _).trans_lt room
      rw [List.map_cons, Listable]
      split
      · exact ih stats valids shorts fewer _ _
      rw [found]
      simp only
      rw [same]
      split
      · exact ih stats valids shorts fewer _ _
      · rename_i plain
        obtain ⟨free, later⟩ := room_idForPath plain room
        exact ⟨validName, shortName plain, free, fun _ => ih stats valids shorts later _ _⟩

end

section
variable {root path : Path} {nodeId : UInt64} {entries : List Entry} {inodes : FsInodes} {host : Host}

theorem readdirReply_ok {payload : Bytes} (inv : Inv root inodes) (bound : inodes.byId nodeId = some path)
    (long : 24 ≤ payload.length) (fits : ∀ e ∈ shownEntries entries 0, direntLength e.name ≤ (readSize payload).toNat)
    (directory : Directory host path entries) (room : Room inodes path entries) :
    ∃ body, ((readdirReply root nodeId payload).run host inodes).1 = .ok body := by
  have listing : listDirectory root path host = .ok (entries.map fun e => .ok e.name) :=
    listDirectory_eq_ok.mpr ⟨(inv.confined nodeId path bound).startsWith, directory.directory, directory.listing⟩
  have small : (readSize payload).toNat < 2 ^ 32 := (readSize payload).toNat_lt
  have short : ∀ e ∈ entries, e.fileType ≠ .symlink → e.name.length < 2 ^ 32 := by
    intro e member plain
    obtain ⟨index, within, rfl⟩ := List.mem_iff_getElem.mp member
    have shown : ⟨index, entries[index].name, entries[index].fileType⟩ ∈ shownEntries entries 0 := by
      refine List.mem_filterMap.mpr ⟨(entries[index], index), ?_, if_neg plain⟩
      exact List.mk_mem_zipIdx_iff_getElem?.mpr (List.getElem?_eq_getElem within)
    exact ((length_lt_direntLength _).trans_le (fits _ shown)).trans small
  exact readdirReply_ok_iff.mpr
    ⟨long, path, _, bound, listing, listable_of_room directory.stat directory.valid short room 0 0⟩

theorem readdirReply_page {payload : Bytes} (inv : Inv root inodes) (bound : inodes.byId nodeId = some path)
    (long : 24 ≤ payload.length) (fits : ∀ e ∈ shownEntries entries 0, direntLength e.name ≤ (readSize payload).toNat)
    (directory : Directory host path entries) (room : Room inodes path entries) :
    ∃ body after, (readdirReply root nodeId payload).run host inodes = (.ok body, after) ∧ Inv root after ∧
      Extends inodes after ∧
      Page after path (readSize payload).toNat
        (remaining (readOffset payload).toNat (shownEntries entries 0)) body := by
  obtain ⟨body, replied⟩ := readdirReply_ok inv bound long fits directory room
  have keeps : KeepsTable root (fun _ => True) (readdirReply root nodeId payload) := readdirReply_keeps nodeId payload
  obtain ⟨kept, extended⟩ := keeps.run (h := host) Extends.refl Extends.trans inv
  obtain ⟨other, names, same, listing, page⟩ := readdirReply_lists inv replied
  obtain rfl : other = path := Option.some.inj (same.symm.trans (extended _ _ bound))
  rw [directory.listing] at listing
  cases listing
  rw [visible_eq_shownEntries 0 directory.stat] at page
  exact ⟨body, _, Prod.ext replied rfl, kept, extended, page⟩

end

end Libvirtio.Fs
