import Libvirtio.Fs.Symlink

namespace Libvirtio.Fs

open FsInodes

structure Listed where
  index : Nat
  name : Bytes
  fileType : FileType
  deriving DecidableEq

def listed? (host : Host) (path : Path) : Except IoError Bytes × Nat → Option Listed
  | (.error _, _) => none
  | (.ok name, index) =>
      match host.symlinkMetadata (join path name) with
      | .error _ => none
      | .ok metadata => if metadata.fileType = .symlink then none else some ⟨index, name, metadata.fileType⟩

/-- The entries of a directory that have metadata and are not symlinks, each with its position. -/
def visible (host : Host) (path : Path) (names : List (Except IoError Bytes)) (start : Nat) : List Listed :=
  (names.zipIdx start).filterMap (listed? host path)

def remaining (offset : Nat) (entries : List Listed) : List Listed := entries.filter fun e => offset ≤ e.index

section
variable {host : Host} {path : Path} {offset index : Nat} {name : Bytes} {rest : List (Except IoError Bytes)}

theorem listed?_eq_some {first : Except IoError Bytes} {e : Listed}
    (found : listed? host path (first, index) = some e) :
    first = .ok e.name ∧ e.index = index ∧ e.fileType ≠ .symlink ∧
      ∃ metadata, host.symlinkMetadata (join path e.name) = .ok metadata ∧ metadata.fileType = e.fileType := by
  cases first with
  | error error => cases found
  | ok name =>
      simp only [listed?] at found
      split at found
      · cases found
      · rename_i metadata stat
        split at found
        · cases found
        · rename_i plain
          cases found
          exact ⟨rfl, rfl, plain, metadata, stat, rfl⟩

theorem visible_cons (first : Except IoError Bytes) :
    visible host path (first :: rest) index =
      (listed? host path (first, index)).toList ++ visible host path rest (index + 1) := by
  rw [visible, List.zipIdx_cons, List.filterMap_cons]
  cases listed? host path (first, index) with
  | none => rfl
  | some e => rfl

theorem mem_visible {names : List (Except IoError Bytes)} {e : Listed} (member : e ∈ visible host path names index) :
    .ok e.name ∈ names ∧ e.fileType ≠ .symlink ∧
      ∃ metadata, host.symlinkMetadata (join path e.name) = .ok metadata ∧ metadata.fileType = e.fileType := by
  obtain ⟨⟨first, position⟩, here, found⟩ := List.mem_filterMap.mp member
  obtain ⟨rfl, -, plain, stat⟩ := listed?_eq_some found
  exact ⟨List.fst_mem_of_mem_zipIdx here, plain, stat⟩

theorem index_le_of_mem_visible {names : List (Except IoError Bytes)} {e : Listed}
    (member : e ∈ visible host path names index) : index ≤ e.index ∧ e.index < index + names.length := by
  obtain ⟨⟨first, position⟩, here, found⟩ := List.mem_filterMap.mp member
  obtain ⟨-, same, -⟩ := listed?_eq_some found
  obtain ⟨least, most, -⟩ := List.mem_zipIdx here
  exact ⟨same ▸ least, same ▸ most⟩

theorem visible_sorted (names : List (Except IoError Bytes)) :
    (visible host path names index).Pairwise fun first second => first.index < second.index := by
  induction names generalizing index with
  | nil => exact List.Pairwise.nil
  | cons first rest ih =>
      rw [visible_cons]
      cases found : listed? host path (first, index) with
      | none => exact ih
      | some e =>
          refine List.pairwise_cons.mpr ⟨fun other member => ?_, ih⟩
          rw [(listed?_eq_some found).2.1]
          exact (index_le_of_mem_visible member).1

theorem remaining_skip (first : Except IoError Bytes) (before : index < offset) :
    remaining offset (visible host path (first :: rest) index) =
      remaining offset (visible host path rest (index + 1)) := by
  rw [visible_cons]
  cases found : listed? host path (first, index) with
  | none => rfl
  | some e =>
      have same := (listed?_eq_some found).2.1
      exact List.filter_cons_of_neg (by simp; omega)

theorem remaining_symlink {metadata : Metadata} (stat : host.symlinkMetadata (join path name) = .ok metadata)
    (link : metadata.fileType = .symlink) :
    remaining offset (visible host path (.ok name :: rest) index) =
      remaining offset (visible host path rest (index + 1)) := by
  have hidden : listed? host path (.ok name, index) = none := by simp only [listed?, stat, if_pos link]
  rw [visible_cons, hidden]
  rfl

theorem remaining_shown {metadata : Metadata} (stat : host.symlinkMetadata (join path name) = .ok metadata)
    (plain : metadata.fileType ≠ .symlink) (reached : offset ≤ index) :
    remaining offset (visible host path (.ok name :: rest) index) =
      ⟨index, name, metadata.fileType⟩ :: remaining offset (visible host path rest (index + 1)) := by
  have shown : listed? host path (.ok name, index) = some ⟨index, name, metadata.fileType⟩ := by
    simp only [listed?, stat, if_neg plain]
  rw [visible_cons, shown]
  exact List.filter_cons_of_pos (by simpa using reached)

theorem mem_of_remaining {entries listed : List Listed} {e : Listed} (split : remaining offset entries = listed)
    (member : e ∈ listed) : e ∈ entries :=
  List.mem_of_mem_filter (split ▸ member)

theorem remaining_after {entries shown hidden : List Listed} {e : Listed}
    (sorted : entries.Pairwise fun first second => first.index < second.index)
    (split : remaining offset entries = shown ++ e :: hidden) : remaining (e.index + 1) entries = hidden := by
  have reached : offset ≤ e.index := by
    have member : e ∈ remaining offset entries := split ▸ List.mem_append_right _ List.mem_cons_self
    simpa using (List.mem_filter.mp member).2
  have again : remaining (e.index + 1) entries = remaining (e.index + 1) (remaining offset entries) := by
    rw [remaining, remaining, remaining, List.filter_filter]
    apply List.filter_congr
    intro other _
    rw [← Bool.decide_and, decide_eq_decide]
    omega
  have ordered : (remaining offset entries).Pairwise fun first second => first.index < second.index := sorted.filter _
  rw [split, List.pairwise_append, List.pairwise_cons] at ordered
  obtain ⟨-, ⟨later, -⟩, earlier⟩ := ordered
  rw [again, split, remaining, List.filter_append, List.filter_eq_nil_iff.mpr, List.filter_cons_of_neg,
    List.filter_eq_self.mpr, List.nil_append]
  · intro other member
    exact decide_eq_true (later other member)
  · simp
  · intro other member
    have := earlier other member e List.mem_cons_self
    simp
    omega

end

structure Describes (inodes : FsInodes) (path : Path) (r : Dirent) (e : Listed) : Prop where
  name : r.name = e.name
  kind : r.kind = direntKind e.fileType
  offset : r.offset = UInt64.ofNat (e.index + 1)
  bound : inodes.byId r.ino = some (join path r.name)
  valid : utf8Valid r.name = true

theorem Describes.mono {before after : FsInodes} {path : Path} {r : Dirent} {e : Listed}
    (describes : Describes before path r e) (extended : Extends before after) : Describes after path r e :=
  { describes with bound := extended _ _ describes.bound }

/-- A page of `maximum` bytes holds the records of the first of the entries, up to one that does not fit. -/
def Page (inodes : FsInodes) (path : Path) (maximum : Nat) (entries : List Listed) (body : Bytes) : Prop :=
  ∃ records shown hidden, entries = shown ++ hidden ∧ List.Forall₂ (Describes inodes path) records shown ∧
    body = records.flatMap Dirent.bytes ∧ body.length ≤ maximum ∧
    ∀ e ∈ hidden.head?, maximum < body.length + direntLength e.name

/-- How a listing turns names into records while the host may change: each name is looked at under one of `hosts`, and
the listing ends at a record that does not fit behind the `used` bytes. -/
inductive Scans (hosts : Host → Prop) (inodes : FsInodes) (path : Path) (offset maximum : Nat) :
    List (Except IoError Bytes) → Nat → Nat → List Dirent → Prop
  | nil {index used : Nat} : Scans hosts inodes path offset maximum [] index used []
  | skip {first : Except IoError Bytes} {rest : List (Except IoError Bytes)} {index used : Nat} {records : List Dirent}
      (before : index < offset) (others : Scans hosts inodes path offset maximum rest (index + 1) used records) :
      Scans hosts inodes path offset maximum (first :: rest) index used records
  | link {name : Bytes} {rest : List (Except IoError Bytes)} {index used : Nat} {records : List Dirent} {host : Host}
      {metadata : Metadata} (met : hosts host) (stat : host.symlinkMetadata (join path name) = .ok metadata)
      (symlink : metadata.fileType = .symlink)
      (others : Scans hosts inodes path offset maximum rest (index + 1) used records) :
      Scans hosts inodes path offset maximum (.ok name :: rest) index used records
  | full {name : Bytes} {rest : List (Except IoError Bytes)} {index used : Nat} {host : Host} {metadata : Metadata}
      (reached : offset ≤ index) (met : hosts host) (stat : host.symlinkMetadata (join path name) = .ok metadata)
      (regular : metadata.fileType ≠ .symlink) (large : maximum < used + direntLength name) :
      Scans hosts inodes path offset maximum (.ok name :: rest) index used []
  | shown {name : Bytes} {rest : List (Except IoError Bytes)} {index used : Nat} {records : List Dirent} {host : Host}
      {metadata : Metadata} {r : Dirent} (reached : offset ≤ index) (met : hosts host)
      (stat : host.symlinkMetadata (join path name) = .ok metadata) (regular : metadata.fileType ≠ .symlink)
      (describes : Describes inodes path r ⟨index, name, metadata.fileType⟩)
      (fits : used + direntLength name ≤ maximum)
      (others : Scans hosts inodes path offset maximum rest (index + 1) (used + direntLength name) records) :
      Scans hosts inodes path offset maximum (.ok name :: rest) index used (r :: records)

namespace Scans
variable {hosts : Host → Prop} {inodes after : FsInodes} {path : Path} {offset maximum index used : Nat}
  {names : List (Except IoError Bytes)} {records : List Dirent}

theorem mono (scans : Scans hosts inodes path offset maximum names index used records)
    (extended : Extends inodes after) : Scans hosts after path offset maximum names index used records := by
  induction scans with
  | nil => exact .nil
  | skip before _ ih => exact .skip before ih
  | link met stat symlink _ ih => exact .link met stat symlink ih
  | full reached met stat regular large => exact .full reached met stat regular large
  | shown reached met stat regular describes fits _ ih =>
      exact .shown reached met stat regular (describes.mono extended) fits ih

theorem bound (scans : Scans hosts inodes path offset maximum names index used records) :
    ∀ r ∈ records, inodes.byId r.ino = some (join path r.name) := by
  induction scans with
  | nil | full => exact fun _ member => absurd member List.not_mem_nil
  | skip _ _ ih | link _ _ _ _ ih => exact ih
  | shown _ _ _ _ describes _ _ ih => exact List.forall_mem_cons.mpr ⟨describes.bound, ih⟩

/-- Under a host that does not change, a listing is a page of the entries that remain. -/
theorem page {host : Host} (scans : Scans (· = host) inodes path offset maximum names index used records)
    (fits : used ≤ maximum) :
    ∃ shown hidden, remaining offset (visible host path names index) = shown ++ hidden ∧
      List.Forall₂ (Describes inodes path) records shown ∧
      used + (records.flatMap Dirent.bytes).length ≤ maximum ∧
      ∀ e ∈ hidden.head?, maximum < used + (records.flatMap Dirent.bytes).length + direntLength e.name := by
  induction scans with
  | nil => exact ⟨[], [], rfl, .nil, fits, by simp⟩
  | skip before _ ih =>
      rw [remaining_skip _ before]
      exact ih fits
  | link met stat symlink _ ih =>
      subst met
      rw [remaining_symlink stat symlink]
      exact ih fits
  | full reached met stat regular large =>
      subst met
      rw [remaining_shown stat regular reached]
      refine ⟨[], _, rfl, .nil, fits, ?_⟩
      rintro e ⟨⟩
      exact large
  | @shown name _ _ _ _ _ _ r reached met stat regular describes room _ ih =>
      subst met
      rw [remaining_shown stat regular reached]
      obtain ⟨shown, hidden, split, described, short, next⟩ := ih room
      have length : r.bytes.length = direntLength name := by rw [r.length_bytes, describes.name]
      refine ⟨_ :: shown, hidden, by rw [split, List.cons_append], .cons describes described, ?_, fun e member => ?_⟩
      · rw [List.flatMap_cons, List.length_append, length, ← Nat.add_assoc]
        exact short
      · rw [List.flatMap_cons, List.length_append, length, ← Nat.add_assoc]
        exact next e member

end Scans

section
variable {root : Path} {hosts : Host → Prop} {s : FsInodes}

theorem stat_settles (path : Path) :
    (.ask fun host => ioResult (host.symlinkMetadata path) : FsM Metadata).Settles hosts (Inv root) Extends
      (fun t metadata => Extends s t ∧ ∃ host, hosts host ∧ host.symlinkMetadata path = .ok metadata) s :=
  Program.Settles.ask fun host _ _ met _ extended found => ⟨extended, host, met, ioResult_eq_ok.mp found⟩

theorem register_settles {path : Path} (confined : Confined root path) :
    (.atomic fun _ => idForPath path : FsM UInt64).Settles hosts (Inv root) Extends
      (fun t id => Extends s t ∧ t.byId id = some path) s := by
  apply Program.Settles.atomic
  intro _ t id _ inv extended found
  obtain ⟨-, kept, bound⟩ := inv.idForPath confined
  exact ⟨extended.trans _ _ _ kept, bound id found⟩

theorem readdirEntries_settles {path : Path} {offset : UInt64} {maximum : Nat} (confined : Confined root path)
    (bounded : maximum < 2 ^ 64) {names : List (Except IoError Bytes)} (plain : ∀ name, .ok name ∈ names → Plain name)
    (index : Nat) (entries : Bytes) :
    (readdirEntries path offset maximum names index entries).Settles hosts (Inv root) Extends
      (fun t body => Extends s t ∧ ∃ records, body = entries ++ records.flatMap Dirent.bytes ∧
        Scans hosts t path offset.toNat maximum names index entries.length records) s := by
  induction names generalizing index entries s with
  | nil => exact ⟨.refl s, [], (List.append_nil _).symm, .nil⟩
  | cons first rest ih =>
      have others : ∀ name, .ok name ∈ rest → Plain name := fun name member => plain name (List.mem_cons_of_mem _ member)
      cases first with
      | error e => exact Program.Settles.fail _
      | ok name =>
          have child := confined.join (plain name List.mem_cons_self)
          unfold readdirEntries
          split
          · rename_i skipped
            refine (ih others (index + 1) entries).weaken ?_
            rintro t body ⟨extended, records, made, scans⟩
            exact ⟨extended, records, made, .skip skipped scans⟩
          rename_i reached
          apply (stat_settles (join path name)).bind
          rintro metadata t ⟨toAsked, host, met, stat⟩
          split
          · rename_i symlink
            refine (ih others (index + 1) entries).weaken ?_
            rintro u body ⟨extended, records, made, scans⟩
            exact ⟨toAsked.trans _ _ _ extended, records, made, .link met stat symlink scans⟩
          rename_i regular
          split
          · exact Program.Settles.fail _
          rename_i valid
          apply (register_settles child).bind
          rintro id u ⟨toBound, bound⟩
          by_cases short : name.length < 2 ^ 32
          · rw [dirent_eq id (index + 1) short metadata, Program.ofExcept_ok_bind]
            let r : Dirent := ⟨id, UInt64.ofNat (index + 1), direntKind metadata.fileType, name, short⟩
            have describes : Describes u path r ⟨index, name, metadata.fileType⟩ :=
              ⟨rfl, rfl, rfl, bound, by simpa using valid⟩
            have length : r.bytes.length = direntLength name := r.length_bytes
            rw [length]
            split
            · rename_i full
              refine ⟨toAsked.trans _ _ _ toBound, [], (List.append_nil _).symm, ?_⟩
              exact .full (Nat.le_of_not_lt reached) met stat regular (by omega)
            · rename_i room
              refine (ih others (index + 1) (entries ++ r.bytes)).weaken ?_
              rintro v body ⟨extended, records, made, scans⟩
              rw [List.length_append, length] at scans
              refine ⟨toAsked.trans _ _ _ (toBound.trans _ _ _ extended), r :: records, ?_, ?_⟩
              · rw [made, List.append_assoc, List.flatMap_cons]
              · exact .shown (Nat.le_of_not_lt reached) met stat regular (describes.mono extended) (by omega) scans
          · rw [dirent, if_pos (by omega)]
            exact Program.Settles.fail _

theorem pathOf_settles (nodeId : UInt64) :
    (pathOf nodeId).Settles hosts (Inv root) Extends
      (fun t path => t.byId nodeId = some path ∧ Confined root path) s := by
  rw [pathOf_eq]
  apply Program.Settles.atomic
  intro _ t path _ inv _ found
  have bound := elim_eq_ok.mp found
  exact ⟨bound, inv.confined nodeId path bound⟩

/-- A reply to `FUSE_READDIR` comes from a listing of the directory that its inode is bound to. -/
def Listing (hosts : Host → Prop) (inodes : FsInodes) (nodeId : UInt64) (payload body : Bytes) : Prop :=
  ∃ host path names records, hosts host ∧ inodes.byId nodeId = some path ∧ host.readDir path = .ok names ∧
    body = records.flatMap Dirent.bytes ∧
    Scans hosts inodes path (readOffset payload).toNat (readSize payload).toNat names 0 0 records

theorem Listing.mono {before after : FsInodes} {nodeId : UInt64} {payload body : Bytes}
    (listing : Listing hosts before nodeId payload body) (extended : Extends before after) :
    Listing hosts after nodeId payload body := by
  obtain ⟨host, path, names, records, met, bound, read, made, scans⟩ := listing
  exact ⟨host, path, names, records, met, extended _ _ bound, read, made, scans.mono extended⟩

/-- A reply to `FUSE_READDIR` is a page of the directory that its inode is bound to. -/
def Lists (host : Host) (inodes : FsInodes) (nodeId : UInt64) (payload body : Bytes) : Prop :=
  ∃ path names, inodes.byId nodeId = some path ∧ host.readDir path = .ok names ∧
    Page inodes path (readSize payload).toNat
      (remaining (readOffset payload).toNat (visible host path names 0)) body

theorem Listing.lists {host : Host} {inodes : FsInodes} {nodeId : UInt64} {payload body : Bytes}
    (listing : Listing (· = host) inodes nodeId payload body) : Lists host inodes nodeId payload body := by
  obtain ⟨_, path, names, records, rfl, bound, read, rfl, scans⟩ := listing
  obtain ⟨shown, hidden, split, described, short, next⟩ := scans.page (Nat.zero_le _)
  rw [Nat.zero_add] at short next
  exact ⟨path, names, bound, read, records, shown, hidden, split, described, rfl, short, next⟩

theorem readdirReply_settles (nodeId : UInt64) (payload : Bytes) :
    (readdirReply root nodeId payload).Settles hosts (Inv root) Extends
      (fun t body => Listing hosts t nodeId payload body) s := by
  by_cases short : payload.length < 24
  · rw [readdirReply, if_pos short]
    exact Program.Settles.fail _
  rw [readdirReply_eq (Nat.le_of_not_lt short)]
  apply (pathOf_settles nodeId).bind
  rintro path t ⟨bound, confined⟩
  have listed : (.ask (listDirectory root path) : FsM (List (Except IoError Bytes))).Settles hosts (Inv root) Extends
      (fun u names => u.byId nodeId = some path ∧ ∃ host, hosts host ∧ host.readDir path = .ok names) t :=
    Program.Settles.ask fun host _ _ met _ extended found =>
      ⟨extended _ _ bound, host, met, (listDirectory_eq_ok.mp found).2.2⟩
  apply listed.bind
  rintro names u ⟨kept, host, met, listing⟩
  have bounded : (readSize payload).toNat < 2 ^ 64 := Nat.lt_trans (readSize payload).toNat_lt (by decide)
  refine (readdirEntries_settles confined bounded (host.plain path names listing) 0 []).weaken ?_
  rintro v body ⟨extended, records, made, scans⟩
  exact ⟨host, path, names, records, met, extended _ _ kept, listing, made, scans⟩

theorem readdirReply_lists {host : Host} {nodeId : UInt64} {payload body : Bytes} (inv : Inv root s)
    (replied : ((readdirReply root nodeId payload).run host s).1 = .ok body) :
    Lists host ((readdirReply root nodeId payload).run host s).2 nodeId payload body := by
  have settles : (readdirReply root nodeId payload).Settles (· = host) (Inv root) Extends
      (fun t body => Listing (· = host) t nodeId payload body) s := readdirReply_settles nodeId payload
  exact (settles.run (readdirReply_keeps nodeId payload) rfl Extends.refl inv replied).lists

end

end Libvirtio.Fs
