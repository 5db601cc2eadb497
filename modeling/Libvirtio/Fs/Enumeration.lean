import Libvirtio.Fs.Replies

namespace Libvirtio.Fs

open FsInodes

structure PageRead where
  size : Nat
  body : Bytes
  records : List Dirent
  parsed : direntsOf body = some records

/-- A driver that reads a directory: where its next page starts and the pages that it has got, beside the table of the
server. -/
structure Reader where
  inodes : FsInodes
  offset : UInt64
  pages : List PageRead

inductive Call where
  | readdir (request : Bytes) (host : Host)
  | other (request : Bytes) (host : Host)

def pageSize (request : Bytes) : Nat := (readSize (payloadOf request)).toNat

-- A driver takes a body out of a frame that is whole and reports no error.
def bodyOf (reply : Bytes) : Option Bytes :=
  if fuseOutHeaderSize ≤ reply.length ∧ field reply 0 4 = reply.length ∧ errorField reply = 0 then
    some (reply.drop fuseOutHeaderSize)
  else none

theorem bodyOf_successReply {unique : UInt64} {body reply : Bytes} (made : successReply unique body = .ok reply) :
    bodyOf reply = some body := by
  obtain ⟨short, rfl⟩ := successReply_eq_ok.mp made
  have error : errorField (frame (fuseOutHeaderSize + body.length) 0 unique body) = 0 := by
    rw [errorField, field_frame_error (by decide)]
    rfl
  unfold bodyOf
  rw [length_frame, field_frame_length short, drop_frame, if_pos ⟨Nat.le_add_right _ _, rfl, error⟩]

namespace Reader

def start (inodes : FsInodes) : Reader := ⟨inodes, 0, []⟩

def turn (s : Reader) (size : Nat) (body : Bytes) (inodes : FsInodes) : Option Reader :=
  match parsed : direntsOf body with
  | none => none
  | some records => some
      ⟨inodes, (records.getLast?.map Dirent.offset).getD s.offset, s.pages ++ [⟨size, body, records, parsed⟩]⟩

def step (root : Path) (s : Reader) : Call → Option Reader
  | .readdir request host =>
      match (executeRequest root request).run host s.inodes with
      | (.ok reply, inodes) => (bodyOf reply).bind fun body => s.turn (pageSize request) body inodes
      | (.error _, _) => none
  | .other request host => some { s with inodes := ((executeRequest root request).run host s.inodes).2 }

/-- The next page starts where the last one ended, has space for every record, and finds an id for every entry. -/
def Asks (nodeId : UInt64) (path : Path) (entries : List Entry) (s : Reader) : Call → Prop
  | .readdir request _ =>
      (headerOf request).length.toNat = request.length ∧ (headerOf request).opcode = fuseReaddir ∧
      (headerOf request).nodeId = nodeId ∧ 24 ≤ (payloadOf request).length ∧
      readOffset (payloadOf request) = s.offset ∧
      (∀ e ∈ shownEntries entries 0, direntLength e.name ≤ pageSize request) ∧ Room s.inodes path entries
  | .other _ _ => True

instance (nodeId : UInt64) (path : Path) (entries : List Entry) (s : Reader) (call : Call) :
    Decidable (Asks nodeId path entries s call) :=
  match call with
  | .readdir _ _ => inferInstanceAs (Decidable (_ ∧ _))
  | .other _ _ => isTrue trivial

def Unchanged (path : Path) (entries : List Entry) : Call → Prop
  | .readdir _ host => Directory host path entries
  | .other _ _ => True

def Continues (nodeId : UInt64) (path : Path) (entries : List Entry) (s : Reader) (call : Call) : Prop :=
  Asks nodeId path entries s call ∧ Unchanged path entries call

/-- The next records that the size of the page has space for, and every shorter row of them, fit into a frame. -/
def Fits (entries : List Entry) (s : Reader) : Call → Prop
  | .readdir request _ =>
      ∀ shown, shown <+: remaining s.offset.toNat (shownEntries entries 0) → recordsLength shown ≤ pageSize request →
        fuseOutHeaderSize + recordsLength shown < 2 ^ 32
  | .other _ _ => True

theorem fits_of_size {entries : List Entry} {s : Reader} {request : Bytes} {host : Host}
    (small : fuseOutHeaderSize + pageSize request < 2 ^ 32) : Fits entries s (.readdir request host) :=
  fun _ _ within => (Nat.add_le_add_left within _).trans_lt small

def sizes (calls : List Call) : List Nat :=
  calls.filterMap fun call =>
    match call with
    | .readdir request _ => some (pageSize request)
    | .other _ _ => none

def records (s : Reader) : List Dirent := s.pages.flatMap PageRead.records

theorem turn_eq {s : Reader} {size : Nat} {body : Bytes} {found : List Dirent} {inodes : FsInodes}
    (parsed : direntsOf body = some found) :
    s.turn size body inodes = some ⟨inodes, (found.getLast?.map Dirent.offset).getD s.offset,
      s.pages ++ [⟨size, body, found, parsed⟩]⟩ := by
  unfold turn
  split
  · rename_i none
    cases parsed.symm.trans none
  · rename_i other here
    cases parsed.symm.trans here
    rfl

theorem step_readdir {root path : Path} {nodeId : UInt64} {entries : List Entry} {s : Reader} {request : Bytes}
    {host : Host} (asks : Asks nodeId path entries s (.readdir request host)) {body : Bytes} {after : FsInodes}
    (replied : (readdirReply root nodeId (payloadOf request)).run host s.inodes = (.ok body, after)) :
    step root s (.readdir request host) =
      if fuseOutHeaderSize + body.length < 2 ^ 32 then s.turn (pageSize request) body after else none := by
  obtain ⟨length, opcode, rfl, whole, -⟩ := asks
  have long : fuseInHeaderSize ≤ request.length := by
    rw [payloadOf, List.length_drop] at whole
    omega
  have answered : (executeRequest root request).run host s.inodes = _ := executeRequest_readdir long length opcode
  rw [replied] at answered
  simp only [step, answered, finishReply]
  cases made : successReply (headerOf request).unique body with
  | ok reply =>
      rw [if_pos (successReply_eq_ok.mp made).1]
      simp only [bodyOf_successReply made, Option.bind_some]
  | error fault =>
      have large : ¬fuseOutHeaderSize + body.length < 2 ^ 32 := by
        intro short
        obtain ⟨reply, framed⟩ := successReply_ok (headerOf request).unique short
        cases framed.symm.trans made
      rw [if_neg large]

/-- After a page the reader is at the first entry that the page did not show. -/
theorem remaining_turn {host : Host} {path : Path} {entries : List Entry} (few : entries.length < 2 ^ 64)
    (directory : Directory host path entries) {inodes : FsInodes} {offset : UInt64} {found : List Dirent}
    {shown hidden : List Listed} (split : remaining offset.toNat (shownEntries entries 0) = shown ++ hidden)
    (described : List.Forall₂ (Describes inodes path) found shown) :
    remaining ((found.getLast?.map Dirent.offset).getD offset).toNat (shownEntries entries 0) = hidden := by
  have same := visible_eq_shownEntries 0 directory.stat
  have sorted : (shownEntries entries 0).Pairwise fun first second => first.index < second.index :=
    same ▸ visible_sorted _
  have backwards := List.forall₂_reverse_iff.mpr described
  cases last : found.reverse with
  | nil =>
      rw [last, List.forall₂_nil_left_iff, List.reverse_eq_nil_iff] at backwards
      rw [List.reverse_eq_nil_iff.mp last]
      rw [backwards] at split
      exact split
  | cons r front =>
      rw [last] at backwards
      obtain ⟨e, others, describes, -, reversed⟩ := List.forall₂_cons_left_iff.mp backwards
      have ends : shown = others.reverse ++ [e] := by
        rw [← List.reverse_reverse shown, reversed, List.reverse_cons]
      have index : e.index < entries.length := by
        have member : e ∈ shownEntries entries 0 := mem_of_remaining split (by simp [ends])
        rw [← same] at member
        simpa using (index_le_of_mem_visible member).2
      have next : (UInt64.ofNat (e.index + 1)).toNat = e.index + 1 := by
        rw [UInt64.toNat_ofNat', Nat.mod_eq_of_lt (by omega)]
      rw [List.getLast?_eq_head?_reverse, last, List.head?_cons, Option.map_some, Option.getD_some, describes.offset,
        next]
      rw [ends, List.append_assoc] at split
      exact remaining_after sorted split

structure Reading (root : Path) (nodeId : UInt64) (path : Path) (entries : List Entry) (s : Reader) : Prop where
  inv : Inv root s.inodes
  bound : s.inodes.byId nodeId = some path
  fits : ∀ page ∈ s.pages, page.body.length ≤ page.size
  listed : ∃ done, shownEntries entries 0 = done ++ remaining s.offset.toNat (shownEntries entries 0) ∧
    List.Forall₂ (Describes s.inodes path) s.records done
  complete : ∀ page ∈ s.pages, page.body = [] → remaining s.offset.toNat (shownEntries entries 0) = []

section
variable {root path : Path} {nodeId : UInt64} {entries : List Entry} {s : Reader} {request : Bytes} {host : Host}

theorem Reading.page (reading : Reading root nodeId path entries s)
    (continues : Continues nodeId path entries s (.readdir request host)) :
    ∃ body after, step root s (.readdir request host) =
        (if fuseOutHeaderSize + body.length < 2 ^ 32 then s.turn (pageSize request) body after else none) ∧
      Inv root after ∧ Extends s.inodes after ∧
      Page after path (pageSize request) (remaining s.offset.toNat (shownEntries entries 0)) body := by
  obtain ⟨asks, directory⟩ := continues
  obtain ⟨-, -, -, whole, offset, space, room⟩ := id asks
  obtain ⟨body, after, replied, inv, extended, page⟩ :=
    readdirReply_page reading.inv reading.bound whole space directory room
  rw [offset] at page
  exact ⟨body, after, step_readdir asks replied, inv, extended, page⟩

theorem Reading.turn (few : entries.length < 2 ^ 64) (reading : Reading root nodeId path entries s)
    (continues : Continues nodeId path entries s (.readdir request host)) {body : Bytes} {after : FsInodes}
    (inv : Inv root after) (extended : Extends s.inodes after)
    (page : Page after path (pageSize request) (remaining s.offset.toNat (shownEntries entries 0)) body) :
    ∃ t, s.turn (pageSize request) body after = some t ∧ Reading root nodeId path entries t := by
  obtain ⟨⟨-, -, -, -, -, space, -⟩, directory⟩ := continues
  obtain ⟨found, shown, hidden, split, described, made, bounded, next⟩ := page
  obtain ⟨done, parts, listed⟩ := reading.listed
  have parsed : direntsOf body = some found := made ▸ direntsOf_flatMap found
  have turned := remaining_turn few directory split described
  refine ⟨_, turn_eq parsed, inv, extended _ _ reading.bound, ?_, ?_, ?_⟩
  · intro page member
    rcases List.mem_append.mp member with old | new
    · exact reading.fits page old
    · rw [List.mem_singleton.mp new]
      exact bounded
  · refine ⟨done ++ shown, ?_, ?_⟩
    · rw [turned, List.append_assoc, ← split]
      exact parts
    · have all : Reader.records ⟨after, (found.getLast?.map Dirent.offset).getD s.offset,
          s.pages ++ [⟨pageSize request, body, found, parsed⟩]⟩ = s.records ++ found := by
        simp [Reader.records]
      rw [all]
      exact List.rel_append (listed.imp fun _ _ here => here.mono extended) described
  · intro page member empty
    rw [turned]
    rcases List.mem_append.mp member with old | new
    · have finished := reading.complete page old empty
      rw [split] at finished
      exact (List.append_eq_nil_iff.mp finished).2
    · rw [List.mem_singleton.mp new] at empty
      -- An entry that is left would have fitted on the empty page.
      cases hidden with
      | nil => rfl
      | cons e rest =>
          have member : e ∈ shownEntries entries 0 := mem_of_remaining split (by simp)
          have tooLarge := next e rfl
          have fitted := space e member
          rw [show body = [] from empty, List.length_nil] at tooLarge
          omega

/-- The page is the longest row of records that its size has space for. -/
theorem fits_iff_page {inodes : FsInodes} {body : Bytes}
    (page : Page inodes path (pageSize request) (remaining s.offset.toNat (shownEntries entries 0)) body) :
    Fits entries s (.readdir request host) ↔ fuseOutHeaderSize + body.length < 2 ^ 32 := by
  obtain ⟨found, shown, hidden, split, described, rfl, bounded, next⟩ := page
  rw [length_records described] at bounded next ⊢
  have first : shown <+: remaining s.offset.toNat (shownEntries entries 0) := ⟨hidden, split.symm⟩
  constructor
  · intro fits
    exact fits shown first bounded
  · intro short row start within
    rcases List.prefix_or_prefix_of_prefix start first with ⟨more, rfl⟩ | ⟨more, rfl⟩
    · have total : recordsLength (row ++ more) = recordsLength row + recordsLength more := by simp [recordsLength]
      omega
    · cases more with
      | nil => rwa [List.append_nil]
      | cons e others =>
          obtain ⟨rest, whole⟩ := start
          rw [split, List.append_assoc, List.append_cancel_left_eq] at whole
          have tooLarge := next e (by rw [← whole]; rfl)
          have total : recordsLength (shown ++ e :: others) =
              recordsLength shown + (direntLength e.name + recordsLength others) := by simp [recordsLength]
          omega

end

section
variable {root path : Path} {nodeId : UInt64} {entries : List Entry}

theorem Reading.step (few : entries.length < 2 ^ 64) (s : Reader) (call : Call)
    (reading : Reading root nodeId path entries s) (continues : Continues nodeId path entries s call)
    (fits : Fits entries s call) : ∃ t, step root s call = some t ∧ Reading root nodeId path entries t := by
  cases call with
  | readdir request host =>
      obtain ⟨body, after, stepped, inv, extended, page⟩ := reading.page continues
      rw [stepped, if_pos ((fits_iff_page page).mp fits)]
      exact reading.turn few continues inv extended page
  | other request host =>
      obtain ⟨inv, extended⟩ := (executeRequest_keeps root request).run (h := host) Extends.refl Extends.trans reading.inv
      obtain ⟨done, parts, listed⟩ := reading.listed
      exact ⟨_, rfl, inv, extended _ _ reading.bound, reading.fits,
        ⟨done, parts, listed.imp fun _ _ here => here.mono extended⟩, reading.complete⟩

theorem Reading.fits_of_step (s : Reader) (call : Call) (t : Reader) (reading : Reading root nodeId path entries s)
    (continues : Continues nodeId path entries s call) (stepped : Reader.step root s call = some t) :
    Fits entries s call := by
  cases call with
  | readdir request host =>
      obtain ⟨body, after, same, -, -, page⟩ := reading.page continues
      rw [same] at stepped
      split at stepped
      · rename_i short
        exact (fits_iff_page page).mpr short
      · cases stepped
  | other request host => trivial

theorem Reading.start (entries : List Entry) {inodes : FsInodes} (inv : Inv root inodes)
    (bound : inodes.byId nodeId = some path) : Reading root nodeId path entries (start inodes) where
  inv := inv
  bound := bound
  fits _ member := absurd member List.not_mem_nil
  listed := ⟨[], by simp [remaining, Reader.start], .nil⟩
  complete _ member := absurd member List.not_mem_nil

end

theorem turn_sizes {s t : Reader} {size : Nat} {body : Bytes} {inodes : FsInodes}
    (turned : s.turn size body inodes = some t) : t.pages.map PageRead.size = s.pages.map PageRead.size ++ [size] := by
  unfold turn at turned
  split at turned
  · cases turned
  · cases turned
    simp

theorem sizes_eq {root : Path} {inodes : FsInodes} {calls : List Call} {s : Reader}
    (run : exec (step root) (start inodes) calls = some s) : s.pages.map PageRead.size = sizes calls := by
  refine Execution.invariant_past (fun past s => s.pages.map PageRead.size = sizes past) ?_ rfl run
  intro past s call t _ same stepped
  rw [sizes, List.filterMap_append, ← sizes, ← same]
  cases call with
  | readdir request host =>
      simp only [step] at stepped
      split at stepped
      · obtain ⟨body, -, turned⟩ := Option.bind_eq_some_iff.mp stepped
        exact turn_sizes turned
      · cases stepped
  | other request host =>
      cases stepped
      simp

end Reader

theorem PageRead.records_ne_nil {page : PageRead} (nonempty : page.body ≠ []) : page.records ≠ [] := by
  intro none
  have parsed := page.parsed
  rw [none, direntsOf] at parsed
  cases fuel : page.body.length with
  | zero => exact nonempty (List.length_eq_zero_iff.mp fuel)
  | succ n =>
      rw [fuel, parseDirents, if_neg nonempty, Option.bind_eq_some_iff] at parsed
      obtain ⟨found, -, rest⟩ := parsed
      obtain ⟨others, -, same⟩ := Option.map_eq_some_iff.mp rest
      cases same

theorem length_le_records {pages : List PageRead} (nonempty : ∀ page ∈ pages, page.body ≠ []) :
    pages.length ≤ (pages.flatMap PageRead.records).length := by
  induction pages with
  | nil => exact Nat.le_refl 0
  | cons page rest ih =>
      obtain ⟨here, others⟩ := List.forall_mem_cons.mp nonempty
      have some := List.length_pos_of_ne_nil (PageRead.records_ne_nil here)
      have more := ih others
      rw [List.flatMap_cons, List.length_append, List.length_cons]
      omega

/-- A reader has an empty page among more pages than there are entries. -/
theorem Reader.Reading.ends {root path : Path} {nodeId : UInt64} {entries : List Entry} {s : Reader}
    (reading : Reader.Reading root nodeId path entries s) (many : (shownEntries entries 0).length < s.pages.length) :
    ∃ page ∈ s.pages, page.body = [] := by
  obtain ⟨done, parts, listed⟩ := reading.listed
  by_contra full
  push Not at full
  have shown : done.length ≤ (shownEntries entries 0).length := by
    rw [parts, List.length_append]
    exact Nat.le_add_right _ _
  have pages := length_le_records full
  have records := listed.length_eq
  unfold Reader.records at records
  omega

/-- A reader of a directory that stays as it is gets pages of at most the size it asks for. Once it has asked for more
pages than there are entries to show, one of them was empty, and then it has got each entry once, in order, with the
entry's name, type and inode. All this holds exactly when no page that it asks for outgrows the frame of a reply. -/
theorem readdir_enumerates_iff {root path : Path} {nodeId : UInt64} {entries : List Entry} {inodes : FsInodes}
    (few : entries.length < 2 ^ 64) (inv : Inv root inodes) (bound : inodes.byId nodeId = some path) {calls : List Call}
    (continues : Execution.Along (Reader.step root) (Reader.Continues nodeId path entries) (Reader.start inodes) calls) :
    Execution.Along (Reader.step root) (Reader.Fits entries) (Reader.start inodes) calls ↔
      ∃ s, exec (Reader.step root) (Reader.start inodes) calls = some s ∧
        s.pages.map PageRead.size = Reader.sizes calls ∧
        (∀ page ∈ s.pages, page.body.length ≤ page.size) ∧
        ((shownEntries entries 0).length < s.pages.length → ∃ page ∈ s.pages, page.body = []) ∧
        ((∃ page ∈ s.pages, page.body = []) →
          List.Forall₂ (Describes s.inodes path) s.records (shownEntries entries 0)) := by
  obtain ⟨needed, kept⟩ := Execution.progress_along_iff (Reader.Reading root nodeId path entries)
    (Reader.Reading.step few) Reader.Reading.fits_of_step (Reader.Reading.start entries inv bound) continues
  rw [needed]
  constructor
  · rintro ⟨s, run⟩
    have reading := kept s run
    refine ⟨s, run, Reader.sizes_eq run, reading.fits, reading.ends, ?_⟩
    rintro ⟨page, member, empty⟩
    obtain ⟨done, parts, listed⟩ := reading.listed
    rw [reading.complete page member empty, List.append_nil] at parts
    rw [parts]
    exact listed
  · rintro ⟨s, run, -⟩
    exact ⟨s, run⟩

def sampleEntries : List Entry := [⟨[0x62], .other⟩]

theorem sampleDirectory : Directory (sampleHost .other) sampleRoot sampleEntries where
  directory := rfl
  listing := rfl
  stat e member := by
    rw [List.mem_singleton.mp member]
    exact ⟨_, rfl, rfl⟩
  valid e member := by
    rw [List.mem_singleton.mp member]
    decide

-- The second page starts after the only record.
def sampleNext : Bytes :=
  List.replicate 8 0 ++ LittleEndian.encode 8 1 ++ LittleEndian.encode 4 4096 ++ List.replicate 4 0

def sampleCalls : List Call :=
  [.readdir (sampleRequest fuseReaddir 1 sampleReaddir) (sampleHost .other),
    .other (sampleRequest fuseLookup 1 [0x61, 0]) (sampleHost .other),
    .readdir (sampleRequest fuseReaddir 1 sampleNext) (sampleHost .other)]

theorem readdir_enumerates_iff_pages :
    ∃ s, exec (Reader.step sampleRoot) (Reader.start (FsInodes.new sampleRoot)) sampleCalls = some s ∧
      s.pages.map PageRead.body =
        [record 32 [(0, [2]), (8, [1]), (16, [1]), (20, [8]), (24, [0x62])], []] ∧
      List.Forall₂ (Describes s.inodes sampleRoot) s.records (shownEntries sampleEntries 0) := by
  have asks : Execution.Along (Reader.step sampleRoot) (Reader.Asks fuseRootId sampleRoot sampleEntries)
      (Reader.start (FsInodes.new sampleRoot)) sampleCalls :=
    @of_decide_eq_true _ (Execution.Along.decidable _ _) (by decide +kernel)
  have unchanged : ∀ call ∈ sampleCalls, Reader.Unchanged sampleRoot sampleEntries call := by
    simp only [sampleCalls, List.forall_mem_cons]
    exact ⟨sampleDirectory, trivial, sampleDirectory, fun _ member => absurd member List.not_mem_nil⟩
  have small : ∀ call ∈ sampleCalls, ∀ s, Reader.Fits sampleEntries s call := by
    simp only [sampleCalls, List.forall_mem_cons]
    exact ⟨fun _ => Reader.fits_of_size (by decide +kernel), fun _ => trivial,
      fun _ => Reader.fits_of_size (by decide +kernel), fun _ member => absurd member List.not_mem_nil⟩
  obtain ⟨s, run, -, -, -, complete⟩ := (readdir_enumerates_iff (by decide) (new_inv sampleRoot) rfl
    (asks.and (Execution.Along.of_forall unchanged _))).mp
    ((Execution.Along.of_forall small _).mono fun s _ fits => fits s)
  have bodies : (exec (Reader.step sampleRoot) (Reader.start (FsInodes.new sampleRoot)) sampleCalls).map
      (fun s => s.pages.map PageRead.body) =
        some [record 32 [(0, [2]), (8, [1]), (16, [1]), (20, [8]), (24, [0x62])], []] := by decide +kernel
  rw [run, Option.map_some, Option.some.injEq] at bodies
  have last : [] ∈ s.pages.map PageRead.body := by simp [bodies]
  exact ⟨s, run, bodies, complete (List.mem_map.mp last)⟩

theorem crowded_continues {count : Nat} (few : count < 2 ^ 32) :
    Reader.Continues fuseRootId sampleRoot (crowd count) (Reader.start (FsInodes.new sampleRoot))
      (.readdir (sampleRequest fuseReaddir 1 crowdedReaddir) (crowdedHost count)) := by
  have size : pageSize (sampleRequest fuseReaddir 1 crowdedReaddir) = 2 ^ 32 - 1 := by decide +kernel
  refine ⟨⟨by decide +kernel, by decide +kernel, by decide +kernel, by decide +kernel, by decide +kernel, ?_,
    crowd_room few⟩, crowdedDirectory count⟩
  intro e member
  obtain ⟨entry, within, name⟩ := entry_of_shown member
  rw [size, ← name, (crowd_records _ entry within).2]
  decide

theorem step_of_panic {root : Path} {s : Reader} {request : Bytes} {host : Host} {message : String}
    (panics : ((executeRequest root request).run host s.inodes).1 = .error (.panic message)) :
    Reader.step root s (.readdir request host) = none := by
  simp only [Reader.step]
  split
  · rename_i reply after answered
    rw [answered] at panics
    cases panics
  · rfl

/-- The first page of a directory with 89478485 entries does not arrive: its request panics. -/
theorem readdir_page_panics :
    ∃ (host : Host) (entries : List Entry), (entries.map Entry.name).Nodup ∧ entries.length = 89478485 ∧
      Reader.Continues fuseRootId sampleRoot entries (Reader.start (FsInodes.new sampleRoot))
        (.readdir (sampleRequest fuseReaddir 1 crowdedReaddir) host) ∧
      ((executeRequest sampleRoot (sampleRequest fuseReaddir 1 crowdedReaddir)).run host (FsInodes.new sampleRoot)).1 =
        .error (.panic "FUSE response fits u32") ∧
      exec (Reader.step sampleRoot) (Reader.start (FsInodes.new sampleRoot))
        [.readdir (sampleRequest fuseReaddir 1 crowdedReaddir) host] = none := by
  have panics := crowded_panics (show 48 * 89478485 = 2 ^ 32 - 16 by decide)
  refine ⟨crowdedHost 89478485, crowd 89478485, crowd_nodup (by decide), length_crowd _, crowded_continues (by decide),
    panics, ?_⟩
  rw [Execution.exec_singleton]
  exact step_of_panic panics

end Libvirtio.Fs
