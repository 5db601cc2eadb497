import Libvirtio.Fs.Agreement
import Libvirtio.Fs.Paging

namespace Libvirtio.Fs

open FsInodes

def headerOf (request : Bytes) : FuseInHeader :=
  ⟨UInt32.ofNat (field request 0 4), UInt32.ofNat (field request 4 4), UInt64.ofNat (field request 8 8),
    UInt64.ofNat (field request 16 8)⟩

def payloadOf (request : Bytes) : Bytes := request.drop fuseInHeaderSize

-- The error number is an `i32`.
def errorField (reply : Bytes) : Int := (BitVec.ofNat 32 (field reply 4 4)).toInt

structure WellFramed (request reply : Bytes) : Prop where
  long : fuseOutHeaderSize ≤ reply.length
  length : field reply 0 4 = reply.length
  unique : field reply 8 8 = field request 8 8
  error : errorField reply ≤ 0
  bare : errorField reply < 0 → reply.length = fuseOutHeaderSize
  read : (headerOf request).opcode = fuseRead →
    reply.length ≤ fuseOutHeaderSize + min (readSize (payloadOf request)).toNat fuseMaxRead
  readdir : (headerOf request).opcode = fuseReaddir →
    reply.length ≤ fuseOutHeaderSize + (readSize (payloadOf request)).toNat

def Silent (request : Bytes) : Prop :=
  (headerOf request).length.toNat = request.length ∧ (headerOf request).opcode ∈ silentOpcodes

def Framed (request : Bytes) (result : Except Fault Bytes) : Prop :=
  ∃ reply, result = .ok reply ∧ (reply = [] ↔ Silent request) ∧ (reply ≠ [] → WellFramed request reply)

/-- The request is a `FUSE_READDIR` with space for more than a reply can say, and the worker has panicked. -/
structure Outgrown (request : Bytes) (result : Except Fault Bytes) : Prop where
  panics : result = .error (.panic "FUSE response fits u32")
  length : (headerOf request).length.toNat = request.length
  opcode : (headerOf request).opcode = fuseReaddir
  size : 2 ^ 32 ≤ fuseOutHeaderSize + (readSize (payloadOf request)).toNat

theorem Framed.of_reply {request reply : Bytes} (speaks : ¬Silent request) (framed : WellFramed request reply) :
    Framed request (.ok reply) := by
  have nonempty : reply ≠ [] := by
    rintro rfl
    exact absurd framed.long (by decide)
  exact ⟨reply, rfl, iff_of_false nonempty speaks, fun _ => framed⟩

theorem unique_toNat (request : Bytes) : (headerOf request).unique.toNat = field request 8 8 :=
  (UInt64.toNat_ofNat').trans (Nat.mod_eq_of_lt (field_lt request 8 8))

theorem errorReply_framed (request : Bytes) {errno : Nat} (positive : 0 < errno) (small : errno < 2 ^ 31) :
    WellFramed request (errorReply (headerOf request).unique errno) := by
  have length : (errorReply (headerOf request).unique errno).length = fuseOutHeaderSize := by
    rw [errorReply_eq, length_frame, List.length_nil, Nat.add_zero]
  have error : errorField (errorReply (headerOf request).unique errno) = -errno := by
    rw [errorField, errorReply_eq, field_frame_error (by omega), BitVec.toInt_ofNat', Int.bmod_def]
    omega
  refine ⟨length.ge, ?_, ?_, by omega, fun _ => length, ?_, ?_⟩
  · rw [length, errorReply_eq, field_frame_length (by decide)]
  · rw [errorReply_eq, field_frame_unique, unique_toNat]
  · exact fun _ => length ▸ Nat.le_add_right _ _
  · exact fun _ => length ▸ Nat.le_add_right _ _

/-- The space that a handler may use: what a reader asks for, or the largest of the other records. -/
def bodyLimit (header : FuseInHeader) (payload : Bytes) : Nat :=
  if header.opcode = fuseRead then min (readSize payload).toNat fuseMaxRead
  else if header.opcode = fuseReaddir then (readSize payload).toNat
  else fuseEntryOutSize

def Bounded (limit : Nat) (result : Except DeviceError Bytes) : Prop := ∀ body, result = .ok body → body.length ≤ limit

theorem Bounded.error {limit : Nat} (e : DeviceError) : Bounded limit (.error e) := fun _ same => by cases same

theorem Bounded.ok {limit : Nat} {body : Bytes} (within : body.length ≤ limit) : Bounded limit (.ok body) := by
  intro other same
  cases same
  exact within

theorem initReply_bounded (payload : Bytes) : Bounded fuseEntryOutSize (initReply payload) := by
  unfold initReply
  split
  · exact Bounded.error _
  cases readU32 payload 0 with
  | error e => exact Bounded.error e
  | ok major =>
      change Bounded _ (ite _ _ _)
      split
      · exact Bounded.error _
      · apply Bounded.ok
        rw [length_record (by simp [fuseInitOutSize])]
        decide

theorem statfsReply_bounded : Bounded fuseEntryOutSize (.ok statfsReply) := by
  apply Bounded.ok
  rw [statfsReply, length_record (by simp [fuseStatfsOutSize])]
  decide

theorem lookupReply_bounded (root : Path) (parent : UInt64) (payload : Bytes) :
    (lookupReply root parent payload).Always (Bounded fuseEntryOutSize) := by
  refine Program.Always.bind Bounded.error fun name => Program.Always.atomic fun host inodes body replied => ?_
  obtain ⟨-, id, metadata, -, -, -, -, rfl⟩ := lookupLocked_eq_ok (Prod.ext replied rfl)
  rw [entryOut, length_record (entryOut_layout _ _).inside]

theorem regularReply_bounded (nodeId : UInt64) {reply : Metadata → Bytes}
    (sized : ∀ metadata, (reply metadata).length ≤ fuseEntryOutSize) :
    (Program.atomic fun host => do
      let metadata ← regularMetadata host nodeId
      pure (reply metadata) : FsM Bytes).Always (Bounded fuseEntryOutSize) := by
  refine Program.Always.atomic fun host inodes => ?_
  rw [Fallible.bind_apply]
  rcases regularMetadata host nodeId inodes with ⟨e | metadata, after⟩
  · exact Bounded.error e
  · exact Bounded.ok (sized metadata)

theorem getattrReply_bounded (nodeId : UInt64) : (getattrReply nodeId).Always (Bounded fuseEntryOutSize) := by
  refine regularReply_bounded nodeId fun metadata => ?_
  rw [length_record (attrOut_layout _ _).inside]
  decide

theorem openReply_bounded (nodeId : UInt64) : (openReply nodeId).Always (Bounded fuseEntryOutSize) := by
  refine regularReply_bounded nodeId fun _ => ?_
  rw [length_record (by simp [fuseOpenOutSize])]
  decide

theorem readFile_bounded (host : Host) (path : Path) (offset : UInt64) (size : Nat) :
    Bounded size (readFile host path offset size) := by
  intro body read
  unfold readFile at read
  cases opened : host.openFile path with
  | error e =>
      rw [opened] at read
      cases read
  | ok file =>
      rw [opened] at read
      change ioResult (file.seek offset) >>= _ = _ at read
      cases sought : file.seek offset with
      | error e =>
          rw [sought] at read
          cases read
      | ok _ =>
          rw [sought] at read
          exact file.bounded offset size body (ioResult_eq_ok.mp read)

theorem readReply_bounded (nodeId : UInt64) (payload : Bytes) :
    (readReply nodeId payload).Always (Bounded (min (readSize payload).toNat fuseMaxRead)) := by
  by_cases short : payload.length < 24
  · rw [readReply, if_pos short]
    exact Bounded.error _
  rw [readReply_eq (Nat.le_of_not_lt short)]
  refine Program.Always.bind Bounded.error fun path => Program.Always.ask fun host => ?_
  exact readFile_bounded host path _ _

theorem readdirEntries_bounded (path : Path) (offset : UInt64) {maximum : Nat} (names : List (Except IoError Bytes))
    (index : Nat) {entries : Bytes} (fits : entries.length ≤ maximum) :
    (readdirEntries path offset maximum names index entries).Always (Bounded maximum) := by
  induction names generalizing index entries with
  | nil => exact Bounded.ok fits
  | cons first rest ih =>
      cases first with
      | error e => exact Bounded.error _
      | ok name =>
          unfold readdirEntries
          split
          · exact ih _ fits
          refine Program.Always.bind Bounded.error fun metadata => ?_
          split
          · exact ih _ fits
          split
          · exact Bounded.error _
          refine Program.Always.bind Bounded.error fun id => Program.Always.bind Bounded.error fun entry => ?_
          split
          · exact Bounded.ok fits
          · rename_i room
            refine ih _ ?_
            rw [List.length_append]
            omega

theorem readdirReply_bounded (root : Path) (nodeId : UInt64) (payload : Bytes) :
    (readdirReply root nodeId payload).Always (Bounded (readSize payload).toNat) := by
  by_cases short : payload.length < 24
  · rw [readdirReply, if_pos short]
    exact Bounded.error _
  rw [readdirReply_eq (Nat.le_of_not_lt short)]
  refine Program.Always.bind Bounded.error fun path => Program.Always.bind Bounded.error fun names => ?_
  exact readdirEntries_bounded path _ names 0 (Nat.zero_le _)

theorem handler_bounded {root : Path} {header : FuseInHeader} {payload : Bytes} {program : FsM Bytes}
    (dispatched : handler root header payload = some program) :
    program.Always (Bounded (bodyLimit header payload)) := by
  have fixed (read : header.opcode ≠ fuseRead) (readdir : header.opcode ≠ fuseReaddir) :
      bodyLimit header payload = fuseEntryOutSize := by
    rw [bodyLimit, if_neg read, if_neg readdir]
  unfold handler at dispatched
  split at dispatched
  · rename_i opcode
    cases dispatched
    rw [fixed (by rw [opcode]; decide) (by rw [opcode]; decide)]
    exact Program.Always.ofExcept (initReply_bounded payload)
  split at dispatched
  · rename_i opcode
    cases dispatched
    rw [fixed (by rw [opcode]; decide) (by rw [opcode]; decide)]
    exact lookupReply_bounded root header.nodeId payload
  split at dispatched
  · rename_i opcode
    cases dispatched
    rw [fixed (by rw [opcode]; decide) (by rw [opcode]; decide)]
    exact getattrReply_bounded header.nodeId
  split at dispatched
  · rename_i opcode
    cases dispatched
    rw [fixed (by rcases opcode with opcode | opcode <;> rw [opcode] <;> decide)
      (by rcases opcode with opcode | opcode <;> rw [opcode] <;> decide)]
    exact openReply_bounded header.nodeId
  split at dispatched
  · rename_i opcode
    cases dispatched
    rw [bodyLimit, if_pos opcode]
    exact readReply_bounded header.nodeId payload
  rename_i read
  split at dispatched
  · rename_i opcode
    cases dispatched
    rw [bodyLimit, if_neg read, if_pos opcode]
    exact readdirReply_bounded root header.nodeId payload
  rename_i readdir
  split at dispatched
  · cases dispatched
    rw [fixed read readdir]
    exact Program.Always.ofExcept statfsReply_bounded
  · cases dispatched

theorem frame_framed {request body : Bytes} (short : fuseOutHeaderSize + body.length < 2 ^ 32)
    (within : body.length ≤ bodyLimit (headerOf request) (payloadOf request)) :
    WellFramed request (frame (fuseOutHeaderSize + body.length) 0 (headerOf request).unique body) := by
  have error : errorField (frame (fuseOutHeaderSize + body.length) 0 (headerOf request).unique body) = 0 := by
    rw [errorField, field_frame_error (by decide)]
    rfl
  refine ⟨?_, ?_, ?_, error.le, fun negative => by omega, ?_, ?_⟩
  · rw [length_frame]
    exact Nat.le_add_right _ _
  · rw [field_frame_length short, length_frame]
  · rw [field_frame_unique, unique_toNat]
  · intro read
    rw [bodyLimit, if_pos read] at within
    rw [length_frame]
    exact Nat.add_le_add_left within _
  · intro readdir
    rw [bodyLimit, if_neg (by rw [readdir]; decide), if_pos readdir] at within
    rw [length_frame]
    exact Nat.add_le_add_left within _

theorem finishReply_framed {request : Bytes} {result : Except DeviceError Bytes} (speaks : ¬Silent request)
    (length : (headerOf request).length.toNat = request.length)
    (bounded : Bounded (bodyLimit (headerOf request) (payloadOf request)) result) :
    Framed request (finishReply (headerOf request).unique result) ∨
      Outgrown request (finishReply (headerOf request).unique result) := by
  cases result with
  | error e =>
      obtain ⟨positive, small⟩ := fuseErrno_range e
      exact Or.inl (Framed.of_reply speaks (errorReply_framed request positive small))
  | ok body =>
      have within := bounded body rfl
      change Framed request (successReply _ body) ∨ Outgrown request (successReply _ body)
      by_cases short : fuseOutHeaderSize + body.length < 2 ^ 32
      · rw [successReply_eq_ok.mpr ⟨short, rfl⟩]
        exact Or.inl (Framed.of_reply speaks (frame_framed short within))
      · have size := (readSize (payloadOf request)).toNat_lt
        unfold bodyLimit at within
        unfold fuseOutHeaderSize at short
        split at within
        · unfold fuseMaxRead at within
          omega
        split at within
        · rename_i opcode
          refine Or.inr ⟨successReply_eq_panic.mpr ?_, length, opcode, ?_⟩
          · unfold fuseOutHeaderSize
            omega
          · unfold fuseOutHeaderSize
            omega
        · unfold fuseEntryOutSize at within
          omega

/-- Every reply is well framed, whatever the host does between the steps and however other requests change the table,
unless a listing has outgrown its frame. -/
theorem executeRequest_framed (root : Path) {request : Bytes} (long : fuseInHeaderSize ≤ request.length) :
    (executeRequest root request).Always fun result => Framed request result ∨ Outgrown request result := by
  have parsed : FuseInHeader.parse request = .ok (headerOf request) := FuseInHeader.parse_eq long
  unfold executeRequest
  rw [parsed]
  simp only
  split
  · rename_i differs
    refine Or.inl (Framed.of_reply ?_ (errorReply_framed request (by decide) (by decide)))
    exact fun silent => differs silent.1
  rename_i same
  rw [not_not] at same
  split
  · rename_i silent
    exact Or.inl ⟨[], rfl, iff_of_true rfl ⟨same, silent⟩, fun nonempty => absurd rfl nonempty⟩
  rename_i speaks
  have answered : ¬Silent request := fun silent => speaks silent.2
  split
  · exact Or.inl (Framed.of_reply answered (errorReply_framed request (by decide) (by decide)))
  · rename_i program dispatched
    refine (handler_bounded dispatched).bind_attempt fun result bounded => ?_
    exact finishReply_framed answered same bounded

/-- The bytes of the records that fit, up to the first that does not. -/
def pageLength (maximum : Nat) : List Listed → Nat → Nat
  | [], used => used
  | e :: rest, used =>
      if used + direntLength e.name ≤ maximum then pageLength maximum rest (used + direntLength e.name) else used

def recordsLength (entries : List Listed) : Nat := (entries.map fun e => direntLength e.name).sum

theorem pageLength_append {maximum used : Nat} {shown hidden : List Listed}
    (fits : used + recordsLength shown ≤ maximum)
    (full : ∀ e ∈ hidden.head?, maximum < used + recordsLength shown + direntLength e.name) :
    pageLength maximum (shown ++ hidden) used = used + recordsLength shown := by
  induction shown generalizing used with
  | nil =>
      cases hidden with
      | nil => rfl
      | cons e rest => exact if_neg (Nat.not_le_of_lt (full e rfl))
  | cons e rest ih =>
      have total : recordsLength (e :: rest) = direntLength e.name + recordsLength rest := List.sum_cons
      rw [total, ← Nat.add_assoc] at fits full
      rw [List.cons_append, pageLength, if_pos (by omega), ih fits full, total, Nat.add_assoc]

theorem pageLength_le {maximum used : Nat} (entries : List Listed) (fits : used ≤ maximum) :
    pageLength maximum entries used ≤ maximum := by
  induction entries generalizing used with
  | nil => exact fits
  | cons e rest ih =>
      unfold pageLength
      split
      · rename_i room
        exact ih room
      · exact fits

theorem length_records {inodes : FsInodes} {path : Path} {records : List Dirent} {shown : List Listed}
    (described : List.Forall₂ (Describes inodes path) records shown) :
    (records.flatMap Dirent.bytes).length = recordsLength shown := by
  induction described with
  | nil => rfl
  | @cons r e records shown describes _ ih =>
      rw [List.flatMap_cons, List.length_append, ih, r.length_bytes, describes.name]
      exact List.sum_cons.symm

theorem Page.length {inodes : FsInodes} {path : Path} {maximum : Nat} {entries : List Listed} {body : Bytes}
    (page : Page inodes path maximum entries body) : body.length = pageLength maximum entries 0 := by
  obtain ⟨records, shown, hidden, rfl, described, rfl, fits, full⟩ := page
  rw [length_records described] at fits full ⊢
  rw [pageLength_append (by omega) (by simpa using full), Nat.zero_add]

section
variable {root : Path} {host : Host} {inodes : FsInodes}

/-- The request lists a directory with more records than a reply has space for. -/
def Overlong (root : Path) (host : Host) (inodes : FsInodes) (request : Bytes) : Prop :=
  (headerOf request).length.toNat = request.length ∧ (headerOf request).opcode = fuseReaddir ∧
  24 ≤ (payloadOf request).length ∧
  ∃ path names, inodes.byId (headerOf request).nodeId = some path ∧ listDirectory root path host = .ok names ∧
    Listable host path (readOffset (payloadOf request)) (readSize (payloadOf request)).toNat inodes names 0 0 ∧
    2 ^ 32 ≤ fuseOutHeaderSize + pageLength (readSize (payloadOf request)).toNat
      (remaining (readOffset (payloadOf request)).toNat (visible host path names 0)) 0

theorem readdirReply_length {nodeId : UInt64} {payload body : Bytes} {path : Path}
    {names : List (Except IoError Bytes)} (inv : Inv root inodes) (bound : inodes.byId nodeId = some path)
    (listed : listDirectory root path host = .ok names)
    (replied : ((readdirReply root nodeId payload).run host inodes).1 = .ok body) :
    body.length = pageLength (readSize payload).toNat
      (remaining (readOffset payload).toNat (visible host path names 0)) 0 := by
  have keeps : KeepsTable root (fun _ => True) (readdirReply root nodeId payload) := readdirReply_keeps nodeId payload
  obtain ⟨-, extended⟩ := keeps.run (h := host) Extends.refl Extends.trans inv
  obtain ⟨other, found, same, listing, page⟩ := readdirReply_lists inv replied
  obtain rfl : other = path := Option.some.inj (same.symm.trans (extended _ _ bound))
  cases (listDirectory_eq_ok.mp listed).2.2.symm.trans listing
  exact page.length

theorem executeRequest_readdir {request : Bytes} (long : fuseInHeaderSize ≤ request.length)
    (length : (headerOf request).length.toNat = request.length) (opcode : (headerOf request).opcode = fuseReaddir) :
    (executeRequest root request).run host inodes =
      (finishReply (headerOf request).unique
        ((readdirReply root (headerOf request).nodeId (payloadOf request)).run host inodes).1,
      ((readdirReply root (headerOf request).nodeId (payloadOf request)).run host inodes).2) := by
  have speaks : (headerOf request).opcode ∉ silentOpcodes := by
    rw [opcode]
    decide
  have dispatched : handler root (headerOf request) (payloadOf request) =
      some (readdirReply root (headerOf request).nodeId (payloadOf request)) := by
    rw [handler, opcode]
    rfl
  exact executeRequest_run (FuseInHeader.parse_eq long) length speaks dispatched

theorem finishReply_eq_panic {unique : UInt64} {result : Except DeviceError Bytes} :
    finishReply unique result = .error (.panic "FUSE response fits u32") ↔
      ∃ body, result = .ok body ∧ 2 ^ 32 ≤ fuseOutHeaderSize + body.length ∧
        fuseOutHeaderSize + body.length < 2 ^ 64 := by
  cases result with
  | error e => simp [finishReply]
  | ok body => simp only [finishReply, successReply_eq_panic, Except.ok.injEq, exists_eq_left']

theorem panics_iff_overlong {request : Bytes} (long : fuseInHeaderSize ≤ request.length) (inv : Inv root inodes) :
    ((executeRequest root request).run host inodes).1 = .error (.panic "FUSE response fits u32") ↔
      Overlong root host inodes request := by
  constructor
  · intro panics
    rcases (executeRequest_framed root long).run host inodes with ⟨reply, answered, -⟩ | outgrown
    · cases answered.symm.trans panics
    · rw [executeRequest_readdir long outgrown.length outgrown.opcode] at panics
      obtain ⟨body, replied, large, -⟩ := finishReply_eq_panic.mp panics
      obtain ⟨whole, path, names, bound, listed, listable⟩ := readdirReply_ok_iff.mp ⟨body, replied⟩
      rw [readdirReply_length inv bound listed replied] at large
      exact ⟨outgrown.length, outgrown.opcode, whole, path, names, bound, listed, listable, large⟩
  · rintro ⟨length, opcode, whole, path, names, bound, listed, listable, large⟩
    obtain ⟨body, replied⟩ := readdirReply_ok_iff.mpr ⟨whole, path, names, bound, listed, listable⟩
    have size := (readSize (payloadOf request)).toNat_lt
    have within := pageLength_le (remaining (readOffset (payloadOf request)).toNat (visible host path names 0))
      (Nat.zero_le (readSize (payloadOf request)).toNat)
    rw [← readdirReply_length inv bound listed replied] at large within
    rw [executeRequest_readdir long length opcode, finishReply_eq_panic]
    refine ⟨body, replied, large, ?_⟩
    unfold fuseOutHeaderSize
    omega

end

/-- A request is answered with a well-framed reply unless it lists a directory whose records do not fit into a frame.
What other requests and the host do between its steps cannot break a frame in any other way. -/
theorem replies_framed_iff (root : Path) (request : Bytes) (long : 40 ≤ request.length) :
    (∀ inodes, Inv root inodes → ∀ host, Framed request ((executeRequest root request).run host inodes).1 ↔
      ¬Overlong root host inodes request) ∧
    (executeRequest root request).Always fun result => Framed request result ∨ Outgrown request result := by
  refine ⟨?_, executeRequest_framed root long⟩
  intro inodes inv host
  rw [← panics_iff_overlong long inv]
  constructor
  · rintro ⟨reply, answered, -⟩ panics
    cases answered.symm.trans panics
  · intro alive
    rcases (executeRequest_framed root long).run host inodes with framed | outgrown
    · exact framed
    · exact absurd outgrown.panics alive

theorem replies_framed_iff_readdir :
    40 ≤ (sampleRequest fuseReaddir 1 sampleReaddir).length ∧
      Framed (sampleRequest fuseReaddir 1 sampleReaddir) ((executeRequest sampleRoot
        (sampleRequest fuseReaddir 1 sampleReaddir)).run (sampleHost .other) (FsInodes.new sampleRoot)).1 := by
  have long : 40 ≤ (sampleRequest fuseReaddir 1 sampleReaddir).length := by decide
  refine ⟨long, ((replies_framed_iff sampleRoot _ long).1 _ (new_inv sampleRoot) (sampleHost .other)).mpr ?_⟩
  rintro ⟨-, -, -, path, names, -, -, -, large⟩
  have size : (readSize (payloadOf (sampleRequest fuseReaddir 1 sampleReaddir))).toNat = 4096 := by decide +kernel
  have within := pageLength_le (remaining (readOffset (payloadOf (sampleRequest fuseReaddir 1 sampleReaddir))).toNat
    (visible (sampleHost .other) path names 0)) (Nat.zero_le 4096)
  rw [size] at large
  unfold fuseOutHeaderSize at large
  omega

-- A name of lower-case letters, one for each digit.
def letters : Nat → Nat → Bytes
  | 0, _ => []
  | width + 1, k => (0x61 + UInt8.ofNat (k % 16)) :: letters width (k / 16)

theorem length_letters (width k : Nat) : (letters width k).length = width := by
  induction width generalizing k with
  | zero => rfl
  | succ width ih => rw [letters, List.length_cons, ih]

theorem letter_toNat (k : Nat) : (0x61 + UInt8.ofNat (k % 16)).toNat = 0x61 + k % 16 := by
  rw [UInt8.toNat_add, UInt8.toNat_ofNat']
  change (0x61 + k % 16 % 256) % 256 = _
  omega

theorem mem_letters {width k : Nat} {b : UInt8} (member : b ∈ letters width k) : 0x61 ≤ b.toNat ∧ b.toNat < 0x80 := by
  induction width generalizing k with
  | zero => exact absurd member List.not_mem_nil
  | succ width ih =>
      rcases List.mem_cons.mp member with rfl | later
      · rw [letter_toNat]
        omega
      · exact ih later

theorem letters_injective {width j k : Nat} (left : j < 16 ^ width) (right : k < 16 ^ width)
    (same : letters width j = letters width k) : j = k := by
  induction width generalizing j k with
  | zero => omega
  | succ width ih =>
      obtain ⟨heads, tails⟩ := List.cons.inj same
      have digits := congrArg UInt8.toNat heads
      rw [letter_toNat, letter_toNat] at digits
      have quotients := ih (Nat.div_lt_of_lt_mul (by rwa [← Nat.pow_succ'])) (Nat.div_lt_of_lt_mul (by rwa [← Nat.pow_succ']))
        tails
      omega

theorem plain_letters (width k : Nat) : Plain (letters (width + 3) k) := by
  have length := length_letters (width + 3) k
  refine ⟨?_, ?_, ?_, fun member => absurd (mem_letters member).1 (by decide)⟩
  all_goals
    intro same
    rw [same] at length
    simp [dot, dotDot] at length

theorem utf8Valid_ascii {name : Bytes} (ascii : ∀ b ∈ name, b.toNat < 0x80) : utf8Valid name = true := by
  induction name with
  | nil => rfl
  | cons b rest ih =>
      obtain ⟨first, others⟩ := List.forall_mem_cons.mp ascii
      unfold utf8Valid
      rw [if_pos (UInt8.lt_iff_toNat_lt.mpr first)]
      exact ih others

def crowd (count : Nat) : List Entry := (List.range count).map fun k => ⟨letters 24 k, .other⟩

def crowdedHost (count : Nat) : Host :=
  { sampleHost .other with
    readDir := fun _ => .ok ((crowd count).map fun e => .ok e.name)
    plain := fun _ entries read name member => by
      cases read
      simp only [crowd, List.map_map, List.mem_map, Function.comp_apply, Except.ok.injEq] at member
      obtain ⟨k, -, rfl⟩ := member
      exact plain_letters 21 k }

def crowdedReaddir : Bytes := List.replicate 16 0 ++ LittleEndian.encode 4 0xffffffff ++ List.replicate 4 0

theorem crowdedDirectory (count : Nat) : Directory (crowdedHost count) sampleRoot (crowd count) where
  directory := rfl
  listing := rfl
  stat e member := by
    obtain ⟨k, -, rfl⟩ := List.mem_map.mp member
    exact ⟨_, rfl, rfl⟩
  valid e member := by
    obtain ⟨k, -, rfl⟩ := List.mem_map.mp member
    exact utf8Valid_ascii fun b letter => (mem_letters letter).2

theorem recordsLength_shown {entries : List Entry} {size : Nat}
    (same : ∀ e ∈ entries, e.fileType ≠ .symlink ∧ direntLength e.name = size) (start : Nat) :
    recordsLength (shownEntries entries start) = size * entries.length := by
  induction entries generalizing start with
  | nil => rfl
  | cons e rest ih =>
      obtain ⟨⟨regular, length⟩, others⟩ := List.forall_mem_cons.mp same
      have here : Entry.shown? (e, start) = some ⟨start, e.name, e.fileType⟩ := if_neg regular
      have shown : shownEntries (e :: rest) start = ⟨start, e.name, e.fileType⟩ :: shownEntries rest (start + 1) := by
        rw [shownEntries, List.zipIdx_cons, List.filterMap_cons_some here, shownEntries]
      rw [shown, recordsLength, List.map_cons, List.sum_cons, length, List.length_cons, Nat.mul_succ, Nat.add_comm]
      exact congrArg (· + size) (ih others (start + 1))

theorem length_crowd (count : Nat) : (crowd count).length = count := by rw [crowd, List.length_map, List.length_range]

theorem crowd_records (count : Nat) : ∀ e ∈ crowd count, e.fileType ≠ .symlink ∧ direntLength e.name = 48 := by
  intro e member
  obtain ⟨k, -, rfl⟩ := List.mem_map.mp member
  rw [direntLength, length_letters]
  exact ⟨by simp, rfl⟩

theorem crowd_room {count : Nat} (few : count < 2 ^ 32) : Room (FsInodes.new sampleRoot) sampleRoot (crowd count) := by
  have counted : unbound (FsInodes.new sampleRoot) sampleRoot (crowd count) ≤ (crowd count).length :=
    List.countP_le_length
  have length := length_crowd count
  have next : (FsInodes.new sampleRoot).next.toNat = 2 := rfl
  unfold Room
  omega

theorem crowd_nodup {count : Nat} (few : count < 2 ^ 32) : ((crowd count).map Entry.name).Nodup := by
  have names : (crowd count).map Entry.name = (List.range count).map (letters 24) := List.map_map
  rw [names]
  refine List.nodup_range.map_on fun j left k right same => ?_
  have room : 2 ^ 32 < 16 ^ 24 := by decide
  rw [List.mem_range] at left right
  exact letters_injective (by omega) (by omega) same

theorem crowded_overlong {count : Nat} (full : 48 * count = 2 ^ 32 - 16) :
    Overlong sampleRoot (crowdedHost count) (FsInodes.new sampleRoot) (sampleRequest fuseReaddir 1 crowdedReaddir) := by
  have names := crowd_records count
  have directory := crowdedDirectory count
  have size : (readSize (payloadOf (sampleRequest fuseReaddir 1 crowdedReaddir))).toNat = 2 ^ 32 - 1 := by decide +kernel
  have offset : (readOffset (payloadOf (sampleRequest fuseReaddir 1 crowdedReaddir))).toNat = 0 := by decide +kernel
  have short : ∀ e ∈ crowd count, e.fileType ≠ .symlink → e.name.length < 2 ^ 32 := by
    intro e member _
    have := length_lt_direntLength e.name
    have := (names e member).2
    omega
  have all : remaining 0 (shownEntries (crowd count) 0) = shownEntries (crowd count) 0 :=
    List.filter_eq_self.mpr fun _ _ => by simp
  have total : recordsLength (shownEntries (crowd count) 0) = 2 ^ 32 - 16 := by
    rw [recordsLength_shown names, length_crowd, full]
  refine ⟨by decide +kernel, by decide +kernel, by decide +kernel, sampleRoot, (crowd count).map fun e => .ok e.name,
    by decide +kernel, listDirectory_eq_ok.mpr ⟨by decide, directory.directory, directory.listing⟩,
    listable_of_room directory.stat directory.valid short (crowd_room (by omega)) 0 0, ?_⟩
  rw [visible_eq_shownEntries 0 directory.stat, size, offset, all, ← List.append_nil (shownEntries _ _),
    pageLength_append (by omega) (by simp), total]
  decide

theorem crowded_panics {count : Nat} (full : 48 * count = 2 ^ 32 - 16) :
    ((executeRequest sampleRoot (sampleRequest fuseReaddir 1 crowdedReaddir)).run (crowdedHost count)
      (FsInodes.new sampleRoot)).1 = .error (.panic "FUSE response fits u32") :=
  (panics_iff_overlong (by decide) (new_inv sampleRoot)).mpr (crowded_overlong full)

/-- A directory of 89478485 entries has 48 bytes for each of them on one page, and the frame adds 16. -/
theorem readdir_reply_panics :
    ∃ (host : Host) (names : List Bytes), names.Nodup ∧ names.length = 89478485 ∧
      host.readDir sampleRoot = .ok (names.map .ok) ∧
      ((executeRequest sampleRoot (sampleRequest fuseReaddir 1 crowdedReaddir)).run host (FsInodes.new sampleRoot)).1 =
        .error (.panic "FUSE response fits u32") := by
  refine ⟨crowdedHost 89478485, (crowd 89478485).map Entry.name, crowd_nodup (by decide), ?_, ?_,
    crowded_panics (by decide)⟩
  · rw [List.length_map, length_crowd]
  · rw [(crowdedDirectory 89478485).listing, List.map_map]
    rfl

end Libvirtio.Fs
