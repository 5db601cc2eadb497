import Libvirtio.Fs.Request

namespace Libvirtio.Fs

theorem length_patch {bytes : Bytes} {field : Nat × Bytes} (inside : field.1 + field.2.length ≤ bytes.length) :
    (patch bytes field).length = bytes.length := by
  simp only [patch, List.length_append, List.length_take, List.length_drop]
  omega

theorem length_record {size : Nat} {fields : List (Nat × Bytes)}
    (inside : ∀ field ∈ fields, field.1 + field.2.length ≤ size) : (record size fields).length = size := by
  have filled (bytes : Bytes) (sized : bytes.length = size) : (fields.foldl patch bytes).length = size := by
    induction fields generalizing bytes with
    | nil => exact sized
    | cons first rest ih =>
        obtain ⟨here, others⟩ := List.forall_mem_cons.mp inside
        exact ih others _ ((length_patch (sized ▸ here)).trans sized)
  exact filled _ List.length_replicate

def slice (bytes : Bytes) (offset width : Nat) : Bytes := (bytes.drop offset).take width

theorem getElem?_slice (bytes : Bytes) (offset width i : Nat) :
    (slice bytes offset width)[i]? = if i < width then bytes[offset + i]? else none := by
  rw [slice, List.getElem?_take, List.getElem?_drop]

theorem getElem?_patch {bytes content : Bytes} {offset : Nat} (inside : offset + content.length ≤ bytes.length)
    (i : Nat) : (patch bytes (offset, content))[i]? =
      if offset ≤ i ∧ i < offset + content.length then content[i - offset]? else bytes[i]? := by
  have before : (bytes.take offset).length = offset := List.length_take_of_le (by omega)
  simp only [patch, List.append_assoc]
  rcases Nat.lt_or_ge i offset with left | right
  · rw [if_neg (by omega), List.getElem?_append_left (by omega), List.getElem?_take, if_pos left]
  rw [List.getElem?_append_right (by omega), before]
  by_cases within : i < offset + content.length
  · rw [if_pos ⟨right, within⟩, List.getElem?_append_left (by omega)]
  · rw [if_neg (by omega), List.getElem?_append_right (by omega), List.getElem?_drop]
    congr 1
    omega

def Apart (first second : Nat × Bytes) : Prop :=
  first.1 + first.2.length ≤ second.1 ∨ second.1 + second.2.length ≤ first.1

theorem slice_patch_self {bytes : Bytes} {field : Nat × Bytes} (inside : field.1 + field.2.length ≤ bytes.length) :
    slice (patch bytes field) field.1 field.2.length = field.2 := by
  apply List.ext_getElem?
  intro i
  rw [getElem?_slice, getElem?_patch inside]
  by_cases within : i < field.2.length
  · rw [if_pos within, if_pos (by omega), Nat.add_sub_cancel_left]
  · rw [if_neg within, List.getElem?_eq_none (by omega)]

theorem slice_patch_apart {bytes : Bytes} {field other : Nat × Bytes}
    (inside : field.1 + field.2.length ≤ bytes.length) (apart : Apart other field) :
    slice (patch bytes field) other.1 other.2.length = slice bytes other.1 other.2.length := by
  apply List.ext_getElem?
  intro i
  rw [getElem?_slice, getElem?_slice, getElem?_patch inside]
  by_cases within : i < other.2.length
  · unfold Apart at apart
    rw [if_pos within, if_pos within, if_neg (by omega)]
  · rw [if_neg within, if_neg within]

/-- The fields lie inside the record and do not overlap. -/
structure Layout (size : Nat) (fields : List (Nat × Bytes)) : Prop where
  inside : ∀ field ∈ fields, field.1 + field.2.length ≤ size
  apart : fields.Pairwise Apart

theorem slice_foldl_apart {size : Nat} {field : Nat × Bytes} {later : List (Nat × Bytes)}
    (inside : ∀ other ∈ later, other.1 + other.2.length ≤ size) (apart : ∀ other ∈ later, Apart field other)
    {bytes : Bytes} (sized : bytes.length = size) :
    slice (later.foldl patch bytes) field.1 field.2.length = slice bytes field.1 field.2.length := by
  induction later generalizing bytes with
  | nil => rfl
  | cons other rest ih =>
      obtain ⟨fits, others⟩ := List.forall_mem_cons.mp inside
      obtain ⟨here, elsewhere⟩ := List.forall_mem_cons.mp apart
      rw [List.foldl_cons, ih others elsewhere ((length_patch (sized ▸ fits)).trans sized),
        slice_patch_apart (sized ▸ fits) here]

theorem slice_foldl {size : Nat} {fields : List (Nat × Bytes)} (layout : Layout size fields) {field : Nat × Bytes}
    (member : field ∈ fields) {bytes : Bytes} (sized : bytes.length = size) :
    slice (fields.foldl patch bytes) field.1 field.2.length = field.2 := by
  induction fields generalizing bytes with
  | nil => exact absurd member List.not_mem_nil
  | cons first rest ih =>
      obtain ⟨fits, others⟩ := List.forall_mem_cons.mp layout.inside
      obtain ⟨disjoint, separate⟩ := List.pairwise_cons.mp layout.apart
      have patched := (length_patch (sized ▸ fits)).trans sized
      rw [List.foldl_cons]
      rcases List.mem_cons.mp member with rfl | later
      · rw [slice_foldl_apart others disjoint patched, slice_patch_self (sized ▸ fits)]
      · exact ih ⟨others, separate⟩ later patched

theorem slice_record {size : Nat} {fields : List (Nat × Bytes)} (layout : Layout size fields) {field : Nat × Bytes}
    (member : field ∈ fields) : slice (record size fields) field.1 field.2.length = field.2 :=
  slice_foldl layout member List.length_replicate

/-- What no field covers stays zero. -/
theorem slice_record_apart {size : Nat} {fields : List (Nat × Bytes)} (layout : Layout size fields) {offset width : Nat}
    (fits : offset + width ≤ size) (apart : ∀ other ∈ fields, Apart (offset, List.replicate width 0) other) :
    slice (record size fields) offset width = List.replicate width 0 := by
  have kept := slice_foldl_apart layout.inside apart (List.length_replicate (n := size) (a := 0))
  simp only [List.length_replicate] at kept
  rw [record, kept, slice, List.drop_replicate, List.take_replicate, Nat.min_eq_left (by omega)]

-- Fields written one after the other, from the start.
theorem patch_next {done content : Bytes} {offset room : Nat} (here : done.length = offset) :
    patch (done ++ List.replicate room 0) (offset, content) =
      done ++ content ++ List.replicate (room - content.length) 0 := by
  subst here
  simp only [patch, List.take_left', List.drop_append, List.drop_replicate]
  simp

theorem field_append {before after : Bytes} {offset width value : Nat} (here : before.length = offset)
    (fits : value < 256 ^ width) :
    field (before ++ (LittleEndian.encode width value ++ after)) offset width = value := by
  subst here
  rw [field, List.drop_left, List.take_left' (LittleEndian.length_encode _ _),
    LittleEndian.decode_encode_of_lt fits]

theorem field_record {size : Nat} {fields : List (Nat × Bytes)} (layout : Layout size fields)
    {offset width value : Nat} (member : (offset, LittleEndian.encode width value) ∈ fields)
    (fits : value < 256 ^ width) : field (record size fields) offset width = value := by
  have read := slice_record layout member
  simp only [LittleEndian.length_encode] at read
  exact (congrArg LittleEndian.decode read).trans (LittleEndian.decode_encode_of_lt fits)

theorem field_record_apart {size : Nat} {fields : List (Nat × Bytes)} (layout : Layout size fields) {offset width : Nat}
    (fits : offset + width ≤ size) (apart : ∀ other ∈ fields, Apart (offset, List.replicate width 0) other) :
    field (record size fields) offset width = 0 :=
  (congrArg LittleEndian.decode (slice_record_apart layout fits apart)).trans (LittleEndian.decode_replicate_zero width)

def u64At (bytes : Bytes) (offset : Nat) : UInt64 := UInt64.ofNat (field bytes offset 8)

def u32At (bytes : Bytes) (offset : Nat) : UInt32 := UInt32.ofNat (field bytes offset 4)

section
variable {size : Nat} {fields : List (Nat × Bytes)} (layout : Layout size fields) {offset : Nat}
include layout

theorem u64At_record {value : UInt64} (member : (offset, LittleEndian.encode 8 value.toNat) ∈ fields) :
    u64At (record size fields) offset = value := by
  rw [u64At, field_record layout member value.toNat_lt, UInt64.ofNat_toNat]

theorem u32At_record {value : Nat} (member : (offset, LittleEndian.encode 4 value) ∈ fields) (fits : value < 2 ^ 32) :
    u32At (record size fields) offset = UInt32.ofNat value := by
  rw [u32At, field_record layout member fits]

theorem u64At_record_apart (fits : offset + 8 ≤ size)
    (apart : ∀ other ∈ fields, Apart (offset, List.replicate 8 0) other) : u64At (record size fields) offset = 0 := by
  rw [u64At, field_record_apart layout fits apart]
  rfl

theorem u32At_record_apart (fits : offset + 4 ≤ size)
    (apart : ∀ other ∈ fields, Apart (offset, List.replicate 4 0) other) : u32At (record size fields) offset = 0 := by
  rw [u32At, field_record_apart layout fits apart]
  rfl

end

def direntLength (name : Bytes) : Nat := (24 + name.length + 7) / 8 * 8

theorem length_lt_direntLength (name : Bytes) : name.length < direntLength name := by
  unfold direntLength
  omega

structure Dirent where
  ino : UInt64
  offset : UInt64
  kind : UInt32
  name : Bytes
  short : name.length < 2 ^ 32
  deriving DecidableEq

def direntKind (fileType : FileType) : UInt32 := if fileType = .directory then 4 else 8

namespace Dirent

def bytes (r : Dirent) : Bytes :=
  LittleEndian.encode 8 r.ino.toNat ++ LittleEndian.encode 8 r.offset.toNat ++
    LittleEndian.encode 4 r.name.length ++ LittleEndian.encode 4 r.kind.toNat ++ r.name ++
    List.replicate (direntLength r.name - 24 - r.name.length) 0

theorem length_bytes (r : Dirent) : r.bytes.length = direntLength r.name := by
  simp only [bytes, List.length_append, LittleEndian.length_encode, List.length_replicate, direntLength]
  omega

/-- Reads one record and what follows it. -/
def parse (input : Bytes) : Option (Dirent × Bytes) :=
  let size := field input 16 4
  let stop := (24 + size + 7) / 8 * 8
  if stop ≤ input.length ∧ (slice input (24 + size) (stop - (24 + size))).all (· = 0) then
    some (⟨.ofNat (field input 0 8), .ofNat (field input 8 8), .ofNat (field input 20 4), slice input 24 size,
      (List.length_take_le _ _).trans_lt (field_lt input 16 4)⟩, input.drop stop)
  else none

theorem parse_bytes (r : Dirent) (rest : Bytes) : parse (r.bytes ++ rest) = some (r, rest) := by
  have size : field (r.bytes ++ rest) 16 4 = r.name.length := by
    simp only [bytes, List.append_assoc]
    rw [← List.append_assoc]
    exact field_append (by simp) r.short
  have ino : field (r.bytes ++ rest) 0 8 = r.ino.toNat := by
    simp only [bytes, List.append_assoc]
    exact field_append List.length_nil r.ino.toNat_lt
  have offset : field (r.bytes ++ rest) 8 8 = r.offset.toNat := by
    simp only [bytes, List.append_assoc]
    exact field_append (by simp) r.offset.toNat_lt
  have kind : field (r.bytes ++ rest) 20 4 = r.kind.toNat := by
    simp only [bytes, List.append_assoc]
    rw [← List.append_assoc, ← List.append_assoc]
    exact field_append (by simp) r.kind.toNat_lt
  have name : slice (r.bytes ++ rest) 24 r.name.length = r.name := by
    simp only [bytes, List.append_assoc]
    rw [← List.append_assoc, ← List.append_assoc, ← List.append_assoc, slice, List.drop_left' (by simp), List.take_left]
  have padding : slice (r.bytes ++ rest) (24 + r.name.length) (direntLength r.name - (24 + r.name.length)) =
      List.replicate (direntLength r.name - 24 - r.name.length) 0 := by
    rw [bytes, List.append_assoc, slice, List.drop_left' (by simp; omega), List.take_left' (by simp; omega)]
  have stop : (24 + r.name.length + 7) / 8 * 8 = direntLength r.name := rfl
  have inside : direntLength r.name ≤ (r.bytes ++ rest).length := by
    rw [List.length_append, r.length_bytes]
    exact Nat.le_add_right _ _
  have zeros : (slice (r.bytes ++ rest) (24 + r.name.length)
      (direntLength r.name - (24 + r.name.length))).all (· = 0) = true := by
    rw [padding]
    simp
  unfold parse
  simp only [size, stop, ino, offset, kind, name]
  rw [if_pos ⟨inside, zeros⟩, List.drop_left' r.length_bytes]
  simp

end Dirent

def parseDirents : Nat → Bytes → Option (List Dirent)
  | 0, input => if input = [] then some [] else none
  | fuel + 1, input =>
      if input = [] then some []
      else (Dirent.parse input).bind fun found => (parseDirents fuel found.2).map (found.1 :: ·)

/-- All records of the body of a `FUSE_READDIR` reply. -/
def direntsOf (body : Bytes) : Option (List Dirent) := parseDirents body.length body

theorem parseDirents_flatMap (records : List Dirent) {fuel : Nat} (enough : records.length ≤ fuel) :
    parseDirents fuel (records.flatMap Dirent.bytes) = some records := by
  induction records generalizing fuel with
  | nil => cases fuel <;> rfl
  | cons r rest ih =>
      obtain ⟨fuel, rfl⟩ := Nat.exists_eq_add_of_le' (Nat.lt_of_lt_of_le (Nat.succ_pos _) enough)
      have nonempty : r.bytes ++ rest.flatMap Dirent.bytes ≠ [] := by
        have := r.length_bytes
        intro empty
        rw [(List.append_eq_nil_iff.mp empty).1, direntLength, List.length_nil] at this
        omega
      rw [List.flatMap_cons, parseDirents, if_neg nonempty, Dirent.parse_bytes, Option.bind_some,
        ih (Nat.le_of_succ_le_succ enough)]
      rfl

theorem length_le_flatMap (records : List Dirent) : records.length ≤ (records.flatMap Dirent.bytes).length := by
  induction records with
  | nil => exact Nat.le_refl 0
  | cons r rest ih =>
      rw [List.flatMap_cons, List.length_append, r.length_bytes, List.length_cons, direntLength]
      omega

theorem direntsOf_flatMap (records : List Dirent) : direntsOf (records.flatMap Dirent.bytes) = some records :=
  parseDirents_flatMap records (length_le_flatMap records)

theorem dirent_eq (id : UInt64) (index : Nat) {name : Bytes} (short : name.length < 2 ^ 32) (metadata : Metadata) :
    dirent id index name metadata =
      .ok (Dirent.bytes ⟨id, UInt64.ofNat index, direntKind metadata.fileType, name, short⟩) := by
  have padded : (checkedAdd 24 name.length).bind (fun raw => checkedAdd raw 7) = some (24 + name.length + 7) := by
    rw [checkedAdd, if_pos (by omega), Option.bind_some, checkedAdd, if_pos (by omega)]
  have offset : LittleEndian.encode 8 (UInt64.ofNat index).toNat = LittleEndian.encode 8 index :=
    (congrArg _ UInt64.toNat_ofNat').trans (LittleEndian.encode_mod 8 index)
  have kind : (direntKind metadata.fileType).toNat = if metadata.fileType = .directory then 4 else 8 := by
    unfold direntKind
    split <;> rfl
  rw [dirent, if_neg (by omega)]
  simp only [padded, record, List.foldl_cons, List.foldl_nil]
  rw [← List.nil_append (List.replicate _ _), patch_next List.length_nil, patch_next (by simp), patch_next (by simp),
    patch_next (by simp), patch_next (by simp)]
  simp only [Dirent.bytes, offset, kind, LittleEndian.length_encode, direntLength, List.nil_append]
  congr 3

end Libvirtio.Fs
