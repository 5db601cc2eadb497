import Mathlib.Tactic.Ring

namespace LittleEndian

def encode : Nat → Nat → List UInt8
  | 0, _ => []
  | width + 1, value => UInt8.ofNat value :: encode width (value / 256)

def decode : List UInt8 → Nat
  | [] => 0
  | byte :: rest => byte.toNat + 256 * decode rest

@[simp] theorem length_encode (width value : Nat) : (encode width value).length = width := by
  induction width generalizing value with
  | zero => rfl
  | succ width ih => simp [encode, ih]

theorem decode_encode (width value : Nat) : decode (encode width value) = value % 256 ^ width := by
  induction width generalizing value with
  | zero => simp [encode, decode, Nat.mod_one]
  | succ width ih =>
      have low : (UInt8.ofNat value).toNat = value % 256 := by simp
      rw [encode, decode, ih, low, pow_succ, Nat.mul_comm (256 ^ width), Nat.mod_mul]

theorem decode_encode_of_lt {width value : Nat} (fits : value < 256 ^ width) :
    decode (encode width value) = value := by
  rw [decode_encode, Nat.mod_eq_of_lt fits]

theorem encode_mod (width value : Nat) : encode width (value % 256 ^ width) = encode width value := by
  induction width generalizing value with
  | zero => rfl
  | succ width ih =>
      have low : UInt8.ofNat (value % 256 ^ (width + 1)) = UInt8.ofNat value := by
        apply UInt8.toNat_inj.mp
        rw [UInt8.toNat_ofNat', UInt8.toNat_ofNat']
        exact Nat.mod_mod_of_dvd value (Dvd.intro_left (256 ^ width) rfl)
      rw [encode, encode, low, pow_succ, Nat.mul_comm, Nat.mod_mul_right_div_self, ih]

theorem decode_replicate_zero (width : Nat) : decode (List.replicate width 0) = 0 := by
  induction width with
  | zero => rfl
  | succ width ih =>
      rw [List.replicate_succ, decode, ih]
      rfl

theorem decode_lt (bytes : List UInt8) : decode bytes < 256 ^ bytes.length := by
  induction bytes with
  | nil => simp [decode]
  | cons byte rest ih =>
      have := byte.toNat_lt
      rw [decode, List.length_cons, pow_succ]
      omega

theorem encode_decode (bytes : List UInt8) : encode bytes.length (decode bytes) = bytes := by
  induction bytes with
  | nil => rfl
  | cons byte rest ih =>
      have bound := byte.toNat_lt
      have high : (byte.toNat + 256 * decode rest) / 256 = decode rest := by omega
      have low : UInt8.ofNat (byte.toNat + 256 * decode rest) = byte := by
        apply UInt8.toNat_inj.mp
        rw [UInt8.toNat_ofNat']
        omega
      rw [decode, List.length_cons, encode, high, ih, low]

theorem encode_decode_of_length {bytes : List UInt8} {width : Nat} (length : bytes.length = width) :
    encode width (decode bytes) = bytes := by
  rw [← length, encode_decode]

def pack : List (Nat × Nat) → List UInt8
  | [] => []
  | (width, value) :: rest => encode width value ++ pack rest

def unpack : List Nat → List UInt8 → List Nat
  | [], _ => []
  | width :: rest, bytes => decode (bytes.take width) :: unpack rest (bytes.drop width)

theorem unpack_pack {fields : List (Nat × Nat)} (fits : ∀ field ∈ fields, field.2 < 256 ^ field.1) :
    unpack (fields.map Prod.fst) (pack fields) = fields.map Prod.snd := by
  induction fields with
  | nil => rfl
  | cons field rest ih =>
      obtain ⟨first, others⟩ := List.forall_mem_cons.mp fits
      have length : (encode field.1 field.2).length = field.1 := length_encode _ _
      rw [List.map_cons, pack, unpack, List.take_left' length, List.drop_left' length, decode_encode_of_lt first,
        ih others, List.map_cons]

theorem pack_unpack {widths : List Nat} {bytes : List UInt8} (whole : bytes.length = widths.sum) :
    pack (widths.zip (unpack widths bytes)) = bytes := by
  induction widths generalizing bytes with
  | nil => exact (List.eq_nil_of_length_eq_zero whole).symm
  | cons width rest ih =>
      rw [List.sum_cons] at whole
      have length : (bytes.take width).length = width := by
        rw [List.length_take]
        omega
      rw [unpack, List.zip_cons_cons, pack, encode_decode_of_length length,
        ih (by rw [List.length_drop]; omega), List.take_append_drop]

theorem encode_ne_nil (width value : Nat) (positive : 0 < width) : encode width value ≠ [] :=
  List.length_pos_iff.mp (by rwa [length_encode])

end LittleEndian
