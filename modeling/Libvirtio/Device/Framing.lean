import Libvirtio.Device.Transfer

namespace Libvirtio

namespace Vsock

def Header.widths : List Nat := [8, 8, 4, 4, 4, 2, 2, 4, 4, 4]

def Header.fields (header : Header) : List (Nat × Nat) :=
  [(8, header.sourceCid.toNat), (8, header.destinationCid.toNat), (4, header.sourcePort.toNat),
    (4, header.destinationPort.toNat), (4, header.length.toNat), (2, header.packetType.toNat),
    (2, header.operation.toNat), (4, header.flags.toNat), (4, header.bufferAllocation.toNat),
    (4, header.forwardCount.toNat)]

theorem Header.encode_eq_pack (header : Header) : header.encode = LittleEndian.pack header.fields := by
  simp only [encode, fields, LittleEndian.pack, List.append_assoc, List.append_nil]

theorem Header.length_encode (header : Header) : header.encode.length = headerSize := by
  simp [encode, headerSize]

theorem unpack_widths (bytes : List UInt8) : LittleEndian.unpack Header.widths bytes =
    [field bytes 0 8, field bytes 8 8, field bytes 16 4, field bytes 20 4, field bytes 24 4, field bytes 28 2,
      field bytes 30 2, field bytes 32 4, field bytes 36 4, field bytes 40 4] := by
  simp only [Header.widths, LittleEndian.unpack, field, List.drop_drop, List.drop_zero]

theorem Header.fields_fit (header : Header) : ∀ field ∈ header.fields, field.2 < 256 ^ field.1 := by
  simp only [fields, List.forall_mem_cons]
  exact ⟨header.sourceCid.toNat_lt, header.destinationCid.toNat_lt, header.sourcePort.toNat_lt,
    header.destinationPort.toNat_lt, header.length.toNat_lt, header.packetType.toNat_lt, header.operation.toNat_lt,
    header.flags.toNat_lt, header.bufferAllocation.toNat_lt, header.forwardCount.toNat_lt, by simp⟩

theorem Header.decode_encode (header : Header) : decode header.encode = .ok header := by
  have values := LittleEndian.unpack_pack header.fields_fit
  rw [← encode_eq_pack, show header.fields.map Prod.fst = widths from rfl, unpack_widths] at values
  simp only [fields, List.map_cons, List.map_nil, List.cons.injEq, and_true] at values
  rw [decode, if_neg (by simp [length_encode])]
  simp only [values, UInt64.ofNat_toNat, UInt32.ofNat_toNat, UInt16.ofNat_toNat]

theorem Header.encode_decode {bytes : List UInt8} (whole : bytes.length = headerSize) :
    ∃ header, decode bytes = .ok header ∧ header.encode = bytes := by
  refine ⟨_, if_neg (by simp [whole]), ?_⟩
  have wide (offset : Nat) : (UInt64.ofNat (field bytes offset 8)).toNat = field bytes offset 8 := by
    rw [UInt64.toNat_ofNat']
    exact Nat.mod_eq_of_lt (field_lt bytes offset 8)
  have word (offset : Nat) : (UInt32.ofNat (field bytes offset 4)).toNat = field bytes offset 4 := by
    rw [UInt32.toNat_ofNat']
    exact Nat.mod_eq_of_lt (field_lt bytes offset 4)
  have half (offset : Nat) : (UInt16.ofNat (field bytes offset 2)).toNat = field bytes offset 2 := by
    rw [UInt16.toNat_ofNat']
    exact Nat.mod_eq_of_lt (field_lt bytes offset 2)
  have packed := @LittleEndian.pack_unpack widths bytes whole
  rw [unpack_widths] at packed
  rw [encode_eq_pack]
  refine Eq.trans ?_ packed
  simp only [fields, widths, List.zip_cons_cons, List.zip_nil_right, wide, word, half]

theorem packetOf_eq_some_iff {bytes : List UInt8} {packet : Packet} :
    packetOf bytes = some packet ↔ packet.bytes = bytes := by
  constructor
  · intro decoded
    unfold packetOf at decoded
    split at decoded
    · rename_i header ok
      cases decoded
      have whole : (bytes.take headerSize).length = headerSize := by
        by_contra short
        rw [Header.decode, if_pos short] at ok
        cases ok
      obtain ⟨header', decoded, encoded⟩ := Header.encode_decode whole
      cases ok.symm.trans decoded
      rw [Packet.bytes, encoded, List.take_append_drop]
    · cases decoded
  · rintro rfl
    rw [packetOf, Packet.bytes, List.take_left' packet.header.length_encode,
      List.drop_left' packet.header.length_encode, Header.decode_encode]

theorem packetBytes_eq_ok {packet : Packet} {bytes : List UInt8} :
    packetBytes packet = .ok bytes ↔ packet.validate = .ok () ∧ packet.bytes = bytes := by
  rw [packetBytes, except_bind_eq_ok]
  constructor
  · rintro ⟨⟨⟩, valid, made⟩
    cases made
    exact ⟨valid, rfl⟩
  · rintro ⟨valid, rfl⟩
    exact ⟨(), valid, rfl⟩

section
variable {guest : GuestMemory} {chain : DescriptorChain} {bytes : List UInt8}

theorem wellFormed_iff (readable : ∀ d ∈ chain.descriptors, d.writable = false) {packet : Packet}
    (framed : packet.bytes = bytes) : WellFormed chain bytes packet ↔ packet.validate = .ok () := by
  have length := packet.length_bytes
  rw [framed] at length
  rw [Packet.validate_eq_ok]
  constructor
  · rintro ⟨-, counted, type, small⟩
    exact ⟨type, by omega, small⟩
  · rintro ⟨type, counted, small⟩
    exact ⟨readable, by omega, type, small⟩

theorem readPacket_live_iff (live : guest.leasesLeft = none) (readable : ∀ d ∈ chain.descriptors, d.writable = false)
    (held : contents guest.flat chain.ranges = some bytes) {packet : Packet} :
    (readPacket chain guest).1 = .ok packet ↔ packet.validate = .ok () ∧ packet.bytes = bytes := by
  constructor
  · intro run
    obtain ⟨bytes', held', decoded, sound⟩ := wellFormed_of_readPacket live (Prod.ext run rfl)
    cases held.symm.trans held'
    have framed := packetOf_eq_some_iff.mp decoded
    exact ⟨(wellFormed_iff readable framed).mp sound, framed⟩
  · rintro ⟨valid, framed⟩
    rw [readPacket_of_wellFormed live held (packetOf_eq_some_iff.mpr framed)
      ((wellFormed_iff readable framed).mpr valid)]

theorem readDescriptors_granted {descriptors : List Descriptor}
    (granted : ∀ n, guest.leasesLeft = some n → descriptors.length ≤ n) :
    (readDescriptors descriptors guest).1 = (readDescriptors descriptors { guest with leasesLeft := none }).1 := by
  induction descriptors generalizing guest with
  | nil => rfl
  | cons descriptor rest ih =>
      have left : guest.leasesLeft ≠ some 0 := by
        intro none
        have := granted 0 none
        simp at this
      have fewer : ∀ n, guest.leasesLeft.map (· - 1) = some n → rest.length ≤ n := by
        intro n spent
        obtain ⟨m, left, rfl⟩ := Option.map_eq_some_iff.mp spent
        have := granted m left
        rw [List.length_cons] at this
        omega
      have given := GuestMemory.lease_granted left descriptor.range
      have given' := @GuestMemory.lease_live { guest with leasesLeft := none } rfl descriptor.range
      refine Fallible.bind_result_congr (by rw [given, given']) fun parts s t leased leased' => ?_
      obtain ⟨-, rfl⟩ := Prod.mk.inj (given.symm.trans leased)
      obtain ⟨-, rfl⟩ := Prod.mk.inj (given'.symm.trans leased')
      rw [Fallible.bind_of_ok (Fallible.read_apply _), Fallible.bind_of_ok (Fallible.read_apply _)]
      exact Fallible.bind_result_congr (ih fewer) fun bytes _ _ _ _ => rfl

theorem readPacket_granted (granted : ∀ n, guest.leasesLeft = some n → chain.descriptors.length ≤ n) :
    (readPacket chain guest).1 = (readPacket chain { guest with leasesLeft := none }).1 := by
  rw [readPacket, Fallible.ite_apply, Fallible.ite_apply]
  split
  · rfl
  · refine Fallible.bind_result_congr (readDescriptors_granted granted) fun bytes s t _ _ => ?_
    -- Nothing after the last lease looks at the memory.
    have blind : Fallible.Agrees (fun _ _ : GuestMemory => True) (do
        let header ← Fallible.ofExcept (Header.decode (bytes.take headerSize))
        if bytes.length ≠ headerSize + header.length.toNat then
          Fallible.fail (.descriptor "virtio-vsock TX chain length mismatch")
        else do
          let packet := { header, payload := bytes.drop headerSize }
          Fallible.ofExcept packet.validate
          pure packet : DmaM Packet) :=
      .bind (.ofExcept _) fun header => .ite (fun _ => .fail _) fun _ => .bind (.ofExcept _) fun _ => .pure _
    rw [Fallible.ite_apply, Fallible.ite_apply]
    split
    · rfl
    · exact (blind s t trivial).1

end

/-- Headers and their 44 bytes are the same thing. A readable mapped chain that is not revoked before it is read gives
the packet that its bytes are the encoding of, and no other chain is accepted. -/
theorem framing_exact (guest : GuestMemory) (chain : DescriptorChain) (bytes : List UInt8)
    (readable : ∀ d ∈ chain.descriptors, d.writable = false) (held : contents guest.flat chain.ranges = some bytes)
    (unrevoked : ∀ n, guest.leasesLeft = some n → chain.descriptors.length ≤ n) :
    (∀ header : Header, Header.decode header.encode = .ok header) ∧
    (∀ block : List UInt8, block.length = headerSize → ∃ header, Header.decode block = .ok header ∧
      header.encode = block) ∧
    (∀ packet, (readPacket chain guest).1 = .ok packet ↔
      packet.validate = .ok () ∧ packetBytes packet = .ok bytes) ∧
    ((∃ packet, (readPacket chain guest).1 = .ok packet) ↔ ∃ packet, packetBytes packet = .ok bytes) ∧
    ∀ packet other, packetBytes packet = .ok bytes → packetBytes other = .ok bytes → packet = other := by
  have accepts (packet : Packet) : (readPacket chain guest).1 = .ok packet ↔ packetBytes packet = .ok bytes := by
    rw [readPacket_granted unrevoked, packetBytes_eq_ok]
    exact @readPacket_live_iff { guest with leasesLeft := none } _ _ rfl readable held packet
  refine ⟨Header.decode_encode, fun block whole => Header.encode_decode whole, fun packet => ?_,
    exists_congr accepts, ?_⟩
  · rw [accepts, packetBytes_eq_ok]
    exact ⟨fun framed => ⟨framed.1, framed⟩, And.right⟩
  · intro packet other framed framed'
    have first := packetOf_eq_some_iff.mpr (packetBytes_eq_ok.mp framed).2
    have second := packetOf_eq_some_iff.mpr (packetBytes_eq_ok.mp framed').2
    exact Option.some.inj (first.symm.trans second)

-- The chain is split inside the header, and one of its descriptors crosses a segment border.
def splitGuest : GuestMemory where
  memory := { segments := [⟨0, 0, 12⟩, ⟨12, 64, 40⟩], valid := ⟨by simp, by simp, by simp⟩ }
  distinct := by simp [DmaMemory.MapsDistinct, Store.Apart]
  host := fun a => (streamPacket [1, 2, 3]).bytes.getD (if a < 64 then a else a - 52) 0
  leasesLeft := some 2

def splitChain : DescriptorChain := ⟨0, [⟨0, 10, virtqDescFNext, 1⟩, ⟨10, 37, 0, 0⟩]⟩

theorem framing_exact_split : (readPacket splitChain splitGuest).1 = .ok (streamPacket [1, 2, 3]) := by
  have framing := framing_exact splitGuest splitChain (streamPacket [1, 2, 3]).bytes (by decide) (by decide +kernel)
    (fun n left => by cases left; decide)
  exact (framing.2.2.1 _).mpr ⟨by decide, by decide⟩

end Vsock

end Libvirtio
