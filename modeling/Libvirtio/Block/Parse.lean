import Libvirtio.Block.Basic
import Libvirtio.Queue.Access
import Mathlib.Data.UInt

namespace Libvirtio

theorem checkRange_iff {guest : GuestMemory} {range : DmaRange} (positive : 0 < range.length) :
    guest.memory.checkRange range = .ok () ↔ (Store.read guest.flat range.gpa range.length).isSome := by
  refine ⟨checkRange_read, fun mapped => ?_⟩
  obtain ⟨parts, translated⟩ := guest.translate_of_read positive mapped
  rw [DmaMemory.checkRange, translated]
  rfl

namespace Block

/-- The codes of VIRTIO: 0 reads, 1 writes, 4 flushes, and every other one is kept as it is. -/
def RequestType.HasCode (code : Nat) : RequestType → Prop
  | .tIn => code = 0
  | .tOut => code = 1
  | .flush => code = 4
  | .unsupported other => other.toNat = code ∧ code ≠ 0 ∧ code ≠ 1 ∧ code ≠ 4

def Directions (requestType : RequestType) (middle : List Descriptor) : Prop :=
  match requestType with
  | .tIn => middle ≠ [] ∧ ∀ d ∈ middle, d.writable = true
  | .tOut => middle ≠ [] ∧ ∀ d ∈ middle, d.writable = false
  | .flush => middle = []
  | .unsupported _ => True

/-- The chains that are requests, and the request that such a chain is. -/
structure Grammar (flat : Nat → Option UInt8) (chain : DescriptorChain) (header : Descriptor) (middle : List Descriptor)
    (status : Descriptor) (bytes : List UInt8) (request : Request) : Prop where
  shape : chain.descriptors = header :: (middle ++ [status])
  headerReadable : header.writable = false
  headerLength : header.length = 16
  headerBytes : Store.read flat header.address.toNat 16 = some bytes
  statusWritable : status.writable = true
  statusLength : status.length = 1
  statusMapped : (Store.read flat status.address.toNat 1).isSome
  middleMapped : ∀ d ∈ middle, d.length ≠ 0 ∧ (Store.read flat d.address.toNat d.length.toNat).isSome
  requestType : request.requestType.HasCode (field bytes 0 4)
  directions : Directions request.requestType middle
  sector : request.sector = UInt64.ofNat (field bytes 8 8)
  payload : request.payload = middle.map Descriptor.range
  statusRange : request.status = status.range

theorem requestTypeOf_eq_iff {code : UInt32} {requestType : RequestType} :
    requestTypeOf code = requestType ↔ requestType.HasCode code.toNat := by
  have toNat_eq (other : UInt32) : code = other ↔ code.toNat = other.toNat := UInt32.toNat_inj.symm
  constructor
  · rintro rfl
    unfold requestTypeOf
    split
    · exact (toNat_eq virtioBlkTIn).mp ‹_›
    split
    · exact (toNat_eq virtioBlkTOut).mp ‹_›
    split
    · exact (toNat_eq virtioBlkTFlush).mp ‹_›
    · rename_i notIn notOut notFlush
      exact ⟨rfl, mt (toNat_eq virtioBlkTIn).mpr notIn, mt (toNat_eq virtioBlkTOut).mpr notOut,
        mt (toNat_eq virtioBlkTFlush).mpr notFlush⟩
  · intro coded
    cases requestType with
    | tIn => rw [(toNat_eq virtioBlkTIn).mpr coded]; rfl
    | tOut => rw [(toNat_eq virtioBlkTOut).mpr coded]; rfl
    | flush => rw [(toNat_eq virtioBlkTFlush).mpr coded]; rfl
    | unsupported other =>
        obtain ⟨same, notIn, notOut, notFlush⟩ := coded
        rw [requestTypeOf, if_neg (mt (toNat_eq virtioBlkTIn).mp notIn),
          if_neg (mt (toNat_eq virtioBlkTOut).mp notOut), if_neg (mt (toNat_eq virtioBlkTFlush).mp notFlush),
          UInt32.toNat_inj.mp same]

theorem descriptorRange_eq_ok {descriptor : Descriptor} {range : DmaRange}
    (ok : descriptorRange descriptor = .ok range) :
    range = descriptor.range ∧ 0 < descriptor.length.toNat := by
  unfold descriptorRange at ok
  split at ok
  · cases ok
  · rename_i nonzero
    cases ok
    refine ⟨rfl, Nat.pos_of_ne_zero fun zero => nonzero ?_⟩
    exact UInt32.toNat_inj.mp zero

theorem parsePayload_eq_ok {requestType : RequestType} {descriptors : List Descriptor} {ranges : List DmaRange}
    {guest after : GuestMemory} (run : parsePayload requestType descriptors guest = (.ok ranges, after)) :
    after = guest ∧ ranges = descriptors.map Descriptor.range ∧
      (∀ d ∈ descriptors, checkDirection requestType d.writable = .ok () ∧ 0 < d.length.toNat) ∧
      ∀ range ∈ ranges, guest.memory.checkRange range = .ok () := by
  induction descriptors generalizing ranges guest after with
  | nil =>
      cases run
      simp
  | cons descriptor rest ih =>
      rw [parsePayload, Fallible.bind_eq_ok] at run
      obtain ⟨_, _, direction, run⟩ := run
      rw [Fallible.bind_eq_ok] at run
      obtain ⟨range, _, ranged, run⟩ := run
      rw [Fallible.bind_eq_ok] at run
      obtain ⟨_, _, checked, run⟩ := run
      rw [Fallible.bind_eq_ok] at run
      obtain ⟨tail, _, parsed, run⟩ := run
      rw [Fallible.ofExcept_eq_ok] at direction ranged
      rw [checkRange_eq_ok] at checked
      obtain ⟨direction, rfl⟩ := direction
      obtain ⟨ranged, rfl⟩ := ranged
      obtain ⟨checked, rfl⟩ := checked
      obtain ⟨rfl, positive⟩ := descriptorRange_eq_ok ranged
      obtain ⟨rfl, rfl, directions, checks⟩ := ih parsed
      cases run
      refine ⟨rfl, rfl, ?_, ?_⟩
      · rw [List.forall_mem_cons]
        exact ⟨⟨direction, positive⟩, directions⟩
      · rw [List.forall_mem_cons]
        exact ⟨checked, checks⟩

theorem parsePayload_live {requestType : RequestType} {descriptors : List Descriptor} {guest : GuestMemory}
    (directions : ∀ d ∈ descriptors, checkDirection requestType d.writable = .ok () ∧ d.length ≠ 0 ∧
      guest.memory.checkRange d.range = .ok ()) :
    parsePayload requestType descriptors guest = (.ok (descriptors.map Descriptor.range), guest) := by
  induction descriptors with
  | nil => rfl
  | cons descriptor rest ih =>
      rw [List.forall_mem_cons] at directions
      obtain ⟨⟨direction, nonzero, checked⟩, others⟩ := directions
      have ranged : descriptorRange descriptor = .ok descriptor.range := by rw [descriptorRange, if_neg nonzero]
      rw [parsePayload, Fallible.bind_of_ok (Fallible.ofExcept_eq_ok.mpr ⟨direction, rfl⟩),
        Fallible.bind_of_ok (Fallible.ofExcept_eq_ok.mpr ⟨ranged, rfl⟩),
        Fallible.bind_of_ok (checkRange_eq_ok.mpr ⟨checked, rfl⟩), Fallible.bind_of_ok (ih others)]
      rfl

theorem copyFromLease_eq {host : Nat → UInt8} {length : Nat} {parts : List DmaPart} {copied : List UInt8}
    (small : length < 2 ^ 64) (total : copied.length + (parts.map DmaPart.length).sum = length) :
    copyFromLease host length parts copied = .ok (copied ++ gather host parts) := by
  induction parts generalizing copied with
  | nil =>
      simp only [List.map_nil, List.sum_nil, Nat.add_zero] at total
      simp [copyFromLease, total, gather]
  | cons part rest ih =>
      rw [List.map_cons, List.sum_cons] at total
      have more := ih (show (copied ++ part.readSlice host).length + _ = length by
        rw [List.length_append, DmaPart.readSlice, Store.length_load]
        omega)
      rw [copyFromLease, checkedAdd, if_pos (by omega)]
      simp only
      rw [if_neg (by omega), more, List.append_assoc, gather, gather, List.flatMap_cons]

theorem checkDirection_eq_ok {requestType : RequestType} {writable : Bool} :
    checkDirection requestType writable = .ok () ↔ match requestType with
      | .tIn => writable = true
      | .tOut => writable = false
      | .flush => False
      | .unsupported _ => True := by
  cases requestType <;> cases writable <;> simp [checkDirection]

theorem directions_iff {requestType : RequestType} {middle : List Descriptor} :
    Directions requestType middle ↔ (∀ d ∈ middle, checkDirection requestType d.writable = .ok ()) ∧
      ¬(requestType.transfers = true ∧ middle.map Descriptor.range = []) := by
  simp only [checkDirection_eq_ok, List.map_eq_nil_iff]
  cases requestType with
  | tIn => simp [Directions, RequestType.transfers, and_comm]
  | tOut => simp [Directions, RequestType.transfers, and_comm]
  | flush => simp [Directions, RequestType.transfers, List.eq_nil_iff_forall_not_mem]
  | unsupported code => simp [Directions, RequestType.transfers]

theorem copyFromLease_header {guest : GuestMemory} {range : DmaRange} {parts : List DmaPart}
    (size : range.length = virtioBlkHeaderSize) (translated : guest.memory.translate range = .ok parts) :
    copyFromLease guest.host virtioBlkHeaderSize parts [] = .ok (gather guest.host parts) := by
  have length := guest.memory.length_of_translate translated
  rw [copyFromLease_eq (by decide) (by rw [List.length_nil, Nat.zero_add, length, size]), List.nil_append]

theorem requestTypeOf_header {bytes : List UInt8} {requestType : RequestType} :
    requestTypeOf (UInt32.ofNat (field bytes 0 4)) = requestType ↔ requestType.HasCode (field bytes 0 4) := by
  rw [requestTypeOf_eq_iff, UInt32.toNat_ofNat_of_lt' (field_lt bytes 0 4)]

theorem parseRequest_grammar {chain : DescriptorChain} {request : Request} {guest after : GuestMemory}
    (run : parseRequest chain guest = (.ok request, after)) :
    ∃ header middle status bytes, Grammar guest.flat chain header middle status bytes request ∧ guest.Kept after := by
  rcases descriptors : chain.descriptors with _ | ⟨header, _ | ⟨next, rest⟩⟩
  · simp [parseRequest, descriptors] at run
  · simp [parseRequest, descriptors] at run
  · simp only [parseRequest, descriptors, Fallible.ite_apply] at run
    split at run
    · cases (Prod.mk.inj run).1
    split at run
    · cases (Prod.mk.inj run).1
    rename_i headerSound statusSound
    obtain ⟨headerReadable, headerLength⟩ := not_or.mp headerSound
    obtain ⟨statusWritable, statusLength⟩ := not_or.mp statusSound
    obtain ⟨headerRange, _, headerRanged, run⟩ := Fallible.bind_eq_ok.mp run
    obtain ⟨statusRange, _, statusRanged, run⟩ := Fallible.bind_eq_ok.mp run
    obtain ⟨parts, leased, leases, run⟩ := Fallible.bind_eq_ok.mp run
    rw [Fallible.bind_of_ok (Fallible.read_apply leased)] at run
    obtain ⟨bytes, _, copied, run⟩ := Fallible.bind_eq_ok.mp run
    obtain ⟨payload, _, parsed, run⟩ := Fallible.bind_eq_ok.mp run
    rw [Fallible.ofExcept_eq_ok] at headerRanged statusRanged copied
    obtain ⟨headerRanged, rfl⟩ := headerRanged
    obtain ⟨statusRanged, rfl⟩ := statusRanged
    obtain ⟨copied, rfl⟩ := copied
    obtain ⟨rfl, -⟩ := descriptorRange_eq_ok headerRanged
    obtain ⟨rfl, -⟩ := descriptorRange_eq_ok statusRanged
    obtain ⟨translated, kept⟩ := lease_eq_ok leases
    obtain ⟨rfl, rfl, directions, checks⟩ := parsePayload_eq_ok parsed
    rw [Fallible.ite_apply] at run
    split at run
    · cases (Prod.mk.inj run).1
    rename_i nonempty
    obtain ⟨_, _, checked, built⟩ := Fallible.bind_eq_ok.mp run
    obtain ⟨statusChecked, rfl⟩ := checkRange_eq_ok.mp checked
    cases built
    have sixteen : header.length = 16 := UInt32.toNat_inj.mp (Decidable.not_not.mp headerLength)
    have one := Decidable.not_not.mp statusLength
    have ranged : header.range = ⟨header.address.toNat, 16⟩ := by rw [Descriptor.range, sixteen]; rfl
    rw [ranged] at translated
    rw [kept.host, copyFromLease_header rfl translated, Except.ok.injEq] at copied
    have shape := List.dropLast_append_getLast (List.cons_ne_nil next rest)
    refine ⟨header, (next :: rest).dropLast, (next :: rest).getLast (List.cons_ne_nil next rest), bytes, ?_, kept⟩
    exact {
      shape := by rw [shape, descriptors]
      headerReadable := by simpa using headerReadable
      headerLength := sixteen
      headerBytes := copied ▸ guest.read_of_translate translated
      statusWritable := by simpa using statusWritable
      statusLength := one
      statusMapped := by
        have mapped := checkRange_read (kept.memory ▸ statusChecked)
        rwa [Descriptor.range, one] at mapped
      middleMapped := fun d member => by
        have positive := (directions d member).2
        refine ⟨fun zero => by simp [zero] at positive, ?_⟩
        exact checkRange_read (kept.memory ▸ checks d.range (List.mem_map_of_mem member))
      requestType := requestTypeOf_header.mp rfl
      directions := directions_iff.mpr ⟨fun d member => (directions d member).1, nonempty⟩
      sector := rfl
      payload := rfl
      statusRange := rfl }

theorem parseRequest_of_grammar {guest : GuestMemory} (live : guest.leasesLeft = none) {chain : DescriptorChain}
    {header status : Descriptor} {middle : List Descriptor} {bytes : List UInt8} {request : Request}
    (grammar : Grammar guest.flat chain header middle status bytes request) :
    parseRequest chain guest = (.ok request, guest) := by
  obtain ⟨directions, nonempty⟩ := directions_iff.mp grammar.directions
  obtain ⟨parts, translated⟩ := guest.translate_of_read (by omega) (Option.isSome_of_eq_some grammar.headerBytes)
  have gathered := guest.read_of_translate translated
  rw [grammar.headerBytes, Option.some.injEq] at gathered
  have copied := copyFromLease_header rfl translated
  rw [← gathered] at copied
  have headerRange : descriptorRange header = .ok ⟨header.address.toNat, 16⟩ := by
    simp [descriptorRange, grammar.headerLength, Descriptor.range]
  have statusRange : descriptorRange status = .ok status.range := by
    simp [descriptorRange, grammar.statusLength]
  have leased : lease ⟨header.address.toNat, 16⟩ guest = (.ok parts, guest) := by
    rw [GuestMemory.lease_live live, translated]
  have requestType := requestTypeOf_header.mpr grammar.requestType
  have payload : ∀ d ∈ middle, checkDirection request.requestType d.writable = .ok () ∧
      d.length ≠ 0 ∧ guest.memory.checkRange d.range = .ok () := by
    intro d member
    obtain ⟨nonzero, mapped⟩ := grammar.middleMapped d member
    have positive : 0 < d.range.length := Nat.pos_of_ne_zero fun zero => nonzero (UInt32.toNat_inj.mp zero)
    exact ⟨directions d member, nonzero, (checkRange_iff positive).mpr mapped⟩
  have statusChecked : guest.memory.checkRange status.range = .ok () := by
    rw [Descriptor.range, grammar.statusLength]
    exact (checkRange_iff (by simp)).mpr grammar.statusMapped
  obtain ⟨next, rest, split⟩ : ∃ next rest, middle ++ [status] = next :: rest :=
    List.exists_cons_of_ne_nil (by simp)
  have last : (next :: rest).getLast (List.cons_ne_nil next rest) = status := by
    simp only [← split, List.getLast_append_singleton]
  have init : (next :: rest).dropLast = middle := by rw [← split, List.dropLast_concat]
  have descriptors : chain.descriptors = header :: next :: rest := by rw [grammar.shape, split]
  simp only [parseRequest, descriptors, last, init, Fallible.ite_apply]
  rw [if_neg (by simp [grammar.headerReadable, grammar.headerLength, virtioBlkHeaderSize]),
    if_neg (by simp [grammar.statusWritable, grammar.statusLength]),
    Fallible.bind_of_ok (Fallible.ofExcept_eq_ok.mpr ⟨headerRange, rfl⟩),
    Fallible.bind_of_ok (Fallible.ofExcept_eq_ok.mpr ⟨statusRange, rfl⟩),
    Fallible.bind_of_ok leased, Fallible.bind_of_ok (Fallible.read_apply guest),
    Fallible.bind_of_ok (Fallible.ofExcept_eq_ok.mpr ⟨copied, rfl⟩), requestType,
    Fallible.bind_of_ok (parsePayload_live payload), if_neg nonempty,
    Fallible.bind_of_ok (checkRange_eq_ok.mpr ⟨statusChecked, rfl⟩)]
  rw [← grammar.sector, ← grammar.payload, ← grammar.statusRange]
  rfl

theorem lease_of_mapped {guest : GuestMemory} (live : guest.leasesLeft = none) {range : DmaRange}
    (positive : 0 < range.length) (mapped : (Store.read guest.flat range.gpa range.length).isSome) :
    ∃ parts, lease range guest = (.ok parts, guest) := by
  obtain ⟨parts, translated⟩ := guest.translate_of_read positive mapped
  exact ⟨parts, by rw [GuestMemory.lease_live live, translated]⟩

/-- `parse_request` accepts the chains of the grammar with their one request, whose ranges can all be leased. -/
theorem parseRequest_exact (guest : GuestMemory) (live : guest.leasesLeft = none) (chain : DescriptorChain)
    (request : Request) :
    ((parseRequest chain guest).1 = .ok request ↔
      ∃ header middle status bytes, Grammar guest.flat chain header middle status bytes request) ∧
    ((parseRequest chain guest).1 = .ok request →
      ∀ range ∈ request.status :: request.payload, ∃ parts, lease range guest = (.ok parts, guest)) := by
  have grammatical (parsed : (parseRequest chain guest).1 = .ok request) :
      ∃ header middle status bytes, Grammar guest.flat chain header middle status bytes request := by
    obtain ⟨header, middle, status, bytes, grammar, -⟩ := parseRequest_grammar (Prod.ext parsed rfl)
    exact ⟨header, middle, status, bytes, grammar⟩
  refine ⟨⟨grammatical, ?_⟩, ?_⟩
  · rintro ⟨header, middle, status, bytes, grammar⟩
    rw [parseRequest_of_grammar live grammar]
  · intro parsed
    obtain ⟨header, middle, status, bytes, grammar⟩ := grammatical parsed
    rw [List.forall_mem_cons, grammar.statusRange, grammar.payload, List.forall_mem_map]
    constructor
    · apply lease_of_mapped live
      · rw [Descriptor.range, grammar.statusLength]
        simp
      · rw [Descriptor.range, grammar.statusLength]
        exact grammar.statusMapped
    · intro d member
      obtain ⟨nonzero, mapped⟩ := grammar.middleMapped d member
      exact lease_of_mapped live (Nat.pos_of_ne_zero fun zero => nonzero (UInt32.toNat_inj.mp zero)) mapped

-- A read of eight bytes at sector 3.
def readGuest : GuestMemory where
  memory := .single ⟨0, 0, 25⟩ (by decide)
  distinct := List.pairwise_singleton _ _
  host := fun a => if a = 8 then 3 else 0
  leasesLeft := none

def readRequest : DescriptorChain := ⟨0, [⟨0, 16, 1, 1⟩, ⟨16, 8, 3, 2⟩, ⟨24, 1, 2, 0⟩]⟩

theorem parseRequest_exact_read :
    (∃ header middle status bytes,
      Grammar readGuest.flat readRequest header middle status bytes ⟨.tIn, 3, [⟨16, 8⟩], ⟨24, 1⟩⟩) ∧
    ∃ parts, lease ⟨16, 8⟩ readGuest = (.ok parts, readGuest) := by
  have parsed : (parseRequest readRequest readGuest).1 = .ok ⟨.tIn, 3, [⟨16, 8⟩], ⟨24, 1⟩⟩ := by decide +kernel
  obtain ⟨accepts, leases⟩ := parseRequest_exact readGuest rfl readRequest ⟨.tIn, 3, [⟨16, 8⟩], ⟨24, 1⟩⟩
  exact ⟨accepts.mp parsed, leases parsed ⟨16, 8⟩ (by simp)⟩

end Block

end Libvirtio
