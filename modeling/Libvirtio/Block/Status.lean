import Libvirtio.Block.Parse

namespace Libvirtio

namespace Block

structure Accepted (memory : DmaMemory) (request : Request) (header : Descriptor) (middle : List Descriptor)
    (status : Descriptor) : Prop where
  headerReadable : header.writable = false
  statusWritable : status.writable = true
  statusLength : status.length = 1
  statusRange : request.status = status.range
  payload : request.payload = middle.map Descriptor.range
  directions : ∀ d ∈ middle, checkDirection request.requestType d.writable = .ok () ∧ 0 < d.length.toNat
  mapped : ∀ range ∈ request.payload, memory.checkRange range = .ok ()
  statusMapped : memory.checkRange request.status = .ok ()
  nonempty : request.requestType.transfers = true → request.payload ≠ []

theorem parseRequest_eq_ok {chain : DescriptorChain} {request : Request} {guest after : GuestMemory}
    (run : parseRequest chain guest = (.ok request, after)) :
    ∃ header middle status, chain.descriptors = header :: (middle ++ [status]) ∧
      Accepted guest.memory request header middle status ∧ guest.Kept after := by
  obtain ⟨header, middle, status, bytes, grammar, kept⟩ := parseRequest_grammar run
  obtain ⟨directions, nonempty⟩ := directions_iff.mp grammar.directions
  have filled : ∀ d ∈ middle, 0 < d.length.toNat := fun d member =>
    Nat.pos_of_ne_zero fun zero => (grammar.middleMapped d member).1 (UInt32.toNat_inj.mp zero)
  refine ⟨header, middle, status, grammar.shape, ?_, kept⟩
  exact {
    headerReadable := grammar.headerReadable
    statusWritable := grammar.statusWritable
    statusLength := grammar.statusLength
    statusRange := grammar.statusRange
    payload := grammar.payload
    directions := fun d member => ⟨directions d member, filled d member⟩
    mapped := by
      rw [grammar.payload, List.forall_mem_map]
      exact fun d member => (checkRange_iff (filled d member)).mpr (grammar.middleMapped d member).2
    statusMapped := by
      rw [grammar.statusRange, Descriptor.range, grammar.statusLength]
      exact (checkRange_iff (by simp)).mpr grammar.statusMapped
    nonempty := fun transfers empty => nonempty ⟨transfers, grammar.payload ▸ empty⟩ }

theorem Accepted.flush_payload {memory : DmaMemory} {request : Request} {header status : Descriptor}
    {middle : List Descriptor} (accepted : Accepted memory request header middle status)
    (flush : request.requestType = .flush) : request.payload = [] := by
  rw [accepted.payload]
  cases middle with
  | nil => rfl
  | cons descriptor rest =>
      have direction := (accepted.directions descriptor List.mem_cons_self).1
      rw [flush] at direction
      cases writable : descriptor.writable <;> simp [checkDirection] at direction

theorem leaseAll_eq_ok {ranges : List DmaRange} {leases : List (List DmaPart)} {guest after : GuestMemory}
    (run : leaseAll ranges guest = (.ok leases, after)) :
    guest.memory.Leased ranges leases ∧ guest.Kept after := by
  induction ranges generalizing leases guest after with
  | nil =>
      cases run
      exact ⟨.nil, .refl guest⟩
  | cons range rest ih =>
      rw [leaseAll, Fallible.bind_eq_ok] at run
      obtain ⟨parts, leased, first, run⟩ := run
      rw [Fallible.bind_eq_ok] at run
      obtain ⟨tail, _, others, built⟩ := run
      cases built
      obtain ⟨translated, kept⟩ := lease_eq_ok first
      obtain ⟨translates, keeps⟩ := ih others
      rw [kept.memory] at translates
      exact ⟨.cons translated translates, kept.trans keeps⟩

theorem checkedSum_eq {width : Nat} {reason : String} {total : Nat} {parts : List DmaPart}
    (small : total < 2 ^ width) :
    checkedSum width reason total parts =
      if total + (parts.map DmaPart.length).sum < 2 ^ width then .ok (total + (parts.map DmaPart.length).sum)
      else .error (.descriptor reason) := by
  induction parts generalizing total with
  | nil => simp [checkedSum, small]
  | cons part rest ih =>
      rw [checkedSum, List.map_cons, List.sum_cons, ← Nat.add_assoc]
      by_cases fits : total + part.length < 2 ^ width
      · rw [if_pos fits, ih fits]
      · rw [if_neg fits, if_neg (by omega)]

def Request.length (request : Request) : Nat := (request.payload.map DmaRange.length).sum

section
variable {F : Type} {host : HostFile F}

theorem ioerr_ne_ok : virtioBlkSIoerr ≠ virtioBlkSOk := by decide

def statusOf (result : Int) (length : Nat) : UInt8 := if result = length then virtioBlkSOk else virtioBlkSIoerr

theorem statusOf_eq_ok {result : Int} {length : Nat} : statusOf result length = virtioBlkSOk ↔ result = length := by
  unfold statusOf
  split
  · simp [*]
  · simp [*, ioerr_ne_ok]

theorem transfer_eq (requestType : RequestType) (iovecs : List DmaPart) (offset length : Nat) (view : IoView F) :
    transfer host requestType iovecs offset length view =
      if iovecs.length ≥ 2 ^ 31 then (.error (.descriptor "too many block I/O vectors"), view)
      else if offset ≥ 2 ^ 63 then (.error (.descriptor "block offset exceeds host off_t"), view)
      else (.ok (statusOf (vectoredIo host requestType iovecs offset view).1 length),
        (vectoredIo host requestType iovecs offset view).2) := by
  have status (result : Int) : result < 0 ∨ result.toNat ≠ length ↔ ¬result = length := by omega
  simp only [transfer, Fallible.ite_apply, Fallible.fail_apply]
  split
  · rfl
  split
  · rfl
  rw [Fallible.bind_of_ok (Fallible.modifyGet_apply _ _), Fallible.ite_apply]
  simp only [status, Fallible.pure_apply, statusOf, ite_not]
  split <;> rfl

theorem transferStatus_eq {capacity : UInt64} {readOnly : Bool} {request : Request}
    {payload : List (List DmaPart)} (leased : (payload.flatten.map DmaPart.length).sum = request.length)
    (view : IoView F) :
    transferStatus host capacity readOnly request payload view =
      if request.offset ≥ 2 ^ 64 then (.error (.descriptor "block sector overflow"), view)
      else if request.length ≥ 2 ^ 64 then (.error (.descriptor "block request length overflow"), view)
      else if request.offset + request.length > capacity.toNat ∨ (request.requestType = .tOut ∧ readOnly = true) then
        (.ok virtioBlkSIoerr, view)
      else transfer host request.requestType payload.flatten request.offset request.length view := by
  have sum : payloadLength payload = if request.length < 2 ^ 64 then .ok request.length
      else .error (.descriptor "block request length overflow") := by
    rw [payloadLength, checkedSum_eq (by omega), leased, Nat.zero_add]
  have outside : request.offset > capacity.toNat ∨ request.length > capacity.toNat - request.offset ∨
        (request.requestType = .tOut ∧ readOnly = true) ↔
      request.offset + request.length > capacity.toNat ∨ (request.requestType = .tOut ∧ readOnly = true) := by
    rw [← or_assoc]
    refine or_congr_left ?_
    omega
  rw [transferStatus, sum, Fallible.ite_apply]
  split
  · rfl
  by_cases fits : request.length < 2 ^ 64
  · have bounded : ¬request.length ≥ 2 ^ 64 := by omega
    rw [if_pos fits, Fallible.bind_of_ok (Fallible.ofExcept_apply _ _), Fallible.ite_apply]
    simp only [outside, Fallible.pure_apply, bounded, if_false]
  · rw [if_neg fits, Fallible.bind_of_error (Fallible.ofExcept_apply _ _), if_pos (by omega)]

/-- When `execute_blocking` answers a request. Only transfers can fail: the offset and the length must fit
`u64`; a transfer inside the image also needs its vectors to fit `i32`, its offset `i64`, and, once all of it
has been read, its used length `u32`. -/
def Answered (host : HostFile F) (capacity : UInt64) (readOnly : Bool) (request : Request)
    (payload : List (List DmaPart)) (view : IoView F) : Prop :=
  request.requestType.transfers = true →
    request.offset < 2 ^ 64 ∧ request.length < 2 ^ 64 ∧
    (request.offset + request.length ≤ capacity.toNat → ¬(request.requestType = .tOut ∧ readOnly = true) →
      payload.flatten.length < 2 ^ 31 ∧ request.offset < 2 ^ 63 ∧
      (request.requestType = .tIn →
        (vectoredIo host request.requestType payload.flatten request.offset view).1 = request.length →
        1 + request.length < 2 ^ 32))

structure Answer (capacity : UInt64) (request : Request) (completion : Completion) (value : UInt8) : Prop where
  status : completion.status = value
  known : value = virtioBlkSOk ∨ value = virtioBlkSIoerr ∨ value = virtioBlkSUnsupp
  outside : request.requestType.transfers = true → capacity.toNat < request.offset + request.length →
    value = virtioBlkSIoerr

theorem completionLength_eq {request : Request} {payload : List (List DmaPart)}
    (leased : (payload.flatten.map DmaPart.length).sum = request.length) (status : UInt8) :
    completionLength status request payload =
      if status = virtioBlkSOk ∧ request.requestType = .tIn then
        if 1 + request.length < 2 ^ 32 then .ok (1 + request.length)
        else .error (.descriptor "used length overflow")
      else .ok 1 := by
  rw [completionLength, usedLengthOf, checkedSum_eq (by omega), leased]

theorem executeBlocking_of_status {capacity : UInt64} {readOnly flushSupported : Bool} {request : Request}
    {payload : List (List DmaPart)} {view after : IoView F} {status : UInt8}
    (run : requestStatus host capacity readOnly flushSupported request payload view = (.ok status, after)) :
    executeBlocking host capacity readOnly flushSupported request payload view =
      match completionLength status request payload with
      | .ok usedLength => (.ok (⟨status, UInt32.ofNat usedLength⟩, status), after)
      | .error e => (.error e, after) := by
  rw [executeBlocking, Fallible.bind_of_ok run]
  cases completionLength status request payload with
  | ok usedLength => rfl
  | error e => rfl

theorem requestStatus_transfers {capacity : UInt64} {readOnly flushSupported : Bool} {request : Request}
    {payload : List (List DmaPart)} (transfers : request.requestType.transfers = true) :
    requestStatus host capacity readOnly flushSupported request payload =
      transferStatus host capacity readOnly request payload := by
  unfold requestStatus
  cases kind : request.requestType with
  | tIn => rfl
  | tOut => rfl
  | flush => simp [kind, RequestType.transfers] at transfers
  | unsupported code => simp [kind, RequestType.transfers] at transfers

section
variable {capacity : UInt64} {readOnly : Bool} {request : Request} {payload : List (List DmaPart)} {view : IoView F}
  (transfers : request.requestType.transfers = true)
  (leased : (payload.flatten.map DmaPart.length).sum = request.length)
include transfers leased

theorem executeBlocking_refused (flushSupported : Bool) (offset : request.offset < 2 ^ 64)
    (length : request.length < 2 ^ 64)
    (refused : request.offset + request.length > capacity.toNat ∨ (request.requestType = .tOut ∧ readOnly = true)) :
    executeBlocking host capacity readOnly flushSupported request payload view =
      (.ok (⟨virtioBlkSIoerr, 1⟩, virtioBlkSIoerr), view) := by
  have status : requestStatus host capacity readOnly flushSupported request payload view =
      (.ok virtioBlkSIoerr, view) := by
    rw [requestStatus_transfers transfers, transferStatus_eq leased, if_neg (by omega), if_neg (by omega),
      if_pos refused]
  rw [executeBlocking_of_status status, completionLength_eq leased, if_neg fun done => ioerr_ne_ok done.1]
  rfl

theorem executeBlocking_called (flushSupported : Bool)
    (inside : request.offset + request.length ≤ capacity.toNat)
    (writable : ¬(request.requestType = .tOut ∧ readOnly = true))
    (vectors : payload.flatten.length < 2 ^ 31) (offset : request.offset < 2 ^ 63) :
    executeBlocking host capacity readOnly flushSupported request payload view =
      match completionLength (statusOf (vectoredIo host request.requestType payload.flatten request.offset view).1
        request.length) request payload with
      | .ok usedLength => (.ok
          (⟨statusOf (vectoredIo host request.requestType payload.flatten request.offset view).1 request.length,
            UInt32.ofNat usedLength⟩,
          statusOf (vectoredIo host request.requestType payload.flatten request.offset view).1 request.length),
          (vectoredIo host request.requestType payload.flatten request.offset view).2)
      | .error e => (.error e, (vectoredIo host request.requestType payload.flatten request.offset view).2) := by
  have fits := capacity.toNat_lt
  apply executeBlocking_of_status
  rw [requestStatus_transfers transfers, transferStatus_eq leased, if_neg (by omega), if_neg (by omega),
    if_neg (not_or.mpr ⟨by omega, writable⟩), transfer_eq, if_neg (by omega), if_neg (by omega)]

theorem executeBlocking_answered (flushSupported : Bool)
    (answered : Answered host capacity readOnly request payload view) :
    ∃ completion after, executeBlocking host capacity readOnly flushSupported request payload view =
      (.ok (completion, completion.status), after) ∧ Answer capacity request completion completion.status := by
  obtain ⟨sector, total, called⟩ := answered transfers
  by_cases inside : request.offset + request.length ≤ capacity.toNat ∧
      ¬(request.requestType = .tOut ∧ readOnly = true)
  · obtain ⟨vectors, offset, used⟩ := called inside.1 inside.2
    have known (result : Int) : statusOf result request.length = virtioBlkSOk ∨
        statusOf result request.length = virtioBlkSIoerr ∨ statusOf result request.length = virtioBlkSUnsupp := by
      unfold statusOf
      split
      · exact Or.inl rfl
      · exact Or.inr (Or.inl rfl)
    have length := completionLength_eq leased
      (statusOf (vectoredIo host request.requestType payload.flatten request.offset view).1 request.length)
    rw [executeBlocking_called transfers leased flushSupported inside.1 inside.2 vectors offset, length]
    split_ifs with read fits
    · exact ⟨_, _, rfl, rfl, known _, fun _ outside => by omega⟩
    · exact absurd (used read.2 (statusOf_eq_ok.mp read.1)) fits
    · exact ⟨_, _, rfl, rfl, known _, fun _ outside => by omega⟩
  · have refused : request.offset + request.length > capacity.toNat ∨
        (request.requestType = .tOut ∧ readOnly = true) := by
      by_contra accepted
      obtain ⟨low, writable⟩ := not_or.mp accepted
      exact inside ⟨by omega, writable⟩
    exact ⟨_, _, executeBlocking_refused transfers leased flushSupported sector total refused, rfl,
      Or.inr (Or.inl rfl), fun _ _ => rfl⟩

theorem executeBlocking_unanswered (flushSupported : Bool)
    (unanswered : ¬Answered host capacity readOnly request payload view) :
    ∃ reason after, executeBlocking host capacity readOnly flushSupported request payload view =
      (.error (.descriptor reason), after) := by
  have failed {reason : String} {after : IoView F}
      (run : transferStatus host capacity readOnly request payload view = (.error (.descriptor reason), after)) :
      ∃ reason after, executeBlocking host capacity readOnly flushSupported request payload view =
        (.error (.descriptor reason), after) :=
    ⟨reason, after, Fallible.bind_of_error (by rw [requestStatus_transfers transfers, run])⟩
  by_cases sector : request.offset < 2 ^ 64
  · by_cases total : request.length < 2 ^ 64
    · by_cases inside : request.offset + request.length ≤ capacity.toNat ∧
          ¬(request.requestType = .tOut ∧ readOnly = true)
      · have started : transferStatus host capacity readOnly request payload view = _ := transferStatus_eq leased view
        rw [if_neg (by omega), if_neg (by omega), if_neg (not_or.mpr ⟨by omega, inside.2⟩), transfer_eq] at started
        by_cases vectors : payload.flatten.length < 2 ^ 31
        · by_cases offset : request.offset < 2 ^ 63
          · have overflow : statusOf (vectoredIo host request.requestType payload.flatten request.offset view).1
                request.length = virtioBlkSOk ∧ request.requestType = .tIn ∧ ¬1 + request.length < 2 ^ 32 := by
              by_contra short
              refine unanswered fun _ => ⟨sector, total, fun _ _ => ⟨vectors, offset, fun kind result => ?_⟩⟩
              by_contra long
              exact short ⟨statusOf_eq_ok.mpr result, kind, long⟩
            have length := completionLength_eq leased
              (statusOf (vectoredIo host request.requestType payload.flatten request.offset view).1 request.length)
            rw [if_pos ⟨overflow.1, overflow.2.1⟩, if_neg overflow.2.2] at length
            exact ⟨_, _, by rw [executeBlocking_called transfers leased flushSupported inside.1 inside.2 vectors offset,
              length]⟩
          · rw [if_neg (by omega), if_pos (by omega)] at started
            exact failed started
        · rw [if_pos (by omega)] at started
          exact failed started
      · refine absurd (fun _ => ⟨sector, total, fun low high => ?_⟩) unanswered
        exact absurd ⟨low, high⟩ inside
    · exact failed (by rw [transferStatus_eq leased, if_neg (by omega), if_pos (by omega)])
  · exact failed (by rw [transferStatus_eq leased, if_pos (by omega)])

end

theorem requestStatus_unsupported {capacity : UInt64} {readOnly flushSupported : Bool} {request : Request}
    {payload : List (List DmaPart)} (unsupported : (request.requestType = .flush ∧ flushSupported = false) ∨
      ∃ code, request.requestType = .unsupported code) (view : IoView F) :
    requestStatus host capacity readOnly flushSupported request payload view = (.ok virtioBlkSUnsupp, view) := by
  rcases unsupported with ⟨kind, rfl⟩ | ⟨code, kind⟩
  · simp [requestStatus, kind]
  · simp [requestStatus, kind]

theorem requestStatus_flush {capacity : UInt64} {readOnly : Bool} {request : Request}
    (flush : request.requestType = .flush) (view : IoView F) :
    requestStatus host capacity readOnly true request [] view =
      (.ok (if (host.syncData view.file).1 then virtioBlkSOk else virtioBlkSIoerr),
        { view with file := (host.syncData view.file).2 }) := by
  have synced : syncData host view = ((host.syncData view.file).1, { view with file := (host.syncData view.file).2 }) :=
    rfl
  simp only [requestStatus, flush, ne_eq, not_true_eq_false, if_true, if_false]
  rw [Fallible.bind_of_ok (Fallible.modifyGet_apply _ _), Fallible.ite_apply]
  simp only [synced]
  split <;> rfl

theorem executeBlocking_other (host : HostFile F) (capacity : UInt64) (readOnly flushSupported : Bool)
    {request : Request} {payload : List (List DmaPart)} (view : IoView F) (other : request.requestType.transfers = false)
    (empty : request.requestType = .flush → payload = []) :
    ∃ completion after, executeBlocking host capacity readOnly flushSupported request payload view =
      (.ok (completion, completion.status), after) ∧ Answer capacity request completion completion.status := by
  have single (status : UInt8) : completionLength status request payload = .ok 1 := by
    rw [completionLength, if_neg]
    rintro ⟨-, kind⟩
    simp [kind, RequestType.transfers] at other
  have answer {status : UInt8} (after : IoView F)
      (known : status = virtioBlkSOk ∨ status = virtioBlkSIoerr ∨ status = virtioBlkSUnsupp)
      (run : requestStatus host capacity readOnly flushSupported request payload view = (.ok status, after)) :
      ∃ completion after, executeBlocking host capacity readOnly flushSupported request payload view =
        (.ok (completion, completion.status), after) ∧ Answer capacity request completion completion.status := by
    refine ⟨⟨status, 1⟩, after, ?_, rfl, known, ?_⟩
    · rw [executeBlocking_of_status run, single]
      rfl
    · intro transfers
      rw [other] at transfers
      cases transfers
  cases kind : request.requestType with
  | tIn => simp [kind, RequestType.transfers] at other
  | tOut => simp [kind, RequestType.transfers] at other
  | unsupported code =>
      exact answer view (Or.inr (Or.inr rfl)) (requestStatus_unsupported (Or.inr ⟨code, kind⟩) view)
  | flush =>
      cases flushSupported with
      | false => exact answer view (Or.inr (Or.inr rfl)) (requestStatus_unsupported (Or.inl ⟨kind, rfl⟩) view)
      | true =>
          rw [empty kind] at answer ⊢
          refine answer _ ?_ (requestStatus_flush kind view)
          split
          · exact Or.inl rfl
          · exact Or.inr (Or.inl rfl)

/-- Which accepted requests `execute_blocking` answers, and with what. -/
theorem executeBlocking_answers_iff (host : HostFile F) (capacity : UInt64) (readOnly flushSupported : Bool)
    {chain : DescriptorChain} {request : Request} {guest parsed : GuestMemory}
    (accepted : parseRequest chain guest = (.ok request, parsed))
    {before leased : GuestMemory} {payload : List (List DmaPart)}
    (leases : leaseAll request.payload before = (.ok payload, leased)) (view : IoView F) :
    ((∃ completion after, executeBlocking host capacity readOnly flushSupported request payload view =
        (.ok (completion, completion.status), after)) ↔ Answered host capacity readOnly request payload view) ∧
    (∀ completion value after, executeBlocking host capacity readOnly flushSupported request payload view =
        (.ok (completion, value), after) → Answer capacity request completion value) := by
  obtain ⟨_, _, _, -, shape, -⟩ := parseRequest_eq_ok accepted
  obtain ⟨translated, -⟩ := leaseAll_eq_ok leases
  have length : (payload.flatten.map DmaPart.length).sum = request.length := translated.sum_length
  have empty : request.requestType = .flush → payload = [] := fun flush => by
    rw [shape.flush_payload flush] at translated
    cases translated
    rfl
  cases transfers : request.requestType.transfers with
  | false =>
      obtain ⟨completion, after, run, answer⟩ := executeBlocking_other host capacity readOnly flushSupported view
        transfers empty
      refine ⟨⟨fun _ moves => ?_, fun _ => ⟨completion, after, run⟩⟩, ?_⟩
      · rw [transfers] at moves
        cases moves
      · intro other value final eq
        rw [run] at eq
        cases eq
        exact answer
  | true =>
      by_cases answered : Answered host capacity readOnly request payload view
      · obtain ⟨completion, after, run, answer⟩ :=
          executeBlocking_answered transfers length flushSupported answered
        refine ⟨⟨fun _ => answered, fun _ => ⟨completion, after, run⟩⟩, ?_⟩
        intro other value final eq
        rw [run] at eq
        cases eq
        exact answer
      · obtain ⟨reason, after, run⟩ := executeBlocking_unanswered transfers length flushSupported answered
        refine ⟨⟨?_, fun good => absurd good answered⟩, ?_⟩
        · rintro ⟨completion, final, eq⟩
          rw [run] at eq
          cases eq
        · intro other value final eq
          rw [run] at eq
          cases eq

end

def imageFile : HostFile (List UInt8) where
  tryClone _ := .ok ()
  syncData image := (true, image)
  preadv image lengths offset :=
    let bytes := (image.drop offset).take lengths.sum
    (bytes.length, bytes, image)
  pwritev image bytes offset :=
    (bytes.length, image.take offset ++ bytes ++ image.drop (offset + bytes.length))

def sampleGuest (sector : UInt8) : GuestMemory where
  memory := .single ⟨0, 0, 32⟩ (by decide)
  distinct := List.pairwise_singleton _ _
  host := fun a => if 8 ≤ a ∧ a < 16 then sector else 0
  leasesLeft := none

def sampleChain : DescriptorChain := ⟨0, [⟨0, 16, 1, 1⟩, ⟨16, 1, 3, 2⟩, ⟨17, 1, 2, 0⟩]⟩

theorem executeBlocking_answers_first_sector :
    (∃ completion after, executeBlocking imageFile 512 false true ⟨.tIn, 0, [⟨16, 1⟩], ⟨17, 1⟩⟩ [[⟨16, 16, 1⟩]]
        ⟨sampleGuest 0, List.replicate 512 7⟩ = (.ok (completion, completion.status), after)) ↔
      Answered imageFile 512 false ⟨.tIn, 0, [⟨16, 1⟩], ⟨17, 1⟩⟩ [[⟨16, 16, 1⟩]]
        ⟨sampleGuest 0, List.replicate 512 7⟩ := by
  have accepted : parseRequest sampleChain (sampleGuest 0) =
      (.ok ⟨.tIn, 0, [⟨16, 1⟩], ⟨17, 1⟩⟩, sampleGuest 0) := Prod.ext (by decide +kernel) rfl
  have leases : leaseAll [⟨16, 1⟩] (sampleGuest 0) = (.ok [[⟨16, 16, 1⟩]], sampleGuest 0) :=
    Prod.ext (by decide +kernel) rfl
  exact (executeBlocking_answers_iff imageFile 512 false true accepted leases _).1

/-- A sector whose byte offset does not fit `u64` lies outside every image, but is not answered `IOERR`. -/
theorem executeBlocking_sector_overflow :
    (parseRequest sampleChain (sampleGuest 255)).1 = .ok ⟨.tIn, 2 ^ 64 - 1, [⟨16, 1⟩], ⟨17, 1⟩⟩ ∧
    (leaseAll [⟨16, 1⟩] (sampleGuest 255)).1 = .ok [[⟨16, 16, 1⟩]] ∧
    (executeBlocking imageFile 512 false true ⟨.tIn, 2 ^ 64 - 1, [⟨16, 1⟩], ⟨17, 1⟩⟩ [[⟨16, 16, 1⟩]]
      ⟨sampleGuest 255, List.replicate 512 0⟩).1 = .error (.descriptor "block sector overflow") := by
  decide +kernel

end Block

end Libvirtio
