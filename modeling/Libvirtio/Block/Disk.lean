import Libvirtio.Block.Status
import Libvirtio.Library.Execution

/-!
# The block device as a disk

A reference disk is an image and a flat guest memory. The device, on a host that serves every call in full,
answers a sequence of requests as the reference disk does.
-/

namespace Libvirtio.Block

/-! ## The reference disk -/

structure Disk where
  image : List UInt8
  memory : Nat → Option UInt8

def overwrite (image : List UInt8) (offset : Nat) (bytes : List UInt8) : List UInt8 :=
  image.take offset ++ bytes ++ image.drop (offset + bytes.length)

namespace Disk

def answer (disk : Disk) (request : Request) (status : UInt8) (usedLength : Nat) : Disk × Completion :=
  ({ disk with memory := Store.write disk.memory request.status.gpa [status] }, ⟨status, UInt32.ofNat usedLength⟩)

def write (disk : Disk) (request : Request) : Disk :=
  { disk with image := overwrite disk.image request.offset (loadRanges disk.memory request.payload) }

def read (disk : Disk) (request : Request) : Disk :=
  let slice := (disk.image.drop request.offset).take request.length
  { disk with memory := storeRanges disk.memory request.payload slice }

def serve (readOnly flushSupported : Bool) (disk : Disk) (request : Request) : Disk × Completion :=
  match request.requestType with
  | .tOut =>
      if request.offset + request.length ≤ disk.image.length ∧ readOnly = false then
        (disk.write request).answer request virtioBlkSOk 1
      else disk.answer request virtioBlkSIoerr 1
  | .tIn =>
      if request.offset + request.length ≤ disk.image.length then
        (disk.read request).answer request virtioBlkSOk (request.length + 1)
      else disk.answer request virtioBlkSIoerr 1
  | .flush => disk.answer request (if flushSupported then virtioBlkSOk else virtioBlkSUnsupp) 1
  | .unsupported _ => disk.answer request virtioBlkSUnsupp 1

end Disk

structure Command where
  memory : Nat → Option UInt8
  request : Request

def Disk.apply (readOnly flushSupported : Bool) (done : Disk × List Completion) (command : Command) :
    Disk × List Completion :=
  let (disk, completion) := serve readOnly flushSupported { done.1 with memory := command.memory } command.request
  (disk, done.2 ++ [completion])

def Disk.run (readOnly flushSupported : Bool) (disk : Disk) (commands : List Command) : Disk × List Completion :=
  commands.foldl (apply readOnly flushSupported) (disk, [])

/-! ## The device -/

theorem length_overwrite {image : List UInt8} {offset : Nat} {bytes : List UInt8}
    (inside : offset + bytes.length ≤ image.length) : (overwrite image offset bytes).length = image.length := by
  simp only [overwrite, List.length_append, List.length_take, List.length_drop]
  omega

/-- A host whose calls on the file succeed and transfer every byte asked for. -/
structure Faithful {F : Type} (host : HostFile F) (image : F → List UInt8) : Prop where
  tryClone : ∀ file, host.tryClone file = .ok ()
  syncData : ∀ file, (host.syncData file).1 = true ∧ image (host.syncData file).2 = image file
  preadv : ∀ file lengths offset, offset + lengths.sum ≤ (image file).length →
    (host.preadv file lengths offset).1 = lengths.sum ∧
    (host.preadv file lengths offset).2.1 = ((image file).drop offset).take lengths.sum ∧
    image (host.preadv file lengths offset).2.2 = image file
  pwritev : ∀ file bytes offset, offset + bytes.length ≤ (image file).length →
    (host.pwritev file bytes offset).1 = bytes.length ∧
    image (host.pwritev file bytes offset).2 = overwrite (image file) offset bytes

structure Session (F : Type) where
  view : IoView F
  history : List (Command × Except DeviceError Completion)

/-- The chain that the driver makes available next, and the bytes that memory holds then. -/
structure Job where
  host : Nat → UInt8
  chain : DescriptorChain

def Session.prepare {F : Type} (s : Session F) (job : Job) : GuestMemory := { s.view.guest with host := job.host }

section
variable {F : Type} (host : HostFile F) (device : Device)

def step (s : Session F) (job : Job) : Option (Session F) :=
  match parseRequest job.chain (s.prepare job) with
  | (.error _, _) => none
  | (.ok request, guest) =>
      let (result, view) := execute host device false request { s.view with guest }
      some ⟨view, s.history ++ [(⟨(s.prepare job).flat, request⟩, result)]⟩

def start (guest : GuestMemory) (file : F) : Session F := ⟨⟨guest, file⟩, []⟩

def vectors (memory : DmaMemory) (request : Request) : Nat :=
  (request.payload.map fun range => ((memory.translate range).toOption.getD []).length).sum

/-- A request whose offset, used length and vectors fit the words that the device keeps them in. -/
def Fits (s : Session F) (job : Job) : Prop :=
  ∀ request guest, parseRequest job.chain (s.prepare job) = (.ok request, guest) →
    request.offset < 2 ^ 64 ∧ request.length < 2 ^ 32 - 1 ∧ vectors guest.memory request < 2 ^ 31

end

instance {F : Type} (s : Session F) (job : Job) : Decidable (Fits s job) :=
  match parsed : parseRequest job.chain (s.prepare job) with
  | (.error _, _) => isTrue fun _ _ same => by cases parsed.symm.trans same
  | (.ok request, guest) =>
      decidable_of_iff
        (request.offset < 2 ^ 64 ∧ request.length < 2 ^ 32 - 1 ∧ vectors guest.memory request < 2 ^ 31)
        ⟨fun fits _ _ same => by cases parsed.symm.trans same; exact fits, fun fits => fits request guest parsed⟩

/-! ## Device code on memory that is not revoked -/

section
variable {F : Type} {host : HostFile F} {image : F → List UInt8} {guest : GuestMemory} {file : F}

theorem onMemory_of_ok {α : Type} {access : DmaM α} {a : α} {after : GuestMemory}
    (run : access guest = (.ok a, after)) : onMemory access ⟨guest, file⟩ = (.ok a, ⟨after, file⟩) := by
  simp [onMemory, run]

theorem checkRange_translate {memory : DmaMemory} {range : DmaRange} (ok : memory.checkRange range = .ok ()) :
    ∃ parts, memory.translate range = .ok parts := by
  unfold DmaMemory.checkRange at ok
  cases translated : memory.translate range with
  | error e => simp [translated, Except.map] at ok
  | ok parts => exact ⟨parts, rfl⟩

theorem leaseAll_live (live : guest.leasesLeft = none) {ranges : List DmaRange}
    (mapped : ∀ range ∈ ranges, guest.memory.checkRange range = .ok ()) :
    ∃ leases, leaseAll ranges guest = (.ok leases, guest) ∧ guest.memory.Leased ranges leases := by
  induction ranges with
  | nil => exact ⟨[], rfl, .nil⟩
  | cons range rest ih =>
      rw [List.forall_mem_cons] at mapped
      obtain ⟨parts, translated⟩ := checkRange_translate mapped.1
      obtain ⟨leases, others, leased⟩ := ih mapped.2
      have first : lease range guest = (.ok parts, guest) := by rw [GuestMemory.lease_live live, translated]
      refine ⟨parts :: leases, ?_, .cons translated leased⟩
      rw [leaseAll, Fallible.bind_of_ok first, Fallible.bind_of_ok others, Fallible.pure_apply]

theorem covers_byte {memory : DmaMemory} {a : Nat} {parts : List DmaPart}
    (covers : memory.Covers a parts (a + 1)) : ∃ part, parts = [part] ∧ part.length = 1 := by
  cases parts with
  | nil => exact absurd (show a = a + 1 from covers) (by omega)
  | cons part rest =>
      obtain ⟨-, positive, -, tail⟩ := covers
      have le := tail.le
      cases rest with
      | nil => exact ⟨part, rfl, by have : a + part.length = a + 1 := tail; omega⟩
      | cons other more =>
          have := tail.2.2.2.le
          have := tail.2.1
          omega

theorem writeStatus_live {gpa : Nat} {parts : List DmaPart} (status : UInt8)
    (translated : guest.memory.translate ⟨gpa, 1⟩ = .ok parts) :
    ∃ after, writeStatus parts status guest = (.ok (), after) ∧
      guest.Updated (Store.write guest.flat gpa [status]) after := by
  obtain ⟨part, rfl, length⟩ := covers_byte (guest.memory.translate_covers translated)
  have scattered : GuestMemory.flat { guest with host := scatter guest.host [part] [status] } =
      Store.write guest.flat gpa [status] := guest.flat_scatter translated (Nat.le_refl 1)
  refine ⟨{ guest with host := Store.save guest.host part.base [status] }, ?_, rfl, rfl, ?_⟩
  · simp [writeStatus, length]
  · simpa [scatter, length] using scattered

theorem execute_of_blocking (device : Device) (faithful : Faithful host image) {request : Request}
    {leases : List (List DmaPart)} {final : IoView F} {completion : Completion} {value : UInt8}
    (live : guest.leasesLeft = none) (leased : leaseAll request.payload guest = (.ok leases, guest))
    (status : request.status.length = 1) (mapped : guest.memory.checkRange request.status = .ok ())
    (same : final.guest.memory = guest.memory)
    (run : executeBlocking host device.capacity device.readOnly device.flushSupported request leases ⟨guest, file⟩ =
      (.ok (completion, value), final)) :
    ∃ after, execute host device false request ⟨guest, file⟩ = (.ok completion, ⟨after, final.file⟩) ∧
      final.guest.Updated (Store.write final.guest.flat request.status.gpa [value]) after := by
  obtain ⟨parts, translated⟩ := checkRange_translate mapped
  have leasedStatus : lease request.status guest = (.ok parts, guest) := by
    rw [GuestMemory.lease_live live, translated]
  have range : request.status = ⟨request.status.gpa, 1⟩ := by rw [← status]
  rw [range, ← same] at translated
  obtain ⟨after, written, updated⟩ := writeStatus_live value translated
  have cloned : tryClone host ⟨guest, file⟩ = (.ok (), ⟨guest, file⟩) := by
    simp [tryClone, faithful.tryClone]
  refine ⟨after, ?_, updated⟩
  unfold execute
  rw [Fallible.bind_of_ok (onMemory_of_ok (show checkLive false guest = (.ok (), guest) from rfl)),
    Fallible.bind_of_ok (onMemory_of_ok leased), Fallible.bind_of_ok (onMemory_of_ok leasedStatus),
    Fallible.bind_of_ok cloned]
  simp only
  rw [Fallible.bind_of_ok run, Fallible.bind_of_ok (onMemory_of_ok written), Fallible.pure_apply]

theorem execute_of_blocked (device : Device) (faithful : Faithful host image) {request : Request}
    {leases : List (List DmaPart)} {final : IoView F} {e : DeviceError}
    (live : guest.leasesLeft = none) (leased : leaseAll request.payload guest = (.ok leases, guest))
    (mapped : guest.memory.checkRange request.status = .ok ())
    (run : executeBlocking host device.capacity device.readOnly device.flushSupported request leases ⟨guest, file⟩ =
      (.error e, final)) :
    execute host device false request ⟨guest, file⟩ = (.error e, final) := by
  obtain ⟨parts, translated⟩ := checkRange_translate mapped
  have leasedStatus : lease request.status guest = (.ok parts, guest) := by
    rw [GuestMemory.lease_live live, translated]
  have cloned : tryClone host ⟨guest, file⟩ = (.ok (), ⟨guest, file⟩) := by
    simp [tryClone, faithful.tryClone]
  unfold execute
  rw [Fallible.bind_of_ok (onMemory_of_ok (show checkLive false guest = (.ok (), guest) from rfl)),
    Fallible.bind_of_ok (onMemory_of_ok leased), Fallible.bind_of_ok (onMemory_of_ok leasedStatus),
    Fallible.bind_of_ok cloned, Fallible.bind_of_error run]

theorem vectors_eq {memory : DmaMemory} {request : Request} {leases : List (List DmaPart)}
    (leased : memory.Leased request.payload leases) : leases.flatten.length = vectors memory request := by
  unfold vectors
  generalize request.payload = ranges at leased
  induction leased with
  | nil => rfl
  | cons translated _ ih =>
      rw [List.flatten_cons, List.length_append, ih, List.map_cons, List.sum_cons, translated]
      rfl

structure Agrees (image : F → List UInt8) (view : IoView F) (disk : Disk) : Prop where
  image_eq : image view.file = disk.image
  memory_eq : view.guest.flat = disk.memory

theorem execute_answers (device : Device) (faithful : Faithful host image) {request : Request}
    {leases : List (List DmaPart)} {final : IoView F} {disk : Disk} {status : UInt8} {usedLength : Nat}
    (live : guest.leasesLeft = none) (leased : leaseAll request.payload guest = (.ok leases, guest))
    (length : request.status.length = 1) (mapped : guest.memory.checkRange request.status = .ok ())
    (same : final.guest.memory = guest.memory) (stillLive : final.guest.leasesLeft = none)
    (agrees : Agrees image final disk)
    (run : executeBlocking host device.capacity device.readOnly device.flushSupported request leases ⟨guest, file⟩ =
      (.ok (⟨status, UInt32.ofNat usedLength⟩, status), final)) :
    ∃ after, execute host device false request ⟨guest, file⟩ =
        (.ok (disk.answer request status usedLength).2, after) ∧
      Agrees image after (disk.answer request status usedLength).1 ∧
      after.guest.memory = guest.memory ∧ after.guest.leasesLeft = none := by
  obtain ⟨after, executed, updated⟩ := execute_of_blocking device faithful live leased length mapped same run
  refine ⟨⟨after, final.file⟩, executed, ⟨agrees.image_eq, ?_⟩, updated.memory.trans same,
    updated.leasesLeft.trans stillLive⟩
  rw [updated.flat_eq, agrees.memory_eq]
  rfl

theorem executeBlocking_status_only {capacity : UInt64} {readOnly flushSupported : Bool} {request : Request}
    {payload : List (List DmaPart)} {view after : IoView F} {status : UInt8}
    (other : request.requestType ≠ .tIn)
    (run : requestStatus host capacity readOnly flushSupported request payload view = (.ok status, after)) :
    executeBlocking host capacity readOnly flushSupported request payload view =
      (.ok (⟨status, UInt32.ofNat 1⟩, status), after) := by
  rw [executeBlocking_of_status run, completionLength, if_neg fun read => other read.2]

section
variable {device : Device} {request : Request} {leases : List (List DmaPart)}
  (faithful : Faithful host image) (capacity : device.capacity.toNat = (image file).length)
  (bounded : device.capacity.toNat < 2 ^ 63) (leased : guest.memory.Leased request.payload leases)
include faithful capacity bounded leased

theorem executeBlocking_read (kind : request.requestType = .tIn)
    (inside : request.offset + request.length ≤ (image file).length)
    (used : request.length < 2 ^ 32 - 1) (few : leases.flatten.length < 2 ^ 31) :
    ∃ final, executeBlocking host device.capacity device.readOnly device.flushSupported request leases ⟨guest, file⟩ =
        (.ok (⟨virtioBlkSOk, UInt32.ofNat (request.length + 1)⟩, virtioBlkSOk), final) ∧
      final.guest.memory = guest.memory ∧ final.guest.leasesLeft = guest.leasesLeft ∧
      Agrees image final (Disk.read ⟨image file, guest.flat⟩ request) := by
  have length : (leases.flatten.map DmaPart.length).sum = request.length := leased.sum_length
  obtain ⟨result, bytes, kept⟩ := faithful.preadv file (leases.flatten.map DmaPart.length) request.offset
    (by rw [length]; exact inside)
  rw [length] at result bytes
  have called : vectoredIo host request.requestType leases.flatten request.offset ⟨guest, file⟩ =
      ((request.length : Int),
        ⟨{ guest with
            host := scatter guest.host leases.flatten (((image file).drop request.offset).take request.length) },
          (host.preadv file (leases.flatten.map DmaPart.length) request.offset).2.2⟩) := by
    rw [vectoredIo, if_pos kind, preadv, ← bytes, ← result]
  refine ⟨(vectoredIo host request.requestType leases.flatten request.offset ⟨guest, file⟩).2, ?_, ?_⟩
  · rw [executeBlocking_called (by rw [kind]; rfl) length _ (by omega) (by simp [kind]) few (by omega), called,
      statusOf_eq_ok.mpr rfl, completionLength_eq length, if_pos ⟨rfl, kind⟩, if_pos (by omega), Nat.add_comm]
  · rw [called]
    exact ⟨rfl, rfl, kept, leased.scatter guest.distinct _ _⟩

theorem executeBlocking_write (kind : request.requestType = .tOut) (writable : device.readOnly = false)
    (inside : request.offset + request.length ≤ (image file).length) (few : leases.flatten.length < 2 ^ 31) :
    ∃ final, executeBlocking host device.capacity device.readOnly device.flushSupported request leases ⟨guest, file⟩ =
        (.ok (⟨virtioBlkSOk, UInt32.ofNat 1⟩, virtioBlkSOk), final) ∧
      final.guest.memory = guest.memory ∧ final.guest.leasesLeft = guest.leasesLeft ∧
      Agrees image final (Disk.write ⟨image file, guest.flat⟩ request) := by
  have length : (leases.flatten.map DmaPart.length).sum = request.length := leased.sum_length
  have gathered : gather guest.host leases.flatten = loadRanges guest.flat request.payload :=
    leased.gather guest.host
  have total : (gather guest.host leases.flatten).length = request.length := by rw [length_gather, length]
  obtain ⟨result, written⟩ := faithful.pwritev file (gather guest.host leases.flatten) request.offset
    (by rw [total]; exact inside)
  rw [total] at result
  have called : vectoredIo host request.requestType leases.flatten request.offset ⟨guest, file⟩ =
      ((request.length : Int), ⟨guest, (host.pwritev file (gather guest.host leases.flatten) request.offset).2⟩) := by
    rw [vectoredIo, if_neg (by simp [kind]), pwritev, ← result]
  refine ⟨(vectoredIo host request.requestType leases.flatten request.offset ⟨guest, file⟩).2, ?_, ?_⟩
  · rw [executeBlocking_called (by rw [kind]; rfl) length _ (by omega) (by simp [writable]) few (by omega), called,
      statusOf_eq_ok.mpr rfl, completionLength, if_neg (by simp [kind])]
  · rw [called]
    exact ⟨rfl, rfl, written.trans (by rw [gathered]; rfl), rfl⟩

omit faithful capacity bounded in
theorem serve_length (readOnly flushSupported : Bool) :
    (Disk.serve readOnly flushSupported ⟨image file, guest.flat⟩ request).1.image.length = (image file).length := by
  have gathered : gather guest.host leases.flatten = loadRanges guest.flat request.payload :=
    leased.gather guest.host
  have total : (loadRanges guest.flat request.payload).length = request.length := by
    rw [← gathered, length_gather, leased.sum_length, Request.length]
  unfold Disk.serve
  cases request.requestType with
  | tIn =>
      simp only
      split <;> rfl
  | tOut =>
      simp only
      split
      · rename_i inside
        exact length_overwrite (by rw [total]; exact inside.1)
      · rfl
  | flush => rfl
  | unsupported code => rfl

end

/-- The device answers the request as the reference disk does, and leaves what the disk leaves. -/
def ExecutesAs (host : HostFile F) (image : F → List UInt8) (device : Device) (request : Request) (guest : GuestMemory)
    (file : F) : Prop :=
  let reference := Disk.serve device.readOnly device.flushSupported ⟨image file, guest.flat⟩ request
  ∃ after, execute host device false request ⟨guest, file⟩ = (.ok reference.2, after) ∧
    Agrees image after reference.1 ∧ (image after.file).length = (image file).length ∧
    after.guest.memory = guest.memory ∧ after.guest.leasesLeft = none

section
variable {device : Device} {request : Request} {header status : Descriptor} {middle : List Descriptor}
  (faithful : Faithful host image) (live : guest.leasesLeft = none)
  (accepted : Accepted guest.memory request header middle status)
include faithful live accepted

-- Every branch of the reference disk ends in `Disk.answer` of the disk that `execute_blocking` leaves.
theorem executesAs_of_blocking {leases : List (List DmaPart)} {final : IoView F}
    (leased : guest.memory.Leased request.payload leases)
    (leasing : leaseAll request.payload guest = (.ok leases, guest)) (disk : Disk) (value : UInt8) {usedLength : Nat}
    (served : Disk.serve device.readOnly device.flushSupported ⟨image file, guest.flat⟩ request =
      disk.answer request value usedLength)
    (same : final.guest.memory = guest.memory) (lives : final.guest.leasesLeft = guest.leasesLeft)
    (agrees : Agrees image final disk)
    (run : executeBlocking host device.capacity device.readOnly device.flushSupported request leases ⟨guest, file⟩ =
      (.ok (⟨value, UInt32.ofNat usedLength⟩, value), final)) : ExecutesAs host image device request guest file := by
  have one : request.status.length = 1 := by
    rw [accepted.statusRange, Descriptor.range, accepted.statusLength]
    rfl
  obtain ⟨after, executed, agreed, memory, left⟩ := execute_answers device faithful live leasing one
    accepted.statusMapped same (lives.trans live) agrees run
  rw [← served] at executed agreed
  refine ⟨after, executed, agreed, ?_, memory, left⟩
  rw [agreed.image_eq, serve_length leased device.readOnly device.flushSupported]

theorem execute_serve (capacity : device.capacity.toNat = (image file).length)
    (bounded : device.capacity.toNat < 2 ^ 63) (offset : request.offset < 2 ^ 64) (used : request.length < 2 ^ 32 - 1)
    (few : vectors guest.memory request < 2 ^ 31) : ExecutesAs host image device request guest file := by
  obtain ⟨leases, leasing, leased⟩ := leaseAll_live live accepted.mapped
  have length : (leases.flatten.map DmaPart.length).sum = request.length := leased.sum_length
  rw [← vectors_eq leased] at few
  have finish {final : IoView F} (disk : Disk) (value : UInt8) {usedLength : Nat} :=
    @executesAs_of_blocking _ host image guest file device request _ _ _ faithful live accepted leases final leased
      leasing disk value usedLength
  cases kind : request.requestType with
  | tIn =>
      have transfers : request.requestType.transfers = true := by rw [kind]; rfl
      by_cases inside : request.offset + request.length ≤ (image file).length
      · obtain ⟨final, run, memory, lives, agrees⟩ :=
          executeBlocking_read faithful capacity bounded leased kind inside used few
        exact finish _ _ (by simp [Disk.serve, kind, inside]) memory lives agrees run
      · exact finish ⟨image file, guest.flat⟩ virtioBlkSIoerr (by simp [Disk.serve, kind, inside]) rfl rfl ⟨rfl, rfl⟩
          (executeBlocking_refused transfers length _ offset (by omega) (Or.inl (by omega)))
  | tOut =>
      have transfers : request.requestType.transfers = true := by rw [kind]; rfl
      by_cases inside : request.offset + request.length ≤ (image file).length ∧ device.readOnly = false
      · obtain ⟨final, run, memory, lives, agrees⟩ :=
          executeBlocking_write faithful capacity bounded leased kind inside.2 inside.1 few
        exact finish _ _ (by simp [Disk.serve, kind, inside]) memory lives agrees run
      · have refused : request.offset + request.length > device.capacity.toNat ∨
            (request.requestType = .tOut ∧ device.readOnly = true) := by
          by_contra accepts
          obtain ⟨low, open_⟩ := not_or.mp accepts
          exact inside ⟨by omega, by simpa [kind] using open_⟩
        exact finish ⟨image file, guest.flat⟩ virtioBlkSIoerr (by simp only [Disk.serve, kind, if_neg inside]) rfl rfl
          ⟨rfl, rfl⟩ (executeBlocking_refused transfers length _ offset (by omega) refused)
  | flush =>
      obtain rfl : leases = [] := by
        rw [accepted.flush_payload kind] at leased
        cases leased
        rfl
      cases supported : device.flushSupported with
      | false =>
          rw [supported] at finish
          exact finish ⟨image file, guest.flat⟩ virtioBlkSUnsupp (by simp [Disk.serve, kind]) rfl rfl ⟨rfl, rfl⟩
            (executeBlocking_status_only (by simp [kind]) (requestStatus_unsupported (Or.inl ⟨kind, rfl⟩) _))
      | true =>
          rw [supported] at finish
          obtain ⟨synced, kept⟩ := faithful.syncData file
          have run : executeBlocking host device.capacity device.readOnly true request [] ⟨guest, file⟩ = _ :=
            executeBlocking_status_only (by simp [kind]) (requestStatus_flush kind ⟨guest, file⟩)
          simp only [synced, if_true] at run
          exact finish ⟨image file, guest.flat⟩ virtioBlkSOk (by simp [Disk.serve, kind]) rfl rfl ⟨kept, rfl⟩ run
  | unsupported code =>
      exact finish ⟨image file, guest.flat⟩ virtioBlkSUnsupp (by simp [Disk.serve, kind]) rfl rfl ⟨rfl, rfl⟩
        (executeBlocking_status_only (by simp [kind]) (requestStatus_unsupported (Or.inr ⟨code, kind⟩) _))

end

/-! ## Sequences of requests -/

theorem step_eq {device : Device} {s : Session F} {job : Job} {request : Request}
    {result : Except DeviceError Completion} {view : IoView F}
    (parsed : parseRequest job.chain (s.prepare job) = (.ok request, guest))
    (executed : execute host device false request ⟨guest, s.view.file⟩ = (result, view)) :
    step host device s job = some ⟨view, s.history ++ [(⟨(s.prepare job).flat, request⟩, result)]⟩ := by
  rw [step, parsed]
  simp only
  rw [executed]

structure Refines (image : F → List UInt8) (device : Device) (disk : Disk) (s : Session F) : Prop where
  live : s.view.guest.leasesLeft = none
  capacity : device.capacity.toNat = (image s.view.file).length
  results : s.history.map Prod.snd =
    (disk.run device.readOnly device.flushSupported (s.history.map Prod.fst)).2.map .ok
  agrees : Agrees image s.view (disk.run device.readOnly device.flushSupported (s.history.map Prod.fst)).1

theorem Refines.step {device : Device} {disk : Disk} {s t : Session F} {job : Job} (faithful : Faithful host image)
    (bounded : device.capacity.toNat < 2 ^ 63) (refines : Refines image device disk s) (fits : Fits s job)
    (next : step host device s job = some t) : Refines image device disk t := by
  rcases parsed : parseRequest job.chain (s.prepare job) with ⟨_ | request, guest⟩
  · simp [Block.step, parsed] at next
  · obtain ⟨header, middle, status, -, accepted, kept⟩ := parseRequest_eq_ok parsed
    have live : (s.prepare job).leasesLeft = none := refines.live
    obtain rfl : guest = s.prepare job := kept.live live
    obtain ⟨offset, used, few⟩ := fits request _ parsed
    obtain ⟨after, executed, agrees, sized, -, left⟩ :=
      execute_serve faithful live accepted refines.capacity bounded offset used few
    have final : t = ⟨after, s.history ++ [(⟨(s.prepare job).flat, request⟩,
        .ok (Disk.serve device.readOnly device.flushSupported ⟨image s.view.file, (s.prepare job).flat⟩ request).2)]⟩ :=
      Option.some.inj (next.symm.trans (step_eq parsed executed))
    have commands : disk.run device.readOnly device.flushSupported (t.history.map Prod.fst) =
        Disk.apply device.readOnly device.flushSupported
          (disk.run device.readOnly device.flushSupported (s.history.map Prod.fst))
          ⟨(s.prepare job).flat, request⟩ := by
      rw [final, List.map_append, Disk.run, List.foldl_append]
      rfl
    have served : Disk.apply device.readOnly device.flushSupported
          (disk.run device.readOnly device.flushSupported (s.history.map Prod.fst)) ⟨(s.prepare job).flat, request⟩ =
        ((Disk.serve device.readOnly device.flushSupported ⟨image s.view.file, (s.prepare job).flat⟩ request).1,
          (disk.run device.readOnly device.flushSupported (s.history.map Prod.fst)).2 ++
            [(Disk.serve device.readOnly device.flushSupported
              ⟨image s.view.file, (s.prepare job).flat⟩ request).2]) := by
      rw [refines.agrees.image_eq]
      rfl
    refine ⟨?_, ?_, ?_, ?_⟩
    · rw [final]
      exact left
    · rw [final, sized]
      exact refines.capacity
    · rw [commands, served, final, List.map_append, List.map_append, refines.results]
      rfl
    · rw [commands, served, final]
      exact agrees

/-- A run of requests that fit is a run of the reference disk: the same answers, image and memory. -/
theorem device_refines_disk {device : Device} (faithful : Faithful host image)
    (live : guest.leasesLeft = none) (capacity : device.capacity.toNat = (image file).length)
    (bounded : device.capacity.toNat < 2 ^ 63)
    {jobs : List Job} {t : Session F} (fits : Execution.Along (step host device) Fits (start guest file) jobs)
    (run : exec (step host device) (start guest file) jobs = some t) :
    let reference := Disk.run device.readOnly device.flushSupported ⟨image file, guest.flat⟩ (t.history.map Prod.fst)
    t.history.map Prod.snd = reference.2.map .ok ∧ image t.view.file = reference.1.image ∧
      t.view.guest.flat = reference.1.memory := by
  have refines := Execution.invariant_along (Refines image device ⟨image file, guest.flat⟩)
    (fun _ _ _ refines fits next => refines.step faithful bounded fits next)
    ⟨live, capacity, rfl, rfl, rfl⟩ fits run
  exact ⟨refines.results, refines.agrees.image_eq, refines.agrees.memory_eq⟩

end

theorem imageFile_faithful : Faithful imageFile id where
  tryClone _ := rfl
  syncData _ := ⟨rfl, rfl⟩
  preadv file lengths offset inside := by
    have total : ((file.drop offset).take lengths.sum).length = lengths.sum := by
      rw [List.length_take, List.length_drop]
      exact Nat.min_eq_left (by simp only [id] at inside; omega)
    exact ⟨congrArg Int.ofNat total, rfl, rfl⟩
  pwritev _ _ _ _ := ⟨rfl, rfl⟩

def sampleDevice : Device := ⟨false, 512, virtioBlkFFlush⟩

-- The guest addresses from 20 on are at the start of the host's memory, so a range across 20 has two parts.
def splitGuest : GuestMemory where
  memory := {
    segments := [⟨0, 64, 20⟩, ⟨20, 0, 44⟩]
    valid := ⟨by decide, by decide, by decide⟩ }
  distinct := by decide
  host _ := 0
  leasesLeft := none

-- The header has type 1 and sector 0.
def writeJob : Job where
  host a := if a = 64 then 1 else if 64 ≤ a ∧ a < 80 then 0 else UInt8.ofNat a
  chain := ⟨0, [⟨0, 16, 1, 1⟩, ⟨16, 8, 1, 2⟩, ⟨30, 3, 1, 3⟩, ⟨40, 1, 2, 0⟩]⟩

def readJob : Job where
  host _ := 0
  chain := ⟨0, [⟨0, 16, 1, 1⟩, ⟨16, 8, 3, 2⟩, ⟨30, 3, 3, 3⟩, ⟨40, 1, 2, 0⟩]⟩

theorem device_refines_disk_write_read :
    ∃ t, exec (step imageFile sampleDevice) (start splitGuest (List.replicate 512 7)) [writeJob, readJob] = some t ∧
      t.history.map Prod.snd = [.ok ⟨0, 1⟩, .ok ⟨0, 12⟩] ∧
      t.view.file = [80, 81, 82, 83, 0, 1, 2, 3, 10, 11, 12] ++ List.replicate 501 7 ∧
      [16, 19, 20, 23, 30, 32].map t.view.guest.flat = [80, 83, 0, 3, 10, 12].map some ∧
      let reference := Disk.run false true ⟨List.replicate 512 7, splitGuest.flat⟩ (t.history.map Prod.fst)
      t.history.map Prod.snd = reference.2.map .ok ∧ t.view.file = reference.1.image ∧
        t.view.guest.flat = reference.1.memory := by
  have along : Execution.Along (step imageFile sampleDevice) Fits (start splitGuest (List.replicate 512 7))
      [writeJob, readJob] :=
    @of_decide_eq_true _ (Execution.Along.decidable _ _) (by decide +kernel)
  have outcome : (exec (step imageFile sampleDevice) (start splitGuest (List.replicate 512 7)) [writeJob, readJob]).map
      (fun t => (t.history.map Prod.snd, t.view.file, [16, 19, 20, 23, 30, 32].map t.view.guest.flat)) =
        some ([.ok ⟨0, 1⟩, .ok ⟨0, 12⟩], [80, 81, 82, 83, 0, 1, 2, 3, 10, 11, 12] ++ List.replicate 501 7,
          [80, 83, 0, 3, 10, 12].map some) := by decide +kernel
  obtain ⟨t, run, observed⟩ := Option.map_eq_some_iff.mp outcome
  rw [Prod.mk.injEq, Prod.mk.injEq] at observed
  obtain ⟨results, file, bytes⟩ := observed
  have capacity : sampleDevice.capacity.toNat = (List.replicate 512 (7 : UInt8)).length := by
    rw [List.length_replicate]
    rfl
  exact ⟨t, run, results, file, bytes, device_refines_disk imageFile_faithful rfl capacity (by decide) along run⟩

/-! ## More vectors than the system call takes -/

def byteSegments (count : Nat) : List DmaSegment := (List.range count).map fun i => ⟨i, i, 1⟩

theorem mem_byteSegments {count : Nat} {segment : DmaSegment} :
    segment ∈ byteSegments count ↔ ∃ i < count, segment = ⟨i, i, 1⟩ := by
  simp [byteSegments, eq_comm]

def byteMemory (count : Nat) (positive : 0 < count) (small : count < 2 ^ 64) : DmaMemory where
  segments := byteSegments count
  valid := {
    nonempty := by simpa [byteSegments] using Nat.ne_of_gt positive
    wellFormed := fun segment member => by
      obtain ⟨i, bound, rfl⟩ := mem_byteSegments.mp member
      exact ⟨Nat.one_pos, by simp only; omega⟩
    ordered := by
      rw [byteSegments, List.pairwise_map]
      exact List.pairwise_lt_range.imp fun less => less }

section
variable {count : Nat} (positive : 0 < count) (small : count < 2 ^ 64)

theorem byteMemory_distinct : (byteMemory count positive small).MapsDistinct := by
  unfold DmaMemory.MapsDistinct byteMemory byteSegments
  rw [List.pairwise_map]
  exact List.pairwise_lt_range.imp fun less => Or.inl less

theorem byteMemory_hostAddress {a : Nat} (bound : a < count) :
    (byteMemory count positive small).hostAddress a = some a := by
  have member : ⟨a, a, 1⟩ ∈ (byteMemory count positive small).segments := mem_byteSegments.mpr ⟨a, bound, rfl⟩
  rw [DmaMemory.hostAddress_of_mem _ member (Nat.le_refl _) (Nat.lt_succ_self a), Nat.sub_self]
  rfl

theorem byteMemory_translate {gpa length : Nat} (some_bytes : 0 < length) (inside : gpa + length ≤ count) :
    ∃ parts, (byteMemory count positive small).translate ⟨gpa, length⟩ = .ok parts := by
  apply DmaMemory.translate_of_mapped _ some_bytes
  intro a low high
  rw [byteMemory_hostAddress positive small (by omega)]
  rfl

theorem byteMemory_checkRange {gpa length : Nat} (some_bytes : 0 < length) (inside : gpa + length ≤ count) :
    (byteMemory count positive small).checkRange ⟨gpa, length⟩ = .ok () := by
  obtain ⟨parts, translated⟩ := byteMemory_translate positive small some_bytes inside
  rw [DmaMemory.checkRange, translated]
  rfl

theorem byteMemory_parts {a b : Nat} {parts : List DmaPart}
    (covers : (byteMemory count positive small).Covers a parts b) : a + parts.length = b := by
  induction parts generalizing a with
  | nil => exact covers
  | cons part rest ih =>
      obtain ⟨-, nonempty, ⟨segment, member, low, high, -⟩, tail⟩ := covers
      obtain ⟨i, -, rfl⟩ := mem_byteSegments.mp member
      have one : part.length = 1 := by
        simp only at low high
        omega
      have := ih tail
      rw [List.length_cons]
      omega

end

def byteGuest : GuestMemory where
  memory := byteMemory (2 ^ 31 + 17) (by decide) (by decide)
  distinct := byteMemory_distinct _ _
  host := fun _ => 0
  leasesLeft := none

def byteChain : DescriptorChain :=
  ⟨0, [⟨2147483648, 16, 1, 1⟩, ⟨0, 2147483648, 3, 2⟩, ⟨2147483664, 1, 2, 0⟩]⟩

theorem byteGuest_parse : parseRequest byteChain byteGuest =
    (.ok ⟨.tIn, 0, [⟨0, 2 ^ 31⟩], ⟨2 ^ 31 + 16, 1⟩⟩, byteGuest) := by
  have read : Store.read byteGuest.flat (2147483648 : UInt64).toNat 16 =
      some (Store.load (fun _ => (0 : UInt8)) (2147483648 : UInt64).toNat 16) := by
    apply Store.read_view
    intro i bound
    have address : (2147483648 : UInt64).toNat = 2 ^ 31 := by decide
    exact byteMemory_hostAddress (by decide) (by decide) (by omega)
  have payload : byteGuest.memory.checkRange (Descriptor.range ⟨0, 2147483648, 3, 2⟩) = .ok () :=
    byteMemory_checkRange (by decide) (by decide) (by decide) (by decide)
  have status : byteGuest.memory.checkRange ⟨(2147483664 : UInt64).toNat, 1⟩ = .ok () :=
    byteMemory_checkRange (by decide) (by decide) (by decide) (by decide)
  have statusMapped := checkRange_read status
  have payloadMapped := checkRange_read payload
  have grammar : Grammar byteGuest.flat byteChain ⟨2147483648, 16, 1, 1⟩ [⟨0, 2147483648, 3, 2⟩]
      ⟨2147483664, 1, 2, 0⟩ (Store.load (fun _ => (0 : UInt8)) (2147483648 : UInt64).toNat 16)
      ⟨.tIn, 0, [⟨0, 2 ^ 31⟩], ⟨2 ^ 31 + 16, 1⟩⟩ := {
    shape := rfl
    headerReadable := by decide
    headerLength := by decide
    headerBytes := read
    statusWritable := by decide
    statusLength := by decide
    statusMapped := statusMapped
    middleMapped := by
      rw [List.forall_mem_singleton]
      exact ⟨by decide, payloadMapped⟩
    requestType := rfl
    directions := ⟨by decide, by decide⟩
    sector := rfl
    payload := rfl
    statusRange := rfl }
  exact parseRequest_of_grammar rfl grammar

def byteDevice : Device := ⟨false, 2147483648, virtioBlkFFlush⟩

def byteRequest : Request := ⟨.tIn, 0, [⟨0, 2 ^ 31⟩], ⟨2 ^ 31 + 16, 1⟩⟩

theorem byteGuest_execute (file : List UInt8) : execute imageFile byteDevice false byteRequest ⟨byteGuest, file⟩ =
    (.error (.descriptor "too many block I/O vectors"), ⟨byteGuest, file⟩) := by
  have live : byteGuest.leasesLeft = none := rfl
  have mapped : byteGuest.memory.checkRange ⟨0, 2 ^ 31⟩ = .ok () :=
    byteMemory_checkRange (by decide) (by decide) (by decide) (by decide)
  have payload : ∀ range ∈ byteRequest.payload, byteGuest.memory.checkRange range = .ok () := by
    intro range member
    rw [List.mem_singleton.mp member]
    exact mapped
  obtain ⟨leases, leasing, leased⟩ := leaseAll_live live payload
  obtain ⟨parts, translated⟩ := checkRange_translate mapped
  have many : leases.flatten.length = 2 ^ 31 := by
    have count : parts.length = 2 ^ 31 := by
      simpa using byteMemory_parts (by decide) (by decide) (byteGuest.memory.translate_covers translated)
    rw [vectors_eq leased, vectors, byteRequest, List.map_singleton, List.sum_singleton, translated]
    exact count
  have statusMapped : byteGuest.memory.checkRange byteRequest.status = .ok () :=
    byteMemory_checkRange (by decide) (by decide) (by decide) (by decide)
  apply execute_of_blocked byteDevice imageFile_faithful live leasing statusMapped
  apply Fallible.bind_of_error
  rw [requestStatus_transfers rfl, transferStatus_eq leased.sum_length, if_neg (by decide), if_neg (by decide),
    if_neg (by decide), transfer_eq, if_pos (by rw [many])]

theorem byteGuest_step (file : List UInt8) :
    step imageFile byteDevice (start byteGuest file) ⟨byteGuest.host, byteChain⟩ =
      some ⟨⟨byteGuest, file⟩, [(⟨byteGuest.flat, byteRequest⟩, .error (.descriptor "too many block I/O vectors"))]⟩ := by
  have parsed : parseRequest byteChain ((start byteGuest file).prepare ⟨byteGuest.host, byteChain⟩) =
      (.ok byteRequest, byteGuest) := byteGuest_parse
  exact step_eq parsed (byteGuest_execute file)

/-- A read of `2^31` bytes inside the image, on a faithful host, is refused for its number of vectors. -/
theorem device_refuses_vectors :
    ∃ (file : List UInt8) (t : Session (List UInt8)), Faithful imageFile id ∧
      byteDevice.capacity.toNat = file.length ∧
      exec (step imageFile byteDevice) (start byteGuest file) [⟨byteGuest.host, byteChain⟩] = some t ∧
      byteRequest.offset + byteRequest.length ≤ file.length ∧ byteRequest.length < 2 ^ 32 - 1 ∧
      Store.Apart 0 (2 ^ 31) byteRequest.status.gpa byteRequest.status.length ∧
      t.history.map (fun entry => (entry.1.request, entry.2)) =
        [(byteRequest, .error (.descriptor "too many block I/O vectors"))] := by
  refine ⟨List.replicate (2 ^ 31) 0, _, imageFile_faithful, ?_,
    Execution.exec_cons_eq_some.mpr ⟨_, byteGuest_step _, Execution.exec_nil _⟩, ?_, by decide, by decide, rfl⟩
  · rw [List.length_replicate]
    decide
  · rw [List.length_replicate]
    decide

end Libvirtio.Block
