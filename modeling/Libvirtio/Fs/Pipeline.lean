import Libvirtio.Device.Access
import Libvirtio.Fs.Device
import Libvirtio.Fs.Symlink

namespace Libvirtio

def DescriptorChain.readableRanges (chain : DescriptorChain) : List DmaRange :=
  (chain.descriptors.filter fun d => !d.writable).map Descriptor.range

def DescriptorChain.writableRanges (chain : DescriptorChain) : List DmaRange :=
  (chain.descriptors.filter Descriptor.writable).map Descriptor.range

theorem DescriptorChain.sum_writableRanges (chain : DescriptorChain) :
    (chain.writableRanges.map DmaRange.length).sum = chain.writableLength := by
  rw [writableRanges, writableLength, List.map_map]
  rfl

namespace Fs

def Leasable (guest : GuestMemory) (range : DmaRange) : Prop :=
  0 < range.length ∧ (Store.read guest.flat range.gpa range.length).isSome

instance (guest : GuestMemory) (range : DmaRange) : Decidable (Leasable guest range) :=
  inferInstanceAs (Decidable (_ ∧ _))

theorem descriptorRange_eq {descriptor : Descriptor} (positive : 0 < descriptor.range.length) :
    descriptorRange descriptor = .ok descriptor.range := by
  refine if_neg fun zero => ?_
  simp [Descriptor.range, zero] at positive

theorem readRange_live {guest : GuestMemory} {range : DmaRange} (live : guest.leasesLeft = none)
    (leasable : Leasable guest range) :
    readRange range guest = (.ok ((Store.read guest.flat range.gpa range.length).getD []), guest) := by
  obtain ⟨parts, translated⟩ := guest.translate_of_read leasable.1 leasable.2
  have leased : lease range guest = (.ok parts, guest) := by
    rw [GuestMemory.lease_live live]
    exact congrArg (·, guest) translated
  rw [readRange, Fallible.bind_of_ok leased, Fallible.bind_of_ok (Fallible.read_apply guest),
    guest.read_of_translate translated]
  rfl

theorem parseDescriptors_live {guest : GuestMemory} (live : guest.leasesLeft = none) {descriptors : List Descriptor}
    (leasable : ∀ d ∈ descriptors, Leasable guest d.range) (request : Bytes) (reply : List DmaRange) :
    parseDescriptors descriptors request reply guest =
      (.ok (request ++ loadRanges guest.flat ((descriptors.filter fun d => !d.writable).map Descriptor.range),
        reply ++ (descriptors.filter Descriptor.writable).map Descriptor.range), guest) := by
  induction descriptors generalizing request reply with
  | nil => simp [parseDescriptors, loadRanges]
  | cons descriptor rest ih =>
      obtain ⟨first, others⟩ := List.forall_mem_cons.mp leasable
      have ranged : (Fallible.ofExcept (descriptorRange descriptor) : DmaM DmaRange) guest =
          (.ok descriptor.range, guest) := by rw [Fallible.ofExcept_apply, descriptorRange_eq first.1]
      rw [parseDescriptors, Fallible.bind_of_ok ranged, Fallible.ite_apply]
      cases writable : descriptor.writable with
      | true =>
          rw [if_pos rfl, ih others, List.filter_cons_of_pos writable,
            List.filter_cons_of_neg (by simp [writable]), List.map_cons, List.append_assoc, List.singleton_append]
      | false =>
          rw [if_neg Bool.false_ne_true, Fallible.bind_of_ok (readRange_live live first), ih others,
            List.filter_cons_of_pos (by simp [writable]), List.filter_cons_of_neg (by simp [writable]),
            List.map_cons, loadRanges_cons, List.append_assoc]

theorem parseChain_live {guest : GuestMemory} {chain : DescriptorChain} (live : guest.leasesLeft = none)
    (leasable : ∀ d ∈ chain.descriptors, Leasable guest d.range)
    (header : fuseInHeaderSize ≤ (loadRanges guest.flat chain.readableRanges).length) :
    parseChain chain guest =
      (if chain.writableRanges = [] then .error (.descriptor "invalid virtio-fs descriptor directions")
        else .ok (loadRanges guest.flat chain.readableRanges, chain.writableRanges), guest) := by
  have parsed : parseDescriptors chain.descriptors [] [] guest =
      (.ok (loadRanges guest.flat chain.readableRanges, chain.writableRanges), guest) :=
    parseDescriptors_live live leasable [] []
  rw [parseChain, Fallible.bind_of_ok parsed]
  simp only [Fallible.ite_apply]
  by_cases empty : chain.writableRanges = []
  · rw [if_pos (Or.inr empty), if_pos empty, Fallible.fail_apply]
  · rw [if_neg (by rw [not_or]; exact ⟨by omega, empty⟩), if_neg empty, Fallible.pure_apply]

theorem writeParts_eq (reply : Bytes) (parts : List DmaPart) {copied : Nat} (below : copied ≤ reply.length)
    (host : Nat → UInt8) :
    writeParts reply parts copied host =
      (min reply.length (copied + (parts.map DmaPart.length).sum), scatter host parts (reply.drop copied)) := by
  induction parts generalizing copied host with
  | nil => simp [writeParts, scatter, Nat.min_eq_right below]
  | cons part rest ih =>
      have chunk : (reply.drop copied).take (min (reply.length - copied) part.length) =
          (reply.drop copied).take part.length := by
        have whole : (reply.drop copied).take (reply.length - copied) = reply.drop copied :=
          List.take_of_length_le (by rw [List.length_drop])
        rw [Nat.min_comm, ← List.take_take, whole]
      rw [writeParts, scatter, List.map_cons, List.sum_cons]
      simp only [chunk]
      by_cases last : copied + min (reply.length - copied) part.length = reply.length
      · have done : reply.drop (copied + part.length) = [] := List.drop_eq_nil_of_le (by omega)
        rw [if_pos last, List.drop_drop, done, scatter_nil, last]
        congr 1
        omega
      · have filled : min (reply.length - copied) part.length = part.length := by omega
        rw [if_neg last, filled, ih (by omega), List.drop_drop, Nat.add_assoc]

theorem writeRanges_leased {reply : Bytes} (small : reply.length < 2 ^ 32) {ranges : List DmaRange}
    {leases : List (List DmaPart)} {guest : GuestMemory} (live : guest.leasesLeft = none)
    (leased : guest.memory.Leased ranges leases) {copied : Nat} (below : copied < reply.length)
    (fits : reply.length - copied ≤ (ranges.map DmaRange.length).sum) :
    writeRanges reply ranges copied guest = (.ok (UInt32.ofNat reply.length),
      { guest with host := scatter guest.host leases.flatten (reply.drop copied) }) := by
  induction ranges generalizing guest leases copied with
  | nil =>
      simp only [List.map_nil, List.sum_nil] at fits
      omega
  | cons range rest ih =>
      rw [List.map_cons, List.sum_cons] at fits
      cases leased with
      | @cons _ parts _ others translated tail =>
          have given : lease range guest = (.ok parts, guest) := by rw [GuestMemory.lease_live live, translated]
          have total := guest.memory.length_of_translate translated
          rw [writeRanges, Fallible.bind_of_ok given, Fallible.bind_of_ok (Fallible.read_apply guest),
            writeParts_eq reply parts (Nat.le_of_lt below), total]
          simp only
          rw [Fallible.bind_of_ok (Fallible.update_apply _ guest), List.flatten_cons, scatter_append, scatter_take,
            total, List.drop_drop]
          by_cases last : min reply.length (copied + range.length) = reply.length
          · have done : reply.drop (copied + range.length) = [] := List.drop_eq_nil_of_le (by omega)
            rw [if_pos last, last, if_pos small, done, scatter_nil, Fallible.pure_apply]
          · have filled : min reply.length (copied + range.length) = copied + range.length := by omega
            rw [if_neg last, filled]
            exact @ih others { guest with host := scatter guest.host parts (reply.drop copied) } live tail _ (by omega)
              (by omega)

theorem replyCapacity_eq {ranges : List DmaRange} {total : Nat}
    (fits : total + (ranges.map DmaRange.length).sum < 2 ^ 64) :
    replyCapacity ranges total = some (total + (ranges.map DmaRange.length).sum) := by
  induction ranges generalizing total with
  | nil => rfl
  | cons range rest ih =>
      rw [List.map_cons, List.sum_cons] at fits ⊢
      rw [replyCapacity, checkedAdd, if_pos (by omega), Option.bind_some, ih (by omega), Nat.add_assoc]

theorem capacity_fits {guest : GuestMemory} {ranges : List DmaRange} (disjoint : ranges.Pairwise DmaRange.Apart)
    (leasable : ∀ range ∈ ranges, Leasable guest range) : (ranges.map DmaRange.length).sum < 2 ^ 64 := by
  have below : ∀ region ∈ ranges.map (fun range => (range.gpa, range.length)), region.1 + region.2 ≤ 2 ^ 64 - 1 := by
    intro region member
    obtain ⟨range, listed, rfl⟩ := List.mem_map.mp member
    have := guest.fits_of_read (leasable range listed).1 (leasable range listed).2
    omega
  have bounded := Store.sum_le_of_apart (List.pairwise_map.mpr disjoint) below
  rw [List.map_map] at bounded
  have : (ranges.map DmaRange.length).sum ≤ 2 ^ 64 - 1 := bounded
  omega

theorem writeReply_leased {reply : Bytes} (small : reply.length < 2 ^ 32) {ranges : List DmaRange}
    {leases : List (List DmaPart)} {guest : GuestMemory} (live : guest.leasesLeft = none)
    (leased : guest.memory.Leased ranges leases) (bounded : (ranges.map DmaRange.length).sum < 2 ^ 64)
    (fits : reply.length ≤ (ranges.map DmaRange.length).sum) :
    writeReply ranges reply guest = (.ok (UInt32.ofNat reply.length),
      { guest with host := scatter guest.host leases.flatten reply }) := by
  rw [writeReply, Fallible.ite_apply]
  by_cases empty : reply = []
  · subst empty
    rw [if_pos rfl, scatter_nil]
    rfl
  · rw [if_neg empty, replyCapacity_eq (by rwa [Nat.zero_add]), Nat.zero_add]
    simp only
    rw [if_neg (by omega)]
    exact writeRanges_leased small live leased (List.length_pos_iff.mpr empty) (by omega)

theorem writeReply_live {reply : Bytes} (small : reply.length < 2 ^ 32) {ranges : List DmaRange} {guest : GuestMemory}
    (live : guest.leasesLeft = none) (leasable : ∀ range ∈ ranges, Leasable guest range)
    (disjoint : ranges.Pairwise DmaRange.Apart) (fits : reply.length ≤ (ranges.map DmaRange.length).sum) :
    ∃ after, writeReply ranges reply guest = (.ok (UInt32.ofNat reply.length), after) ∧
      guest.Updated (storeRanges guest.flat ranges reply) after := by
  have addresses : ∀ range ∈ ranges, range.gpa < 2 ^ 64 := fun range member => by
    have := guest.fits_of_read (leasable range member).1 (leasable range member).2
    omega
  obtain ⟨leases, leased⟩ := guest.leased_of_mapped addresses fun range member => (leasable range member).2
  exact ⟨_, writeReply_leased small live leased (capacity_fits disjoint leasable) fits, rfl, rfl,
    leased.scatter guest.distinct guest.host reply⟩

theorem finishReply_length {unique : UInt64} {result : Except DeviceError Bytes} {reply : Bytes}
    (finished : finishReply unique result = .ok reply) : reply.length < 2 ^ 32 := by
  cases result with
  | error error =>
      cases finished
      simp [errorReply]
  | ok body =>
      obtain ⟨short, rfl⟩ := successReply_eq_ok.mp finished
      rwa [length_frame]

theorem executeRequest_length {root : Path} {host : Host} {inodes : FsInodes} {request reply : Bytes}
    (answered : ((executeRequest root request).run host inodes).1 = .ok reply) : reply.length < 2 ^ 32 := by
  unfold executeRequest at answered
  split at answered
  · cases answered
  split at answered
  · cases answered
    simp [errorReply]
  split at answered
  · cases answered
    decide
  split at answered
  · cases answered
    simp [errorReply]
  · rw [Program.run_bind, Program.run_attempt] at answered
    exact finishReply_length answered

/-- A chain of non-empty mapped ranges that meet neither each other nor the used ring. -/
structure Servable (layout : QueueLayout) (guest : GuestMemory) (chain : DescriptorChain) : Prop where
  ready : VirtQueue.Ready ⟨layout⟩ guest
  leasable : ∀ d ∈ chain.descriptors, Leasable guest d.range
  disjoint : (chain.descriptors.map Descriptor.range).Pairwise DmaRange.Apart
  ringApart : ∀ d ∈ chain.descriptors, d.range.Apart layout.used

structure Served (layout : QueueLayout) (index : Nat) (state : QueueState) (chain : DescriptorChain) (reply : Bytes)
    (before after : DeviceView State) : Prop where
  states : after.states = before.states.set index { state with nextUsed := state.nextUsed + 1 }
  used : ∃ usedLength : UInt32, usedLength.toNat = reply.length ∧
    after.log = before.log ++ [.completed index chain usedLength] ∧
    before.guest.Updated (VirtQueue.completed ⟨layout⟩ state.nextUsed chain.head usedLength
      (storeRanges before.guest.flat chain.writableRanges reply)) after.guest
  stored : loadRanges after.guest.flat chain.writableRanges =
    reply ++ (loadRanges before.guest.flat chain.writableRanges).drop reply.length
  kept : loadRanges after.guest.flat chain.readableRanges = loadRanges before.guest.flat chain.readableRanges

theorem executeWork_answered {root : Path} {host : Host} {request reply : Bytes} {view : DeviceView State}
    (answered : ((executeRequest root request).run host view.backend.inodes).1 = .ok reply) :
    ∃ inodes, executeWork false root host request view =
      (.ok reply, { view with backend := { view.backend with inodes } }) := by
  have live : checkLive false view = (.ok (), view) := rfl
  refine ⟨((executeRequest root request).run host view.backend.inodes).2, ?_⟩
  rw [executeWork, Fallible.bind_of_ok live, tryBackend, Fallible.bind_apply, onBackend, runWorker]
  simp only [answered]
  rfl

namespace Servable
variable {layout : QueueLayout} {guest : GuestMemory} {chain : DescriptorChain}

theorem writable_leasable (servable : Servable layout guest chain) :
    ∀ range ∈ chain.writableRanges, Leasable guest range ∧ range.Apart layout.used := by
  intro range member
  obtain ⟨d, listed, rfl⟩ := List.mem_map.mp member
  have member := List.mem_of_mem_filter listed
  exact ⟨servable.leasable d member, servable.ringApart d member⟩

theorem writable_disjoint (servable : Servable layout guest chain) :
    chain.writableRanges.Pairwise DmaRange.Apart :=
  servable.disjoint.sublist (List.filter_sublist.map _)

theorem readable_apart (servable : Servable layout guest chain) :
    ∀ range ∈ chain.readableRanges, range.Apart layout.used ∧ ∀ other ∈ chain.writableRanges, range.Apart other := by
  intro range member
  obtain ⟨d, listed, rfl⟩ := List.mem_map.mp member
  obtain ⟨inside, readable⟩ := List.mem_filter.mp listed
  refine ⟨servable.ringApart d inside, fun other member => ?_⟩
  obtain ⟨e, listed, rfl⟩ := List.mem_map.mp member
  obtain ⟨within, writable⟩ := List.mem_filter.mp listed
  have distinct : d ≠ e := by
    rintro rfl
    rw [writable] at readable
    cases readable
  have : Std.Symm fun d e : Descriptor => d.range.Apart e.range := ⟨fun _ _ => Or.symm⟩
  exact (List.pairwise_map.mp servable.disjoint).forall inside within distinct

theorem served (servable : Servable layout guest chain) {reply : Bytes} (fits : reply.length ≤ chain.writableLength)
    {nextUsed : UInt16} {usedLength : UInt32} {flat : Nat → Option UInt8}
    (written : flat = VirtQueue.completed ⟨layout⟩ nextUsed chain.head usedLength
      (storeRanges guest.flat chain.writableRanges reply)) :
    loadRanges flat chain.writableRanges = reply ++ (loadRanges guest.flat chain.writableRanges).drop reply.length ∧
      loadRanges flat chain.readableRanges = loadRanges guest.flat chain.readableRanges := by
  subst written
  constructor
  · rw [← loadRanges_storeRanges servable.writable_disjoint
      (fun range member => (servable.writable_leasable range member).1.2) (by rwa [chain.sum_writableRanges])]
    refine loadRanges_congr fun range member => ?_
    exact VirtQueue.completed_frame servable.ready (servable.writable_leasable range member).2
  · refine loadRanges_congr fun range member => ?_
    obtain ⟨ring, others⟩ := servable.readable_apart range member
    rw [VirtQueue.completed_frame servable.ready ring, storeRanges_frame others]

end Servable

section
variable {root : Path} {host : Host} {resources : Resources} {index : Nat} {layout : QueueLayout} {state : QueueState}
variable {chain : DescriptorChain} {view : DeviceView State} {reply : Bytes}

theorem finishWork_served (configured : resources.queues[index]? = some layout)
    (known : view.states[index]? = some state) (servable : Servable layout view.guest chain)
    (fits : reply.length ≤ chain.writableLength) (small : reply.length < 2 ^ 32) :
    ∃ after, finishWork resources index chain chain.writableRanges reply view = (.ok (), after) ∧
      Served layout index state chain reply view after := by
  obtain ⟨stored, write, updated⟩ := writeReply_live small servable.ready.live
    (fun range member => (servable.writable_leasable range member).1) servable.writable_disjoint
    (by rwa [chain.sum_writableRanges])
  obtain ⟨after, complete, completed⟩ := @completeQueue_ready State resources { view with guest := stored } index layout
    state configured known (servable.ready.of_updated updated) chain (UInt32.ofNat reply.length)
  simp only [updated.flat_eq] at completed
  have served := servable.served fits completed.flat_eq
  refine ⟨_, (Fallible.bind_of_ok (onDma_of_ok write)).trans complete, rfl, ⟨UInt32.ofNat reply.length, ?_, rfl, ?_⟩,
    served.1, served.2⟩
  · rw [UInt32.toNat_ofNat']
    omega
  · exact ⟨completed.memory.trans updated.memory, completed.leasesLeft.trans updated.leasesLeft, completed.flat_eq⟩

/-- A chain whose reply fits is completed with it exactly when it has a writable descriptor, also when the reply
is empty. -/
theorem process_completes_iff (configured : resources.queues[index]? = some layout)
    (known : view.states[index]? = some state) (servable : Servable layout view.guest chain)
    (header : fuseInHeaderSize ≤ (loadRanges view.guest.flat chain.readableRanges).length)
    (answered : ((executeRequest root (loadRanges view.guest.flat chain.readableRanges)).run host
      view.backend.inodes).1 = .ok reply)
    (fits : reply.length ≤ chain.writableLength) :
    (∃ after, process resources false root host index chain view = (.ok (), after) ∧
        Served layout index state chain reply view after) ↔
      ∃ d ∈ chain.descriptors, d.writable = true := by
  have parsed := parseChain_live servable.ready.live servable.leasable header
  have writable : chain.writableRanges ≠ [] ↔ ∃ d ∈ chain.descriptors, d.writable = true := by
    simp [DescriptorChain.writableRanges]
  rw [← writable, process]
  constructor
  · rintro ⟨after, run, -⟩ empty
    rw [if_pos empty] at parsed
    rw [Fallible.bind_of_error (onDma_of_error parsed)] at run
    cases run
  · intro nonempty
    rw [if_neg nonempty] at parsed
    obtain ⟨inodes, executed⟩ := executeWork_answered answered
    obtain ⟨after, run, served⟩ := @finishWork_served resources index layout state chain
      { view with backend := { view.backend with inodes } } reply configured known servable fits
      (executeRequest_length answered)
    rw [Fallible.bind_of_ok (onDma_of_ok parsed)]
    simp only
    rw [Fallible.bind_of_ok executed]
    exact ⟨after, run, served.states, served.used, served.stored, served.kept⟩

end

def sampleLayout : QueueLayout where
  index := 0
  size := 1
  descriptors := ⟨0, 16⟩
  available := ⟨16, 6⟩
  used := ⟨32, 12⟩

def sampleResources : Resources where
  queues := [sampleLayout]
  interrupts := [fun _ _ => .ok ()]
  negotiatedFeatures := 0

def sampleView (request : Bytes) : DeviceView State where
  guest := {
    memory := DmaMemory.single ⟨0, 0, 256⟩ (by decide)
    distinct := by decide
    host := fun a => if 64 ≤ a then (request[a - 64]?).getD 0 else 0
    leasesLeft := none }
  states := [QueueState.new]
  backend := ⟨FsInodes.new sampleRoot, []⟩
  log := []

def sampleReadable : Descriptor := { address := 64, length := 40, flags := 0, next := 0 }

def sampleWritable : Descriptor := { address := 128, length := 96, flags := virtqDescFWrite, next := 0 }

theorem process_completes_iff_statfs :
    ∃ after, process sampleResources false sampleRoot (sampleHost .other) 0 ⟨0, [sampleReadable, sampleWritable]⟩
        (sampleView (sampleRequest fuseStatfs 1 [])) = (.ok (), after) ∧
      Served sampleLayout 0 QueueState.new ⟨0, [sampleReadable, sampleWritable]⟩
        (LittleEndian.encode 4 96 ++ LittleEndian.encode 4 0 ++ LittleEndian.encode 8 7 ++ statfsReply)
        (sampleView (sampleRequest fuseStatfs 1 [])) after := by
  have ready : VirtQueue.Ready ⟨sampleLayout⟩ (sampleView (sampleRequest fuseStatfs 1 [])).guest :=
    ⟨rfl, by decide +kernel⟩
  refine (process_completes_iff rfl rfl ⟨ready, ?_, ?_, ?_⟩ ?_ ?_ ?_).mpr ?_
  all_goals decide +kernel

-- The reply to a `FUSE_FORGET` is empty and fits any chain, but the parser wants a writable descriptor.
theorem process_forget_refused :
    Servable sampleLayout (sampleView (sampleRequest fuseForget 1 [])).guest ⟨0, [sampleReadable]⟩ ∧
      loadRanges (sampleView (sampleRequest fuseForget 1 [])).guest.flat
        (DescriptorChain.readableRanges ⟨0, [sampleReadable]⟩) = sampleRequest fuseForget 1 [] ∧
      FuseInHeader.parse (sampleRequest fuseForget 1 []) =
        .ok { length := 40, opcode := fuseForget, unique := 7, nodeId := 1 } ∧
      ((executeRequest sampleRoot (sampleRequest fuseForget 1 [])).run (sampleHost .other)
        (FsInodes.new sampleRoot)).1 = .ok [] ∧
      (process sampleResources false sampleRoot (sampleHost .other) 0 ⟨0, [sampleReadable]⟩
        (sampleView (sampleRequest fuseForget 1 []))).1 =
        .error (.error (.descriptor "invalid virtio-fs descriptor directions")) := by
  refine ⟨⟨⟨rfl, ?_⟩, ?_, ?_, ?_⟩, ?_, ?_, ?_, ?_⟩
  all_goals decide +kernel

end Fs

end Libvirtio
