import Libvirtio.Block.Status
import Libvirtio.Device.Machine
import Mathlib.Algebra.Order.BigOperators.Group.List

namespace Libvirtio

namespace DescriptorChain
variable {chain : DescriptorChain}

theorem writableLength_eq (all : ∀ d ∈ chain.descriptors, d.writable = true) :
    chain.writableLength = (chain.descriptors.map fun d => d.length.toNat).sum := by
  rw [writableLength, List.filter_eq_self.mpr all]

theorem writableLength_eq_zero (none : ∀ d ∈ chain.descriptors, d.writable = false) : chain.writableLength = 0 := by
  rw [writableLength, List.filter_eq_nil_iff.mpr fun d member => by simp [none d member]]
  rfl

theorem length_le_writableLength {d : Descriptor} (member : d ∈ chain.descriptors) (writable : d.writable = true) :
    d.length.toNat ≤ chain.writableLength := by
  refine List.le_sum_of_mem (List.mem_map.mpr ⟨d, List.mem_filter.mpr ⟨member, writable⟩, rfl⟩)

end DescriptorChain

theorem all_writable {descriptors : List Descriptor} (checked : ¬descriptors.any (fun d => !d.writable) = true) :
    ∀ d ∈ descriptors, d.writable = true := by
  simpa using checked

theorem capacityFrom_eq_ok {reason : String} {descriptors : List Descriptor} {total capacity : Nat}
    (ok : capacityFrom reason descriptors total = .ok capacity) :
    capacity = total + (descriptors.map fun d => d.length.toNat).sum := by
  induction descriptors generalizing total with
  | nil =>
      cases ok
      rfl
  | cons d rest ih =>
      rw [capacityFrom, checkedAdd] at ok
      split at ok
      · cases ok
      · rename_i next added
        split at added
        · cases added
          rw [ih ok, List.map_cons, List.sum_cons, Nat.add_assoc]
        · cases added

theorem Network.writeRxFrame_length {chain : DescriptorChain} {frame : List UInt8} {usedLength : UInt32}
    {guest after : GuestMemory} (run : writeRxFrame chain frame guest = (.ok usedLength, after)) :
    usedLength.toNat ≤ chain.writableLength := by
  rw [writeRxFrame, Fallible.ite_apply] at run
  split at run
  · cases run
  rw [Fallible.ite_apply] at run
  split at run
  · cases run
  rename_i readable
  rw [Fallible.bind_eq_ok] at run
  obtain ⟨_, _, written, run⟩ := run
  rw [writeChain, Fallible.bind_eq_ok] at written
  obtain ⟨capacity, _, summed, written⟩ := written
  rw [Fallible.ofExcept_eq_ok] at summed
  have total := capacityFrom_eq_ok summed.1
  rw [Fallible.ite_apply] at written run
  split at written
  · cases written
  split at run
  · cases run
    rw [DescriptorChain.writableLength_eq (all_writable readable), UInt32.toNat_ofNat']
    omega
  · cases run

theorem Vsock.writePacket_length {chain : DescriptorChain} {bytes : List UInt8} {guest after : GuestMemory}
    (run : writePacket chain bytes guest = (.ok (), after)) : bytes.length ≤ chain.writableLength := by
  rw [writePacket, Fallible.ite_apply] at run
  split at run
  · cases run
  rename_i readable
  rw [Fallible.bind_eq_ok] at run
  obtain ⟨capacity, _, summed, run⟩ := run
  rw [Fallible.ofExcept_eq_ok] at summed
  have total := capacityFrom_eq_ok summed.1
  rw [Fallible.ite_apply] at run
  split at run
  · cases run
  · rw [DescriptorChain.writableLength_eq (all_writable readable)]
    omega

theorem Console.writableCapacityFrom_eq_ok {descriptors : List Descriptor} {total capacity : Nat}
    (ok : writableCapacityFrom descriptors total = .ok capacity) :
    (∀ d ∈ descriptors, d.writable = true) ∧ capacity = total + (descriptors.map fun d => d.length.toNat).sum := by
  induction descriptors generalizing total with
  | nil =>
      cases ok
      exact ⟨fun d member => absurd member List.not_mem_nil, rfl⟩
  | cons d rest ih =>
      rw [writableCapacityFrom] at ok
      split at ok
      · cases ok
      rename_i writable
      rw [checkedAdd] at ok
      split at ok
      · cases ok
      · rename_i next added
        split at added
        · cases added
          obtain ⟨others, capacity⟩ := ih ok
          rw [List.forall_mem_cons]
          refine ⟨⟨by simpa using writable, others⟩, ?_⟩
          rw [capacity, List.map_cons, List.sum_cons, Nat.add_assoc]
        · cases added

theorem Console.writeChain_length {chain : DescriptorChain} {bytes : List UInt8} {guest after : GuestMemory}
    (run : writeChain chain bytes guest = (.ok (), after)) : bytes.length ≤ chain.writableLength := by
  rw [writeChain, Fallible.bind_eq_ok] at run
  obtain ⟨capacity, _, summed, run⟩ := run
  rw [Fallible.ofExcept_eq_ok] at summed
  obtain ⟨all, total⟩ := writableCapacityFrom_eq_ok summed.1
  rw [Fallible.ite_apply] at run
  split at run
  · cases run
  · rw [DescriptorChain.writableLength_eq all]
    omega

theorem Memory.parseRequest_length {chain : DescriptorChain} {request : Request} {guest after : GuestMemory}
    (run : parseRequest chain guest = (.ok request, after)) : responseSize ≤ chain.writableLength := by
  rcases descriptors : chain.descriptors with _ | ⟨first, _ | ⟨response, _ | ⟨extra, rest⟩⟩⟩
  · simp [parseRequest, descriptors] at run
  · simp [parseRequest, descriptors] at run
  · simp only [parseRequest, descriptors, Fallible.ite_apply] at run
    split at run
    · cases run
    split at run
    · cases run
    rename_i _ sound
    simp only [not_or, Decidable.not_not] at sound
    rw [← sound.2]
    exact DescriptorChain.length_le_writableLength (by simp [descriptors]) sound.1
  · simp [parseRequest, descriptors] at run

theorem Vsock.readPacket_length {chain : DescriptorChain} {packet : Packet} {guest after : GuestMemory}
    (run : readPacket chain guest = (.ok packet, after)) : chain.writableLength = 0 := by
  rw [readPacket, Fallible.ite_apply] at run
  split at run
  · cases run
  · rename_i readable
    exact DescriptorChain.writableLength_eq_zero (by simpa using readable)

theorem Fs.replyCapacity_eq_some {ranges : List DmaRange} {total capacity : Nat}
    (ok : replyCapacity ranges total = some capacity) :
    capacity = total + (ranges.map DmaRange.length).sum := by
  induction ranges generalizing total with
  | nil =>
      cases ok
      rfl
  | cons range rest ih =>
      rw [replyCapacity] at ok
      obtain ⟨next, added, ok⟩ := Option.bind_eq_some_iff.mp ok
      rw [checkedAdd] at added
      split at added
      · cases added
        rw [ih ok, List.map_cons, List.sum_cons, Nat.add_assoc]
      · cases added

theorem Fs.writeRanges_length {reply : Bytes} {ranges : List DmaRange} {copied : Nat} {usedLength : UInt32}
    {guest after : GuestMemory} (run : writeRanges reply ranges copied guest = (.ok usedLength, after)) :
    usedLength.toNat = reply.length := by
  induction ranges generalizing copied guest with
  | nil => cases run
  | cons range rest ih =>
      rw [writeRanges, Fallible.bind_eq_ok] at run
      obtain ⟨parts, leased, -, run⟩ := run
      rw [Fallible.bind_of_ok (Fallible.read_apply leased)] at run
      simp only at run
      rw [Fallible.bind_of_ok (Fallible.update_apply _ leased), Fallible.ite_apply, Fallible.ite_apply] at run
      split at run
      · rename_i finished
        split at run
        · cases run
          rw [UInt32.toNat_ofNat', finished]
          omega
        · cases run
      · exact ih run

theorem Fs.writeReply_length {ranges : List DmaRange} {reply : Bytes} {usedLength : UInt32} {guest after : GuestMemory}
    (run : writeReply ranges reply guest = (.ok usedLength, after)) :
    usedLength.toNat ≤ (ranges.map DmaRange.length).sum := by
  rw [writeReply, Fallible.ite_apply] at run
  split at run
  · cases run
    exact Nat.zero_le _
  cases capacity : replyCapacity ranges 0 with
  | none =>
      rw [capacity] at run
      cases run
  | some total =>
      rw [capacity] at run
      simp only [Fallible.ite_apply] at run
      split at run
      · cases run
      · have := writeRanges_length run
        have := replyCapacity_eq_some capacity
        omega

namespace Block
variable {F : Type} {host : HostFile F}

theorem onMemory_eq_ok {α : Type} {access : DmaM α} {view after : IoView F} {a : α}
    (run : onMemory access view = (.ok a, after)) : access view.guest = (.ok a, after.guest) := by
  rw [onMemory, Fallible.zoom_apply] at run
  obtain ⟨returned, rfl⟩ := Prod.mk.inj run
  exact Prod.ext returned rfl

theorem executeBlocking_length {capacity : UInt64} {readOnly flushSupported : Bool} {request : Request}
    {payload : List (List DmaPart)} {view after : IoView F} {completion : Completion} {value : UInt8}
    (leased : (payload.flatten.map DmaPart.length).sum = request.length)
    (run : executeBlocking host capacity readOnly flushSupported request payload view =
      (.ok (completion, value), after)) :
    completion.usedLength.toNat = 1 ∨
      (request.requestType = .tIn ∧ completion.usedLength.toNat = 1 + request.length) := by
  rw [executeBlocking, Fallible.bind_eq_ok] at run
  obtain ⟨status, _, -, run⟩ := run
  rw [completionLength_eq leased, Fallible.bind_eq_ok] at run
  obtain ⟨usedLength, _, counted, run⟩ := run
  cases run
  rw [Fallible.ofExcept_eq_ok] at counted
  obtain ⟨counted, -⟩ := counted
  rw [UInt32.toNat_ofNat']
  split at counted
  · rename_i reading
    split at counted
    · cases counted
      exact Or.inr ⟨reading.2, by omega⟩
    · cases counted
  · cases counted
    exact Or.inl rfl

theorem execute_length {device : Device} {down : Bool} {request : Request} {view after : IoView F}
    {completion : Completion} (run : execute host device down request view = (.ok completion, after)) :
    completion.usedLength.toNat = 1 ∨
      (request.requestType = .tIn ∧ completion.usedLength.toNat = 1 + request.length) := by
  rw [execute, Fallible.bind_eq_ok] at run
  obtain ⟨_, _, -, run⟩ := run
  rw [Fallible.bind_eq_ok] at run
  obtain ⟨payload, _, leased, run⟩ := run
  rw [Fallible.bind_eq_ok] at run
  obtain ⟨_, _, -, run⟩ := run
  rw [Fallible.bind_eq_ok] at run
  obtain ⟨_, _, -, run⟩ := run
  rw [Fallible.bind_eq_ok] at run
  obtain ⟨⟨_, value⟩, _, executed, run⟩ := run
  rw [Fallible.bind_eq_ok] at run
  obtain ⟨_, _, -, run⟩ := run
  cases run
  exact executeBlocking_length (leaseAll_eq_ok (onMemory_eq_ok leased)).1.sum_length executed

def Request.Within (request : Request) (chain : DescriptorChain) : Prop :=
  1 ≤ chain.writableLength ∧ (request.requestType = .tIn → 1 + request.length ≤ chain.writableLength)

theorem parseRequest_within {chain : DescriptorChain} {request : Request} {guest after : GuestMemory}
    (run : parseRequest chain guest = (.ok request, after)) : request.Within chain := by
  obtain ⟨header, middle, status, descriptors, accepted, -⟩ := parseRequest_eq_ok run
  have last : status ∈ chain.descriptors := by simp [descriptors]
  have one : status.length.toNat = 1 := by
    rw [accepted.statusLength]
    rfl
  refine ⟨?_, fun reading => ?_⟩
  · rw [← one]
    exact DescriptorChain.length_le_writableLength last accepted.statusWritable
  · have writable : ∀ d ∈ middle, d.writable = true := by
      intro d member
      have direction := (accepted.directions d member).1
      rw [reading] at direction
      cases flag : d.writable with
      | true => rfl
      | false =>
          rw [flag] at direction
          cases direction
    have counted : request.length = (middle.map fun d => d.length.toNat).sum := by
      rw [Request.length, accepted.payload, List.map_map]
      rfl
    rw [DescriptorChain.writableLength, descriptors, List.filter_cons_of_neg (by simp [accepted.headerReadable]),
      List.filter_append, List.filter_eq_self.mpr writable, List.filter_cons_of_pos accepted.statusWritable,
      List.filter_nil, List.map_append, List.sum_append, counted]
    simp [one, Nat.add_comm]

theorem Request.Within.execute {device : Device} {down : Bool} {request : Request} {chain : DescriptorChain}
    {view after : IoView F} {completion : Completion} (within : request.Within chain)
    (run : execute host device down request view = (.ok completion, after)) :
    completion.usedLength.toNat ≤ chain.writableLength := by
  rcases execute_length run with one | ⟨reading, all⟩
  · rw [one]
    exact within.1
  · rw [all]
    exact within.2 reading

end Block

theorem Fs.parseDescriptors_ranges {descriptors : List Descriptor} {request parsed : Bytes}
    {reply ranges : List DmaRange} {guest after : GuestMemory}
    (run : parseDescriptors descriptors request reply guest = (.ok (parsed, ranges), after)) :
    ranges = reply ++ (descriptors.filter Descriptor.writable).map Descriptor.range := by
  induction descriptors generalizing request reply guest with
  | nil =>
      cases run
      simp
  | cons d rest ih =>
      rw [parseDescriptors, Fallible.bind_eq_ok] at run
      obtain ⟨range, _, ranged, run⟩ := run
      rw [Fallible.ofExcept_eq_ok, descriptorRange] at ranged
      obtain ⟨ranged, rfl⟩ := ranged
      split at ranged
      · cases ranged
      cases ranged
      rw [Fallible.ite_apply] at run
      split at run
      · rename_i writable
        rw [ih run, List.filter_cons_of_pos writable, List.map_cons, List.append_assoc, List.singleton_append]
      · rename_i readable
        rw [Fallible.bind_eq_ok] at run
        obtain ⟨_, _, -, run⟩ := run
        rw [ih run, List.filter_cons_of_neg readable]

theorem Fs.parseChain_length {chain : DescriptorChain} {request : Bytes} {ranges : List DmaRange}
    {guest after : GuestMemory} (run : parseChain chain guest = (.ok (request, ranges), after)) :
    (ranges.map DmaRange.length).sum = chain.writableLength := by
  rw [parseChain, Fallible.bind_eq_ok] at run
  obtain ⟨⟨parsed, reply⟩, _, walked, run⟩ := run
  simp only [Fallible.ite_apply] at run
  split at run
  · cases run
  · cases run
    rw [parseDescriptors_ranges walked, List.nil_append, DescriptorChain.writableLength, List.map_map]
    rfl

end Libvirtio
