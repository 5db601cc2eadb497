import Libvirtio.Block.Status
import Libvirtio.Device.Network
import Libvirtio.Device.Vsock
import Libvirtio.Fs.Device
import Libvirtio.Queue.Access

namespace Libvirtio

/-- Both map the same guest addresses to the same bytes, and neither is revoked. -/
structure GuestMemory.Alike (first second : GuestMemory) : Prop where
  live : first.leasesLeft = none
  live' : second.leasesLeft = none
  flat : first.flat = second.flat

structure QueueView.Alike (first second : QueueView) : Prop where
  state : first.state = second.state
  guest : first.guest.Alike second.guest

/-- What a lease of the range reads, or the error of the lease, over flat memory. -/
def accessed (flat : Nat → Option UInt8) (range : DmaRange) : Except DeviceError (List UInt8) :=
  if range.gpa + range.length < 2 ^ 64 then
    match Store.read flat range.gpa range.length with
    | some bytes => .ok bytes
    | none => .error (.dmaRange range.gpa range.length)
  else .error (.dmaRange range.gpa range.length)

theorem translate_gather (guest : GuestMemory) (range : DmaRange) :
    (guest.memory.translate range).map (gather guest.host) = accessed guest.flat range := by
  unfold accessed
  rcases guest.memory.translate_cases range with ⟨parts, ok, -⟩ | ⟨error, overflow | ⟨a, low, high, unmapped⟩⟩
  · rw [ok, if_pos (guest.memory.translate_fits ok), guest.read_of_translate ok]
    rfl
  · rw [error, if_neg (by omega)]
    rfl
  · have hole : Store.read guest.flat range.gpa range.length = none := by
      rw [← Option.not_isSome_iff_eq_none, Store.read_isSome_iff]
      intro mapped
      have cell := mapped (a - range.gpa) (by omega)
      rw [show range.gpa + (a - range.gpa) = a by omega, GuestMemory.flat, Store.view_isSome, unmapped] at cell
      cases cell
    rw [error, hole]
    split <;> rfl

namespace GuestMemory.Alike
variable {first second : GuestMemory} {range : DmaRange}

theorem translate (alike : first.Alike second) (range : DmaRange) :
    (∃ parts parts', first.memory.translate range = .ok parts ∧ second.memory.translate range = .ok parts' ∧
      gather first.host parts = gather second.host parts') ∨
    ∃ e, first.memory.translate range = .error e ∧ second.memory.translate range = .error e := by
  have same : (first.memory.translate range).map (gather first.host) =
      (second.memory.translate range).map (gather second.host) := by
    rw [translate_gather, translate_gather, alike.flat]
  cases left : first.memory.translate range with
  | error e =>
      cases right : second.memory.translate range with
      | error e' =>
          rw [left, right] at same
          cases same
          exact Or.inr ⟨e, rfl, rfl⟩
      | ok parts =>
          rw [left, right] at same
          cases same
  | ok parts =>
      cases right : second.memory.translate range with
      | error e =>
          rw [left, right] at same
          cases same
      | ok parts' =>
          rw [left, right] at same
          exact Or.inl ⟨parts, parts', rfl, rfl, Except.ok.inj same⟩

theorem checkRange (alike : first.Alike second) (range : DmaRange) :
    first.memory.checkRange range = second.memory.checkRange range := by
  unfold DmaMemory.checkRange
  rcases alike.translate range with ⟨parts, parts', left, right, -⟩ | ⟨e, left, right⟩
  · rw [left, right]
    rfl
  · rw [left, right]

theorem validate (alike : first.Alike second) (layout : QueueLayout) :
    layout.validate first.memory = layout.validate second.memory := by
  unfold QueueLayout.validate
  rw [alike.checkRange, alike.checkRange, alike.checkRange]

theorem updated (alike : first.Alike second) {flat : Nat → Option UInt8} {after after' : GuestMemory}
    (left : first.Updated flat after) (right : second.Updated flat after') : after.Alike after' :=
  ⟨left.leasesLeft.trans alike.live, right.leasesLeft.trans alike.live', left.flat_eq.trans right.flat_eq.symm⟩

end GuestMemory.Alike

abbrev Indifferent {α : Type} (access : DmaM α) : Prop := Fallible.Agrees GuestMemory.Alike access

section
variable {α : Type}

/-- Code that uses its lease only for the bytes that it reads there. -/
theorem leased_indifferent {f : List DmaPart → DmaM α} (g : List UInt8 → DmaM α) {range : DmaRange}
    (reads : ∀ guest parts, guest.memory.translate range = .ok parts → f parts guest = g (gather guest.host parts) guest)
    (rest : ∀ bytes, Indifferent (g bytes)) : Indifferent (lease range >>= f) := by
  intro s t alike
  rw [Fallible.bind_apply, Fallible.bind_apply, GuestMemory.lease_live alike.live, GuestMemory.lease_live alike.live']
  rcases alike.translate range with ⟨parts, parts', left, right, same⟩ | ⟨e, left, right⟩
  · rw [left, right]
    simp only [reads s parts left, reads t parts' right, same]
    exact rest _ s t alike
  · rw [left, right]
    exact ⟨rfl, alike⟩

theorem checkRange_indifferent (range : DmaRange) : Indifferent (checkRange range) :=
  fun _ _ alike => ⟨alike.checkRange range, alike⟩

theorem readBytes_indifferent (gpa length : Nat) : Indifferent (readBytes gpa length) :=
  leased_indifferent
    (fun result =>
      if result.length ≠ length then Fallible.fail (.descriptor "short virtqueue read") else pure result)
    (fun _ _ _ => rfl) fun _ => .ite (fun _ => .fail _) fun _ => .pure _

theorem writeBytes_indifferent (gpa : Nat) (bytes : List UInt8) : Indifferent (writeBytes gpa bytes) := by
  intro s t alike
  rcases alike.translate ⟨gpa, bytes.length⟩ with ⟨parts, parts', left, right, -⟩ | ⟨e, left, right⟩
  · obtain ⟨after, run, updated⟩ := writeBytes_of_translate alike.live left
    obtain ⟨after', run', updated'⟩ := writeBytes_of_translate alike.live' right
    rw [run, run']
    exact ⟨rfl, alike.updated (alike.flat ▸ updated) updated'⟩
  · rw [writeBytes, Fallible.bind_apply, Fallible.bind_apply, GuestMemory.lease_live alike.live,
      GuestMemory.lease_live alike.live', left, right]
    exact ⟨rfl, alike⟩

theorem readU16_indifferent (gpa : Nat) : Indifferent (readU16 gpa) :=
  .bind (readBytes_indifferent gpa 2) fun _ => .pure _

theorem readDescriptors_indifferent (descriptors : List Descriptor) : Indifferent (readDescriptors descriptors) := by
  induction descriptors with
  | nil => exact .pure _
  | cons descriptor rest ih =>
      exact leased_indifferent
        (fun read => do
          let bytes ← readDescriptors rest
          pure (read ++ bytes))
        (fun _ _ _ => rfl) fun _ => .bind ih fun _ => .pure _

end

namespace VirtQueue

theorem readDescriptor_indifferent (queue : VirtQueue) (index : UInt16) : Indifferent (queue.readDescriptor index) := by
  unfold readDescriptor
  split
  · exact .fail _
  · exact .bind (readBytes_indifferent _ _) fun _ => .pure _

theorem readChainFrom_indifferent (queue : VirtQueue) (head : UInt16) (rounds : Nat) (current : UInt16)
    (descriptors : List Descriptor) : Indifferent (queue.readChainFrom head rounds current descriptors) := by
  induction rounds generalizing current descriptors with
  | zero => exact .fail _
  | succ rounds ih =>
      exact .bind (queue.readDescriptor_indifferent current) fun descriptor =>
        .ite (fun _ => .pure _) fun _ => .ite (fun _ => .fail _) fun _ => ih _ _

theorem readChain_indifferent (queue : VirtQueue) (head : UInt16) : Indifferent (queue.readChain head) :=
  .ite (fun _ => .fail _) fun _ => queue.readChainFrom_indifferent head _ _ _

theorem onGuest_agrees {α : Type} {access : DmaM α} (indifferent : Indifferent access) :
    Fallible.Agrees QueueView.Alike (onGuest access) :=
  .zoom indifferent (fun _ _ alike => alike.guest) fun _ _ alike _ _ guest => ⟨alike.state, guest⟩

theorem pop_agrees (queue : VirtQueue) : Fallible.Agrees QueueView.Alike queue.pop := by
  refine .bind (onGuest_agrees (readU16_indifferent _)) fun index => ?_
  refine .read_bind ?_ fun view => .ite (fun _ => .pure _) fun _ => ?_
  · intro s t alike
    rw [alike.state]
  · refine .ite (fun _ => .fail _) fun _ => .bind (onGuest_agrees (readU16_indifferent _)) fun head => ?_
    refine .bind (onGuest_agrees (queue.readChain_indifferent head)) fun chain => .bind (.update ?_) fun _ => .pure _
    intro s t alike
    exact ⟨congrArg (fun state : QueueState => { state with lastAvailable := state.lastAvailable + 1 }) alike.state,
      alike.guest⟩

theorem complete_agrees (queue : VirtQueue) (chain : DescriptorChain) (usedLength : UInt32) :
    Fallible.Agrees QueueView.Alike (queue.complete chain usedLength) := by
  refine .read_bind ?_ fun view => .bind (onGuest_agrees (writeBytes_indifferent _ _)) fun _ => ?_
  · intro s t alike
    rw [alike.state]
  · refine .bind (onGuest_agrees (writeBytes_indifferent _ _)) fun _ => .bind (.update ?_) fun _ =>
      onGuest_agrees (writeBytes_indifferent _ _)
    intro s t alike
    exact ⟨congrArg (fun state : QueueState => { state with nextUsed := state.nextUsed + 1 }) alike.state, alike.guest⟩

end VirtQueue

namespace Block

theorem parsePayload_indifferent (requestType : RequestType) (descriptors : List Descriptor) :
    Indifferent (parsePayload requestType descriptors) := by
  induction descriptors with
  | nil => exact .pure _
  | cons descriptor rest ih =>
      exact .bind (.ofExcept _) fun _ => .bind (.ofExcept _) fun range => .bind (checkRange_indifferent range) fun _ =>
        .bind ih fun ranges => .pure _

theorem header_indifferent {α : Type} {f : List UInt8 → DmaM α} {range : DmaRange}
    (size : range.length = virtioBlkHeaderSize) (rest : ∀ bytes, Indifferent (f bytes)) :
    Indifferent (do
      let parts ← lease range
      let guest ← Fallible.read
      let bytes ← Fallible.ofExcept (copyFromLease guest.host virtioBlkHeaderSize parts [])
      f bytes) := by
  refine leased_indifferent f (fun guest parts ok => ?_) rest
  rw [Fallible.bind_of_ok (Fallible.read_apply guest), copyFromLease_header size ok]
  rfl

theorem parseRequest_indifferent (chain : DescriptorChain) : Indifferent (parseRequest chain) := by
  unfold parseRequest
  split
  · rename_i header next rest _
    refine .ite (fun _ => .fail _) fun sound => .ite (fun _ => .fail _) fun _ => ?_
    have size : header.length.toNat = virtioBlkHeaderSize := Decidable.not_not.mp (not_or.mp sound).2
    have ranged : descriptorRange header = .ok header.range := if_neg fun zero => by rw [zero] at size; cases size
    rw [ranged, Fallible.ofExcept_ok_bind]
    refine .bind (.ofExcept _) fun statusRange => header_indifferent size fun bytes => ?_
    refine .bind (parsePayload_indifferent _ _) fun payload => .ite (fun _ => .fail _) fun _ => ?_
    exact .bind (checkRange_indifferent statusRange) fun _ => .pure _
  · exact .fail _

end Block

namespace Fs

theorem parseDescriptors_indifferent (descriptors : List Descriptor) (request : Bytes) (reply : List DmaRange) :
    Indifferent (parseDescriptors descriptors request reply) := by
  induction descriptors generalizing request reply with
  | nil => exact .pure _
  | cons descriptor rest ih =>
      refine .bind (.ofExcept _) fun range => .ite (fun _ => ih _ _) fun _ => .bind ?_ fun bytes => ih _ _
      exact leased_indifferent pure (fun _ _ _ => rfl) .pure

theorem parseChain_indifferent (chain : DescriptorChain) : Indifferent (parseChain chain) :=
  .bind (parseDescriptors_indifferent _ _ _) fun _ => .ite (fun _ => .fail _) fun _ => .pure _

end Fs

theorem Vsock.readPacket_indifferent (chain : DescriptorChain) : Indifferent (Vsock.readPacket chain) := by
  refine .ite (fun _ => .fail _) fun _ => .bind (readDescriptors_indifferent _) fun bytes =>
    .ite (fun _ => .fail _) fun _ => ?_
  exact .bind (.ofExcept _) fun header => .ite (fun _ => .fail _) fun _ => .bind (.ofExcept _) fun _ => .pure _

theorem Network.readTxFrame_indifferent (chain : DescriptorChain) : Indifferent (Network.readTxFrame chain) :=
  .ite (fun _ => .fail _) fun _ => .bind (readDescriptors_indifferent _) fun _ =>
    .ite (fun _ => .fail _) fun _ => .pure _

namespace VirtQueue

theorem completed_outside (queue : VirtQueue) (nextUsed head : UInt16) (usedLength : UInt32)
    (flat : Nat → Option UInt8) {a : Nat}
    (element : a < queue.layout.used.gpa + 4 + (nextUsed % queue.layout.size).toNat * 8 ∨
      queue.layout.used.gpa + 4 + (nextUsed % queue.layout.size).toNat * 8 + 8 ≤ a)
    (index : a < queue.layout.used.gpa + 2 ∨ queue.layout.used.gpa + 4 ≤ a) :
    queue.completed nextUsed head usedLength flat a = flat a := by
  unfold completed
  rw [Store.write_of_outside (by rw [LittleEndian.length_encode]; omega),
    Store.write_of_outside (by rw [LittleEndian.length_encode]; omega),
    Store.write_of_outside (by rw [LittleEndian.length_encode]; omega)]

end VirtQueue

/-- Two memories that hold the same bytes at the same guest addresses cannot be told apart, however each is cut into
segments. -/
theorem segments_indifferent {first second : GuestMemory} (alike : first.Alike second) {queue : VirtQueue}
    (valid : queue.layout.validate first.memory = .ok ()) (state : QueueState) (head : UInt16)
    (chain : DescriptorChain) (usedLength : UInt32) :
    queue.layout.validate second.memory = .ok () ∧
    ((queue.pop ⟨state, first⟩).1 = (queue.pop ⟨state, second⟩).1 ∧
      (queue.pop ⟨state, first⟩).2.Alike (queue.pop ⟨state, second⟩).2) ∧
    (queue.readChain head first).1 = (queue.readChain head second).1 ∧
    ((queue.complete chain usedLength ⟨state, first⟩).1 = (queue.complete chain usedLength ⟨state, second⟩).1 ∧
      (queue.complete chain usedLength ⟨state, first⟩).2.Alike (queue.complete chain usedLength ⟨state, second⟩).2 ∧
      ∀ a, (a < queue.layout.used.gpa + 4 + (state.nextUsed % queue.layout.size).toNat * 8 ∨
          queue.layout.used.gpa + 4 + (state.nextUsed % queue.layout.size).toNat * 8 + 8 ≤ a) →
        (a < queue.layout.used.gpa + 2 ∨ queue.layout.used.gpa + 4 ≤ a) →
        (queue.complete chain usedLength ⟨state, first⟩).2.guest.flat a = first.flat a) ∧
    (Block.parseRequest chain first).1 = (Block.parseRequest chain second).1 ∧
    (Fs.parseChain chain first).1 = (Fs.parseChain chain second).1 ∧
    (Vsock.readPacket chain first).1 = (Vsock.readPacket chain second).1 ∧
    (Network.readTxFrame chain first).1 = (Network.readTxFrame chain second).1 := by
  have views : QueueView.Alike ⟨state, first⟩ ⟨state, second⟩ := ⟨rfl, alike⟩
  have completes := queue.complete_agrees chain usedLength _ _ views
  refine ⟨alike.validate _ ▸ valid, queue.pop_agrees _ _ views, (queue.readChain_indifferent head _ _ alike).1,
    ⟨completes.1, completes.2, fun a element index => ?_⟩, (Block.parseRequest_indifferent chain _ _ alike).1,
    (Fs.parseChain_indifferent chain _ _ alike).1, (Vsock.readPacket_indifferent chain _ _ alike).1,
    (Network.readTxFrame_indifferent chain _ _ alike).1⟩
  obtain ⟨after, run, updated⟩ := @VirtQueue.complete_ready queue state first ⟨alike.live, valid⟩ chain usedLength
  rw [run, updated.flat_eq, queue.completed_outside _ _ _ _ element index]

-- Two memories of 48 bytes, one segment against one segment for each byte.
def wholeMemory : DmaMemory := DmaMemory.single ⟨0, 0, 48⟩ (by decide)

def bytewiseMemory : DmaMemory where
  segments := (List.range 48).map fun a => ⟨a, 2 * a, 1⟩
  valid := ⟨by decide, by decide +kernel, by decide +kernel⟩

def ringBytes (a : Nat) : UInt8 :=
  ([40, 0, 0, 0, 0, 0, 0, 0, 8, 0, 0, 0, 2, 0, 0, 0, 0, 0, 1, 0, 0, 0] : List UInt8).getD a 0

def wholeGuest : GuestMemory := ⟨wholeMemory, by decide, ringBytes, none⟩

def bytewiseGuest : GuestMemory := ⟨bytewiseMemory, by decide +kernel, fun a => ringBytes (a / 2), none⟩

def smallQueue : VirtQueue := ⟨⟨0, 1, ⟨0, 16⟩, ⟨16, 6⟩, ⟨24, 12⟩⟩⟩

theorem flat_outside {guest : GuestMemory} {a : Nat} (outside : ∀ s ∈ guest.memory.segments, s.gpa + s.length ≤ a) :
    guest.flat a = none := by
  rw [← Option.not_isSome_iff_eq_none, GuestMemory.flat, Store.view_isSome]
  intro mapped
  obtain ⟨s, member, -, high⟩ := guest.memory.mem_of_hostAddress mapped
  have := outside s member
  omega

theorem whole_alike_bytewise : wholeGuest.Alike bytewiseGuest where
  live := rfl
  live' := rfl
  flat := by
    funext a
    by_cases inside : a < 48
    · have all : ∀ a < 48, wholeGuest.flat a = bytewiseGuest.flat a := by decide +kernel
      exact all a inside
    · have ends : ∀ s ∈ wholeGuest.memory.segments ++ bytewiseGuest.memory.segments, s.gpa + s.length ≤ 48 := by
        decide +kernel
      rw [flat_outside fun s member => (ends s (List.mem_append_left _ member)).trans (by omega),
        flat_outside fun s member => (ends s (List.mem_append_right _ member)).trans (by omega)]

theorem segments_indifferent_bytewise :
    (smallQueue.pop ⟨QueueState.new, wholeGuest⟩).1 = .ok (some ⟨0, [⟨40, 8, 2, 0⟩]⟩) ∧
      (smallQueue.pop ⟨QueueState.new, bytewiseGuest⟩).1 = .ok (some ⟨0, [⟨40, 8, 2, 0⟩]⟩) := by
  have popped : (smallQueue.pop ⟨QueueState.new, wholeGuest⟩).1 = .ok (some ⟨0, [⟨40, 8, 2, 0⟩]⟩) := by decide +kernel
  have valid : smallQueue.layout.validate wholeGuest.memory = .ok () := by decide +kernel
  have same := (segments_indifferent whole_alike_bytewise valid QueueState.new 0 ⟨0, []⟩ 0).2.1.1
  exact ⟨popped, same ▸ popped⟩

end Libvirtio
