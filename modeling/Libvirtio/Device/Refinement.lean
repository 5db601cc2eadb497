import Libvirtio.Device.Service

/-!
# Every device does what the abstract one does
-/

namespace Libvirtio

/-! ## Work on a chain writes to that chain -/

abbrev WorksOn {β : Type} (chain : DescriptorChain) (start : DeviceView β) (work : DeviceM β UInt32) : Prop :=
  WorksAside chain.Writable (fun _ => True) start (fun _ => True) work

section
variable {β : Type} {chain : DescriptorChain} {start : DeviceView β}

theorem called_aside {α : Type} {call : β → Except DeviceError α × β} {allowed : Nat → Prop} :
    WorksAside allowed (fun _ => True) start (fun _ => True) (tryBackend call) :=
  tryBackend_aside fun _ _ => trivial

theorem asked_aside {α : Type} {call : β → α × β} {allowed : Nat → Prop} :
    WorksAside allowed (fun _ => True) start (fun _ => True) (onBackend call) :=
  onBackend_aside fun _ _ => ⟨trivial, trivial⟩

end

namespace Console
variable {β : Type} {backend : Backend β} {chain : DescriptorChain} {start : DeviceView β}

theorem transmitWork_aside : WorksOn chain start (transmitWork backend chain) := by
  have read : Confined chain.Writable start.guest (fun _ => True) (readChain chain) :=
    .ite (fun _ => .fail _) fun _ => readDescriptors_confined _
  exact .bind (onDma_aside read) fun _ _ => .bind called_aside fun _ _ => .pure trivial

theorem writeChain_confined {guest : GuestMemory} (bytes : List UInt8) :
    Confined chain.Writable guest (fun _ => True) (writeChain chain bytes) := by
  refine .bind (.ofExcept fun capacity ok => (writableCapacityFrom_eq_ok ok).1) fun capacity writable => ?_
  exact .ite (fun _ => .fail _) fun _ => copyDescriptors_writable writable bytes

theorem receiveWork_aside : WorksOn chain start (receiveWork backend chain) := by
  have input (capacity : Nat) :
      WorksAside chain.Writable (fun _ => True) start (fun _ => True) (readInput backend capacity) :=
    .bind_option asked_aside (raise_aside _) fun _ (_ : True) => .pure trivial
  refine .bind ofResult_aside fun capacity _ => .bind (input capacity) fun bytes _ => ?_
  exact .bind (onDma_aside (writeChain_confined bytes)) fun _ _ => ofResult_aside

end Console

namespace Rng
variable {β : Type} {entropy : Entropy β} {start : DeviceView β} {allowed : Nat → Prop}

theorem fillParts_aside {parts : List DmaPart} (backed : start.guest.memory.Backs allowed parts) (length : Nat) :
    WorksAside allowed (fun _ => True) start (fun _ => True) (fillParts entropy parts length) := by
  induction parts generalizing length with
  | nil => exact .pure trivial
  | cons part rest ih =>
      obtain ⟨first, others⟩ := List.forall_mem_cons.mp backed
      have filled : WorksAside allowed (fun _ => True) start (fun bytes => bytes.length = part.length)
          (onBackend (entropy.fill part.length)) :=
        onBackend_aside fun state _ => ⟨entropy.length_fill part.length state, trivial⟩
      refine .bind filled fun bytes length => ?_
      refine .bind (storeHost_aside fun host => .save fun i short => first i (by omega)) fun _ _ => ?_
      split
      · exact raise_aside _
      · exact ih others _

theorem fillDescriptors_aside {descriptors : List Descriptor}
    (inside : ∀ d ∈ descriptors, d.writable = true → ∀ a, d.range.Contains a → allowed a) (length : Nat) :
    WorksAside allowed (fun _ => True) start (fun _ => True) (fillDescriptors entropy descriptors length) := by
  induction descriptors generalizing length with
  | nil => exact .pure trivial
  | cons descriptor rest ih =>
      obtain ⟨first, others⟩ := List.forall_mem_cons.mp inside
      refine .ite (fun _ => raise_aside _) fun checked => ?_
      have writable : descriptor.writable = true := by
        by_contra readable
        exact checked (.inl readable)
      refine .bind (onDma_aside (lease_backs (first writable))) fun parts backed => ?_
      exact .bind (fillParts_aside backed length) fun _ _ => ih others _

theorem fillChain_aside {chain : DescriptorChain} : WorksOn chain start (fillChain entropy chain) := by
  have filled : WorksAside chain.Writable (fun _ => True) start (fun _ => True)
      (fillDescriptors entropy chain.descriptors 0) :=
    fillDescriptors_aside (fun d member writable _ inside => ⟨d, member, writable, inside⟩) 0
  exact .bind filled fun _ _ => .ite (fun _ => .pure trivial) fun _ => raise_aside _

end Rng

namespace Memory
variable {β : Type} {backend : Backend β} {chain : DescriptorChain} {start : DeviceView β}

def Answerable (chain : DescriptorChain) : Prop :=
  ∃ request response, chain.descriptors = [request, response] ∧ response.writable = true ∧
    response.length.toNat = responseSize

theorem parseRequest_confined {allowed : Nat → Prop} {guest : GuestMemory} :
    Confined allowed guest (fun _ => Answerable chain) (parseRequest chain) := by
  unfold parseRequest
  split
  · rename_i request response shape
    refine .ite (fun _ => .fail _) fun _ => .ite (fun _ => .fail _) fun checked => ?_
    have answerable : Answerable chain := by
      simp only [not_or, Decidable.not_not] at checked
      exact ⟨request, response, shape, checked.1, checked.2⟩
    exact .bind (lease_reads _) fun _ _ => .bind .read fun _ _ => .ofExcept fun _ _ => answerable
  · exact .fail _

theorem writeResponse_aside (answerable : Answerable chain) (response : Response) :
    WorksAside chain.Writable (fun _ => True) start (fun _ => True) (writeResponse chain response) := by
  obtain ⟨first, second, shape, writable, length⟩ := answerable
  unfold writeResponse
  split
  · exact .fail _
  · rename_i descriptor found
    obtain rfl : second = descriptor := by simpa [shape] using found
    have inside : ∀ a, (⟨second.address.toNat, responseSize⟩ : DmaRange).Contains a → chain.Writable a := by
      intro a within
      rw [← length] at within
      exact ⟨second, by simp [shape], writable, within⟩
    refine .bind (onDma_aside (lease_backs inside)) fun parts backed => ?_
    exact storeHost_aside fun host => scatter_sameOutside backed host _

theorem requestWork_aside : WorksOn chain start (requestWork backend chain) :=
  .bind (onDma_aside parseRequest_confined) fun _ answerable => .bind called_aside fun response _ =>
    .bind (writeResponse_aside answerable response) fun _ _ => .pure trivial

end Memory

namespace Network
variable {γ : Type} {resources : Resources} {backend : Backend γ} {chain : DescriptorChain}
  {start : DeviceView (State γ)}

theorem txWork_aside : WorksOn chain start (txWork backend chain) := by
  have read : Confined chain.Writable start.guest (fun _ => True) (readTxFrame chain) :=
    .ite (fun _ => .fail _) fun _ => .bind (readDescriptors_confined _) fun _ _ =>
      .ite (fun _ => .fail _) fun _ => .pure trivial
  exact .bind (onDma_aside read) fun _ _ => .bind called_aside fun _ _ => .pure trivial

theorem writeRxFrame_confined {guest : GuestMemory} (frame : List UInt8) :
    Confined chain.Writable guest (fun _ => True) (writeRxFrame chain frame) := by
  refine .ite (fun _ => .fail _) fun _ => .ite (fun _ => .fail _) fun checked => ?_
  have written (bytes : List UInt8) : Confined chain.Writable guest (fun _ => True) (writeChain chain bytes) :=
    .bind (.ofExcept fun _ _ => trivial) fun _ (_ : True) =>
      .ite (fun _ => .fail _) fun _ => copyDescriptors_writable (all_writable checked) bytes
  exact .bind (written _) fun _ _ => .ite (fun _ => .pure trivial) fun _ => .fail _

theorem rxWork_aside : WorksOn chain start (rxWork backend chain) := by
  have taken : WorksAside chain.Writable (fun _ => True) start (fun _ => True) (takeFrame backend) :=
    .bind_option asked_aside (raise_aside _) fun _ (_ : True) => .pure trivial
  exact .bind taken fun frame _ => onDma_aside (writeRxFrame_confined frame)

theorem handleControl_aside {allowed : Nat → Prop} :
    WorksAside allowed (fun _ => True) start (fun _ => True) (handleControl resources chain) := by
  have read (address length : Nat) : Confined allowed start.guest (fun _ => True) (readChainRange address length) :=
    .bind (lease_reads _) fun _ _ => .bind .read fun _ _ => .ite (fun _ => .fail _) fun _ => .pure trivial
  unfold handleControl
  split
  · refine .ite (fun _ => raise_aside _) fun _ => .bind (onDma_aside (read _ _)) fun command _ => ?_
    refine .ite (fun _ => .pure trivial) fun _ => .ite (fun _ => raise_aside _) fun _ => ?_
    refine .bind (onDma_aside (read _ _)) fun bytes _ => .ite (fun _ => .pure trivial) fun _ => ?_
    exact .bind asked_aside fun _ _ => .pure trivial
  · exact raise_aside _

theorem storeFirst_aside {allowed : Nat → Prop} {parts : List DmaPart} (backed : start.guest.memory.Backs allowed parts)
    (value : UInt8) : WorksAside allowed (fun _ => True) start (fun _ => True) (storeFirst value parts) := by
  cases parts with
  | nil => exact .fail _
  | cons part rest =>
      refine .ite (fun _ => .fail _) fun filled => storeHost_aside fun host => .save fun i short => ?_
      rw [List.length_singleton] at short
      exact backed part List.mem_cons_self i (by omega)

theorem writeControlStatus_aside (status : UInt8) :
    WorksAside chain.Writable (fun _ => True) start (fun _ => True) (writeControlStatus chain status) := by
  unfold writeControlStatus
  split
  · exact .fail _
  · rename_i descriptor last
    refine .ite (fun _ => raise_aside _) fun checked => ?_
    simp only [not_or, Decidable.not_not] at checked
    have inside : ∀ a, (⟨descriptor.address.toNat, 1⟩ : DmaRange).Contains a → chain.Writable a := by
      intro a within
      refine ⟨descriptor, List.mem_of_getLast? last, checked.1, ?_⟩
      rw [Descriptor.range, checked.2]
      exact within
    exact .bind (onDma_aside (lease_backs inside)) fun parts backed => storeFirst_aside backed status

theorem controlWork_aside : WorksOn chain start (controlWork resources chain) :=
  .bind handleControl_aside fun status _ => .bind (writeControlStatus_aside status) fun _ _ => .pure trivial

end Network

namespace Vsock
variable {β : Type} {resources : Resources} {backend : Backend β} {chain : DescriptorChain} {start : DeviceView β}

theorem txWork_aside : WorksOn chain start (txWork resources backend chain) := by
  have read : Confined chain.Writable start.guest (fun _ => True) (readPacket chain) := by
    refine .ite (fun _ => .fail _) fun _ => .bind (readDescriptors_confined _) fun bytes _ => ?_
    refine .ite (fun _ => .fail _) fun _ => .bind (.ofExcept fun _ _ => trivial) fun header (_ : True) => ?_
    exact .ite (fun _ => .fail _) fun _ => .bind (.ofExcept fun _ _ => trivial) fun _ (_ : True) => .pure trivial
  exact .bind (onDma_aside read) fun _ _ => .bind ofResult_aside fun _ _ => .bind called_aside fun _ _ => .pure trivial

theorem writePacket_confined {guest : GuestMemory} (bytes : List UInt8) :
    Confined chain.Writable guest (fun _ => True) (writePacket chain bytes) := by
  refine .ite (fun _ => .fail _) fun checked => .bind (.ofExcept fun _ _ => trivial) fun _ (_ : True) => ?_
  exact .ite (fun _ => .fail _) fun _ => copyDescriptors_writable (all_writable checked) bytes

theorem rxWork_aside : WorksOn chain start (rxWork resources backend chain) := by
  have taken : WorksAside chain.Writable (fun _ => True) start (fun _ => True) (takePacket backend) :=
    .bind_option asked_aside (raise_aside _) fun _ (_ : True) => .pure trivial
  refine .bind taken fun packet _ => .bind ofResult_aside fun _ _ => .bind ofResult_aside fun bytes _ => ?_
  exact .bind (onDma_aside (writePacket_confined bytes)) fun _ _ => ofResult_aside

end Vsock

namespace Block

/-- The addresses that the request lets the device write. -/
def Request.Writes (request : Request) (a : Nat) : Prop :=
  request.status.Contains a ∨ request.requestType = .tIn ∧ ∃ range ∈ request.payload, range.Contains a

theorem parseRequest_writes {chain : DescriptorChain} {request : Request} {guest after : GuestMemory}
    (run : parseRequest chain guest = (.ok request, after)) {a : Nat} (writes : request.Writes a) : chain.Writable a := by
  obtain ⟨header, middle, status, descriptors, accepted, -⟩ := parseRequest_eq_ok run
  rcases writes with last | ⟨reading, range, member, inside⟩
  · rw [accepted.statusRange] at last
    exact ⟨status, by simp [descriptors], accepted.statusWritable, last⟩
  · rw [accepted.payload] at member
    obtain ⟨d, listed, rfl⟩ := List.mem_map.mp member
    refine ⟨d, by simp [descriptors, listed], ?_, inside⟩
    have direction := (accepted.directions d listed).1
    rw [reading] at direction
    cases flag : d.writable with
    | true => rfl
    | false =>
        rw [flag] at direction
        cases direction

theorem parseRequest_confined {chain : DescriptorChain} {allowed : Nat → Prop} {guest : GuestMemory} :
    Confined allowed guest (fun request => ∀ a, request.Writes a → chain.Writable a) (parseRequest chain) := by
  have payload (requestType : RequestType) (descriptors : List Descriptor) :
      Confined allowed guest (fun _ => True) (parsePayload requestType descriptors) := by
    induction descriptors with
    | nil => exact .pure trivial
    | cons descriptor rest ih =>
        refine .bind (.ofExcept fun _ _ => trivial) fun _ (_ : True) => ?_
        refine .bind (.ofExcept fun _ _ => trivial) fun range (_ : True) => ?_
        exact .bind (checkRange_confined _) fun _ _ => .bind ih fun _ _ => .pure trivial
  have touched : Confined allowed guest (fun _ => True) (parseRequest chain) := by
    unfold parseRequest
    split
    · refine .ite (fun _ => .fail _) fun _ => .ite (fun _ => .fail _) fun _ => ?_
      refine .bind (.ofExcept fun _ _ => trivial) fun _ (_ : True) => ?_
      refine .bind (.ofExcept fun _ _ => trivial) fun _ (_ : True) => ?_
      refine .bind (lease_reads _) fun _ _ => .bind .read fun _ _ => ?_
      refine .bind (.ofExcept fun _ _ => trivial) fun bytes (_ : True) => .bind (payload _ _) fun _ _ => ?_
      exact .ite (fun _ => .fail _) fun _ => .bind (checkRange_confined _) fun _ _ => .pure trivial
    · exact .fail _
  intro memory start
  refine ⟨(touched memory start).1, fun request returned a writes => ?_⟩
  exact parseRequest_writes (Prod.ext returned rfl) writes

section
variable {F α : Type} {host : HostFile F} {allowed : Nat → Prop} {start : GuestMemory} {post : α → Prop}

abbrev IoConfined (allowed : Nat → Prop) (start : GuestMemory) (post : α → Prop) (access : IoM F α) : Prop :=
  Fallible.Keeps (fun view => start.Touched allowed view.guest) post access

theorem onMemory_confined {access : DmaM α} (confined : Confined allowed start post access) :
    IoConfined allowed start post (onMemory access : IoM F α) :=
  fun view touched => confined view.guest touched

theorem leaseAll_confined (ranges : List DmaRange) :
    Confined allowed start (fun leases => (∀ range ∈ ranges, ∀ a, range.Contains a → allowed a) →
      start.memory.Backs allowed leases.flatten) (leaseAll ranges) := by
  induction ranges with
  | nil => exact .pure fun _ _ member => by cases member
  | cons range rest ih =>
      refine .bind (lease_confined range) fun parts translated => .bind ih fun leases backed => .pure fun inside => ?_
      obtain ⟨first, others⟩ := List.forall_mem_cons.mp inside
      intro part member
      rw [List.flatten_cons, List.mem_append] at member
      rcases member with here | later
      · exact DmaMemory.backs_of_translate translated first part here
      · exact backed others part later

theorem requestStatus_confined {capacity : UInt64} {readOnly flushSupported : Bool} {request : Request}
    {payload : List (List DmaPart)}
    (backed : request.requestType = .tIn → start.memory.Backs allowed payload.flatten) :
    IoConfined allowed start (fun _ => True) (requestStatus host capacity readOnly flushSupported request payload) := by
  have synced : IoConfined allowed start (fun _ => True) (Fallible.modifyGet (syncData host)) :=
    fun _ touched => ⟨touched, fun _ _ => trivial⟩
  have moved (offset : Nat) : IoConfined allowed start (fun _ => True)
      (Fallible.modifyGet (vectoredIo host request.requestType payload.flatten offset)) := by
    intro view touched
    refine ⟨?_, fun _ _ => trivial⟩
    rw [Fallible.modifyGet_apply, vectoredIo]
    split
    · rename_i reading
      exact ⟨touched.memory, touched.host.trans (scatter_sameOutside (backed reading) _ _), touched.leases⟩
    · exact touched
  have transferred : IoConfined allowed start (fun _ => True)
      (transferStatus host capacity readOnly request payload) := by
    refine .ite (fun _ => .fail _) fun _ => .bind (.ofExcept fun _ _ => trivial) fun length (_ : True) => ?_
    refine .ite (fun _ => .pure trivial) fun _ => .ite (fun _ => .fail _) fun _ => .ite (fun _ => .fail _) fun _ => ?_
    exact .bind (moved _) fun _ _ => .ite (fun _ => .pure trivial) fun _ => .pure trivial
  unfold requestStatus
  split
  · refine .ite (fun _ => .ite (fun _ => .fail _) fun _ => .bind synced fun _ _ => ?_) fun _ => .pure trivial
    exact .ite (fun _ => .pure trivial) fun _ => .pure trivial
  · exact .pure trivial
  · exact transferred
  · exact transferred

theorem writeStatus_confined {parts : List DmaPart} (backed : start.memory.Backs allowed parts) (status : UInt8) :
    Confined allowed start (fun _ => True) (writeStatus parts status) := by
  unfold writeStatus
  split
  · rename_i part
    refine .ite (fun _ => .fail _) fun one => store_confined fun host => .save fun i short => ?_
    rw [List.length_singleton] at short
    exact backed part List.mem_cons_self i (by omega)
  · exact .fail _

theorem execute_confined {device : Device} {down : Bool} {request : Request}
    (inside : ∀ a, request.Writes a → allowed a) :
    IoConfined allowed start (fun _ => True) (execute host device down request) := by
  have live : Confined allowed start (fun _ => True) (checkLive down) := .ite (fun _ => .fail _) fun _ => .pure trivial
  have cloned : IoConfined allowed start (fun _ => True) (tryClone host) := by
    intro view touched
    unfold tryClone
    split
    · exact ⟨touched, fun _ _ => trivial⟩
    · exact ⟨touched, fun _ _ => trivial⟩
  refine .bind (onMemory_confined live) fun _ _ => ?_
  refine .bind (onMemory_confined (leaseAll_confined request.payload)) fun payload backed => ?_
  refine .bind (onMemory_confined (lease_backs fun a member => inside a (.inl member))) fun status answered => ?_
  have given : request.requestType = .tIn → start.memory.Backs allowed payload.flatten := fun reading =>
    backed fun range member a within => inside a (.inr ⟨reading, range, member, within⟩)
  have executed : IoConfined allowed start (fun _ => True)
      (executeBlocking host device.capacity device.readOnly device.flushSupported request payload) :=
    .bind (requestStatus_confined given) fun _ _ => .bind (.ofExcept fun _ _ => trivial) fun _ (_ : True) => .pure trivial
  refine .bind cloned fun _ _ => .bind executed fun ⟨completion, value⟩ _ => ?_
  exact .bind (onMemory_confined (writeStatus_confined answered value)) fun _ _ => .pure trivial

end

end Block

namespace Fs

theorem parseDescriptors_confined {allowed : Nat → Prop} {guest : GuestMemory} (descriptors : List Descriptor)
    (request : Bytes) (reply : List DmaRange) :
    Confined allowed guest (fun _ => True) (parseDescriptors descriptors request reply) := by
  induction descriptors generalizing request reply with
  | nil => exact .pure trivial
  | cons descriptor rest ih =>
      have read (range : DmaRange) : Confined allowed guest (fun _ => True) (readRange range) :=
        .bind (lease_reads range) fun _ _ => .bind .read fun _ _ => .pure trivial
      refine .bind (.ofExcept fun _ _ => trivial) fun range (_ : True) => .ite (fun _ => ih _ _) fun _ => ?_
      exact .bind (read range) fun _ _ => ih _ _

theorem parseChain_writable {chain : DescriptorChain} {request : Bytes} {ranges : List DmaRange}
    {guest after : GuestMemory} (run : parseChain chain guest = (.ok (request, ranges), after)) {range : DmaRange}
    (member : range ∈ ranges) {a : Nat} (inside : range.Contains a) : chain.Writable a := by
  rw [parseChain, Fallible.bind_eq_ok] at run
  obtain ⟨⟨parsed, reply⟩, _, walked, run⟩ := run
  simp only [Fallible.ite_apply] at run
  split at run
  · cases run
  · cases run
    rw [parseDescriptors_ranges walked, List.nil_append] at member
    obtain ⟨d, listed, rfl⟩ := List.mem_map.mp member
    obtain ⟨listed, writable⟩ := List.mem_filter.mp listed
    exact ⟨d, listed, writable, inside⟩

theorem parseChain_confined {chain : DescriptorChain} {allowed : Nat → Prop} {guest : GuestMemory} :
    Confined allowed guest (fun parsed => ∀ range ∈ parsed.2, ∀ a, range.Contains a → chain.Writable a)
      (parseChain chain) := by
  have touched : Confined allowed guest (fun _ => True) (parseChain chain) :=
    .bind (parseDescriptors_confined _ _ _) fun _ _ => .ite (fun _ => .fail _) fun _ => .pure trivial
  intro memory start
  refine ⟨(touched memory start).1, fun parsed returned range member a inside => ?_⟩
  exact parseChain_writable (Prod.ext returned rfl) member inside

theorem writeRanges_confined {allowed : Nat → Prop} {start : GuestMemory} {ranges : List DmaRange}
    (inside : ∀ range ∈ ranges, ∀ a, range.Contains a → allowed a) (reply : Bytes) (copied : Nat) :
    Confined allowed start (fun _ => True) (writeRanges reply ranges copied) := by
  induction ranges generalizing copied with
  | nil => exact .fail _
  | cons range rest ih =>
      obtain ⟨first, others⟩ := List.forall_mem_cons.mp inside
      refine .bind (lease_backs first) fun parts backed guest touched => ?_
      rw [Fallible.bind_of_ok (Fallible.read_apply guest)]
      have stored := writeParts_sameOutside backed guest.host reply copied
      have next : start.Touched allowed { guest with host := (writeParts reply parts copied guest.host).2 } :=
        ⟨touched.memory, touched.host.trans stored, touched.leases⟩
      have rested : Confined allowed start (fun _ => True)
          (if (writeParts reply parts copied guest.host).1 = reply.length then
            if (writeParts reply parts copied guest.host).1 < 2 ^ 32 then
              pure (UInt32.ofNat (writeParts reply parts copied guest.host).1)
            else Fallible.fail (.descriptor "virtio-fs reply too large")
          else writeRanges reply rest (writeParts reply parts copied guest.host).1) :=
        .ite (fun _ => .ite (fun _ => .pure trivial) fun _ => .fail _) fun _ => ih others _
      exact rested _ next

theorem writeReply_confined {allowed : Nat → Prop} {start : GuestMemory} {ranges : List DmaRange}
    (inside : ∀ range ∈ ranges, ∀ a, range.Contains a → allowed a) (reply : Bytes) :
    Confined allowed start (fun _ => True) (writeReply ranges reply) := by
  refine .ite (fun _ => .pure trivial) fun _ => ?_
  split
  · exact .fail _
  · exact .ite (fun _ => .fail _) fun _ => writeRanges_confined inside reply 0

end Fs

/-! ## Rounds -/

/-- A round takes no chain, or first the one that `pop` returns and then no other. -/
def TakesFirst {β : Type} (resources : Resources) (view : DeviceView β) (actions : List Abstract.Action) : Prop :=
  (∀ i chain, .take i chain ∉ actions) ∨ ∃ index chain rest, actions = .take index chain :: rest ∧
    (pop resources index view).1 = .ok (some chain) ∧ ∀ i chain, .take i chain ∉ rest

namespace TakesFirst
variable {β : Type} {resources : Resources} {view : DeviceView β} {actions : List Abstract.Action} {i : Nat}
  {chain : DescriptorChain}

theorem taken (first : TakesFirst resources view actions) (member : .take i chain ∈ actions) :
    (pop resources i view).1 = .ok (some chain) ∧ (actions.map (Abstract.Action.taken i)).sum = 1 := by
  rcases first with quiet | ⟨index, popped, rest, rfl, returned, quiet⟩
  · exact absurd member (quiet i chain)
  · rcases List.mem_cons.mp member with here | later
    · cases here
      refine ⟨returned, ?_⟩
      rw [List.map_cons, List.sum_cons, Abstract.taken_none i quiet, Abstract.Action.taken, if_pos rfl]
    · exact absurd later (quiet i chain)

theorem pops (first : TakesFirst resources view actions) (member : .take i chain ∈ actions) :
    (pop resources i view).1 = .ok (some chain) :=
  (first.taken member).1

end TakesFirst

/-- A round does what the abstract device does with the chains that `heldOf` the backend's state. -/
def Implements {α β : Type} (resources : Resources) (heldOf : β → List (Nat × DescriptorChain)) (sound : β → Prop)
    (round : DeviceM β α) : Prop :=
  ∀ view, sound view.backend → sound (round view).2.backend ∧ ∃ actions,
    Realized resources view (heldOf view.backend) (heldOf (round view).2.backend) (round view) actions ∧
    TakesFirst resources view actions

section
variable {α β : Type} {resources : Resources} {heldOf : β → List (Nat × DescriptorChain)} {sound : β → Prop}

theorem once_apply (round : DeviceM β Bool) (view : DeviceView β) :
    once round view = ((round view).1.map fun _ => (), (round view).2) := by
  rw [once, Fallible.bind_apply]
  rcases round view with ⟨fault | again, after⟩ <;> rfl

theorem Realized.once {round : DeviceM β Bool} {view : DeviceView β} {held held' : List (Nat × DescriptorChain)}
    {actions : List Abstract.Action} (realized : Realized resources view held held' (round view) actions) :
    Realized resources view held held' (once round view) actions := by
  rw [once_apply]
  refine ⟨realized.trace, fun _ ok => ?_⟩
  cases returned : (round view).1 with
  | error fault =>
      rw [returned] at ok
      cases ok
  | ok again => exact realized.clean again returned

theorem Implements.once {round : DeviceM β Bool} (implements : Implements resources heldOf sound round) :
    Implements resources heldOf sound (once round) := by
  intro view holds
  obtain ⟨still, actions, realized, takes⟩ := implements view holds
  have after : (Libvirtio.once round view).2 = (round view).2 := by rw [once_apply]
  rw [after]
  exact ⟨still, actions, realized.once, takes⟩

theorem Implements.read_bind {f : DeviceView β → DeviceM β α} (implements : ∀ view, Implements resources heldOf sound (f view)) :
    Implements resources heldOf sound (Fallible.read >>= f) :=
  fun view => implements view view

theorem Implements.ite {c : Prop} [Decidable c] {m n : DeviceM β α} (yes : Implements resources heldOf sound m)
    (no : Implements resources heldOf sound n) : Implements resources heldOf sound (if c then m else n) := by
  split
  · exact yes
  · exact no

theorem Implements.pure (a : α) : Implements resources heldOf sound (pure a) :=
  fun _ holds => ⟨holds, [], ⟨.nil _, fun _ _ _ member => by cases member⟩, .inl (by simp)⟩

theorem Implements.raise (error : DeviceError) : Implements resources heldOf sound (raise error : DeviceM β α) :=
  fun _ holds => ⟨holds, [], ⟨.nil _, fun _ _ _ member => by cases member⟩, .inl (by simp)⟩

theorem pop_backend {index : Nat} {view : DeviceView β} (first second : β) :
    (pop resources index { view with backend := first }).1 = (pop resources index { view with backend := second }).1 := by
  unfold pop queueAt indexed
  cases resources.queues[index]? with
  | none => rfl
  | some layout =>
      simp only [Fallible.ofExcept_ok_bind, Fallible.bind_apply, Fallible.read_apply]
      cases VirtQueue.new layout view.guest.memory with
      | error e => rfl
      | ok queue =>
          simp only [ofResult, Except.mapError, Fallible.ofExcept_apply, onState]
          cases indexed view.states index with
          | error fault => rfl
          | ok state => rfl

/-- A backend's call that leaves the chains alone may come first. -/
theorem Implements.prelude {γ : Type} {m : DeviceM β γ} {f : γ → DeviceM β α}
    (only : ∀ view, ∃ backend, (m view).2 = { view with backend } ∧ heldOf backend = heldOf view.backend ∧
      (sound view.backend → sound backend)) (rest : ∀ c, Implements resources heldOf sound (f c)) :
    Implements resources heldOf sound (m >>= f) := by
  intro view holds
  obtain ⟨backend, same, held, kept⟩ := only view
  rcases run : m view with ⟨fault | c, after⟩ <;> rw [run] at same <;> simp only at same <;> subst same
  · rw [Fallible.bind_of_error run]
    refine ⟨kept holds, [], ⟨?_, fun _ ok => by cases ok⟩, .inl (by simp)⟩
    rw [held]
    exact .nil _
  · obtain ⟨still, actions, realized, takes⟩ := rest c { view with backend } (kept holds)
    rw [Fallible.bind_of_ok run]
    refine ⟨still, actions, ⟨?_, realized.clean⟩, ?_⟩
    · have trace := realized.trace
      rw [held] at trace
      exact trace
    · refine takes.imp_right ?_
      rintro ⟨index, chain, rest, split, returned, quiet⟩
      exact ⟨index, chain, rest, split, (pop_backend view.backend backend).trans returned, quiet⟩

theorem Implements.changed {change : β → β} (same : ∀ state, heldOf (change state) = heldOf state)
    (kept : ∀ state, sound state → sound (change state)) : Implements resources heldOf sound (changed change) := by
  intro view holds
  refine ⟨kept _ holds, [], ⟨?_, fun _ _ _ member => by cases member⟩, .inl (by simp)⟩
  change Trace _ (view.abstract (heldOf view.backend)) [] (view.abstract (heldOf (change view.backend)))
  rw [same]
  exact .nil _

/-- What is left of a round once it has taken the chain. -/
def Settles (resources : Resources) (heldOf : β → List (Nat × DescriptorChain)) (sound : β → Prop) (index : Nat)
    (chain : DescriptorChain) (m : DeviceM β α) : Prop :=
  ∀ view, sound view.backend → sound (m view).2.backend ∧ ∃ actions,
    Realized resources view (heldOf view.backend ++ [(index, chain)]) (heldOf (m view).2.backend) (m view) actions ∧
    ∀ i c, .take i c ∉ actions

theorem Implements.pop_bind {index : Nat} {f : Option DescriptorChain → DeviceM β α} {a : α} (absent : f none = Pure.pure a)
    (present : ∀ chain, Settles resources heldOf sound index chain (f (some chain))) :
    Implements resources heldOf sound (pop resources index >>= f) := by
  intro view holds
  rcases run : pop resources index view with ⟨fault | popped, first⟩ <;>
    obtain ⟨same, ⟨chain, ok, taken⟩ | ⟨nothing, idle⟩⟩ := pop_realized (heldOf view.backend) run
  · cases ok
  · rw [Fallible.bind_of_error run]
    rw [← same] at holds idle ⊢
    exact ⟨holds, [.look], ⟨.single idle, fun _ ok => by cases ok⟩, .inl (by simp)⟩
  · cases ok
    rw [Fallible.bind_of_ok run]
    rw [← same] at holds taken ⊢
    obtain ⟨still, actions, realized, quiet⟩ := present chain first holds
    refine ⟨still, .take index chain :: actions, ⟨.cons taken realized.trace, fun a ok => ?_⟩, ?_⟩
    · exact List.forall_mem_cons.mpr ⟨trivial, realized.clean a ok⟩
    · exact .inr ⟨index, chain, actions, rfl, by rw [run], quiet⟩
  · cases popped with
    | some chain => exact absurd rfl (nothing chain)
    | none =>
        rw [Fallible.bind_of_ok run, absent, Fallible.pure_apply]
        rw [← same] at holds idle ⊢
        refine ⟨holds, [.look], ⟨.single idle, fun _ _ action member => ?_⟩, .inl (by simp)⟩
        rw [List.mem_singleton.mp member]
        trivial

theorem serve_implements {index : Nat} {work : DescriptorChain → DeviceM β UInt32} {announce : DeviceM β Unit}
    (aside : ∀ chain start, WorksOn chain start (work chain)) (announcing : Announcement announce) :
    Implements resources (fun _ => []) (fun _ => True) (serve resources index work announce) :=
  .pop_bind rfl fun chain view holds =>
    finish_realized resources index [] [] holds (aside chain view) announcing

section
variable {γ : Type} (index : Nat) (parse : DescriptorChain → DmaM γ) (push : DescriptorChain → γ → β → β)

/-- Keeps a chain as work to be done. -/
def enqueue (chain : DescriptorChain) : DeviceM β Bool := do
  let parsed ← onDma (parse chain)
  onBackend fun state => (true, push chain parsed state)

def take (resources : Resources) : DeviceM β Bool := do
  let popped ← pop resources index
  match popped with
  | none => pure false
  | some chain => enqueue parse push chain

end

section
variable {γ : Type} {index : Nat} {parse : DescriptorChain → DmaM γ} {push : DescriptorChain → γ → β → β}

theorem enqueue_settles {chain : DescriptorChain} {good : γ → Prop}
    (confined : ∀ guest, Confined chain.Writable guest good (parse chain))
    (pushed : ∀ parsed state, heldOf (push chain parsed state) = heldOf state ++ [(index, chain)])
    (kept : ∀ parsed state, good parsed → sound state → sound (push chain parsed state)) :
    Settles resources heldOf sound index chain (enqueue parse push chain) := by
  intro view holds
  obtain ⟨touched, returns⟩ := confined view.guest view.guest (.refl _ _)
  have held : (index, chain) ∈ heldOf view.backend ++ [(index, chain)] := by simp
  rcases run : parse chain view.guest with ⟨e | parsed, after⟩ <;> rw [run] at touched returns
  · rw [enqueue, Fallible.bind_of_error (onDma_of_error run)]
    refine ⟨holds, [.write index chain, .drop index chain], ⟨?_, fun _ ok => by cases ok⟩, by simp⟩
    have dropped : Abstract.Step resources (DeviceView.abstract { view with guest := after }
        (heldOf view.backend ++ [(index, chain)])) (.drop index chain)
        (DeviceView.abstract { view with guest := after } (heldOf view.backend ++ [])) := .drop rfl
    rw [List.append_nil] at dropped
    exact .cons (.write held touched) (.single dropped)
  · rw [enqueue, Fallible.bind_of_ok (onDma_of_ok run)]
    refine ⟨kept parsed view.backend (returns parsed rfl) holds, [.write index chain], ⟨?_, ?_⟩, by simp⟩
    · simp only [onBackend, pushed]
      exact .single (.write held touched)
    · simp [Abstract.Action.Clean]

theorem take_implements {good : DescriptorChain → γ → Prop}
    (confined : ∀ chain guest, Confined chain.Writable guest (good chain) (parse chain))
    (pushed : ∀ chain parsed state, heldOf (push chain parsed state) = heldOf state ++ [(index, chain)])
    (kept : ∀ chain parsed state, good chain parsed → sound state → sound (push chain parsed state)) :
    Implements resources heldOf sound (take index parse push resources) :=
  .pop_bind rfl fun chain => enqueue_settles (confined chain) (pushed chain) (kept chain)

theorem eq_take {body : Option DescriptorChain → DeviceM β Bool} (absent : body none = pure false)
    (present : ∀ chain, body (some chain) = enqueue parse push chain) :
    (pop resources index >>= body) = take index parse push resources := by
  unfold take
  congr 1
  funext popped
  cases popped with
  | none => exact absent
  | some chain => exact present chain

end

end

section
variable {α β W : Type} {resources : Resources} {pendingOf : β → List W} {erase : β → β} {label : W → Nat × DescriptorChain}
  {good : W → Prop} {position : Nat} {f : Option W → DeviceM β α} {a : α}

/-- Finishes the work at some position, if there is any. -/
theorem Implements.ready_bind (erased : ∀ state, pendingOf (erase state) = (pendingOf state).eraseIdx position)
    (absent : f none = Pure.pure a)
    (present : ∀ work before rest view, good work → pendingOf view.backend = before ++ rest →
      pendingOf (f (some work) view).2.backend = before ++ rest ∧ ∃ actions,
        Realized resources view (before.map label ++ label work :: rest.map label)
          (before.map label ++ rest.map label) (f (some work) view) actions ∧ ∀ i c, .take i c ∉ actions) :
    Implements resources (fun state => (pendingOf state).map label) (fun state => ∀ work ∈ pendingOf state, good work)
      (onBackend (fun state => ((pendingOf state)[position]?, erase state)) >>= f) := by
  intro view holds
  cases found : (pendingOf view.backend)[position]? with
  | none =>
      have called : onBackend (fun state => ((pendingOf state)[position]?, erase state)) view =
          (.ok none, { view with backend := erase view.backend }) := by rw [onBackend, found]
      have same : pendingOf (erase view.backend) = pendingOf view.backend := by
        rw [erased, List.eraseIdx_of_length_le (List.getElem?_eq_none_iff.mp found)]
      rw [Fallible.bind_of_ok called, absent, Fallible.pure_apply]
      simp only [same]
      exact ⟨holds, [], ⟨.nil _, fun _ _ _ member => by cases member⟩, .inl (by simp)⟩
  | some work =>
      have called : onBackend (fun state => ((pendingOf state)[position]?, erase state)) view =
          (.ok (some work), { view with backend := erase view.backend }) := by rw [onBackend, found]
      obtain ⟨bound, rfl⟩ := List.getElem?_eq_some_iff.mp found
      have split : pendingOf view.backend = (pendingOf view.backend).take position ++
          (pendingOf view.backend)[position] :: (pendingOf view.backend).drop (position + 1) := by
        rw [List.getElem_cons_drop, List.take_append_drop]
      obtain ⟨left, actions, realized, quiet⟩ := present (pendingOf view.backend)[position] _ _
        { view with backend := erase view.backend } (holds _ (List.getElem_mem bound))
        ((erased _).trans (List.eraseIdx_eq_take_drop_succ _ _))
      rw [Fallible.bind_of_ok called]
      simp only [left]
      refine ⟨fun work member => holds work ?_, actions, ⟨?_, realized.clean⟩, .inl quiet⟩
      · rw [← List.eraseIdx_eq_take_drop_succ] at member
        exact List.mem_of_mem_eraseIdx member
      · have trace := realized.trace
        rw [← List.map_cons, ← List.map_append, ← split] at trace
        rw [List.map_append]
        exact trace

end

namespace Block
variable {F : Type} {resources : Resources} {host : HostFile F} {device : Device}

def State.held (state : State F) : List (Nat × DescriptorChain) :=
  state.pending.map fun work => (work.queueIndex, work.chain)

/-- The requests in flight write what their chains let them. -/
def State.Lawful (state : State F) : Prop :=
  ∀ work ∈ state.pending, ∀ a, work.request.Writes a → work.chain.Writable a

theorem takeRound_eq (index : Nat) : (takeRound resources index : DeviceM (State F) Bool) =
    if index < resources.queues.length then
      take index parseRequest (fun chain request state =>
        { state with pending := state.pending ++ [⟨index, chain, request⟩] }) resources
    else raise (.invalidLayout "queue index is not configured") := by
  unfold takeRound takeWork configured
  split
  · rw [Fallible.pure_bind, Fallible.bind_assoc]
    exact eq_take rfl fun chain => by simp only [enqueue, Fallible.bind_assoc, Fallible.pure_bind]
  · rfl

theorem takeRound_implements (index : Nat) :
    Implements resources State.held State.Lawful (takeRound resources index : DeviceM (State F) Bool) := by
  rw [takeRound_eq]
  refine .ite ?_ (.raise _)
  refine take_implements (fun _ _ => parseRequest_confined) (fun _ _ state => ?_) fun chain request state good lawful => ?_
  · simp [State.held]
  · intro work member
    rcases List.mem_append.mp member with old | new
    · exact lawful work old
    · rw [List.mem_singleton.mp new]
      exact good

theorem executeWork_aside {work : Work} {down : Bool} {pending : List Work} {start : DeviceView (State F)}
    (lawful : ∀ a, work.request.Writes a → work.chain.Writable a) :
    WorksAside work.chain.Writable (fun state => state.pending = pending) start (fun _ => True)
      (executeWork host device down work) := by
  intro view aside
  have confined : IoConfined work.chain.Writable start.guest (fun _ => True) (execute host device down work.request) :=
    execute_confined lawful
  obtain ⟨touched, -⟩ := confined ⟨view.guest, view.backend.file⟩ aside.guest
  exact ⟨⟨touched, aside.states, aside.log, aside.backend⟩, fun _ _ => trivial⟩

theorem finishRound_implements (down : Bool) (position : Nat) :
    Implements resources State.held State.Lawful (finishRound resources host device down position) := by
  refine .ready_bind (fun _ => rfl) rfl fun work before rest view lawful left => ?_
  have finished : (do
      let completion ← executeWork host device down work
      completeWork resources work completion
      pure true) = finish resources work.queueIndex work.chain
        (executeWork host device down work >>= fun completion => pure completion.usedLength)
        (notifyConfigured resources work.queueIndex "missing queue interrupt notifier" "vector exceeds u16") := by
    simp only [finish, completeWork, Fallible.bind_assoc, Fallible.pure_bind]
  have aside : WorksAside work.chain.Writable (fun state => state.pending = before ++ rest) view (fun _ => True)
      (executeWork host device down work >>= fun completion => pure completion.usedLength) :=
    .bind (executeWork_aside lawful) fun _ _ => .pure trivial
  simp only [finished]
  exact finish_realized resources work.queueIndex _ _ left aside (notifyConfigured_announcement resources _ _ _)

end Block

namespace Fs
variable {resources : Resources} {root : Path} {host : Host}

def State.held (state : State) : List (Nat × DescriptorChain) :=
  state.pending.map fun work => (work.queueIndex, work.chain)

/-- The replies to the requests in flight go where their chains let them. -/
def State.Lawful (state : State) : Prop :=
  ∀ work ∈ state.pending, ∀ range ∈ work.reply, ∀ a, range.Contains a → work.chain.Writable a

theorem takeRound_eq (index : Nat) : takeRound resources index =
    take index parseChain (fun chain parsed state =>
      { state with pending := state.pending ++ [⟨index, chain, parsed.1, parsed.2⟩] }) resources := by
  unfold takeRound takeWork
  rw [Fallible.bind_assoc]
  exact eq_take rfl fun chain => by simp only [enqueue, Fallible.bind_assoc, Fallible.pure_bind]

theorem takeRound_implements (index : Nat) : Implements resources State.held State.Lawful (takeRound resources index) := by
  rw [takeRound_eq]
  refine take_implements (fun _ _ => parseChain_confined) (fun _ _ state => ?_) fun chain parsed state good lawful => ?_
  · simp [State.held]
  · intro work member
    rcases List.mem_append.mp member with old | new
    · exact lawful work old
    · rw [List.mem_singleton.mp new]
      exact good

theorem finishRound_implements (down : Bool) (position : Nat) :
    Implements resources State.held State.Lawful (finishRound resources down root host position) := by
  refine .ready_bind (fun _ => rfl) rfl fun work before rest view lawful left => ?_
  have finished : (do
      let reply ← executeWork down root host work.request
      completeWork resources work reply
      pure true) = finish resources work.queueIndex work.chain
        (executeWork down root host work.request >>= fun reply => onDma (writeReply work.reply reply))
        (notifyConfigured resources work.queueIndex "missing virtio-fs interrupt notifier"
          "queue vector exceeds u16") := by
    simp only [finish, completeWork, finishWork, Fallible.bind_assoc]
  have live : WorksAside work.chain.Writable (fun state : State => state.pending = before ++ rest) view (fun _ => True)
      (checkLive down) := .ite (fun _ => raise_aside _) fun _ => .pure trivial
  have executed : WorksAside work.chain.Writable (fun state => state.pending = before ++ rest) view (fun _ => True)
      (executeWork down root host work.request) :=
    .bind live fun _ _ => tryBackend_aside fun _ same => same
  have aside : WorksAside work.chain.Writable (fun state => state.pending = before ++ rest) view (fun _ => True)
      (executeWork down root host work.request >>= fun reply => onDma (writeReply work.reply reply)) :=
    .bind executed fun reply _ => onDma_aside (writeReply_confined lawful reply)
  simp only [finished]
  exact finish_realized resources work.queueIndex _ _ left aside (notifyConfigured_announcement resources _ _ _)

end Fs

end Libvirtio
