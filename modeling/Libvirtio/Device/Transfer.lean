import Libvirtio.Device.Access
import Libvirtio.Device.Lengths
import Libvirtio.Device.Vsock
import Libvirtio.Queue.Offers
import Mathlib.Data.List.Infix

namespace Libvirtio

/-- The bytes in the ranges, one after the other, if all are mapped. -/
def contents (flat : Nat → Option UInt8) : List DmaRange → Option (List UInt8)
  | [] => some []
  | range :: rest => do
      let bytes ← Store.read flat range.gpa range.length
      let more ← contents flat rest
      pure (bytes ++ more)

def DescriptorChain.ranges (chain : DescriptorChain) : List DmaRange := chain.descriptors.map Descriptor.range

theorem descriptor_address (descriptor : Descriptor) : descriptor.range.gpa < 2 ^ 64 := UInt64.toNat_lt _

section
variable {guest : GuestMemory} (live : guest.leasesLeft = none)
include live

theorem lease_of_some {descriptor : Descriptor} {bytes : List UInt8}
    (read : Store.read guest.flat descriptor.range.gpa descriptor.range.length = some bytes) :
    ∃ parts, lease descriptor.range guest = (.ok parts, guest) ∧ gather guest.host parts = bytes := by
  obtain ⟨parts, ok, gathered⟩ := guest.translate_of_some (descriptor_address descriptor) read
  exact ⟨parts, by rw [GuestMemory.lease_live live, ok], gathered⟩

theorem lease_of_none {range : DmaRange} (hole : Store.read guest.flat range.gpa range.length = none) :
    ∃ e, lease range guest = (.error e, guest) := by
  rw [GuestMemory.lease_live live]
  cases translated : guest.memory.translate range with
  | error e => exact ⟨e, rfl⟩
  | ok parts =>
      rw [guest.read_of_translate translated] at hole
      cases hole

theorem readDescriptors_contents (descriptors : List Descriptor) :
    match contents guest.flat (descriptors.map Descriptor.range) with
    | some bytes => readDescriptors descriptors guest = (.ok bytes, guest)
    | none => ∃ e, readDescriptors descriptors guest = (.error e, guest) := by
  induction descriptors with
  | nil => rfl
  | cons descriptor rest ih =>
      rw [List.map_cons, contents, readDescriptors]
      cases read : Store.read guest.flat descriptor.range.gpa descriptor.range.length with
      | none =>
          obtain ⟨e, leased⟩ := lease_of_none live read
          exact ⟨e, Fallible.bind_of_error leased⟩
      | some bytes =>
          obtain ⟨parts, leased, gathered⟩ := lease_of_some live read
          rw [Fallible.bind_of_ok leased, Fallible.bind_of_ok (Fallible.read_apply guest), gathered]
          cases more : contents guest.flat (rest.map Descriptor.range) with
          | none =>
              rw [more] at ih
              obtain ⟨e, run⟩ := ih
              exact ⟨e, Fallible.bind_of_error run⟩
          | some others =>
              rw [more] at ih
              exact Fallible.bind_of_ok ih

theorem readDescriptors_unchanged (descriptors : List Descriptor) : (readDescriptors descriptors guest).2 = guest := by
  have read := readDescriptors_contents live descriptors
  split at read
  · rw [read]
  · obtain ⟨e, failed⟩ := read
    rw [failed]

end

section
variable {β : Type} {resources : Resources} {index : Nat} {queue : VirtQueue} {state : QueueState} {view : DeviceView β}

theorem states_set_self (known : view.states[index]? = some state) (next : QueueState) :
    (view.states.set index next)[index]? = some next := by
  rw [List.getElem?_set_self', known]
  rfl

/-- The view after the next chain was taken. -/
def Serving.taken (index : Nat) (state : QueueState) (view : DeviceView β) : DeviceView β :=
  { view with states := view.states.set index { state with lastAvailable := state.lastAvailable + 1 } }

variable {α : Type} {head : α → UInt16} {holds : (Nat → Option UInt8) → α → Prop}
variable {stores : α → (Nat → Option UInt8) → (Nat → Option UInt8) → Prop} {chain : α} {rest : List α}

theorem pop_offers_nil (configured : resources.queues[index]? = some queue.layout)
    (known : view.states[index]? = some state) (ready : queue.Ready view.guest)
    (offers : queue.Offers head holds stores view.guest.flat state []) :
    pop resources index view = (.ok none, view) := by
  have popped := onState_of_ok known (VirtQueue.pop_none ready offers)
  rw [pop, Fallible.bind_of_ok (queueAt_ready configured ready), popped]
  simp only [states_set_known known]

theorem pop_offers_cons (configured : resources.queues[index]? = some queue.layout)
    (known : view.states[index]? = some state) (ready : queue.Ready view.guest)
    (offers : queue.Offers head holds stores view.guest.flat state (chain :: rest)) :
    (∃ read, VirtQueue.Outcome queue view.guest.flat (head chain) (.ok read) ∧
      pop resources index view = (.ok (some read), Serving.taken index state view)) ∨
    (∀ read, ¬VirtQueue.Outcome queue view.guest.flat (head chain) (.ok read)) ∧
      ∃ e, pop resources index view = (.error e, view) := by
  obtain ⟨⟨published, index_read, unseen, within⟩, slot, -, -⟩ := offers
  have built := queueAt_ready configured ready
  have popped := VirtQueue.pop_available ready index_read unseen (UInt16.not_lt.mpr within) slot
  have unchanged := queue.readChain_unchanged ready.live (head chain)
  rcases run : queue.readChain (head chain) view.guest with ⟨e | read, after⟩ <;> rw [run] at popped unchanged <;>
    obtain rfl := unchanged
  · right
    refine ⟨fun read outcome => ?_, .error e, ?_⟩
    · rw [(VirtQueue.readChain_eq_ok ready).mpr outcome] at run
      cases run
    · rw [pop, Fallible.bind_of_ok built, onState_of_error known popped]
      simp only [states_set_known known]
  · left
    exact ⟨read, (VirtQueue.readChain_eq_ok ready).mp run, (Fallible.bind_of_ok built).trans (onState_of_ok known popped)⟩

end

/-- The queue is configured on memory that is not revoked, and its interrupts arrive. -/
structure Serving {β : Type} (resources : Resources) (index : Nat) (queue : VirtQueue) (state : QueueState)
    (view : DeviceView β) : Prop where
  configured : resources.queues[index]? = some queue.layout
  known : view.states[index]? = some state
  ready : queue.Ready view.guest
  notifies : ∃ notifier, resources.interrupts[index]? = some notifier ∧ ∀ log interrupt, notifier log interrupt = .ok ()

namespace Serving
variable {β : Type} {resources : Resources} {index : Nat} {queue : VirtQueue} {state : QueueState} {view : DeviceView β}

theorem taken_serving (serving : Serving resources index queue state view) :
    Serving resources index queue { state with lastAvailable := state.lastAvailable + 1 } (taken index state view) :=
  ⟨serving.configured, states_set_self serving.known _, serving.ready, serving.notifies⟩

section
variable {α : Type} {head : α → UInt16} {holds : (Nat → Option UInt8) → α → Prop}
variable {stores : α → (Nat → Option UInt8) → (Nat → Option UInt8) → Prop} {chain : α} {rest : List α}

theorem pop_nil (serving : Serving resources index queue state view)
    (offers : queue.Offers head holds stores view.guest.flat state []) :
    pop resources index view = (.ok none, view) :=
  pop_offers_nil serving.configured serving.known serving.ready offers

theorem pop_cons (serving : Serving resources index queue state view)
    (offers : queue.Offers head holds stores view.guest.flat state (chain :: rest)) :
    (∃ read, VirtQueue.Outcome queue view.guest.flat (head chain) (.ok read) ∧
      pop resources index view = (.ok (some read), taken index state view)) ∨
    (∀ read, ¬VirtQueue.Outcome queue view.guest.flat (head chain) (.ok read)) ∧
      ∃ e, pop resources index view = (.error e, view) :=
  pop_offers_cons serving.configured serving.known serving.ready offers

end

/-- The view after a chain was completed and announced. -/
def done (index : Nat) (state : QueueState) (chain : DescriptorChain) (usedLength : UInt32) (guest : GuestMemory)
    (view : DeviceView β) : DeviceView β :=
  { view with
    guest
    states := view.states.set index { state with nextUsed := state.nextUsed + 1 }
    log := view.log ++ [.completed index chain usedLength,
      .notified index (.queue (UInt16.ofNat index) (UInt16.ofNat index))] }

theorem done_serving (serving : Serving resources index queue state view) {flat : Nat → Option UInt8}
    {guest : GuestMemory} (updated : view.guest.Updated flat guest) (chain : DescriptorChain) (usedLength : UInt32) :
    Serving resources index queue { state with nextUsed := state.nextUsed + 1 }
      (done index state chain usedLength guest view) :=
  ⟨serving.configured, states_set_self serving.known _, serving.ready.of_updated updated, serving.notifies⟩

theorem complete (serving : Serving resources index queue state view) (small : index < 2 ^ 16) (chain : DescriptorChain)
    (usedLength : UInt32) :
    ∃ guest, view.guest.Updated (queue.completed state.nextUsed chain.head usedLength view.guest.flat) guest ∧
      (do
        completeQueue resources index chain usedLength
        Vsock.notifyQueue resources index
        pure true : DeviceM β Bool) view = (.ok true, done index state chain usedLength guest view) := by
  obtain ⟨guest, completed, updated⟩ :=
    completeQueue_ready serving.configured serving.known serving.ready chain usedLength
  obtain ⟨notifier, found, sends⟩ := serving.notifies
  refine ⟨guest, updated, ?_⟩
  rw [Fallible.bind_of_ok completed, Vsock.notifyQueue, expectQueue_iff.mpr ⟨small, rfl⟩,
    Fallible.bind_of_ok (notify_of_ok found (sends _ _))]
  simp only [List.append_assoc]
  rfl

end Serving

namespace Vsock
variable {β : Type} {resources : Resources} {backend : Backend β} {queue : VirtQueue} {state : QueueState}
variable {view : DeviceView β}

/-- An entry of the available ring: the chain at its head, and what the chain holds. -/
structure TxChain where
  head : UInt16
  chain : Option DescriptorChain
  bytes : Option (List UInt8)
  deriving DecidableEq, Repr

def TxChain.Held (queue : VirtQueue) (flat : Nat → Option UInt8) (offer : TxChain) : Prop :=
  (∀ chain, offer.chain = some chain ↔ VirtQueue.Outcome queue flat offer.head (.ok chain)) ∧
    ∀ chain, offer.chain = some chain → offer.bytes = contents flat chain.ranges

def packetOf (bytes : List UInt8) : Option Packet :=
  match Header.decode (bytes.take headerSize) with
  | .ok header => some { header, payload := bytes.drop headerSize }
  | .error _ => none

def Negotiated (resources : Resources) (packet : Packet) : Prop :=
  packet.header.packetType = vsockTypeStream ∨
    (packet.header.packetType = vsockTypeSeqpacket ∧ resources.negotiatedFeatures &&& virtioVsockFSeqpacket ≠ 0)

instance (resources : Resources) (packet : Packet) : Decidable (Negotiated resources packet) :=
  inferInstanceAs (Decidable (_ ∨ _))

def WellFormed (chain : DescriptorChain) (bytes : List UInt8) (packet : Packet) : Prop :=
  (∀ d ∈ chain.descriptors, d.writable = false) ∧ bytes.length = headerSize + packet.header.length.toNat ∧
    (packet.header.packetType = vsockTypeStream ∨ packet.header.packetType = vsockTypeSeqpacket) ∧
    packet.payload.length ≤ maximumPacketSize

instance (chain : DescriptorChain) (bytes : List UInt8) (packet : Packet) : Decidable (WellFormed chain bytes packet) :=
  inferInstanceAs (Decidable (_ ∧ _))

/-- The packet of a chain that is well formed and of a negotiated type. -/
def TxChain.packet (resources : Resources) (offer : TxChain) : Option (DescriptorChain × Packet) := do
  let chain ← offer.chain
  let bytes ← offer.bytes
  let packet ← packetOf bytes
  if WellFormed chain bytes packet ∧ Negotiated resources packet then some (chain, packet) else none

/-- The packets of the longest beginning of the list in which every chain carries one. -/
def carried (resources : Resources) : List TxChain → List (DescriptorChain × Packet)
  | [] => []
  | offer :: rest =>
      match offer.packet resources with
      | none => []
      | some sent => sent :: carried resources rest

theorem TxChain.packet_eq_some {offer : TxChain} {chain : DescriptorChain} {packet : Packet} :
    offer.packet resources = some (chain, packet) ↔
      ∃ bytes, offer.chain = some chain ∧ offer.bytes = some bytes ∧ packetOf bytes = some packet ∧
        WellFormed chain bytes packet ∧ Negotiated resources packet := by
  simp only [TxChain.packet, Option.bind_eq_bind, Option.bind_eq_some_iff, Option.ite_none_right_eq_some,
    Option.some.injEq, Prod.mk.injEq]
  constructor
  · rintro ⟨chain', known, bytes, read, packet', decoded, sound, rfl, rfl⟩
    exact ⟨bytes, known, read, decoded, sound⟩
  · rintro ⟨bytes, known, read, decoded, sound⟩
    exact ⟨chain, known, bytes, read, packet, decoded, sound, rfl, rfl⟩

theorem validatePacketType_eq_ok {packet : Packet} :
    validatePacketType resources packet = .ok () ↔ Negotiated resources packet := by
  unfold validatePacketType Negotiated
  split
  · rename_i sound
    exact iff_of_true rfl sound
  · rename_i unsound
    exact iff_of_false (fun ok => by cases ok) unsound

theorem Packet.validate_eq_ok {packet : Packet} :
    packet.validate = .ok () ↔
      (packet.header.packetType = vsockTypeStream ∨ packet.header.packetType = vsockTypeSeqpacket) ∧
        packet.header.length.toNat = packet.payload.length ∧ packet.payload.length ≤ maximumPacketSize := by
  unfold Packet.validate
  split
  · rename_i unsound
    refine iff_of_false (fun ok => by cases ok) fun sound => ?_
    rcases unsound with type | length | large
    · exact type sound.1
    · exact length sound.2.1
    · omega
  · rename_i sound
    obtain ⟨type, others⟩ := not_or.mp sound
    obtain ⟨length, small⟩ := not_or.mp others
    exact iff_of_true rfl ⟨Decidable.not_not.mp type, Decidable.not_not.mp length, Nat.not_lt.mp small⟩

theorem readChain_contents {guest : GuestMemory} (live : guest.leasesLeft = none) (chain : DescriptorChain) :
    match contents guest.flat chain.ranges with
    | some bytes => readChain chain guest = (.ok bytes, guest)
    | none => ∃ e, readChain chain guest = (.error e, guest) :=
  readDescriptors_contents live chain.descriptors

theorem readPacket_of_wellFormed {guest : GuestMemory} (live : guest.leasesLeft = none) {chain : DescriptorChain}
    {bytes : List UInt8} {packet : Packet} (read : contents guest.flat chain.ranges = some bytes)
    (decoded : packetOf bytes = some packet) (sound : WellFormed chain bytes packet) :
    readPacket chain guest = (.ok packet, guest) := by
  obtain ⟨readable, length, type, small⟩ := sound
  have run := readChain_contents live chain
  rw [read] at run
  unfold packetOf at decoded
  split at decoded
  · rename_i header ok
    cases decoded
    simp only at length small
    have valid : Packet.validate { header, payload := bytes.drop headerSize } = .ok () :=
      Packet.validate_eq_ok.mpr ⟨type, by simp only [List.length_drop]; omega, small⟩
    rw [readPacket, if_neg (by simpa using readable), Fallible.bind_of_ok run, if_neg (by omega),
      Fallible.bind_of_ok (Fallible.ofExcept_eq_ok.mpr ⟨ok, rfl⟩), if_neg (by simpa using length),
      Fallible.bind_of_ok (Fallible.ofExcept_eq_ok.mpr ⟨valid, rfl⟩)]
    rfl
  · cases decoded

theorem wellFormed_of_readPacket {guest after : GuestMemory} (live : guest.leasesLeft = none) {chain : DescriptorChain}
    {packet : Packet} (run : readPacket chain guest = (.ok packet, after)) :
    ∃ bytes, contents guest.flat chain.ranges = some bytes ∧ packetOf bytes = some packet ∧
      WellFormed chain bytes packet := by
  have read := readChain_contents live chain
  rw [readPacket, Fallible.ite_apply] at run
  split at run
  · cases run
  rename_i readable
  obtain ⟨bytes, next, loaded, run⟩ := Fallible.bind_eq_ok.mp run
  cases known : contents guest.flat chain.ranges with
  | none =>
      rw [known] at read
      obtain ⟨e, failed⟩ := read
      rw [failed] at loaded
      cases loaded
  | some held =>
      rw [known] at read
      cases read.symm.trans loaded
      rw [Fallible.ite_apply] at run
      split at run
      · cases run
      obtain ⟨header, _, decoded, run⟩ := Fallible.bind_eq_ok.mp run
      obtain ⟨ok, rfl⟩ := Fallible.ofExcept_eq_ok.mp decoded
      rw [Fallible.ite_apply] at run
      split at run
      · cases run
      rename_i length
      obtain ⟨_, _, validated, run⟩ := Fallible.bind_eq_ok.mp run
      obtain ⟨valid, rfl⟩ := Fallible.ofExcept_eq_ok.mp validated
      cases run
      obtain ⟨type, -, small⟩ := Packet.validate_eq_ok.mp valid
      exact ⟨bytes, rfl, by rw [packetOf, ok], by simpa using readable, Decidable.not_not.mp length, type, small⟩

theorem readPacket_unchanged {guest : GuestMemory} (live : guest.leasesLeft = none) (chain : DescriptorChain) :
    (readPacket chain guest).2 = guest := by
  have read : Fallible.Keeps (· = guest) (fun _ => True) (readChain chain) := by
    rintro _ rfl
    exact ⟨readDescriptors_unchanged live _, fun _ _ => trivial⟩
  have keeps : Fallible.Keeps (· = guest) (fun _ => True) (readPacket chain) := by
    refine .ite (fun _ => .fail _) fun _ => .bind read fun bytes _ => .ite (fun _ => .fail _) fun _ => ?_
    refine .bind (.ofExcept fun _ _ => trivial) fun header (_ : True) => .ite (fun _ => .fail _) fun _ => ?_
    exact .bind (.ofExcept fun _ _ => trivial) fun _ (_ : True) => .pure trivial
  exact (keeps guest rfl).1

abbrev OffersTx (queue : VirtQueue) : (Nat → Option UInt8) → QueueState → List TxChain → Prop :=
  queue.Offers TxChain.head (TxChain.Held queue) fun _ flat stored => stored = flat

theorem txRound_over (serving : Serving resources queueTx queue state view)
    (offers : OffersTx queue view.guest.flat state []) : txRound resources backend view = (.ok false, view) := by
  rw [txRound, Fallible.bind_of_ok (serving.pop_nil offers)]
  rfl

section
variable {offer : TxChain} {rest : List TxChain}

theorem txRound_sent (accepts : ∀ packet host, (backend.receivePacket packet host).1 = .ok ())
    (serving : Serving resources queueTx queue state view)
    (offers : OffersTx queue view.guest.flat state (offer :: rest)) {chain : DescriptorChain} {packet : Packet}
    (carries : offer.packet resources = some (chain, packet)) :
    ∃ after, txRound resources backend view = (.ok true, after) ∧
      Serving resources queueTx queue ⟨state.lastAvailable + 1, state.nextUsed + 1⟩ after ∧
      after.guest.flat = queue.completed state.nextUsed chain.head (txLength packet) view.guest.flat ∧
      after.backend = (backend.receivePacket packet view.backend).2 ∧
      after.log = view.log ++ [.completed queueTx chain (txLength packet), .notified queueTx (.queue 1 1)] ∧
      chain.head = offer.head := by
  obtain ⟨bytes, known, read, decoded, sound, negotiated⟩ := TxChain.packet_eq_some.mp carries
  obtain ⟨chains, holds⟩ := offers.2.2.1
  have outcome := (chains chain).mp known
  rcases serving.pop_cons offers with ⟨found, outcome', popped⟩ | ⟨none, -⟩
  · cases Option.some.inj (((chains found).mpr outcome').symm.trans known)
    have parsed := readPacket_of_wellFormed serving.ready.live ((holds chain known).symm.trans read) decoded sound
    let handed : DeviceView β :=
      { Serving.taken queueTx state view with backend := (backend.receivePacket packet view.backend).2 }
    have serves : Serving resources queueTx queue ⟨state.lastAvailable + 1, state.nextUsed⟩ handed :=
      ⟨serving.configured, serving.taken_serving.known, serving.ready, serving.notifies⟩
    obtain ⟨guest, updated, completes⟩ := serves.complete (by decide) chain (txLength packet)
    refine ⟨_, ?_, serves.done_serving updated chain (txLength packet), updated.flat_eq, rfl, rfl, outcome.head_eq⟩
    have reads : onDma (readPacket chain) (Serving.taken queueTx state view) =
        (.ok packet, Serving.taken queueTx state view) := onDma_of_ok parsed
    have gives : tryBackend (backend.receivePacket packet) (Serving.taken queueTx state view) = (.ok (), handed) :=
      tryBackend_of_ok (accepts _ _)
    rw [txRound, Fallible.bind_of_ok popped]
    simp only
    rw [Fallible.bind_of_ok reads, Fallible.bind_of_ok (ofResult_of_ok (validatePacketType_eq_ok.mpr negotiated) _),
      Fallible.bind_of_ok gives, completes]
  · exact absurd outcome (none chain)

theorem txRound_refused (serving : Serving resources queueTx queue state view)
    (offers : OffersTx queue view.guest.flat state (offer :: rest)) (nothing : offer.packet resources = none) :
    ∃ e after, txRound resources backend view = (.error e, after) ∧ after.guest = view.guest ∧
      after.backend = view.backend ∧ after.log = view.log ∧
      ∃ last, after.states[queueTx]? = some { state with lastAvailable := last } := by
  obtain ⟨chains, holds⟩ := offers.2.2.1
  rcases serving.pop_cons offers with ⟨chain, outcome, popped⟩ | ⟨-, e, popped⟩
  · have known := (chains chain).mpr outcome
    have unchanged := readPacket_unchanged serving.ready.live chain
    rw [txRound, Fallible.bind_of_ok popped]
    rcases run : readPacket chain view.guest with ⟨e | packet, after⟩ <;> rw [run] at unchanged <;>
      obtain rfl := unchanged
    · exact ⟨_, _, Fallible.bind_of_error (onDma_of_error run), rfl, rfl, rfl, _, serving.taken_serving.known⟩
    · cases type : validatePacketType resources packet with
      | error e =>
          have parsed : onDma (readPacket chain) (Serving.taken queueTx state view) =
              (.ok packet, Serving.taken queueTx state view) := onDma_of_ok run
          exact ⟨_, _, (Fallible.bind_of_ok parsed).trans (Fallible.bind_of_error (ofResult_of_error type _)), rfl, rfl,
            rfl, _, serving.taken_serving.known⟩
      | ok _ =>
          obtain ⟨bytes, read, decoded, sound⟩ := wellFormed_of_readPacket serving.ready.live run
          rw [TxChain.packet_eq_some.mpr ⟨bytes, known, (holds chain known).trans read, decoded, sound,
            validatePacketType_eq_ok.mp type⟩] at nothing
          cases nothing
  · rw [txRound, Fallible.bind_of_error popped]
    exact ⟨e, view, rfl, rfl, rfl, rfl, state.lastAvailable, serving.known⟩

end

/-- The used ring after it was given these heads and lengths. -/
def completedAll (queue : VirtQueue) : UInt16 → List (DescriptorChain × Packet) → (Nat → Option UInt8) →
    Nat → Option UInt8
  | _, [], flat => flat
  | nextUsed, sent :: rest, flat =>
      completedAll queue (nextUsed + 1) rest (queue.completed nextUsed sent.1.head (txLength sent.2) flat)

structure Transmitted (resources : Resources) (backend : Backend β) (queue : VirtQueue) (state : QueueState)
    (view : DeviceView β) (offers : List TxChain) (result : Except Fault Unit) (after : DeviceView β) : Prop where
  handed : after.backend =
    (carried resources offers).foldl (fun host sent => (backend.receivePacket sent.2 host).2) view.backend
  log : after.log = view.log ++ (carried resources offers).flatMap fun sent =>
    [.completed queueTx sent.1 (txLength sent.2), .notified queueTx (.queue 1 1)]
  used : ∃ last, after.states[queueTx]? =
    some ⟨last, state.nextUsed + UInt16.ofNat (carried resources offers).length⟩
  memory : after.guest.flat = completedAll queue state.nextUsed (carried resources offers) view.guest.flat
  result : result = .ok () ↔ (carried resources offers).length = offers.length

theorem processTx_transmits (accepts : ∀ packet host, (backend.receivePacket packet host).1 = .ok ())
    (serving : Serving resources queueTx queue state view) {offers : List TxChain}
    (offered : OffersTx queue view.guest.flat state offers) :
    ∃ result after, (∀ rounds, offers.length < rounds →
      processTx resources backend rounds view = some (result, after)) ∧
      Transmitted resources backend queue state view offers result after := by
  induction offers generalizing state view with
  | nil =>
      refine ⟨.ok (), view, fun rounds enough => ?_, rfl, ?_, ⟨state.lastAvailable, ?_⟩, rfl, ?_⟩
      · obtain ⟨more, rfl⟩ := Nat.exists_eq_succ_of_ne_zero (Nat.ne_zero_of_lt enough)
        exact Fallible.loop_over (txRound_over serving offered)
      · simp [carried]
      · simpa [carried] using serving.known
      · simp [carried]
  | cons offer rest ih =>
      cases carries : offer.packet resources with
      | none =>
          obtain ⟨e, after, failed, guest, host, log, last, known⟩ := txRound_refused serving offered carries
          refine ⟨.error e, after, fun rounds enough => ?_, ?_, ?_, ⟨last, ?_⟩, ?_, ?_⟩
          · obtain ⟨more, rfl⟩ := Nat.exists_eq_succ_of_ne_zero (Nat.ne_zero_of_lt enough)
            exact Fallible.loop_failed failed
          · rw [carried, carries, host]
            rfl
          · simp [carried, carries, log]
          · simpa [carried, carries] using known
          · rw [carried, carries, guest]
            rfl
          · simp [carried, carries]
      | some sent =>
          obtain ⟨chain, packet⟩ := sent
          obtain ⟨next, ran, serves, flat, host, log, head⟩ := txRound_sent accepts serving offered carries
          have others := offered.2.2.2 view.guest.flat (txLength packet) rfl
          rw [← head, ← flat] at others
          obtain ⟨result, after, loops, transmitted⟩ := ih serves others
          refine ⟨result, after, fun rounds enough => ?_, ?_, ?_, ?_, ?_, ?_⟩
          · obtain ⟨more, rfl⟩ := Nat.exists_eq_succ_of_ne_zero (Nat.ne_zero_of_lt enough)
            rw [List.length_cons] at enough
            exact (Fallible.loop_again ran).trans (loops more (by omega))
          · rw [transmitted.handed, host, carried, carries]
            rfl
          · rw [transmitted.log, log, carried, carries]
            simp
          · obtain ⟨last, known⟩ := transmitted.used
            refine ⟨last, known.trans ?_⟩
            rw [carried, carries, List.length_cons, UInt16.ofNat_add, UInt16.add_comm (UInt16.ofNat _),
              ← UInt16.add_assoc]
            rfl
          · rw [transmitted.memory, flat, carried, carries]
            rfl
          · rw [transmitted.result, carried, carries, List.length_cons, List.length_cons]
            omega

theorem copyDescriptors_live {bytes : List UInt8} {descriptors : List Descriptor} {guest : GuestMemory}
    (live : guest.leasesLeft = none)
    (mapped : ∀ d ∈ descriptors, (Store.read guest.flat d.range.gpa d.range.length).isSome) :
    ∃ after, copyDescriptors bytes descriptors 0 guest = (.ok (), after) ∧
      guest.Updated (storeRanges guest.flat (descriptors.map Descriptor.range) bytes) after := by
  obtain ⟨leases, leased⟩ := @GuestMemory.leased_of_mapped guest (descriptors.map Descriptor.range)
    (List.forall_mem_map.mpr fun d _ => descriptor_address d) (List.forall_mem_map.mpr mapped)
  exact ⟨_, copyDescriptors_leased live leased (Nat.zero_le _), rfl, rfl, leased.scatter guest.distinct guest.host bytes⟩

/-- An entry of the available ring of a chain that the device can fill. -/
def RxHeld (queue : VirtQueue) (flat : Nat → Option UInt8) (chain : DescriptorChain) : Prop :=
  VirtQueue.Outcome queue flat chain.head (.ok chain) ∧
    ∀ d ∈ chain.descriptors, (Store.read flat d.range.gpa d.range.length).isSome

abbrev OffersRx (queue : VirtQueue) : (Nat → Option UInt8) → QueueState → List DescriptorChain → Prop :=
  queue.Offers DescriptorChain.head (RxHeld queue) fun chain flat stored =>
    ∃ bytes, stored = storeRanges flat chain.ranges bytes

theorem writePacket_live {guest : GuestMemory} (ready : queue.Ready guest) {chain : DescriptorChain}
    (held : RxHeld queue guest.flat chain) (writable : ∀ d ∈ chain.descriptors, d.writable = true)
    {bytes : List UInt8} (large : bytes.length ≤ chain.writableLength) :
    ∃ after, writePacket chain bytes guest = (.ok (), after) ∧
      guest.Updated (storeRanges guest.flat chain.ranges bytes) after := by
  obtain ⟨after, run, updated⟩ := @copyDescriptors_live bytes _ _ ready.live held.2
  have capacity := @capacityFrom_eq "vsock RX capacity overflows usize" chain.descriptors 0
    (by rw [Nat.zero_add]; exact held.1.sum_lt ready.size_le)
  rw [Nat.zero_add, ← DescriptorChain.writableLength_eq writable] at capacity
  refine ⟨after, ?_, updated⟩
  rw [writePacket, if_neg (by simpa using writable),
    Fallible.bind_of_ok (Fallible.ofExcept_eq_ok.mpr ⟨capacity, rfl⟩), if_neg (by omega), run]

def Packet.bytes (packet : Packet) : List UInt8 := packet.header.encode ++ packet.payload

theorem Packet.length_bytes (packet : Packet) : packet.bytes.length = headerSize + packet.payload.length := by
  simp only [Packet.bytes, Header.encode, headerSize, List.length_append, LittleEndian.length_encode]

theorem rxRound_idle {queued : β → List Packet} (fifo : Fifo backend.hasPacket backend.takePacket queued)
    (none : queued view.backend = []) :
    rxRound resources backend view = (.ok false, view) := by
  have empty : backend.hasPacket view.backend = false := by rw [fifo.has, none]; rfl
  rw [rxRound, Fallible.bind_of_ok (Fallible.read_apply view), empty]
  rfl

theorem rxRound_over (serving : Serving resources queueRx queue state view)
    (offers : OffersRx queue view.guest.flat state []) :
    rxRound resources backend view = (.ok false, view) := by
  rw [rxRound, Fallible.bind_of_ok (Fallible.read_apply view), Fallible.ite_apply]
  split
  · rw [Fallible.bind_of_ok (serving.pop_nil offers)]
    rfl
  · rfl

theorem rxRound_delivers {queued : β → List Packet} (fifo : Fifo backend.hasPacket backend.takePacket queued)
    (serving : Serving resources queueRx queue state view) {chain : DescriptorChain} {rest : List DescriptorChain}
    (offers : OffersRx queue view.guest.flat state (chain :: rest)) {packet : Packet} {others : List Packet}
    (first : queued view.backend = packet :: others) (valid : packet.validate = .ok ())
    (negotiated : Negotiated resources packet) (writable : ∀ d ∈ chain.descriptors, d.writable = true)
    (large : packet.bytes.length ≤ chain.writableLength) :
    ∃ after, rxRound resources backend view = (.ok true, after) ∧
      Serving resources queueRx queue ⟨state.lastAvailable + 1, state.nextUsed + 1⟩ after ∧
      after.guest.flat = queue.completed state.nextUsed chain.head (UInt32.ofNat packet.bytes.length)
        (storeRanges view.guest.flat chain.ranges packet.bytes) ∧
      queued after.backend = others ∧
      after.log = view.log ++ [.completed queueRx chain (UInt32.ofNat packet.bytes.length),
        .notified queueRx (.queue 0 0)] := by
  have held := offers.2.2.1
  rcases serving.pop_cons offers with ⟨found, outcome, popped⟩ | ⟨none, -⟩
  · cases held.1.unique outcome
    obtain ⟨stored, writes, updated⟩ := writePacket_live serving.ready held writable large
    let took : DeviceView β :=
      { Serving.taken queueRx state view with backend := (backend.takePacket view.backend).2 }
    have serves : Serving resources queueRx queue ⟨state.lastAvailable + 1, state.nextUsed⟩
        { took with guest := stored } :=
      ⟨serving.configured, serving.taken_serving.known, serving.ready.of_updated updated, serving.notifies⟩
    obtain ⟨guest, updated', completes⟩ := serves.complete (by decide) chain (UInt32.ofNat packet.bytes.length)
    have has : backend.hasPacket view.backend = true := by rw [fifo.has, first]; rfl
    have takes : takePacket backend (Serving.taken queueRx state view) = (.ok packet, took) := by
      have given : (backend.takePacket view.backend).1 = some packet := by rw [fifo.taken, first]; rfl
      have called : onBackend backend.takePacket (Serving.taken queueRx state view) = (.ok (some packet), took) :=
        Prod.ext (congrArg Except.ok given) rfl
      rw [takePacket, Fallible.bind_of_ok called]
      rfl
    have encodes : packetBytes packet = .ok packet.bytes := by rw [packetBytes, valid]; rfl
    have stores : onDma (writePacket chain packet.bytes) took = (.ok (), { took with guest := stored }) :=
      onDma_of_ok writes
    have counts : rxLength packet.bytes = .ok (UInt32.ofNat packet.bytes.length) := by
      have small := (Packet.validate_eq_ok.mp valid).2.2
      rw [maximumPacketSize] at small
      rw [rxLength, if_pos (by rw [packet.length_bytes, headerSize]; omega)]
    refine ⟨_, ?_, serves.done_serving updated' chain _, ?_, ?_, rfl⟩
    · rw [rxRound, Fallible.bind_of_ok (Fallible.read_apply view), has, if_pos rfl, Fallible.bind_of_ok popped]
      simp only
      rw [Fallible.bind_of_ok takes, Fallible.bind_of_ok (ofResult_of_ok (validatePacketType_eq_ok.mpr negotiated) _),
        Fallible.bind_of_ok (ofResult_of_ok encodes _), Fallible.bind_of_ok stores,
        Fallible.bind_of_ok (ofResult_of_ok counts _), completes]
    · rw [← updated.flat_eq]
      exact updated'.flat_eq
    · exact (fifo.left _).trans (by rw [first]; rfl)
  · exact absurd held.1 (none chain)

/-- The memory after these packets were stored and their chains completed. -/
def delivered (queue : VirtQueue) : UInt16 → List (DescriptorChain × Packet) → (Nat → Option UInt8) →
    Nat → Option UInt8
  | _, [], flat => flat
  | nextUsed, (chain, packet) :: rest, flat =>
      delivered queue (nextUsed + 1) rest (queue.completed nextUsed chain.head (UInt32.ofNat packet.bytes.length)
        (storeRanges flat chain.ranges packet.bytes))

structure Received (queued : β → List Packet) (queue : VirtQueue) (state : QueueState) (view : DeviceView β)
    (pairs : List (DescriptorChain × Packet)) (after : DeviceView β) : Prop where
  left : queued after.backend = (queued view.backend).drop pairs.length
  log : after.log = view.log ++ pairs.flatMap fun pair =>
    [.completed queueRx pair.1 (UInt32.ofNat pair.2.bytes.length), .notified queueRx (.queue 0 0)]
  used : after.states[queueRx]? =
    some ⟨state.lastAvailable + UInt16.ofNat pairs.length, state.nextUsed + UInt16.ofNat pairs.length⟩
  memory : after.guest.flat = delivered queue state.nextUsed pairs view.guest.flat

theorem Received.refl {queued : β → List Packet} (serving : Serving resources queueRx queue state view) :
    Received queued queue state view [] view :=
  ⟨rfl, (List.append_nil _).symm, by simpa using serving.known, rfl⟩

theorem processRx_delivers {queued : β → List Packet} (fifo : Fifo backend.hasPacket backend.takePacket queued)
    (serving : Serving resources queueRx queue state view) {chains : List DescriptorChain}
    (offered : OffersRx queue view.guest.flat state chains)
    (writable : ∀ chain ∈ chains, ∀ d ∈ chain.descriptors, d.writable = true)
    (sound : ∀ packet ∈ queued view.backend, packet.validate = .ok () ∧ Negotiated resources packet)
    (large : ∀ pair ∈ chains.zip (queued view.backend), pair.2.bytes.length ≤ pair.1.writableLength) :
    ∃ after, (∀ rounds, min chains.length (queued view.backend).length < rounds →
      processRx resources backend rounds view = some (.ok (), after)) ∧
      Received queued queue state view (chains.zip (queued view.backend)) after := by
  induction chains generalizing state view with
  | nil =>
      refine ⟨view, fun rounds enough => ?_, .refl serving⟩
      obtain ⟨more, rfl⟩ := Nat.exists_eq_succ_of_ne_zero (Nat.ne_zero_of_lt enough)
      exact Fallible.loop_over (rxRound_over serving offered)
  | cons chain rest ih =>
      cases packets : queued view.backend with
      | nil =>
          refine ⟨view, fun rounds enough => ?_, .refl serving⟩
          obtain ⟨more, rfl⟩ := Nat.exists_eq_succ_of_ne_zero (Nat.ne_zero_of_lt enough)
          exact Fallible.loop_over (rxRound_idle fifo packets)
      | cons packet others =>
          rw [packets] at sound large
          obtain ⟨writes, others_writable⟩ := List.forall_mem_cons.mp writable
          obtain ⟨⟨valid, negotiated⟩, others_sound⟩ := List.forall_mem_cons.mp sound
          rw [List.zip_cons_cons, List.forall_mem_cons] at large
          obtain ⟨next, ran, serves, flat, queues, log⟩ :=
            rxRound_delivers fifo serving offered packets valid negotiated writes large.1
          have further := offered.2.2.2 _ (UInt32.ofNat packet.bytes.length) ⟨packet.bytes, rfl⟩
          rw [← flat] at further
          obtain ⟨after, loops, received⟩ :=
            ih serves further others_writable (queues ▸ others_sound) (queues ▸ large.2)
          rw [queues] at loops received
          refine ⟨after, fun rounds enough => ?_, ?_, ?_, ?_, ?_⟩
          · obtain ⟨more, rfl⟩ := Nat.exists_eq_succ_of_ne_zero (Nat.ne_zero_of_lt enough)
            rw [List.length_cons, List.length_cons] at enough
            exact (Fallible.loop_again ran).trans (loops more (by omega))
          · rw [received.left, queues, packets]
            rfl
          · rw [received.log, log]
            simp
          · rw [received.used, List.zip_cons_cons, List.length_cons, UInt16.ofNat_add,
              UInt16.add_comm (UInt16.ofNat _), ← UInt16.add_assoc, ← UInt16.add_assoc]
            rfl
          · rw [received.memory, flat]
            rfl

theorem contents_congr {flat other : Nat → Option UInt8} {ranges : List DmaRange}
    (same : ∀ range ∈ ranges, Store.read other range.gpa range.length = Store.read flat range.gpa range.length) :
    contents other ranges = contents flat ranges := by
  induction ranges with
  | nil => rfl
  | cons range rest ih =>
      obtain ⟨first, others⟩ := List.forall_mem_cons.mp same
      rw [contents, first, ih others, contents]

/-- The entry with this head as memory has it. -/
def txChain (queue : VirtQueue) (guest : GuestMemory) (head : UInt16) : TxChain :=
  let chain := (queue.readChain head guest).1.toOption
  { head, chain, bytes := chain.bind fun chain => contents guest.flat chain.ranges }

theorem txChain_chain {guest : GuestMemory} (ready : queue.Ready guest) {head : UInt16} {chain : DescriptorChain} :
    (txChain queue guest head).chain = some chain ↔ VirtQueue.Outcome queue guest.flat head (.ok chain) := by
  rw [← VirtQueue.readChain_eq_ok ready, txChain]
  have unchanged := queue.readChain_unchanged ready.live head
  rcases run : queue.readChain head guest with ⟨e | read, after⟩ <;> rw [run] at unchanged <;> obtain rfl := unchanged
  · simp [Except.toOption]
  · simp [Except.toOption]

theorem txChain_held {guest : GuestMemory} (ready : queue.Ready guest) {head : UInt16}
    (table : VirtQueue.Spared queue [] queue.layout.descriptors.gpa (queue.layout.size.toNat * 16))
    (data : ∀ chain, (txChain queue guest head).chain = some chain →
      ∀ range ∈ chain.ranges, VirtQueue.Spared queue [] range.gpa range.length)
    {after : Nat → Option UInt8} (undisturbed : VirtQueue.Undisturbed queue [] guest.flat after) :
    TxChain.Held queue after (txChain queue guest head) := by
  refine ⟨fun chain => (txChain_chain ready).trans (undisturbed.outcome table).symm, fun chain known => ?_⟩
  have read : (txChain queue guest head).bytes = contents guest.flat chain.ranges := by
    rw [txChain] at known ⊢
    simp only at known ⊢
    rw [known, Option.bind_some]
  rw [read]
  refine (contents_congr fun range member => ?_).symm
  have spared := data chain known range member
  exact undisturbed.kept _ _ spared.1 spared.2

theorem offersTx_of_spared {guest : GuestMemory} (ready : queue.Ready guest) {heads : List UInt16}
    (few : heads.length ≤ queue.layout.size.toNat)
    (ring : VirtQueue.Spared queue [] queue.layout.available.gpa (4 + queue.layout.size.toNat * 2))
    (table : VirtQueue.Spared queue [] queue.layout.descriptors.gpa (queue.layout.size.toNat * 16))
    (data : ∀ head ∈ heads, ∀ chain, (txChain queue guest head).chain = some chain →
      ∀ range ∈ chain.ranges, VirtQueue.Spared queue [] range.gpa range.length)
    (published : wordAt guest.flat (queue.layout.available.gpa + 2) =
      some (state.lastAvailable + UInt16.ofNat heads.length))
    (slots : ∀ k head, heads[k]? = some head → wordAt guest.flat (queue.layout.available.gpa + 4 +
      ((state.lastAvailable + UInt16.ofNat k) % queue.layout.size).toNat * 2) = some head) :
    OffersTx queue guest.flat state (heads.map (txChain queue guest)) := by
  refine VirtQueue.offers_of_spared ready (by rwa [List.length_map]) ring (by rwa [List.length_map]) ?_ ?_ ?_
  · intro k offer listed
    rw [List.getElem?_map, Option.map_eq_some_iff] at listed
    obtain ⟨head, listed, rfl⟩ := listed
    exact slots k head listed
  · intro after undisturbed offer member
    obtain ⟨head, listed, rfl⟩ := List.mem_map.mp member
    exact txChain_held ready table (data head listed) undisturbed
  · rintro offer - flat _ rfl
    exact ⟨[], [], fun _ member => (List.not_mem_nil member).elim, rfl⟩

theorem offersRx_of_spared {guest : GuestMemory} (ready : queue.Ready guest) {chains : List DescriptorChain}
    (few : chains.length ≤ queue.layout.size.toNat)
    (ring : VirtQueue.Spared queue (chains.flatMap DescriptorChain.ranges) queue.layout.available.gpa
      (4 + queue.layout.size.toNat * 2))
    (table : VirtQueue.Spared queue (chains.flatMap DescriptorChain.ranges) queue.layout.descriptors.gpa
      (queue.layout.size.toNat * 16))
    (held : ∀ chain ∈ chains, RxHeld queue guest.flat chain)
    (published : wordAt guest.flat (queue.layout.available.gpa + 2) =
      some (state.lastAvailable + UInt16.ofNat chains.length))
    (slots : ∀ k chain, chains[k]? = some chain → wordAt guest.flat (queue.layout.available.gpa + 4 +
      ((state.lastAvailable + UInt16.ofNat k) % queue.layout.size).toNat * 2) = some chain.head) :
    OffersRx queue guest.flat state chains := by
  refine VirtQueue.offers_of_spared ready few ring published slots ?_ ?_
  · intro after undisturbed chain member
    obtain ⟨outcome, mapped⟩ := held chain member
    refine ⟨(undisturbed.outcome table).mpr outcome, fun d listed => ?_⟩
    rw [undisturbed.mapped]
    exact mapped d listed
  · rintro chain member flat _ ⟨bytes, rfl⟩
    exact ⟨chain.ranges, bytes, fun range listed => List.mem_flatMap.mpr ⟨chain, member, listed⟩, rfl⟩

theorem delivered_undisturbed {guest : GuestMemory} (ready : queue.Ready guest) {written : List DmaRange}
    {pairs : List (DescriptorChain × Packet)} (within : ∀ pair ∈ pairs, ∀ range ∈ pair.1.ranges, range ∈ written)
    (nextUsed : UInt16) {flat after : Nat → Option UInt8} (undisturbed : VirtQueue.Undisturbed queue written flat after) :
    VirtQueue.Undisturbed queue written flat (delivered queue nextUsed pairs after) := by
  induction pairs generalizing nextUsed after with
  | nil => exact undisturbed
  | cons pair rest ih =>
      obtain ⟨here, later⟩ := List.forall_mem_cons.mp within
      exact ih later _ (undisturbed.step ready here _ _ _ _)

/-- The packets are where they were stored when the buffers lie apart from each other and from the used ring. -/
theorem delivered_stored {guest : GuestMemory} (ready : queue.Ready guest) {pairs : List (DescriptorChain × Packet)}
    (disjoint : (pairs.flatMap fun pair => pair.1.ranges).Pairwise DmaRange.Apart)
    (used : ∀ pair ∈ pairs, ∀ range ∈ pair.1.ranges, range.Apart queue.layout.used) (nextUsed : UInt16)
    {flat : Nat → Option UInt8}
    (mapped : ∀ pair ∈ pairs, ∀ range ∈ pair.1.ranges, (Store.read flat range.gpa range.length).isSome)
    (fits : ∀ pair ∈ pairs, pair.2.bytes.length ≤ (pair.1.ranges.map DmaRange.length).sum) :
    ∀ pair ∈ pairs, pair.2.bytes <+: loadRanges (delivered queue nextUsed pairs flat) pair.1.ranges := by
  induction pairs generalizing nextUsed flat with
  | nil => exact fun _ member => (List.not_mem_nil member).elim
  | cons first rest ih =>
      obtain ⟨chain, packet⟩ := first
      rw [List.flatMap_cons, List.pairwise_append] at disjoint
      obtain ⟨own, others, cross⟩ := disjoint
      rw [List.forall_mem_cons] at used mapped fits
      let stored := storeRanges flat chain.ranges packet.bytes
      let next := queue.completed nextUsed chain.head (UInt32.ofNat packet.bytes.length) stored
      refine List.forall_mem_cons.mpr ⟨?_, ih others used.2 _ (fun pair member range listed => ?_) fits.2⟩
      · have later : VirtQueue.Undisturbed queue (rest.flatMap fun pair => pair.1.ranges) next
            (delivered queue (nextUsed + 1) rest next) :=
          delivered_undisturbed ready (fun pair member range listed => List.mem_flatMap.mpr ⟨pair, member, listed⟩) _
            (.refl ..)
        have same : loadRanges (delivered queue (nextUsed + 1) rest next) chain.ranges = loadRanges stored chain.ranges :=
          loadRanges_congr fun range listed => by
            rw [later.kept _ _ (used.1 range listed) fun other member => cross range listed other member,
              VirtQueue.completed_frame ready (used.1 range listed)]
        rw [delivered, same, loadRanges_storeRanges own mapped.1 fits.1]
        exact List.prefix_append _ _
      · rw [VirtQueue.completed_isSome, VirtQueue.storeRanges_isSome]
        exact mapped.2 pair member range listed

theorem sum_ranges {chain : DescriptorChain} (writable : ∀ d ∈ chain.descriptors, d.writable = true) :
    (chain.ranges.map DmaRange.length).sum = chain.writableLength := by
  rw [DescriptorChain.writableLength_eq writable, DescriptorChain.ranges, List.map_map]
  rfl

theorem OffersRx.mapped {flat : Nat → Option UInt8} {chains : List DescriptorChain}
    (offered : OffersRx queue flat state chains) :
    ∀ chain ∈ chains, ∀ range ∈ chain.ranges, (Store.read flat range.gpa range.length).isSome := by
  induction chains generalizing flat state with
  | nil => exact fun _ member => (List.not_mem_nil member).elim
  | cons chain rest ih =>
      refine List.forall_mem_cons.mpr ⟨fun range listed => ?_, fun other member range listed => ?_⟩
      · obtain ⟨d, member, rfl⟩ := List.mem_map.mp listed
        exact offered.2.2.1.2 d member
      · have later := ih (offered.2.2.2 _ 0 ⟨[], rfl⟩) other member range listed
        rwa [VirtQueue.completed_isSome, VirtQueue.storeRanges_isSome] at later

theorem zip_ranges (chains : List DescriptorChain) (packets : List Packet) :
    ((chains.zip packets).flatMap fun pair => pair.1.ranges) <+: chains.flatMap DescriptorChain.ranges := by
  have first : (chains.zip packets).map Prod.fst <+: chains := by
    rw [List.zip_eq_zip_take_min, List.map_fst_zip (by simp)]
    exact List.take_prefix _ _
  have joined := first.flatMap DescriptorChain.ranges
  rwa [List.flatMap_map] at joined

/-- `process_tx` hands over the packets of the longest prefix of the available chains that are well formed and of a
negotiated type, and completes those chains. `process_rx` stores the queued packets in the available chains, one in
each as long as there are both, and leaves the others queued. -/
theorem packets_in_order :
    (∀ {β : Type} {resources : Resources} {backend : Backend β} {queue : VirtQueue} {state : QueueState}
      {view : DeviceView β} {offers : List TxChain},
      (∀ packet host, (backend.receivePacket packet host).1 = .ok ()) →
      Serving resources queueTx queue state view → OffersTx queue view.guest.flat state offers →
      ∃ result after,
        (∀ rounds, offers.length < rounds → processTx resources backend rounds view = some (result, after)) ∧
        Transmitted resources backend queue state view offers result after) ∧
    ∀ {β : Type} {resources : Resources} {backend : Backend β} {queue : VirtQueue} {state : QueueState}
      {view : DeviceView β} {queued : β → List Packet} {chains : List DescriptorChain},
      Fifo backend.hasPacket backend.takePacket queued → Serving resources queueRx queue state view →
      OffersRx queue view.guest.flat state chains →
      (∀ chain ∈ chains, ∀ d ∈ chain.descriptors, d.writable = true) →
      (∀ pair ∈ chains.zip (queued view.backend), pair.2.bytes.length ≤ pair.1.writableLength) →
      (∀ packet ∈ queued view.backend, packet.validate = .ok () ∧ Negotiated resources packet) →
      ∃ after,
        (∀ rounds, min chains.length (queued view.backend).length < rounds →
          processRx resources backend rounds view = some (.ok (), after)) ∧
        Received queued queue state view (chains.zip (queued view.backend)) after ∧
        ((chains.flatMap DescriptorChain.ranges).Pairwise DmaRange.Apart →
          (∀ chain ∈ chains, ∀ range ∈ chain.ranges, range.Apart queue.layout.used) →
          ∀ pair ∈ chains.zip (queued view.backend), pair.2.bytes <+: loadRanges after.guest.flat pair.1.ranges) := by
  refine ⟨fun accepts serving offered => processTx_transmits accepts serving offered, ?_⟩
  intro β resources backend queue state view queued chains fifo serving offered writable large sound
  obtain ⟨after, loops, received⟩ := processRx_delivers fifo serving offered writable sound large
  refine ⟨after, loops, received, fun disjoint used => ?_⟩
  rw [received.memory]
  refine delivered_stored serving.ready (disjoint.sublist (zip_ranges _ _).sublist) ?_ _ ?_ ?_
  · exact fun pair member range listed => used pair.1 (List.of_mem_zip member).1 range listed
  · exact fun pair member range listed => offered.mapped pair.1 (List.of_mem_zip member).1 range listed
  · intro pair member
    rw [sum_ranges (writable pair.1 (List.of_mem_zip member).1)]
    exact large pair member

-- A receive and a transmit queue of two entries each. The second chain to transmit is too short.
def rxLayout : QueueLayout := ⟨0, 2, ⟨64, 32⟩, ⟨96, 8⟩, ⟨104, 20⟩⟩

def txLayout : QueueLayout := ⟨1, 2, ⟨0, 32⟩, ⟨32, 8⟩, ⟨40, 20⟩⟩

def peerBytes : List UInt8 :=
  [128, 0, 0, 0, 0, 0, 0, 0, 44, 0, 0, 0, 0, 0, 0, 0] ++ [172, 0, 0, 0, 0, 0, 0, 0, 4, 0, 0, 0, 0, 0, 0, 0] ++
    [0, 0, 2, 0, 0, 0, 1, 0] ++ List.replicate 24 0 ++
    [192, 0, 0, 0, 0, 0, 0, 0, 64, 0, 0, 0, 2, 0, 0, 0] ++ List.replicate 16 0 ++
    [0, 0, 1, 0, 0, 0, 0, 0] ++ List.replicate 24 0 ++ List.replicate 28 0 ++ [1, 0]

/-- A peer that keeps what it receives, and sends from a queue. -/
def listPeer : Backend (List Packet × List Packet) where
  receivePacket packet host := (.ok (), (host.1 ++ [packet], host.2))
  hasPacket host := !host.2.isEmpty
  takePacket host := (host.2.head?, (host.1, host.2.tail))

def streamPacket (payload : List UInt8) : Packet where
  header := ⟨0, 0, 0, 0, UInt32.ofNat payload.length, vsockTypeStream, 0, 0, 0, 0⟩
  payload

def peerView : DeviceView (List Packet × List Packet) where
  guest := {
    memory := DmaMemory.single ⟨0, 0, 264⟩ (by decide)
    distinct := by decide
    host := fun a => peerBytes.getD a 0
    leasesLeft := none }
  states := List.replicate 3 QueueState.new
  backend := ([], [streamPacket [7], streamPacket [8]])
  log := []

def peerResources : Resources where
  queues := [rxLayout, txLayout, ⟨2, 1, ⟨0, 16⟩, ⟨16, 6⟩, ⟨32, 12⟩⟩]
  interrupts := List.replicate 4 fun _ _ => .ok ()
  negotiatedFeatures := 0x100000000

def rxChain : DescriptorChain := ⟨0, [⟨192, 64, virtqDescFWrite, 0⟩]⟩

theorem peer_serves_tx : Serving peerResources queueTx ⟨txLayout⟩ QueueState.new peerView :=
  ⟨rfl, rfl, ⟨rfl, by decide +kernel⟩, _, rfl, fun _ _ => rfl⟩

theorem peer_serves_rx : Serving peerResources queueRx ⟨rxLayout⟩ QueueState.new peerView :=
  ⟨rfl, rfl, ⟨rfl, by decide +kernel⟩, _, rfl, fun _ _ => rfl⟩

theorem peer_offers_tx :
    OffersTx ⟨txLayout⟩ peerView.guest.flat QueueState.new ([0, 1].map (txChain ⟨txLayout⟩ peerView.guest)) := by
  refine offersTx_of_spared peer_serves_tx.ready (by decide) (by decide) (by decide) ?_ (by decide +kernel) ?_
  · have first : (txChain ⟨txLayout⟩ peerView.guest 0).chain = some ⟨0, [⟨128, 44, 0, 0⟩]⟩ := by decide +kernel
    have second : (txChain ⟨txLayout⟩ peerView.guest 1).chain = some ⟨1, [⟨172, 4, 0, 0⟩]⟩ := by decide +kernel
    intro head member chain known
    rcases List.mem_cons.mp member with rfl | member
    · rw [first] at known
      cases known
      decide
    · cases List.mem_singleton.mp member
      rw [second] at known
      cases known
      decide
  · rintro (_ | _ | k) head listed
    · cases listed
      decide +kernel
    · cases listed
      decide +kernel
    · cases listed

theorem peer_offers_rx : OffersRx ⟨rxLayout⟩ peerView.guest.flat QueueState.new [rxChain] := by
  have ready := peer_serves_rx.ready
  have read : VirtQueue.readChain ⟨rxLayout⟩ 0 peerView.guest = (.ok rxChain, peerView.guest) :=
    Prod.ext (by decide +kernel) (VirtQueue.readChain_unchanged _ ready.live 0)
  refine offersRx_of_spared ready (by decide) (by decide) (by decide) ?_ (by decide +kernel) ?_
  · intro chain member
    cases List.mem_singleton.mp member
    exact ⟨(VirtQueue.readChain_eq_ok ready).mp read, by decide +kernel⟩
  · rintro (_ | k) chain listed
    · cases listed
      decide +kernel
    · cases listed

theorem packets_in_order_peer :
    (∃ result after, processTx peerResources listPeer 3 peerView = some (result, after) ∧
      after.backend.1 = [streamPacket []] ∧ result ≠ .ok ()) ∧
    ∃ after, processRx peerResources listPeer 2 peerView = some (.ok (), after) ∧
      after.backend.2 = [streamPacket [8]] ∧
      (streamPacket [7]).bytes <+: loadRanges after.guest.flat rxChain.ranges := by
  constructor
  · have accepts (packet : Packet) (host : List Packet × List Packet) :
        (listPeer.receivePacket packet host).1 = .ok () := rfl
    obtain ⟨result, after, loops, transmitted⟩ := packets_in_order.1 accepts peer_serves_tx peer_offers_tx
    have sent : carried peerResources ([0, 1].map (txChain ⟨txLayout⟩ peerView.guest)) =
        [(⟨0, [⟨128, 44, 0, 0⟩]⟩, streamPacket [])] := by decide +kernel
    refine ⟨result, after, loops 3 (by decide), ?_, ?_⟩
    · rw [transmitted.handed, sent]
      rfl
    · rw [ne_eq, transmitted.result, sent]
      decide
  · have fifo : Fifo listPeer.hasPacket listPeer.takePacket Prod.snd := ⟨fun _ => rfl, fun _ => rfl, fun _ => rfl⟩
    obtain ⟨after, loops, received, stored⟩ := packets_in_order.2 fifo peer_serves_rx peer_offers_rx (by decide)
      (by decide +kernel) (by decide +kernel)
    refine ⟨after, loops 2 (by decide), received.left, ?_⟩
    exact stored (by decide) (by decide) (rxChain, streamPacket [7]) List.mem_cons_self

end Vsock

end Libvirtio
