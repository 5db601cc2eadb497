import Libvirtio.Device.QueueIndices
import Libvirtio.Device.Scatter
import Libvirtio.Library.Rotation

namespace Libvirtio.Network
open Rotation

section
variable {γ : Type}

-- A frame goes to the queue whose turn it is, and the loop returns when that queue has no chain.
def processRx (resources : Resources) (backend : Backend γ) :
    Nat → DeviceView (State γ) → Option (Except Fault Unit × DeviceView (State γ)) :=
  Fallible.loop (rxRound resources backend)

/-- The pair whose turn it is after `k` more turns. The `usize` counter wraps. -/
def turn (state : State γ) (k : Nat) : Nat :=
  (fun counter => (counter + 1) % 2 ^ 64)^[k] state.nextRxPair % state.activeQueuePairs

def rxBytes (frame : List UInt8) : List UInt8 := List.replicate headerSize 0 ++ frame

/-- The available ring of a pair's receive queue lists `chains` and their buffers are mapped. This is so in every memory
that is the `same`, and the memory stays the `same` when the device fills one of the chains and completes it. -/
structure Available (same : (Nat → Option UInt8) → Prop) (resources : Resources) (view : DeviceView (State γ))
    (pair : Nat) (chains : List DescriptorChain) (layout : QueueLayout) (state : QueueState) : Prop where
  configured : resources.queues[rxQueue pair]? = some layout
  known : view.states[rxQueue pair]? = some state
  ready : VirtQueue.Ready ⟨layout⟩ view.guest
  few : chains.length ≤ layout.size.toNat
  published : ∀ flat, same flat →
    wordAt flat (layout.available.gpa + 2) = some (state.lastAvailable + UInt16.ofNat chains.length)
  slots : ∀ flat, same flat → ∀ k chain, chains[k]? = some chain →
    wordAt flat (layout.available.gpa + 4 + ((state.lastAvailable + UInt16.ofNat k) % layout.size).toNat * 2) =
      some chain.head
  held : ∀ flat, same flat → ∀ chain ∈ chains, VirtQueue.Outcome ⟨layout⟩ flat chain.head (.ok chain) ∧
    ∀ range ∈ chain.ranges, (Store.read flat range.gpa range.length).isSome
  kept : ∀ flat, same flat → ∀ chain ∈ chains, ∀ bytes nextUsed usedLength,
    same (VirtQueue.completed ⟨layout⟩ nextUsed chain.head usedLength (storeRanges flat chain.ranges bytes))

/-- How the available chains are distributed over the active receive queues. -/
structure Distributed (same : (Nat → Option UInt8) → Prop) (resources : Resources) (view : DeviceView (State γ))
    (chains : Nat → List DescriptorChain) : Prop where
  positive : 1 ≤ view.backend.activeQueuePairs
  start : same view.guest.flat
  queue : ∀ pair < view.backend.activeQueuePairs, ∃ layout state,
    Available same resources view pair (chains pair) layout state

/-- The chain takes the frame. -/
structure Takes (chain : DescriptorChain) (frame : List UInt8) : Prop where
  nonempty : frame ≠ []
  small : frame.length ≤ maximumFrameSize
  writable : ∀ d ∈ chain.descriptors, d.writable = true
  large : (rxBytes frame).length ≤ (chain.ranges.map DmaRange.length).sum

def Announces (resources : Resources) (index : Nat) : Prop :=
  index < 2 ^ 16 ∧ ∃ notifier, resources.interrupts[index]? = some notifier ∧
    ∀ log interrupt, notifier log interrupt = .ok ()

/-- Every chain takes every frame, and the interrupts arrive. -/
structure Fillable (resources : Resources) (pairs : Nat) (chains : Nat → List DescriptorChain)
    (frames : List (List UInt8)) : Prop where
  announces : ∀ pair < pairs, Announces resources (rxQueue pair)
  takes : ∀ pair < pairs, ∀ chain ∈ chains pair, ∀ frame ∈ frames, Takes chain frame

end

variable {γ : Type} {resources : Resources} {backend : Backend γ} {view : DeviceView (State γ)}
variable {queued : γ → List (List UInt8)} {same : (Nat → Option UInt8) → Prop}

theorem turn_lt (positive : 1 ≤ view.backend.activeQueuePairs) (k : Nat) :
    turn view.backend k < view.backend.activeQueuePairs := Nat.mod_lt _ positive

/-- The view with the counter one further. -/
def turned (view : DeviceView (State γ)) : DeviceView (State γ) :=
  { view with backend := { view.backend with nextRxPair := (view.backend.nextRxPair + 1) % 2 ^ 64 } }

theorem nextPair_eq (positive : 1 ≤ view.backend.activeQueuePairs) :
    nextPair view = (.ok (turn view.backend 0), turned view) := by
  rw [nextPair, Fallible.bind_of_ok (Fallible.read_apply view)]
  have called : onBackend (fun state : State γ => ((), { state with nextRxPair := (view.backend.nextRxPair + 1) % 2 ^ 64 }))
      view = (.ok (), turned view) := rfl
  rw [Fallible.bind_of_ok called, if_neg (by omega)]
  rfl

theorem takeFrame_eq (fifo : Fifo backend.hasFrame backend.takeFrame queued) {frame : List UInt8}
    {frames : List (List UInt8)}
    (first : queued view.backend.backend = frame :: frames) :
    ∃ host, queued host = frames ∧
      takeFrame backend view = (.ok frame, { view with backend := { view.backend with backend := host } }) := by
  have given : (backend.takeFrame view.backend.backend).1 = some frame := by rw [fifo.taken, first]; rfl
  have called : onBackend (onHost backend.takeFrame) view = (.ok (some frame),
      { view with backend := { view.backend with backend := (backend.takeFrame view.backend.backend).2 } }) :=
    Prod.ext (congrArg Except.ok given) rfl
  refine ⟨(backend.takeFrame view.backend.backend).2, (fifo.left _).trans (by rw [first]; rfl), ?_⟩
  rw [takeFrame, Fallible.bind_of_ok called]
  rfl

theorem writeRxFrame_cases {guest : GuestMemory} {chain : DescriptorChain} {frame : List UInt8}
    (live : guest.leasesLeft = none)
    (mapped : ∀ range ∈ chain.ranges, (Store.read guest.flat range.gpa range.length).isSome)
    (bounded : (chain.ranges.map DmaRange.length).sum < 2 ^ 64) :
    (¬Takes chain frame ∧ ∃ e, writeRxFrame chain frame guest = (.error e, guest)) ∨
      Takes chain frame ∧ ∃ stored,
        writeRxFrame chain frame guest = (.ok (UInt32.ofNat (rxBytes frame).length), stored) ∧
        guest.Updated (storeRanges guest.flat chain.ranges (rxBytes frame)) stored := by
  obtain ⟨leases, leased⟩ := guest.leased_of_mapped (List.forall_mem_map.mpr fun d _ => descriptor_address d) mapped
  have writes := @writeChain_eq guest chain (rxBytes frame) leases live leased bounded
  rw [writeRxFrame, Fallible.ite_apply]
  split
  · rename_i bad
    refine .inl ⟨fun takes => ?_, _, rfl⟩
    rcases bad with empty | long
    · exact takes.nonempty empty
    · exact absurd takes.small (Nat.not_le.mpr long)
  rename_i sound
  obtain ⟨nonempty, small⟩ := not_or.mp sound
  rw [Fallible.ite_apply]
  split
  · rename_i readable
    refine .inl ⟨fun takes => ?_, _, rfl⟩
    obtain ⟨d, member, unwritable⟩ := List.any_eq_true.mp readable
    rw [takes.writable d member] at unwritable
    cases unwritable
  rename_i readable
  by_cases large : (rxBytes frame).length ≤ (chain.ranges.map DmaRange.length).sum
  · have narrow : (rxBytes frame).length < 2 ^ 32 := by
      simp only [rxBytes, headerSize, maximumFrameSize, List.length_append, List.length_replicate] at small ⊢
      omega
    rw [if_pos large] at writes
    refine .inr ⟨⟨nonempty, Nat.not_lt.mp small, by simpa using readable, large⟩,
      guest.scattered leases (rxBytes frame), ?_, rfl, rfl, ?_⟩
    · rw [← rxBytes, Fallible.bind_of_ok writes, if_pos narrow, Fallible.pure_apply]
    · exact leased.scatter guest.distinct guest.host (rxBytes frame)
  · rw [if_neg large] at writes
    exact .inl ⟨fun takes => large takes.large, _, Fallible.bind_of_error writes⟩

theorem complete_cases {index : Nat} {layout : QueueLayout} {state : QueueState}
    (configured : resources.queues[index]? = some layout) (known : view.states[index]? = some state)
    (ready : VirtQueue.Ready ⟨layout⟩ view.guest) (chain : DescriptorChain) (usedLength : UInt32) :
    (¬Announces resources index ∧ ∃ fault after, complete resources index chain usedLength view = (.error fault, after)) ∨
      ∃ guest, complete resources index chain usedLength view =
          (.ok (), Serving.done index state chain usedLength guest view) ∧
        view.guest.Updated (VirtQueue.completed ⟨layout⟩ state.nextUsed chain.head usedLength view.guest.flat) guest := by
  obtain ⟨guest, completes, updated⟩ := completeQueue_ready configured known ready chain usedLength
  rcases run : complete resources index chain usedLength view with ⟨fault | _, after⟩
  · refine .inl ⟨?_, fault, after, rfl⟩
    rintro ⟨fits, notifier, found, accepts⟩
    rw [complete, Fallible.bind_of_ok completes, expectQueue_iff.mpr ⟨fits, rfl⟩, notify_of_ok found (accepts _ _)] at run
    cases run
  · rw [complete, Fallible.bind_of_ok completes] at run
    obtain ⟨notifier, interrupt, -, made, -, rfl⟩ := notify_eq_ok run
    obtain ⟨-, rfl⟩ := expectQueue_iff.mp made
    refine .inr ⟨guest, ?_, updated⟩
    simp only [Serving.done, List.append_assoc, List.singleton_append]

/-- The rest of a round once a chain and a frame are taken. -/
def fill (resources : Resources) (pair : Nat) (chain : DescriptorChain) (frame : List UInt8) : DeviceM (State γ) Bool := do
  let usedLength ← onDma (writeRxFrame chain frame)
  complete resources (rxQueue pair) chain usedLength
  pure true

theorem fill_cases {pair : Nat} {layout : QueueLayout} {state : QueueState} {chain : DescriptorChain}
    {frame : List UInt8} (configured : resources.queues[rxQueue pair]? = some layout)
    (known : view.states[rxQueue pair]? = some state) (ready : VirtQueue.Ready ⟨layout⟩ view.guest)
    (mapped : ∀ range ∈ chain.ranges, (Store.read view.guest.flat range.gpa range.length).isSome)
    (bounded : (chain.ranges.map DmaRange.length).sum < 2 ^ 64) :
    (¬(Takes chain frame ∧ Announces resources (rxQueue pair)) ∧
      ∃ fault after, fill resources pair chain frame view = (.error fault, after)) ∨
    Takes chain frame ∧ ∃ guest, fill resources pair chain frame view =
        (.ok true, Serving.done (rxQueue pair) state chain (UInt32.ofNat (rxBytes frame).length) guest view) ∧
      view.guest.Updated (VirtQueue.completed ⟨layout⟩ state.nextUsed chain.head (UInt32.ofNat (rxBytes frame).length)
        (storeRanges view.guest.flat chain.ranges (rxBytes frame))) guest := by
  unfold fill
  rcases @writeRxFrame_cases view.guest chain frame ready.live mapped bounded with
    ⟨refused, e, failed⟩ | ⟨fits, stored, writes, updated⟩
  · exact .inl ⟨fun both => refused both.1, _, _, Fallible.bind_of_error (onDma_of_error failed)⟩
  rw [Fallible.bind_of_ok (onDma_of_ok writes)]
  rcases @complete_cases γ resources { view with guest := stored } (rxQueue pair) layout state configured known
    (ready.of_updated updated) chain (UInt32.ofNat (rxBytes frame).length) with
    ⟨unannounced, fault, after, failed⟩ | ⟨guest, completes, last⟩
  · exact .inl ⟨fun both => unannounced both.2, _, _, Fallible.bind_of_error failed⟩
  rw [Fallible.bind_of_ok completes]
  refine .inr ⟨fits, guest, rfl, last.memory.trans updated.memory, last.leasesLeft.trans updated.leasesLeft, ?_⟩
  rw [last.flat_eq, updated.flat_eq]

theorem Available.offers {pair : Nat} {chains : List DescriptorChain} {layout : QueueLayout} {state : QueueState}
    (available : Available same resources view pair chains layout state) (start : same view.guest.flat) :
    VirtQueue.Offers ⟨layout⟩ DescriptorChain.head
      (fun flat chain => VirtQueue.Outcome ⟨layout⟩ flat chain.head (.ok chain))
      (fun chain flat stored => ∃ bytes, stored = storeRanges flat chain.ranges bytes) view.guest.flat state chains := by
  refine VirtQueue.offers_of_stable same available.ready.size_le available.few available.published available.slots
    (fun flat holds chain member => (available.held flat holds chain member).1) ?_ start
  rintro flat holds chain member _ ⟨bytes, rfl⟩ nextUsed usedLength
  exact available.kept flat holds chain member bytes nextUsed usedLength

/-- The queue after its first chain was filled and completed, and any other queue. -/
theorem Available.next {pair : Nat} {chain : DescriptorChain} {chains : List DescriptorChain} {layout : QueueLayout}
    {state : QueueState} (available : Available same resources view pair (chain :: chains) layout state)
    {after : DeviceView (State γ)} (ready : VirtQueue.Ready ⟨layout⟩ after.guest)
    (known : after.states[rxQueue pair]? = some ⟨state.lastAvailable + 1, state.nextUsed + 1⟩) :
    Available same resources after pair chains layout ⟨state.lastAvailable + 1, state.nextUsed + 1⟩ where
  configured := available.configured
  known
  ready
  few := Nat.le_of_succ_le available.few
  published flat holds := by
    rw [VirtQueue.add_one_add_ofNat]
    exact available.published flat holds
  slots flat holds k other listed := by
    rw [VirtQueue.add_one_add_ofNat]
    exact available.slots flat holds (k + 1) other listed
  held flat holds other member := available.held flat holds other (List.mem_cons_of_mem _ member)
  kept flat holds other member := available.kept flat holds other (List.mem_cons_of_mem _ member)

theorem Distributed.next {chains : Nat → List DescriptorChain} (distributed : Distributed same resources view chains)
    {pair : Nat} {chain : DescriptorChain} {others : List DescriptorChain} {layout : QueueLayout} {state : QueueState}
    (available : Available same resources view pair (chain :: others) layout state) {after : DeviceView (State γ)}
    (active : after.backend.activeQueuePairs = view.backend.activeQueuePairs)
    (ready : ∀ layout, VirtQueue.Ready ⟨layout⟩ view.guest → VirtQueue.Ready ⟨layout⟩ after.guest)
    (known : after.states[rxQueue pair]? = some ⟨state.lastAvailable + 1, state.nextUsed + 1⟩)
    (elsewhere : ∀ index, index ≠ rxQueue pair → after.states[index]? = view.states[index]?)
    (start : same after.guest.flat) : Distributed same resources after (Function.update chains pair others) where
  positive := active ▸ distributed.positive
  start
  queue := by
    intro other below
    rw [active] at below
    by_cases here : other = pair
    · rw [here, Function.update_self]
      exact ⟨layout, _, available.next (ready layout available.ready) known⟩
    · obtain ⟨layout, state, available⟩ := distributed.queue other below
      have apart : rxQueue other ≠ rxQueue pair := by
        unfold rxQueue
        omega
      rw [Function.update_of_ne here]
      exact ⟨layout, state, { available with
        known := (elsewhere _ apart).trans available.known
        ready := ready layout available.ready }⟩

theorem Distributed.turned {chains : Nat → List DescriptorChain} (distributed : Distributed same resources view chains) :
    Distributed same resources (turned view) chains where
  positive := distributed.positive
  start := distributed.start
  queue := by
    intro pair below
    obtain ⟨layout, state, available⟩ := distributed.queue pair below
    exact ⟨layout, state, { available with known := available.known, ready := available.ready }⟩

theorem rxRound_idle (fifo : Fifo backend.hasFrame backend.takeFrame queued) (none : queued view.backend.backend = []) :
    rxRound resources backend view = (.ok false, view) := by
  have empty : backend.hasFrame view.backend.backend = false := by rw [fifo.has, none]; rfl
  rw [rxRound, Fallible.bind_of_ok (Fallible.read_apply view), empty]
  rfl

variable {chains : Nat → List DescriptorChain} {frame : List UInt8} {frames : List (List UInt8)}

theorem rxRound_starved (fifo : Fifo backend.hasFrame backend.takeFrame queued)
    (distributed : Distributed same resources view chains)
    (first : queued view.backend.backend = frame :: frames) (none : chains (turn view.backend 0) = []) :
    rxRound resources backend view = (.ok false, turned view) := by
  have has : backend.hasFrame view.backend.backend = true := by rw [fifo.has, first]; rfl
  obtain ⟨layout, state, available⟩ := distributed.queue _ (turn_lt distributed.positive 0)
  have offers := available.offers distributed.start
  rw [none] at offers
  have popped := @pop_offers_nil _ resources _ ⟨layout⟩ state (turned view) _ _ _ _ available.configured available.known
    available.ready offers
  rw [rxRound, Fallible.bind_of_ok (Fallible.read_apply view), if_pos has,
    Fallible.bind_of_ok (nextPair_eq distributed.positive), Fallible.bind_of_ok popped]
  rfl

/-- What a round that delivers a frame leaves. -/
structure Delivers (same : (Nat → Option UInt8) → Prop) (resources : Resources) (queued : γ → List (List UInt8))
    (view : DeviceView (State γ)) (chains : Nat → List DescriptorChain) (chain : DescriptorChain) (frame : List UInt8)
    (after : DeviceView (State γ)) : Prop where
  takes : Takes chain frame
  distributed : Distributed same resources after chains
  left : queued view.backend.backend = frame :: queued after.backend.backend
  turns : ∀ k, turn after.backend k = turn view.backend (k + 1)
  active : after.backend.activeQueuePairs = view.backend.activeQueuePairs
  log : after.log = view.log ++ [.completed (rxQueue (turn view.backend 0)) chain (UInt32.ofNat (rxBytes frame).length),
    .notified (rxQueue (turn view.backend 0)) (.queue (UInt16.ofNat (rxQueue (turn view.backend 0)))
      (UInt16.ofNat (rxQueue (turn view.backend 0))))]
  memory : ∃ layout nextUsed, resources.queues[rxQueue (turn view.backend 0)]? = some layout ∧
    VirtQueue.Ready ⟨layout⟩ view.guest ∧
    after.guest.flat = VirtQueue.completed ⟨layout⟩ nextUsed chain.head (UInt32.ofNat (rxBytes frame).length)
      (storeRanges view.guest.flat chain.ranges (rxBytes frame))

/-- The view once the turn's queue has lost its first chain and the backend its first frame. -/
def taking (host : γ) (state : QueueState) (view : DeviceView (State γ)) : DeviceView (State γ) :=
  let popped := Serving.taken (rxQueue (turn view.backend 0)) state (turned view)
  { popped with backend := { popped.backend with backend := host } }

theorem rxRound_takes (fifo : Fifo backend.hasFrame backend.takeFrame queued)
    (distributed : Distributed same resources view chains)
    (first : queued view.backend.backend = frame :: frames) {chain : DescriptorChain} {others : List DescriptorChain}
    {layout : QueueLayout} {state : QueueState}
    (available : Available same resources view (turn view.backend 0) (chain :: others) layout state) :
    ∃ host, queued host = frames ∧
      rxRound resources backend view = fill resources (turn view.backend 0) chain frame (taking host state view) := by
  have has : backend.hasFrame view.backend.backend = true := by rw [fifo.has, first]; rfl
  obtain ⟨outcome, -⟩ := available.held _ distributed.start chain List.mem_cons_self
  have popped := @pop_offers_cons _ resources _ ⟨layout⟩ state (turned view) _ _ _ _ _ _ available.configured
    available.known available.ready (available.offers distributed.start)
  rcases popped with ⟨found, found_outcome, popped⟩ | ⟨none, -⟩
  · cases outcome.unique found_outcome
    obtain ⟨host, left, takes⟩ := @takeFrame_eq γ backend (Serving.taken (rxQueue (turn view.backend 0)) state (turned view))
      queued fifo frame frames first
    refine ⟨host, left, ?_⟩
    rw [rxRound, Fallible.bind_of_ok (Fallible.read_apply view), if_pos has,
      Fallible.bind_of_ok (nextPair_eq distributed.positive), Fallible.bind_of_ok popped]
    simp only
    rw [Fallible.bind_of_ok takes]
    rfl
  · exact absurd outcome (none chain)

theorem rxRound_serves (fifo : Fifo backend.hasFrame backend.takeFrame queued)
    (distributed : Distributed same resources view chains)
    (first : queued view.backend.backend = frame :: frames) {chain : DescriptorChain} {others : List DescriptorChain}
    (served : chains (turn view.backend 0) = chain :: others) :
    (¬(Takes chain frame ∧ Announces resources (rxQueue (turn view.backend 0))) ∧
      ∃ fault after, rxRound resources backend view = (.error fault, after)) ∨
    ∃ after, rxRound resources backend view = (.ok true, after) ∧
      Delivers same resources queued view (Function.update chains (turn view.backend 0) others) chain frame after := by
  obtain ⟨layout, state, available⟩ := distributed.queue _ (turn_lt distributed.positive 0)
  rw [served] at available
  obtain ⟨host, left, round⟩ := rxRound_takes fifo distributed first available
  obtain ⟨outcome, mapped⟩ := available.held _ distributed.start chain List.mem_cons_self
  have bounded := outcome.sum_lt available.ready.size_le
  rw [chain.sum_lengths] at bounded
  have known : (taking host state view).states[rxQueue (turn view.backend 0)]? =
      some ⟨state.lastAvailable + 1, state.nextUsed⟩ := states_set_self available.known _
  rw [round]
  rcases @fill_cases γ resources (taking host state view) _ layout _ chain frame available.configured known
    available.ready mapped bounded with refused | ⟨fits, guest, fills, updated⟩
  · exact .inl refused
  refine .inr ⟨_, fills, ?_⟩
  refine {
    takes := fits
    distributed := distributed.next available rfl (fun layout ready => ready.of_updated updated) ?_ ?_ ?_
    left := by rw [first, ← left]; rfl
    turns := fun k => rfl
    active := rfl
    log := rfl
    memory := ⟨layout, state.nextUsed, available.configured, available.ready, updated.flat_eq⟩ }
  · exact states_set_self known _
  · intro index other
    exact (List.getElem?_set_ne other.symm).trans (List.getElem?_set_ne other.symm)
  · change same guest.flat
    rw [updated.flat_eq]
    exact available.kept _ distributed.start chain List.mem_cons_self _ _ _

def usedRings (resources : Resources) (pairs : Nat) : List DmaRange :=
  (List.range pairs).filterMap fun pair => (resources.queues[rxQueue pair]?).map QueueLayout.used

/-- The frames were taken from the backend and written to the chains, and each chain was completed with its length. -/
structure Received (queued : γ → List (List UInt8)) (resources : Resources) (view : DeviceView (State γ))
    (served : List (Nat × DescriptorChain × List UInt8)) (after : DeviceView (State γ)) : Prop where
  left : queued after.backend.backend = (queued view.backend.backend).drop served.length
  takes : ∀ s ∈ served, Takes s.2.1 s.2.2
  log : after.log = view.log ++ served.flatMap fun s =>
    [.completed (rxQueue s.1) s.2.1 (UInt32.ofNat (rxBytes s.2.2).length),
      .notified (rxQueue s.1) (.queue (UInt16.ofNat (rxQueue s.1)) (UInt16.ofNat (rxQueue s.1)))]
  untouched : VirtQueue.Untouched
    (usedRings resources view.backend.activeQueuePairs ++ served.flatMap fun s => s.2.1.ranges)
    view.guest.flat after.guest.flat
  -- The frames are still there at the end if the buffers lie apart from each other and from the used rings.
  stored : (served.flatMap fun s => s.2.1.ranges).Pairwise DmaRange.Apart →
    (∀ s ∈ served, ∀ range ∈ s.2.1.ranges, ∀ used ∈ usedRings resources view.backend.activeQueuePairs,
      range.Apart used) →
    ∀ s ∈ served, rxBytes s.2.2 <+: loadRanges after.guest.flat s.2.1.ranges

theorem Received.refl (queued : γ → List (List UInt8)) (resources : Resources) {after : DeviceView (State γ)}
    (left : queued after.backend.backend = queued view.backend.backend) (log : after.log = view.log)
    (guest : after.guest = view.guest) : Received queued resources view [] after where
  left := by rw [left, List.length_nil, List.drop_zero]
  takes := fun _ member => (List.not_mem_nil member).elim
  log := by rw [log, List.flatMap_nil, List.append_nil]
  untouched := guest ▸ .refl _ _
  stored := fun _ _ _ member => (List.not_mem_nil member).elim

theorem mem_usedRings {pairs pair : Nat} (below : pair < pairs) {layout : QueueLayout}
    (configured : resources.queues[rxQueue pair]? = some layout) : layout.used ∈ usedRings resources pairs :=
  List.mem_filterMap.mpr ⟨pair, List.mem_range.mpr below, by rw [configured, Option.map_some]⟩

/-- A frame that is delivered before the others. -/
theorem Received.cons {next after : DeviceView (State γ)} {chain : DescriptorChain}
    {served : List (Nat × DescriptorChain × List UInt8)} (positive : 1 ≤ view.backend.activeQueuePairs)
    (mapped : ∀ range ∈ chain.ranges, (Store.read view.guest.flat range.gpa range.length).isSome)
    (delivers : Delivers same resources queued view chains chain frame next)
    (received : Received queued resources next served after) :
    Received queued resources view ((turn view.backend 0, chain, frame) :: served) after := by
  obtain ⟨layout, nextUsed, configured, ready, flat⟩ := delivers.memory
  have active := delivers.active
  have used := mem_usedRings (turn_lt positive 0) configured
  refine {
    left := by rw [received.left, delivers.left, List.length_cons, List.drop_succ_cons]
    takes := List.forall_mem_cons.mpr ⟨delivers.takes, received.takes⟩
    log := by rw [received.log, delivers.log, List.flatMap_cons, List.append_assoc]
    untouched := ?_
    stored := fun disjoint apart => List.forall_mem_cons.mpr ⟨?_, ?_⟩ }
  · have later := received.untouched
    rw [active] at later
    refine .trans ?_ (later.mono fun range member => ?_)
    · rw [flat]
      refine .step ready (List.mem_append_left _ used) (fun range member => ?_) _ _ _ _
      exact List.mem_append_right _ (List.mem_flatMap.mpr ⟨_, List.mem_cons_self, member⟩)
    · rw [List.flatMap_cons]
      rcases List.mem_append.mp member with ring | buffer
      · exact List.mem_append_left _ ring
      · exact List.mem_append_right _ (List.mem_append_right _ buffer)
  · -- What is written later lies apart from this buffer.
    rw [List.flatMap_cons, List.pairwise_append] at disjoint
    obtain ⟨own, -, cross⟩ := disjoint
    have here := (List.forall_mem_cons.mp apart).1
    have kept : loadRanges after.guest.flat chain.ranges =
        loadRanges (storeRanges view.guest.flat chain.ranges (rxBytes frame)) chain.ranges := by
      refine loadRanges_congr fun range member => ?_
      rw [received.untouched.kept _ _ fun other written => ?_, flat,
        VirtQueue.completed_frame ready (here range member _ used)]
      rw [active] at written
      rcases List.mem_append.mp written with ring | buffer
      · exact here range member other ring
      · exact cross range member other buffer
    rw [kept, loadRanges_storeRanges own mapped delivers.takes.large]
    exact List.prefix_append _ _
  · rw [List.flatMap_cons, List.pairwise_append] at disjoint
    exact received.stored disjoint.2.1 (active ▸ (List.forall_mem_cons.mp apart).2)

theorem Fillable.next {pairs pair : Nat} {chain : DescriptorChain} {others : List DescriptorChain}
    (fillable : Fillable resources pairs chains (frame :: frames)) (served : chains pair = chain :: others) :
    Fillable resources pairs (Function.update chains pair others) frames where
  announces := fillable.announces
  takes := by
    intro other below entry member later listed
    refine fillable.takes other below entry ?_ later (List.mem_cons_of_mem _ listed)
    by_cases here : other = pair
    · rw [here, Function.update_self] at member
      rw [here, served]
      exact List.mem_cons_of_mem _ member
    · rwa [Function.update_of_ne here] at member

theorem processRx_runs (fifo : Fifo backend.hasFrame backend.takeFrame queued)
    (distributed : Distributed same resources view chains)
    (available : queued view.backend.backend = frames) :
    ∃ result after,
      (∀ rounds, frames.length < rounds → processRx resources backend rounds view = some (result, after)) ∧
      (¬Fillable resources view.backend.activeQueuePairs chains frames ∧ (∃ fault, result = .error fault) ∨
        result = .ok () ∧ Received queued resources view (dispatch (turn view.backend) chains frames) after ∧
        after.backend.activeQueuePairs = view.backend.activeQueuePairs ∧
        Distributed same resources after (remaining (turn view.backend) chains frames)) := by
  induction frames generalizing view chains with
  | nil =>
      refine ⟨.ok (), view, fun rounds enough => ?_, .inr ⟨rfl, .refl queued resources rfl rfl rfl, rfl, distributed⟩⟩
      obtain ⟨more, rfl⟩ := Nat.exists_eq_succ_of_ne_zero (Nat.ne_zero_of_lt enough)
      exact Fallible.loop_over (rxRound_idle fifo available)
  | cons frame frames ih =>
      cases served : chains (turn view.backend 0) with
      | nil =>
          refine ⟨.ok (), turned view, fun rounds enough => ?_, .inr ⟨rfl, ?_, rfl, ?_⟩⟩
          · obtain ⟨more, rfl⟩ := Nat.exists_eq_succ_of_ne_zero (Nat.ne_zero_of_lt enough)
            exact Fallible.loop_over (rxRound_starved fifo distributed available served)
          · rw [dispatch_stops served]
            exact .refl queued resources rfl rfl rfl
          · rw [remaining_stops served]
            exact distributed.turned
      | cons chain others =>
          rcases rxRound_serves fifo distributed available served with ⟨unfit, fault, after, run⟩ | ⟨next, run, delivers⟩
          · refine ⟨.error fault, after, fun rounds enough => ?_, .inl ⟨fun fillable => unfit ⟨?_, ?_⟩, fault, rfl⟩⟩
            · obtain ⟨more, rfl⟩ := Nat.exists_eq_succ_of_ne_zero (Nat.ne_zero_of_lt enough)
              exact Fallible.loop_failed run
            · exact fillable.takes _ (turn_lt distributed.positive 0) chain (by rw [served]; exact List.mem_cons_self) frame
                List.mem_cons_self
            · exact fillable.announces _ (turn_lt distributed.positive 0)
          · have left : queued next.backend.backend = frames := (List.cons.inj (delivers.left.symm.trans available)).2
            obtain ⟨result, after, loops, ended⟩ := ih delivers.distributed left
            have turns : turn next.backend = fun k => turn view.backend (k + 1) := funext delivers.turns
            rw [turns, delivers.active] at ended
            refine ⟨result, after, fun rounds enough => ?_, ?_⟩
            · obtain ⟨more, rfl⟩ := Nat.exists_eq_succ_of_ne_zero (Nat.ne_zero_of_lt enough)
              rw [List.length_cons] at enough
              exact (Fallible.loop_again run).trans (loops more (by omega))
            rcases ended with ⟨unfit, failed⟩ | ⟨ok, received, active, further⟩
            · exact .inl ⟨fun fillable => unfit (fillable.next served), failed⟩
            · obtain ⟨layout, state, available⟩ := distributed.queue _ (turn_lt distributed.positive 0)
              have mapped := (available.held _ distributed.start chain (by rw [served]; exact List.mem_cons_self)).2
              rw [dispatch_serves served, remaining_serves served]
              exact .inr ⟨ok, received.cons distributed.positive mapped delivers, active, further⟩

theorem Available.pop_none_iff {pair : Nat} {listed : List DescriptorChain} {layout : QueueLayout} {state : QueueState}
    (available : Available same resources view pair listed layout state) (start : same view.guest.flat) :
    (pop resources (rxQueue pair) view).1 = .ok none ↔ listed = [] := by
  have offers := available.offers start
  cases listed with
  | nil =>
      rw [pop_offers_nil available.configured available.known available.ready offers]
      exact iff_of_true rfl rfl
  | cons chain rest =>
      have outcome := (available.held _ start chain List.mem_cons_self).1
      refine iff_of_false ?_ (List.cons_ne_nil _ _)
      rcases pop_offers_cons available.configured available.known available.ready offers with
        ⟨found, -, popped⟩ | ⟨none, -⟩
      · rw [popped]
        exact fun same => by cases same
      · exact absurd outcome (none chain)

/-- When `process_rx` returns, frames and chains are not both left exactly when no turn falls on a queue that has used
up its chains before the frames or all the chains are used up. Every frame that was taken is in one chain. -/
theorem receive_unstalled_iff (fifo : Fifo backend.hasFrame backend.takeFrame queued)
    (distributed : Distributed same resources view chains) :
    ∃ result after,
      (∀ rounds, (queued view.backend.backend).length < rounds →
        processRx resources backend rounds view = some (result, after)) ∧
      (Fillable resources view.backend.activeQueuePairs chains (queued view.backend.backend) → result = .ok ()) ∧
      (result = .ok () →
        ((queued after.backend.backend = [] ∨
            ∀ pair < after.backend.activeQueuePairs, (pop resources (rxQueue pair) after).1 = .ok none) ↔
          Unstalled (turn view.backend) view.backend.activeQueuePairs (fun pair => (chains pair).length)
            (queued view.backend.backend).length) ∧
        ∃ served, Received queued resources view served after ∧
          served.map (fun s => s.2.2) = (queued view.backend.backend).take served.length ∧
          ∀ pair, (served.filter (·.1 = pair)).map (fun s => s.2.1) <+: chains pair) := by
  obtain ⟨result, after, loops, ended⟩ := processRx_runs fifo distributed rfl
  refine ⟨result, after, loops, ?_, ?_⟩
  · intro fillable
    rcases ended with ⟨unfit, -⟩ | ⟨ok, -⟩
    · exact absurd fillable unfit
    · exact ok
  · intro ok
    rcases ended with ⟨-, fault, failed⟩ | ⟨-, received, active, further⟩
    · rw [ok] at failed
      cases failed
    refine ⟨?_, _, received, items_dispatch _ _ _, fun pair => ⟨_, entries_dispatch _ _ _ pair⟩⟩
    rw [← not_stalled_iff (turn_lt distributed.positive), received.left, List.drop_eq_nil_iff]
    refine or_congr ?_ ?_
    · have := length_dispatch_le (turn view.backend) chains (queued view.backend.backend)
      omega
    · rw [active]
      refine forall₂_congr fun pair below => ?_
      obtain ⟨layout, state, available⟩ := further.queue pair (active ▸ below)
      exact available.pop_none_iff further.start

theorem available_of_spared {written : List DmaRange} {pair : Nat} {listed : List DescriptorChain} {layout : QueueLayout}
    {state : QueueState} (configured : resources.queues[rxQueue pair]? = some layout)
    (known : view.states[rxQueue pair]? = some state) (ready : VirtQueue.Ready ⟨layout⟩ view.guest)
    (few : listed.length ≤ layout.size.toNat)
    (ring : VirtQueue.Spared ⟨layout⟩ written layout.available.gpa (4 + layout.size.toNat * 2))
    (table : VirtQueue.Spared ⟨layout⟩ written layout.descriptors.gpa (layout.size.toNat * 16))
    (used : layout.used ∈ written) (within : ∀ chain ∈ listed, ∀ range ∈ chain.ranges, range ∈ written)
    (published : wordAt view.guest.flat (layout.available.gpa + 2) =
      some (state.lastAvailable + UInt16.ofNat listed.length))
    (slots : ∀ k chain, listed[k]? = some chain → wordAt view.guest.flat (layout.available.gpa + 4 +
      ((state.lastAvailable + UInt16.ofNat k) % layout.size).toNat * 2) = some chain.head)
    (held : ∀ chain ∈ listed, VirtQueue.Outcome ⟨layout⟩ view.guest.flat chain.head (.ok chain) ∧
      ∀ range ∈ chain.ranges, (Store.read view.guest.flat range.gpa range.length).isSome) :
    Available (VirtQueue.Untouched written view.guest.flat) resources view pair listed layout state := by
  refine { configured, known, ready, few, published := ?_, slots := ?_, held := ?_, kept := ?_ }
  · intro flat untouched
    have spared := ring.sub (b := layout.available.gpa + 2) (m := 2) (by omega) (by have := ready.size_pos; omega)
    rw [(untouched.undisturbed ⟨layout⟩).wordAt spared, published]
  · intro flat untouched k chain member
    have bound : ((state.lastAvailable + UInt16.ofNat k) % layout.size).toNat < layout.size.toNat := ready.slot_lt _
    rw [(untouched.undisturbed ⟨layout⟩).wordAt (ring.sub (by omega) (by omega)), slots k chain member]
  · intro flat untouched chain member
    obtain ⟨outcome, mapped⟩ := held chain member
    refine ⟨((untouched.undisturbed ⟨layout⟩).outcome table).mpr outcome, fun range listed => ?_⟩
    rw [untouched.mapped]
    exact mapped range listed
  · intro flat untouched chain member bytes nextUsed usedLength
    exact untouched.trans (.step ready used (within chain member) bytes nextUsed chain.head usedLength)

-- Two pairs, of which only the second one has a chain to receive into.
def idleLayout : QueueLayout := ⟨0, 1, ⟨192, 16⟩, ⟨208, 6⟩, ⟨216, 12⟩⟩

def secondLayout : QueueLayout := ⟨2, 1, ⟨128, 16⟩, ⟨144, 6⟩, ⟨152, 12⟩⟩

def secondChain : DescriptorChain := ⟨0, [⟨176, 16, virtqDescFWrite, 0⟩]⟩

-- The control queue has a command that sets two pairs.
def secondGuest : GuestMemory where
  memory := .single ⟨0, 0, 228⟩ (by decide)
  distinct := List.pairwise_singleton _ _
  host := fun a => ([(0, 116), (8, 2), (12, 1), (14, 1), (16, 118), (24, 2), (28, 1), (30, 2), (32, 120), (40, 1), (44, 2),
    (66, 1), (116, 4), (118, 2), (128, 176), (136, 16), (140, 2), (146, 1)].lookup a).getD 0
  leasesLeft := none

def secondResources : Resources where
  queues := [idleLayout, idleLayout, secondLayout, idleLayout, ⟨4, 4, ⟨0, 64⟩, ⟨64, 12⟩, ⟨80, 36⟩⟩]
  interrupts := List.replicate 6 fun _ _ => .ok ()
  negotiatedFeatures := virtioFVersion1

def frameQueue : Backend (List (List UInt8)) where
  transmit _ host := (.ok (), host)
  hasFrame host := !host.isEmpty
  takeFrame host := (host.head?, host.tail)

def secondView (activeQueuePairs nextRxPair : Nat) : DeviceView (State (List (List UInt8))) where
  guest := secondGuest
  states := List.replicate 5 QueueState.new
  backend := { backend := [[7]], activeQueuePairs, nextRxPair }
  log := []

-- The driver activates two pairs. The first turn is the first pair's.
theorem receive_stalls :
    NetworkSpec.activate secondResources ⟨localMac, 2, 4⟩ secondGuest [[7]] = .ok ⟨secondView 1 0, .parked⟩ ∧
    Takes secondChain [7] ∧
    ∃ s, exec (step secondResources frameQueue) ⟨secondView 1 0, .parked⟩ (.kick :: List.replicate 5 .round) = some s ∧
      s.pc = .rx ∧ s.view.backend.activeQueuePairs = 2 ∧
      ∃ after, processRx secondResources frameQueue 2 s.view = some (.ok (), after) ∧ after.backend.backend = [[7]] ∧
        (pop secondResources (rxQueue 1) after).1 = .ok (some secondChain) := by
  refine ⟨rfl, ⟨by decide, by decide, by decide, by decide⟩, ?_⟩
  have ends : (exec (step secondResources frameQueue) ⟨secondView 1 0, .parked⟩ (.kick :: List.replicate 5 .round)).map
      (fun s => (s.pc, s.view.backend.activeQueuePairs)) = some (.rx, 2) := by decide +kernel
  have returns : (exec (step secondResources frameQueue) ⟨secondView 1 0, .parked⟩
      (.kick :: List.replicate 5 .round)).bind (fun s => (processRx secondResources frameQueue 2 s.view).map fun ran =>
        (ran.1.isOk, ran.2.backend.backend, (pop secondResources (rxQueue 1) ran.2).1)) =
      some (true, [[7]], .ok (some secondChain)) := by decide +kernel
  obtain ⟨s, run, same⟩ := Option.map_eq_some_iff.mp ends
  obtain ⟨pc, active⟩ := Prod.mk.inj same
  rw [run, Option.bind_some] at returns
  obtain ⟨⟨_ | _, after⟩, loops, same⟩ := Option.map_eq_some_iff.mp returns
  · cases (Prod.mk.inj same).1
  obtain ⟨left, popped⟩ := Prod.mk.inj (Prod.mk.inj same).2
  exact ⟨s, run, pc, active, after, loops, left, popped⟩

theorem second_distributed :
    Distributed (VirtQueue.Untouched [⟨216, 12⟩, ⟨152, 12⟩, ⟨176, 16⟩] secondGuest.flat) secondResources (secondView 2 1)
      fun pair => if pair = 1 then [secondChain] else [] := by
  refine ⟨by decide, .refl _ _, fun pair below => ?_⟩
  have idle : VirtQueue.Ready ⟨idleLayout⟩ secondGuest := ⟨rfl, by decide +kernel⟩
  have second : VirtQueue.Ready ⟨secondLayout⟩ secondGuest := ⟨rfl, by decide +kernel⟩
  have read : VirtQueue.readChain ⟨secondLayout⟩ 0 secondGuest = (.ok secondChain, secondGuest) :=
    Prod.ext (by decide +kernel) (VirtQueue.readChain_unchanged _ second.live 0)
  change pair < 2 at below
  obtain rfl | rfl : pair = 0 ∨ pair = 1 := by omega
  · refine ⟨idleLayout, QueueState.new, @available_of_spared _ _ (secondView 2 1) _ 0 [] idleLayout QueueState.new rfl rfl
      idle (by decide) (by decide) (by decide) (by decide) (by simp) (by decide +kernel) ?_ (by simp)⟩
    exact fun k chain listed => by cases listed
  · refine ⟨secondLayout, QueueState.new, @available_of_spared _ _ (secondView 2 1) _ 1 [secondChain] secondLayout
      QueueState.new rfl rfl second (by decide) (by decide) (by decide) (by decide) (by decide) (by decide +kernel) ?_ ?_⟩
    · rintro (_ | k) chain listed
      · cases listed
        decide +kernel
      · cases listed
    · intro chain member
      cases List.mem_singleton.mp member
      exact ⟨(VirtQueue.readChain_eq_ok second).mp read, by decide +kernel⟩

-- After a turn of the first pair the chain of the second one is found.
theorem receive_unstalled_iff_second :
    ∃ after, processRx secondResources frameQueue 2 (secondView 2 1) = some (.ok (), after) ∧
      (after.backend.backend = [] ∨
        ∀ pair < after.backend.activeQueuePairs, (pop secondResources (rxQueue pair) after).1 = .ok none) ∧
      Unstalled (turn (secondView 2 1).backend) 2 (fun pair => (if pair = 1 then [secondChain] else []).length) 1 := by
  have fifo : Fifo frameQueue.hasFrame frameQueue.takeFrame id := ⟨fun _ => rfl, fun _ => rfl, fun _ => rfl⟩
  have unstalled : Unstalled (turn (secondView 2 1).backend) 2
      (fun pair => (if pair = 1 then [secondChain] else []).length) 1 := by
    unfold Unstalled visits
    decide +kernel
  obtain ⟨result, after, loops, fills, ended⟩ := receive_unstalled_iff fifo second_distributed
  have fillable : Fillable secondResources 2 (fun pair => if pair = 1 then [secondChain] else []) [[7]] := by
    refine ⟨fun pair below => ?_, fun pair below chain member frame listed => ?_⟩
    · obtain rfl | rfl : pair = 0 ∨ pair = 1 := by omega
      · exact ⟨by decide, _, rfl, fun _ _ => rfl⟩
      · exact ⟨by decide, _, rfl, fun _ _ => rfl⟩
    · obtain rfl | rfl : pair = 0 ∨ pair = 1 := by omega
      · cases member
      · cases List.mem_singleton.mp member
        cases List.mem_singleton.mp listed
        exact ⟨by decide, by decide, by decide, by decide⟩
  obtain rfl := fills fillable
  exact ⟨after, loops 2 (by decide), (ended rfl).1.mpr unstalled, unstalled⟩

end Libvirtio.Network
