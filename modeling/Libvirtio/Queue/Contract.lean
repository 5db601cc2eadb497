import Libvirtio.Queue.Access
import Libvirtio.Library.Execution
import Libvirtio.Library.Ring
import Mathlib.Data.List.Perm.Basic

/-!
# The virtqueue contract

A driver and a device on one queue. The driver publishes heads and reaps used elements with counters of
its own that never wrap; the device runs `VirtQueue::pop` and `VirtQueue::complete` on `u16` indices.
-/

namespace Libvirtio

theorem GuestMemory.updated_scatter (guest : GuestMemory) {gpa : Nat} {bytes : List UInt8} {parts : List DmaPart}
    (ok : guest.memory.translate ⟨gpa, bytes.length⟩ = .ok parts) :
    guest.Updated (Store.write guest.flat gpa bytes) { guest with host := scatter guest.host parts bytes } :=
  ⟨rfl, rfl, guest.flat_scatter ok (Nat.le_refl _)⟩

def GuestMemory.store (guest : GuestMemory) (gpa : Nat) (bytes : List UInt8) : GuestMemory :=
  match guest.memory.translate ⟨gpa, bytes.length⟩ with
  | .ok parts => { guest with host := scatter guest.host parts bytes }
  | .error _ => guest

theorem GuestMemory.store_updated {guest : GuestMemory} {gpa : Nat} {bytes : List UInt8} (nonempty : bytes ≠ [])
    (mapped : (Store.read guest.flat gpa bytes.length).isSome) :
    guest.Updated (Store.write guest.flat gpa bytes) (guest.store gpa bytes) := by
  obtain ⟨parts, ok⟩ := guest.translate_of_read (List.length_pos_iff.mpr nonempty) mapped
  unfold store
  rw [ok]
  exact guest.updated_scatter ok

namespace Contract

structure System where
  view : QueueView
  published : List UInt16
  popped : List DescriptorChain
  outstanding : List DescriptorChain
  completed : List (UInt16 × UInt32)
  reaped : List (UInt32 × UInt32)

inductive Label where
  | publish (head : UInt16)
  | pop
  | complete (index : Nat) (usedLength : UInt32)
  | reap
  -- Any other change of memory, by the driver or by a device, that leaves both rings alone.
  | elsewhere (host : Nat → UInt8)

variable (queue : VirtQueue)

def availableSlot (n : Nat) : Nat :=
  Ring.slot (queue.layout.available.gpa + 4) 2 queue.layout.size.toNat n

def usedSlot (n : Nat) : Nat :=
  Ring.slot (queue.layout.used.gpa + 4) 8 queue.layout.size.toNat n

def usedEntry (entry : UInt16 × UInt32) : List UInt8 :=
  LittleEndian.encode 4 entry.1.toNat ++ LittleEndian.encode 4 entry.2.toNat

def publish (s : System) (head : UInt16) : Option System :=
  if s.published.length < s.reaped.length + queue.layout.size.toNat then
    let written := s.view.guest.store (availableSlot queue s.published.length) (LittleEndian.encode 2 head.toNat)
    let guest := written.store (queue.layout.available.gpa + 2) (LittleEndian.encode 2 (s.published.length + 1))
    some { s with view := { s.view with guest }, published := s.published ++ [head] }
  else none

def pop (s : System) : System :=
  match queue.pop s.view with
  | (.ok (some chain), view) =>
      { s with view, popped := s.popped ++ [chain], outstanding := s.outstanding ++ [chain] }
  | (_, view) => { s with view }

def complete (s : System) (index : Nat) (usedLength : UInt32) : Option System :=
  s.outstanding[index]?.map fun chain =>
    match queue.complete chain usedLength s.view with
    | (.ok (), view) =>
        { s with view, outstanding := s.outstanding.eraseIdx index,
                 completed := s.completed ++ [(chain.head, usedLength)] }
    | (.error _, view) => { s with view }

def reap (s : System) : Option System := do
  let index ← Store.read s.view.guest.flat (queue.layout.used.gpa + 2) 2
  if UInt16.ofNat (LittleEndian.decode index) = UInt16.ofNat s.reaped.length then none
  else do
    let element ← Store.read s.view.guest.flat (usedSlot queue s.reaped.length) 8
    some { s with reaped := s.reaped ++ [(UInt32.ofNat (field element 0 4), UInt32.ofNat (field element 4 4))] }

def elsewhere (s : System) (host : Nat → UInt8) : Option System :=
  let guest := { s.view.guest with host }
  let ring (g : GuestMemory) (range : DmaRange) := Store.read g.flat range.gpa range.length
  if ring guest queue.layout.available = ring s.view.guest queue.layout.available ∧
      ring guest queue.layout.used = ring s.view.guest queue.layout.used then
    some { s with view := { s.view with guest } }
  else none

def step (s : System) : Label → Option System
  | .publish head => publish queue s head
  | .pop => some (pop queue s)
  | .complete index usedLength => complete queue s index usedLength
  | .reap => reap queue s
  | .elsewhere host => elsewhere queue s host

def initial (guest : GuestMemory) : System where
  view := ⟨.new, guest⟩
  published := []
  popped := []
  outstanding := []
  completed := []
  reaped := []

def RingsApart : Prop :=
  Store.Apart queue.layout.available.gpa queue.layout.available.length
    queue.layout.used.gpa queue.layout.used.length

instance : Decidable (RingsApart queue) := inferInstanceAs (Decidable (Store.Apart _ _ _ _))

/-! ## The rings -/

/-- What the rings hold: the published entries not yet popped, and the completed ones not yet reaped. -/
structure Rings (s : System) (flat : Nat → Option UInt8) : Prop where
  availableIndex : Store.read flat (queue.layout.available.gpa + 2) 2 =
    some (LittleEndian.encode 2 s.published.length)
  available : Ring.Window flat (queue.layout.available.gpa + 4) 2 queue.layout.size.toNat
    (s.published.map fun head => LittleEndian.encode 2 head.toNat) s.popped.length
  usedIndex : Store.read flat (queue.layout.used.gpa + 2) 2 =
    some (LittleEndian.encode 2 s.completed.length)
  used : Ring.Window flat (queue.layout.used.gpa + 4) 8 queue.layout.size.toNat
    (s.completed.map usedEntry) s.reaped.length

structure Inv (s : System) : Prop where
  ready : queue.Ready s.view.guest
  lastAvailable : s.view.state.lastAvailable = UInt16.ofNat s.popped.length
  nextUsed : s.view.state.nextUsed = UInt16.ofNat s.completed.length
  reaped_le : s.reaped.length ≤ s.completed.length
  counted : s.completed.length + s.outstanding.length = s.popped.length
  popped_le : s.popped.length ≤ s.published.length
  bounded : s.published.length ≤ s.reaped.length + queue.layout.size.toNat
  heads : s.popped.map DescriptorChain.head = s.published.take s.popped.length
  handled : (s.completed.map Prod.fst ++ s.outstanding.map DescriptorChain.head).Perm
    (s.popped.map DescriptorChain.head)
  reads : s.reaped = (s.completed.map fun e => (e.1.toUInt32, e.2)).take s.reaped.length
  rings : Rings queue s s.view.guest.flat

variable {queue}

/-! ## Indices -/

theorem ofNat_sub {p q : Nat} (le : q ≤ p) (close : p - q < 2 ^ 16) :
    (UInt16.ofNat p - UInt16.ofNat q).toNat = p - q := by
  rw [UInt16.toNat_sub, UInt16.toNat_ofNat', UInt16.toNat_ofNat']
  omega

theorem ofNat_eq_iff {p q : Nat} (le : q ≤ p) (close : p - q < 2 ^ 16) :
    UInt16.ofNat p = UInt16.ofNat q ↔ p = q := by
  constructor
  · intro same
    have distance := ofNat_sub le close
    rw [same, UInt16.toNat_sub] at distance
    have := (UInt16.ofNat q).toNat_lt
    omega
  · rintro rfl
    rfl

/-- The size divides `2^16`, so a wrapped index and the counter behind it have one slot. -/
theorem wrapped_slot {guest : GuestMemory} (ready : queue.Ready guest) (n : Nat) :
    (UInt16.ofNat n % queue.layout.size).toNat = n % queue.layout.size.toNat := by
  rw [UInt16.toNat_mod, UInt16.toNat_ofNat', Nat.mod_mod_of_dvd _ ready.size_dvd]

theorem encode_ofNat (n : Nat) :
    LittleEndian.encode 2 (UInt16.ofNat n).toNat = LittleEndian.encode 2 n := by
  simp only [LittleEndian.encode, UInt16.toNat_ofNat', List.cons.injEq, and_true]
  constructor
  · apply UInt8.toNat_inj.mp
    simp
  · apply UInt8.toNat_inj.mp
    simp only [UInt8.toNat_ofNat']
    omega

@[simp] theorem length_usedEntry (entry : UInt16 × UInt32) : (usedEntry entry).length = 8 := by
  simp [usedEntry]

theorem usedEntry_head (entry : UInt16 × UInt32) :
    UInt32.ofNat (field (usedEntry entry) 0 4) = entry.1.toUInt32 := by
  have small := entry.1.toNat_lt
  have bytes : ((usedEntry entry).drop 0).take 4 = LittleEndian.encode 4 entry.1.toNat := by
    simp [usedEntry]
  rw [field, bytes, LittleEndian.decode_encode_of_lt (by omega)]
  apply UInt32.toNat_inj.mp
  simp

theorem usedEntry_length (entry : UInt16 × UInt32) :
    UInt32.ofNat (field (usedEntry entry) 4 4) = entry.2 := by
  have small := entry.2.toNat_lt
  have bytes : ((usedEntry entry).drop 4).take 4 = LittleEndian.encode 4 entry.2.toNat := by
    rw [usedEntry, List.drop_append_of_le_length (by simp), List.drop_eq_nil_of_le (by simp)]
    simp [List.take_of_length_le]
  rw [field, bytes, LittleEndian.decode_encode_of_lt (by omega), UInt32.ofNat_toNat]

/-! ## Steps -/

theorem separate_of_apart {guest : GuestMemory} (ready : queue.Ready guest) (apart : RingsApart queue) :
    queue.layout.available.gpa + 4 + queue.layout.size.toNat * 2 ≤ queue.layout.used.gpa ∨
      queue.layout.used.gpa + 4 + queue.layout.size.toNat * 8 ≤ queue.layout.available.gpa := by
  obtain ⟨-, -, available, used, -⟩ := ready.facts
  unfold RingsApart Store.Apart at apart
  omega

namespace Rings
variable {s t : System} {flat after : Nat → Option UInt8}

theorem congr (rings : Rings queue s flat) (positive : 0 < queue.layout.size.toNat)
    (available : ∀ b, queue.layout.available.gpa ≤ b →
      b < queue.layout.available.gpa + 4 + queue.layout.size.toNat * 2 → after b = flat b)
    (used : ∀ b, queue.layout.used.gpa ≤ b →
      b < queue.layout.used.gpa + 4 + queue.layout.size.toNat * 8 → after b = flat b) :
    Rings queue s after where
  availableIndex := by
    rw [Store.read_congr fun b low high => available b (by omega) (by omega)]
    exact rings.availableIndex
  available := rings.available.frame positive fun b low high => available b (by omega) (by omega)
  usedIndex := by
    rw [Store.read_congr fun b low high => used b (by omega) (by omega)]
    exact rings.usedIndex
  used := rings.used.frame positive fun b low high => used b (by omega) (by omega)

theorem publish (rings : Rings queue s flat) {guest : GuestMemory} (ready : queue.Ready guest)
    (same : guest.flat = flat) (apart : RingsApart queue) (room : s.published.length < s.popped.length + queue.layout.size.toNat)
    (popped_le : s.popped.length ≤ s.published.length) (head : UInt16) :
    Rings queue { s with published := s.published ++ [head] }
      (Store.write (Store.write flat (availableSlot queue s.published.length) (LittleEndian.encode 2 head.toNat))
        (queue.layout.available.gpa + 2) (LittleEndian.encode 2 (s.published.length + 1))) := by
  have separate := separate_of_apart ready apart
  obtain ⟨lower, upper⟩ := Ring.slot_within (queue.layout.available.gpa + 4) 2 s.published.length ready.size_pos
  have mapped : (Store.read flat (queue.layout.available.gpa + 4) (queue.layout.size.toNat * 2)).isSome :=
    same ▸ ready.available_mapped (by omega) (by omega)
  have off_used : ∀ b, queue.layout.used.gpa ≤ b → b < queue.layout.used.gpa + 4 + queue.layout.size.toNat * 8 →
      Store.write (Store.write flat (availableSlot queue s.published.length) (LittleEndian.encode 2 head.toNat))
        (queue.layout.available.gpa + 2) (LittleEndian.encode 2 (s.published.length + 1)) b = flat b := by
    intro b low high
    rw [Store.write_of_outside (by rw [LittleEndian.length_encode]; omega), Store.write_of_outside]
    rw [LittleEndian.length_encode, availableSlot]
    omega
  refine ⟨?_, ?_, ?_, ?_⟩
  · simp only [List.length_append, List.length_singleton]
    have index : (Store.read flat (queue.layout.available.gpa + 2) 2).isSome :=
      same ▸ ready.available_mapped (by omega) (by omega)
    rw [← Store.read_write_isSome flat _ 2 (availableSlot queue s.published.length)
      (LittleEndian.encode 2 head.toNat)] at index
    exact Store.read_write_self (by rwa [LittleEndian.length_encode])
  · rw [List.map_append]
    have pushed := rings.available.push (by simpa using room) (by simpa using popped_le)
      (LittleEndian.length_encode 2 head.toNat) mapped
    rw [List.length_map] at pushed
    refine pushed.frame ready.size_pos fun b low high => Store.write_of_outside ?_
    rw [LittleEndian.length_encode]
    omega
  · rw [Store.read_congr fun b low high => off_used b (by omega) (by omega)]
    exact rings.usedIndex
  · exact rings.used.frame ready.size_pos fun b low high => off_used b (by omega) (by omega)

theorem complete (rings : Rings queue s flat) {guest : GuestMemory} (ready : queue.Ready guest)
    (same : guest.flat = flat) (apart : RingsApart queue)
    (room : s.completed.length < s.reaped.length + queue.layout.size.toNat)
    (reaped_le : s.reaped.length ≤ s.completed.length) (head : UInt16) (usedLength : UInt32) :
    Rings queue { s with completed := s.completed ++ [(head, usedLength)] }
      (queue.completed (UInt16.ofNat s.completed.length) head usedLength flat) := by
  have separate := separate_of_apart ready apart
  obtain ⟨lower, upper⟩ := Ring.slot_within (queue.layout.used.gpa + 4) 8 s.completed.length ready.size_pos
  have mapped : (Store.read flat (queue.layout.used.gpa + 4) (queue.layout.size.toNat * 8)).isSome :=
    same ▸ ready.used_mapped (by omega) (by omega)
  have wrapped : UInt16.ofNat s.completed.length + 1 = UInt16.ofNat (s.completed.length + 1) := by
    apply UInt16.toNat_inj.mp
    simp
  -- The two halves of the element are one write of the entry.
  have written : queue.completed (UInt16.ofNat s.completed.length) head usedLength flat =
      Store.write (Store.write flat (usedSlot queue s.completed.length) (usedEntry (head, usedLength)))
        (queue.layout.used.gpa + 2) (LittleEndian.encode 2 (s.completed.length + 1)) := by
    simp only [VirtQueue.completed, wrapped_slot ready, usedSlot, Ring.slot, usedEntry, Store.write_append,
      LittleEndian.length_encode, wrapped, encode_ofNat]
  have off_available : ∀ b, queue.layout.available.gpa ≤ b →
      b < queue.layout.available.gpa + 4 + queue.layout.size.toNat * 2 →
      Store.write (Store.write flat (usedSlot queue s.completed.length) (usedEntry (head, usedLength)))
        (queue.layout.used.gpa + 2) (LittleEndian.encode 2 (s.completed.length + 1)) b = flat b := by
    intro b low high
    rw [Store.write_of_outside (by rw [LittleEndian.length_encode]; omega), Store.write_of_outside]
    rw [length_usedEntry, usedSlot]
    omega
  rw [written]
  refine ⟨?_, ?_, ?_, ?_⟩
  · rw [Store.read_congr fun b low high => off_available b (by omega) (by omega)]
    exact rings.availableIndex
  · exact rings.available.frame ready.size_pos fun b low high => off_available b (by omega) (by omega)
  · simp only [List.length_append, List.length_singleton]
    have index : (Store.read flat (queue.layout.used.gpa + 2) 2).isSome :=
      same ▸ ready.used_mapped (by omega) (by omega)
    rw [← Store.read_write_isSome flat _ 2 (usedSlot queue s.completed.length)
      (usedEntry (head, usedLength))] at index
    exact Store.read_write_self (by rwa [LittleEndian.length_encode])
  · rw [List.map_append]
    have pushed := rings.used.push (by simpa using room) (by simpa using reaped_le)
      (length_usedEntry (head, usedLength)) mapped
    rw [List.length_map] at pushed
    refine pushed.frame ready.size_pos fun b low high => Store.write_of_outside ?_
    rw [LittleEndian.length_encode]
    omega

end Rings

namespace Inv
variable {s t : System}

theorem initial_of {guest : GuestMemory} (ready : queue.Ready guest)
    (available : Store.read guest.flat (queue.layout.available.gpa + 2) 2 = some [0, 0])
    (used : Store.read guest.flat (queue.layout.used.gpa + 2) 2 = some [0, 0]) :
    Inv queue (initial guest) where
  ready := ready
  lastAvailable := rfl
  nextUsed := rfl
  reaped_le := Nat.le_refl _
  counted := rfl
  popped_le := Nat.le_refl _
  bounded := Nat.zero_le _
  heads := rfl
  handled := .refl _
  reads := rfl
  rings := {
    availableIndex := available.trans (show some [0, 0] = some (LittleEndian.encode 2 0) by decide)
    available := .nil
    usedIndex := used.trans (show some [0, 0] = some (LittleEndian.encode 2 0) by decide)
    used := .nil }

theorem pop_cases (inv : Inv queue s) :
    (s.popped.length = s.published.length ∧ queue.pop s.view = (.ok none, s.view)) ∨
    ∃ head, s.published[s.popped.length]? = some head ∧
      queue.pop s.view = match (queue.readChain head s.view.guest).1 with
        | .ok chain => (.ok (some chain),
            { s.view with state := { s.view.state with lastAvailable := s.view.state.lastAvailable + 1 } })
        | .error e => (.error e, s.view) := by
  have size_le := inv.ready.size_le
  have counted := inv.counted
  have reaped_le := inv.reaped_le
  have popped_le := inv.popped_le
  have bounded := inv.bounded
  have close : s.published.length - s.popped.length < 2 ^ 16 := by omega
  by_cases all : s.popped.length = s.published.length
  · refine Or.inl ⟨all, VirtQueue.pop_none inv.ready ?_⟩
    rw [wordAt_of_read inv.rings.availableIndex, inv.lastAvailable, all]
  · right
    have index : s.popped.length < s.published.length := by omega
    refine ⟨s.published[s.popped.length], List.getElem?_eq_getElem index, ?_⟩
    refine VirtQueue.pop_available inv.ready (wordAt_of_read inv.rings.availableIndex) ?_ ?_ ?_
    · rw [inv.lastAvailable, ne_eq, ofNat_eq_iff popped_le close]
      omega
    · rw [inv.lastAvailable, gt_iff_lt, UInt16.lt_iff_toNat_lt, ofNat_sub popped_le close]
      omega
    · have slot := inv.rings.available s.popped.length (LittleEndian.encode 2 s.published[s.popped.length].toNat)
        (Nat.le_refl _) (by simp [index])
      rw [inv.lastAvailable, wrapped_slot inv.ready]
      exact (wordAt_of_read slot).trans (congrArg some UInt16.ofNat_toNat)

theorem publish_step (inv : Inv queue s) (apart : RingsApart queue) {head : UInt16}
    (published : publish queue s head = some t) : Inv queue t := by
  unfold publish at published
  split at published
  · rename_i room
    cases published
    have counted := inv.counted
    have reaped_le := inv.reaped_le
    have popped_le := inv.popped_le
    obtain ⟨lower, upper⟩ := Ring.slot_within (queue.layout.available.gpa + 4) 2 s.published.length
      inv.ready.size_pos
    have first := GuestMemory.store_updated (LittleEndian.encode_ne_nil 2 head.toNat (by omega))
      (inv.ready.available_mapped (a := availableSlot queue s.published.length)
        (by unfold availableSlot; omega) (by rw [LittleEndian.length_encode, availableSlot]; omega))
    have ready := inv.ready.of_updated first
    have second := GuestMemory.store_updated (LittleEndian.encode_ne_nil 2 (s.published.length + 1) (by omega))
      (ready.available_mapped (a := queue.layout.available.gpa + 2)
        (by omega) (by rw [LittleEndian.length_encode]; omega))
    have rings := inv.rings.publish inv.ready rfl apart (by omega) popped_le head
    rw [← first.flat_eq, ← second.flat_eq] at rings
    refine {
      ready := ready.of_updated second
      lastAvailable := inv.lastAvailable
      nextUsed := inv.nextUsed
      reaped_le := reaped_le
      counted := counted
      popped_le := ?_
      bounded := ?_
      heads := ?_
      handled := inv.handled
      reads := inv.reads
      rings := ⟨rings.availableIndex, rings.available, rings.usedIndex, rings.used⟩ }
    · simp only [List.length_append, List.length_singleton]
      omega
    · simp only [List.length_append, List.length_singleton]
      omega
    · rw [List.take_append_of_le_length popped_le]
      exact inv.heads
  · cases published

theorem pop_step (inv : Inv queue s) : Inv queue (pop queue s) := by
  have rings := inv.rings
  rcases inv.pop_cases with ⟨-, run⟩ | ⟨head, next, run⟩
  · unfold pop
    rw [run]
    exact inv
  · have index : s.popped.length < s.published.length := (List.getElem?_eq_some_iff.mp next).1
    unfold pop
    rcases read : queue.readChain head s.view.guest with ⟨e | chain, after⟩
    · rw [read] at run
      rw [run]
      exact inv
    · have chain_head := (VirtQueue.readChain_shape read).1
      rw [read] at run
      rw [run]
      refine {
        ready := inv.ready
        lastAvailable := ?_
        nextUsed := inv.nextUsed
        reaped_le := inv.reaped_le
        counted := ?_
        popped_le := ?_
        bounded := inv.bounded
        heads := ?_
        handled := ?_
        reads := inv.reads
        rings := ⟨rings.availableIndex, rings.available.advance (by simp), rings.usedIndex, rings.used⟩ }
      · simp only [inv.lastAvailable, List.length_append, List.length_singleton]
        apply UInt16.toNat_inj.mp
        simp
      · have := inv.counted
        simp only [List.length_append, List.length_singleton]
        omega
      · simp only [List.length_append, List.length_singleton]
        omega
      · rw [List.map_append, inv.heads, List.length_append, List.length_singleton, List.take_add_one, next]
        simp [chain_head]
      · rw [List.map_append, List.map_append, ← List.append_assoc]
        exact inv.handled.append_right _

theorem complete_step (inv : Inv queue s) (apart : RingsApart queue) {index : Nat} {usedLength : UInt32}
    (completes : complete queue s index usedLength = some t) : Inv queue t := by
  obtain ⟨chain, found, rfl⟩ := Option.map_eq_some_iff.mp completes
  obtain ⟨bound, rfl⟩ := List.getElem?_eq_some_iff.mp found
  have counted := inv.counted
  have popped_le := inv.popped_le
  have bounded := inv.bounded
  obtain ⟨after, run, updated⟩ := VirtQueue.complete_ready inv.ready
    s.outstanding[index] usedLength
  have rings := inv.rings.complete inv.ready rfl apart (by omega) inv.reaped_le
    s.outstanding[index].head usedLength
  rw [← inv.nextUsed, ← updated.flat_eq] at rings
  rw [show s.view = ⟨s.view.state, s.view.guest⟩ from rfl, run]
  refine {
    ready := inv.ready.of_updated updated
    lastAvailable := inv.lastAvailable
    nextUsed := ?_
    reaped_le := ?_
    counted := ?_
    popped_le := popped_le
    bounded := bounded
    heads := inv.heads
    handled := ?_
    reads := ?_
    rings := ⟨rings.availableIndex, rings.available, rings.usedIndex, rings.used⟩ }
  · simp only [inv.nextUsed, List.length_append, List.length_singleton]
    apply UInt16.toNat_inj.mp
    simp
  · have := inv.reaped_le
    simp only [List.length_append, List.length_singleton]
    omega
  · simp only [List.length_append, List.length_singleton, List.length_eraseIdx_of_lt bound]
    omega
  · refine List.Perm.trans ?_ inv.handled
    rw [List.map_append, List.append_assoc]
    exact ((List.getElem_cons_eraseIdx_perm bound).map DescriptorChain.head).append_left _
  · rw [List.map_append, List.take_append_of_le_length (by simpa using inv.reaped_le)]
    exact inv.reads

theorem reap_cases (inv : Inv queue s) :
    (s.reaped.length = s.completed.length ∧ reap queue s = none) ∨
    ∃ entry, s.completed[s.reaped.length]? = some entry ∧
      reap queue s = some { s with reaped := s.reaped ++ [(entry.1.toUInt32, entry.2)] } := by
  have size_le := inv.ready.size_le
  have counted := inv.counted
  have popped_le := inv.popped_le
  have bounded := inv.bounded
  have reaped_le := inv.reaped_le
  have close : s.completed.length - s.reaped.length < 2 ^ 16 := by omega
  have decoded : UInt16.ofNat (LittleEndian.decode (LittleEndian.encode 2 s.completed.length)) =
      UInt16.ofNat s.completed.length := by
    apply UInt16.toNat_inj.mp
    rw [LittleEndian.decode_encode]
    simp
  have unfolded : reap queue s =
      if UInt16.ofNat s.completed.length = UInt16.ofNat s.reaped.length then none
      else (Store.read s.view.guest.flat (usedSlot queue s.reaped.length) 8).bind fun element =>
        some { s with reaped :=
          s.reaped ++ [(UInt32.ofNat (field element 0 4), UInt32.ofNat (field element 4 4))] } := by
    rw [← decoded, reap, inv.rings.usedIndex]
    rfl
  simp only [unfolded, ofNat_eq_iff reaped_le close]
  by_cases all : s.completed.length = s.reaped.length
  · exact Or.inl ⟨all.symm, if_pos all⟩
  · right
    have index : s.reaped.length < s.completed.length := by omega
    refine ⟨s.completed[s.reaped.length], List.getElem?_eq_getElem index, ?_⟩
    have element := inv.rings.used s.reaped.length (usedEntry s.completed[s.reaped.length]) (Nat.le_refl _)
      (by simp [index])
    rw [if_neg all, usedSlot, element, Option.bind_some, usedEntry_head, usedEntry_length]

theorem reap_step (inv : Inv queue s) (reaps : reap queue s = some t) : Inv queue t := by
  rcases inv.reap_cases with ⟨-, none⟩ | ⟨entry, next, eq⟩
  · rw [none] at reaps
    cases reaps
  · rw [eq] at reaps
    cases reaps
    have index : s.reaped.length < s.completed.length := (List.getElem?_eq_some_iff.mp next).1
    have bounded := inv.bounded
    have rings := inv.rings
    refine { inv with
      reaped_le := ?_
      bounded := ?_
      reads := ?_
      rings := ⟨rings.availableIndex, rings.available, rings.usedIndex, rings.used.advance (by simp)⟩ }
    · simp only [List.length_append, List.length_singleton]
      omega
    · simp only [List.length_append, List.length_singleton]
      omega
    · rw [List.length_append, List.length_singleton, List.take_add_one, ← inv.reads, List.getElem?_map, next]
      rfl

theorem elsewhere_step (inv : Inv queue s) {host : Nat → UInt8} (moved : elsewhere queue s host = some t) :
    Inv queue t := by
  simp only [elsewhere] at moved
  split at moved
  · rename_i same
    cases moved
    obtain ⟨-, -, availableFits, usedFits, -, available, used⟩ := inv.ready.facts
    have rings := inv.rings.congr inv.ready.size_pos
      (fun b low high => Store.eq_of_read_eq available same.1 low (by omega))
      (fun b low high => Store.eq_of_read_eq used same.2 low (by omega))
    exact { inv with
      ready := ⟨inv.ready.live, inv.ready.valid⟩
      rings := ⟨rings.availableIndex, rings.available, rings.usedIndex, rings.used⟩ }
  · cases moved

theorem step (inv : Inv queue s) (apart : RingsApart queue) {label : Label}
    (next : Contract.step queue s label = some t) : Inv queue t := by
  cases label with
  | publish head => exact inv.publish_step apart next
  | pop =>
      cases next
      exact inv.pop_step
  | complete index usedLength => exact inv.complete_step apart next
  | reap => exact inv.reap_step next
  | elsewhere host => exact inv.elsewhere_step next

end Inv

theorem reachable_inv {guest : GuestMemory} (ready : queue.Ready guest) (apart : RingsApart queue)
    (available : Store.read guest.flat (queue.layout.available.gpa + 2) 2 = some [0, 0])
    (used : Store.read guest.flat (queue.layout.used.gpa + 2) 2 = some [0, 0])
    {labels : List Label} {s : System} (run : exec (step queue) (initial guest) labels = some s) : Inv queue s :=
  Execution.invariant (Inv queue) (fun _ _ _ inv next => inv.step apart next) (.initial_of ready available used) run

/-- Between a driver and the device every chain is popped once, completed once and reaped once, in the order
of publication and of completion. -/
theorem exactly_once {guest : GuestMemory} (ready : queue.Ready guest) (apart : RingsApart queue)
    (available : Store.read guest.flat (queue.layout.available.gpa + 2) 2 = some [0, 0])
    (used : Store.read guest.flat (queue.layout.used.gpa + 2) 2 = some [0, 0])
    {labels : List Label} {s : System} (run : exec (step queue) (initial guest) labels = some s) :
    (queue.pop s.view).1 ≠ .error (.invalidQueue queue.layout.index "available index exceeds queue size") ∧
    s.popped.map DescriptorChain.head = s.published.take s.popped.length ∧
    ((queue.pop s.view).1 = .ok none ↔ s.popped.length = s.published.length) ∧
    (∀ head, s.published[s.popped.length]? = some head →
      (queue.pop s.view).1 = (queue.readChain head s.view.guest).1.map some) ∧
    (∀ chain usedLength, (queue.complete chain usedLength s.view).1 = .ok ()) ∧
    (s.completed.map Prod.fst ++ s.outstanding.map DescriptorChain.head).Perm (s.popped.map DescriptorChain.head) ∧
    s.reaped = (s.completed.map fun e => (e.1.toUInt32, e.2)).take s.reaped.length ∧
    ((reap queue s).isSome ↔ s.reaped.length < s.completed.length) := by
  have inv := reachable_inv ready apart available used run
  have reaped_le := inv.reaped_le
  refine ⟨?_, inv.heads, ?_, ?_, ?_, inv.handled, inv.reads, ?_⟩
  · rcases inv.pop_cases with ⟨-, eq⟩ | ⟨head, -, eq⟩
    · simp [eq]
    · rw [eq]
      cases read : (queue.readChain head s.view.guest).1 with
      | ok chain => simp
      | error e =>
          simp only [ne_eq, Except.error.injEq]
          rintro rfl
          exact VirtQueue.readChain_error read
  · rcases inv.pop_cases with ⟨all, eq⟩ | ⟨head, next, eq⟩
    · simp [eq, all]
    · have := (List.getElem?_eq_some_iff.mp next).1
      rw [eq]
      cases (queue.readChain head s.view.guest).1 <;> simp <;> omega
  · intro head next
    have := (List.getElem?_eq_some_iff.mp next).1
    rcases inv.pop_cases with ⟨all, -⟩ | ⟨other, found, eq⟩
    · omega
    · obtain rfl : other = head := Option.some.inj (found.symm.trans next)
      rw [eq]
      cases (queue.readChain other s.view.guest).1 <;> rfl
  · intro chain usedLength
    obtain ⟨after, completes, -⟩ := VirtQueue.complete_ready inv.ready chain usedLength
    rw [show s.view = ⟨s.view.state, s.view.guest⟩ from rfl, completes]
  · rcases inv.reap_cases with ⟨all, eq⟩ | ⟨entry, next, eq⟩
    · simp [eq, all]
    · simpa [eq] using (List.getElem?_eq_some_iff.mp next).1

def sampleQueue : VirtQueue := ⟨⟨0, 2, ⟨0, 32⟩, ⟨32, 8⟩, ⟨64, 20⟩⟩⟩

def sampleGuest : GuestMemory where
  memory := .single ⟨0, 0, 96⟩ (by decide)
  distinct := List.pairwise_singleton _ _
  host := fun _ => 0
  leasesLeft := none

theorem exactly_once_round_trip :
    ∃ s, exec (step sampleQueue) (initial sampleGuest) [.publish 1, .pop, .complete 0 7, .reap] = some s ∧
      s.reaped = [(1, 7)] ∧ ((sampleQueue.pop s.view).1 = .ok none ↔ s.popped.length = s.published.length) := by
  have ends : (exec (step sampleQueue) (initial sampleGuest)
      [.publish 1, .pop, .complete 0 7, .reap]).map System.reaped = some [(1, 7)] := by decide +kernel
  obtain ⟨s, run, reaped⟩ := Option.map_eq_some_iff.mp ends
  have contract := exactly_once (show sampleQueue.Ready sampleGuest from ⟨rfl, by decide +kernel⟩)
    (by decide +kernel) (by decide +kernel) (by decide +kernel) run
  exact ⟨s, run, reaped, contract.2.2.1⟩

end Contract

end Libvirtio
