import Libvirtio.Device.Access
import Libvirtio.Device.Lengths
import Libvirtio.Device.Machine
import Libvirtio.Device.Scatter

namespace Libvirtio

/-- The host byte is that of a guest address with `allowed`. -/
def DmaMemory.Reaches (memory : DmaMemory) (allowed : Nat → Prop) (b : Nat) : Prop :=
  ∃ a, memory.hostAddress a = some b ∧ allowed a

/-- Only bytes of guest addresses with `allowed` may differ, and leases may run out. -/
structure GuestMemory.Touched (allowed : Nat → Prop) (guest after : GuestMemory) : Prop where
  memory : after.memory = guest.memory
  host : Store.SameOutside (guest.memory.Reaches allowed) guest.host after.host
  leases : guest.leasesLeft = none ∨ guest.leasesLeft = some 0 → after.leasesLeft = guest.leasesLeft

namespace GuestMemory.Touched
variable {allowed wide : Nat → Prop} {first second third : GuestMemory}

theorem refl (allowed : Nat → Prop) (guest : GuestMemory) : guest.Touched allowed guest :=
  ⟨rfl, .refl _ _, fun _ => rfl⟩

theorem live (touched : first.Touched allowed second) (live : first.leasesLeft = none) : second.leasesLeft = none :=
  (touched.leases (.inl live)).trans live

theorem revoked (touched : first.Touched allowed second) (revoked : first.leasesLeft = some 0) :
    second.leasesLeft = some 0 :=
  (touched.leases (.inr revoked)).trans revoked

theorem trans (left : first.Touched allowed second) (right : second.Touched allowed third) :
    first.Touched allowed third where
  memory := right.memory.trans left.memory
  host := left.host.trans (left.memory ▸ right.host)
  leases := by
    intro fixed
    have first := left.leases fixed
    rw [← first] at fixed
    exact (right.leases fixed).trans first

theorem mono (touched : first.Touched allowed second) (wider : ∀ a, allowed a → wide a) :
    first.Touched wide second where
  memory := touched.memory
  host := touched.host.mono fun _ ⟨a, located, inside⟩ => ⟨a, located, wider a inside⟩
  leases := touched.leases

theorem flat_eq (touched : first.Touched allowed second) {a : Nat} (outside : ¬allowed a) : second.flat a = first.flat a := by
  unfold GuestMemory.flat Store.view
  rw [touched.memory]
  cases located : first.memory.hostAddress a with
  | none => rfl
  | some b =>
      rw [Option.map_some, Option.map_some, touched.host b ?_]
      rintro ⟨other, same, inside⟩
      have injective := DmaMemory.hostAddress_injective first.memory first.distinct
      exact outside (injective other a b same located ▸ inside)

theorem read_eq (touched : first.Touched allowed second) {a n : Nat} (outside : ∀ b, a ≤ b → b < a + n → ¬allowed b) :
    Store.read second.flat a n = Store.read first.flat a n :=
  Store.read_congr fun b low high => touched.flat_eq (outside b low high)

theorem with_host (touched : first.Touched allowed second) (live : first.leasesLeft = none) :
    { first with host := second.host } = second := by
  have memory := touched.memory
  have leases := (touched.live live).trans live.symm
  cases first
  cases second
  simp only at memory leases
  subst memory leases
  rfl

theorem eq_of_live (touched : first.Touched (fun _ => False) second) (live : first.leasesLeft = none) :
    second = first := by
  have host : second.host = first.host := by
    funext b
    exact touched.host b fun ⟨_, _, impossible⟩ => impossible
  rw [← touched.with_host live, host]

end GuestMemory.Touched

/-- Each byte of the parts is that of a guest address with `allowed`. -/
def DmaMemory.Backs (memory : DmaMemory) (allowed : Nat → Prop) (parts : List DmaPart) : Prop :=
  ∀ part ∈ parts, ∀ i < part.length, memory.Reaches allowed (part.base + i)

section
variable {memory : DmaMemory} {allowed : Nat → Prop} {range : DmaRange} {parts : List DmaPart}

theorem DmaMemory.Covers.backs {a b : Nat} (covers : memory.Covers a parts b) (inside : ∀ c, a ≤ c → c < b → allowed c) :
    memory.Backs allowed parts := by
  induction parts generalizing a with
  | nil => exact fun _ member => by cases member
  | cons part rest ih =>
      have located := covers.located
      obtain ⟨-, -, -, tail⟩ := covers
      have bound := tail.le
      refine List.forall_mem_cons.mpr ⟨fun i short => ?_, ih tail fun c low high => inside c (by omega) high⟩
      exact ⟨a + i, located i short, inside _ (by omega) (by omega)⟩

theorem DmaMemory.backs_of_translate (translated : memory.translate range = .ok parts)
    (inside : ∀ a, range.Contains a → allowed a) : memory.Backs allowed parts :=
  (memory.translate_covers translated).backs fun a low high => inside a ⟨low, high⟩

theorem scatter_sameOutside (backed : memory.Backs allowed parts) (host : Nat → UInt8) (bytes : List UInt8) :
    Store.SameOutside (memory.Reaches allowed) host (scatter host parts bytes) := by
  induction parts generalizing host bytes with
  | nil => exact .refl _ _
  | cons part rest ih =>
      obtain ⟨first, others⟩ := List.forall_mem_cons.mp backed
      refine .trans (.save fun i short => first i ?_) (ih others _ _)
      rw [List.length_take] at short
      omega

theorem copyParts_sameOutside (backed : memory.Backs allowed parts) (host : Nat → UInt8) (bytes : List UInt8)
    (offset : Nat) : Store.SameOutside (memory.Reaches allowed) host (copyParts bytes parts offset host).2 := by
  induction parts generalizing host offset with
  | nil => exact .refl _ _
  | cons part rest ih =>
      obtain ⟨first, others⟩ := List.forall_mem_cons.mp backed
      rw [copyParts]
      split
      · exact .refl _ _
      · refine .trans (.save fun i short => first i ?_) (ih others _ _)
        rw [List.length_take] at short
        omega

theorem Fs.writeParts_sameOutside (backed : memory.Backs allowed parts) (host : Nat → UInt8) (reply : Bytes)
    (copied : Nat) : Store.SameOutside (memory.Reaches allowed) host (writeParts reply parts copied host).2 := by
  induction parts generalizing host copied with
  | nil => exact .refl _ _
  | cons part rest ih =>
      obtain ⟨first, others⟩ := List.forall_mem_cons.mp backed
      have saved : Store.SameOutside (memory.Reaches allowed) host (Store.save host part.base
          ((reply.drop copied).take (min (reply.length - copied) part.length))) := by
        refine .save fun i short => first i ?_
        rw [List.length_take] at short
        omega
      rw [writeParts]
      split
      · exact saved
      · exact saved.trans (ih others _ _)

end

section
variable {α : Type} {start : GuestMemory} {allowed : Nat → Prop}

abbrev Confined (allowed : Nat → Prop) (start : GuestMemory) (post : α → Prop) (access : DmaM α) : Prop :=
  Fallible.Keeps (start.Touched allowed) post access

theorem lease_touched (range : DmaRange) (guest : GuestMemory) : guest.Touched allowed (lease range guest).2 := by
  unfold lease
  split
  · exact .refl _ _
  · exact .refl _ _
  · rename_i counted
    refine ⟨rfl, .refl _ _, fun fixed => ?_⟩
    simp [counted] at fixed

theorem lease_confined (range : DmaRange) :
    Confined allowed start (fun parts => start.memory.translate range = .ok parts) (lease range) := by
  intro guest touched
  refine ⟨touched.trans (lease_touched range guest), fun parts returned => ?_⟩
  rw [← touched.memory]
  exact (lease_eq_ok (Prod.ext returned rfl)).1

theorem lease_backs {range : DmaRange} (inside : ∀ a, range.Contains a → allowed a) :
    Confined allowed start (start.memory.Backs allowed) (lease range) :=
  (lease_confined range).weaken fun _ translated => DmaMemory.backs_of_translate translated inside

theorem lease_reads (range : DmaRange) : Confined allowed start (fun _ => True) (lease range) :=
  (lease_confined range).weaken fun _ _ => trivial

theorem checkRange_confined (range : DmaRange) : Confined allowed start (fun _ => True) (checkRange range) :=
  fun _ touched => ⟨touched, fun _ _ => trivial⟩

theorem store_confined {f : (Nat → UInt8) → Nat → UInt8}
    (same : ∀ host, Store.SameOutside (start.memory.Reaches allowed) host (f host)) :
    Confined allowed start (fun _ => True) (Fallible.update fun guest => { guest with host := f guest.host }) := by
  refine .update fun guest touched => ⟨touched.memory, touched.host.trans (same guest.host), touched.leases⟩

theorem readDescriptors_confined (descriptors : List Descriptor) :
    Confined allowed start (fun _ => True) (readDescriptors descriptors) := by
  induction descriptors with
  | nil => exact .pure trivial
  | cons descriptor rest ih =>
      refine .bind (lease_reads _) fun parts _ => .bind .read fun guest _ => ?_
      exact .bind ih fun bytes _ => .pure trivial

theorem copyDescriptors_confined {descriptors : List Descriptor}
    (inside : ∀ d ∈ descriptors, ∀ a, d.range.Contains a → allowed a) (bytes : List UInt8) (offset : Nat) :
    Confined allowed start (fun _ => True) (copyDescriptors bytes descriptors offset) := by
  induction descriptors generalizing offset with
  | nil => exact .pure trivial
  | cons descriptor rest ih =>
      obtain ⟨first, others⟩ := List.forall_mem_cons.mp inside
      refine .ite (fun _ => .pure trivial) fun _ => .bind (lease_backs first) fun parts backed => ?_
      intro guest touched
      rw [Fallible.bind_of_ok (Fallible.read_apply guest)]
      have copied := copyParts_sameOutside backed guest.host bytes offset
      exact ih others _ _ ⟨touched.memory, touched.host.trans copied, touched.leases⟩

theorem readBytes_confined (gpa length : Nat) : Confined allowed start (fun _ => True) (readBytes gpa length) := by
  refine .bind (lease_reads _) fun parts _ => .bind .read fun guest _ => ?_
  exact .ite (fun _ => .fail _) fun _ => .pure trivial

theorem readU16_confined (gpa : Nat) : Confined allowed start (fun _ => True) (readU16 gpa) :=
  .bind (readBytes_confined gpa 2) fun _ _ => .pure trivial

theorem writeBytes_confined {gpa : Nat} {bytes : List UInt8}
    (inside : ∀ a, gpa ≤ a → a < gpa + bytes.length → allowed a) :
    Confined allowed start (fun _ => True) (writeBytes gpa bytes) := by
  have leased : Confined allowed start (start.memory.Backs allowed) (lease ⟨gpa, bytes.length⟩) :=
    lease_backs fun a within => inside a within.1 within.2
  refine .bind leased fun parts backed => ?_
  refine .bind (store_confined fun host => scatter_sameOutside backed host bytes) fun _ _ => ?_
  exact .ite (fun _ => .fail _) fun _ => .pure trivial

end

/-- The bytes of the used ring that a completion may write: its elements and its index, not its flags. -/
def QueueLayout.Used (layout : QueueLayout) (a : Nat) : Prop :=
  layout.used.gpa + 2 ≤ a ∧ a < layout.used.gpa + 4 + layout.size.toNat * 8

namespace VirtQueue
variable {α : Type} {start : GuestMemory} {allowed : Nat → Prop} (queue : VirtQueue)

theorem onGuest_confined {post : α → Prop} {access : DmaM α} (confined : Confined allowed start post access) :
    Fallible.Keeps (fun view : QueueView => start.Touched allowed view.guest) post (onGuest access) :=
  fun view touched => confined view.guest touched

theorem readDescriptor_confined (index : UInt16) :
    Confined allowed start (fun _ => True) (queue.readDescriptor index) := by
  unfold readDescriptor
  split
  · exact .fail _
  · exact .bind (readBytes_confined _ _) fun _ _ => .pure trivial

theorem readChainFrom_confined (head : UInt16) (rounds : Nat) (current : UInt16) (descriptors : List Descriptor) :
    Confined allowed start (fun _ => True) (queue.readChainFrom head rounds current descriptors) := by
  induction rounds generalizing current descriptors with
  | zero => exact .fail _
  | succ rounds ih =>
      refine .bind (queue.readDescriptor_confined current) fun descriptor _ => ?_
      exact .ite (fun _ => .pure trivial) fun _ => .ite (fun _ => .fail _) fun _ => ih _ _

theorem pop_confined :
    Fallible.Keeps (fun view : QueueView => start.Touched allowed view.guest) (fun _ => True) queue.pop := by
  refine .bind (onGuest_confined (readU16_confined _)) fun index _ => .bind .read fun view _ => ?_
  refine .ite (fun _ => .pure trivial) fun _ => .ite (fun _ => .fail _) fun _ => ?_
  refine .bind (onGuest_confined (readU16_confined _)) fun head _ => ?_
  have walked : Confined allowed start (fun _ => True) (queue.readChain head) :=
    .ite (fun _ => .fail _) fun _ => queue.readChainFrom_confined head _ _ _
  exact .bind (onGuest_confined walked) fun chain _ => .bind (.update fun _ touched => touched) fun _ _ => .pure trivial

theorem complete_confined (sized : 0 < queue.layout.size.toNat) (chain : DescriptorChain) (usedLength : UInt32) :
    Fallible.Keeps (fun view : QueueView => start.Touched queue.layout.Used view.guest) (fun _ => True)
      (queue.complete chain usedLength) := by
  refine .bind .read fun view _ => ?_
  have slot : (view.state.nextUsed % queue.layout.size).toNat < queue.layout.size.toNat := by
    rw [UInt16.toNat_mod]
    exact Nat.mod_lt _ sized
  have ring {gpa : Nat} {bytes : List UInt8} (low : queue.layout.used.gpa + 2 ≤ gpa)
      (high : gpa + bytes.length ≤ queue.layout.used.gpa + 4 + queue.layout.size.toNat * 8) :
      Confined queue.layout.Used start (fun _ => True) (writeBytes gpa bytes) :=
    writeBytes_confined fun a above below => ⟨by omega, by omega⟩
  simp only [virtqUsedHeaderSize, virtqUsedElementSize]
  refine .bind (onGuest_confined (ring (by omega) (by rw [LittleEndian.length_encode]; omega))) fun _ _ => ?_
  refine .bind (onGuest_confined (ring (by omega) (by rw [LittleEndian.length_encode]; omega))) fun _ _ => ?_
  refine .bind (.update fun _ touched => touched) fun _ _ => ?_
  exact onGuest_confined (ring (by omega) (by rw [LittleEndian.length_encode]; omega))

theorem pop_touched (allowed : Nat → Prop) (before : QueueView) : before.guest.Touched allowed (queue.pop before).2.guest :=
  (queue.pop_confined before (.refl _ _)).1

theorem complete_touched (sized : 0 < queue.layout.size.toNat) (chain : DescriptorChain) (usedLength : UInt32)
    (before : QueueView) :
    before.guest.Touched queue.layout.Used (queue.complete chain usedLength before).2.guest :=
  (queue.complete_confined sized chain usedLength before (.refl _ _)).1

end VirtQueue

def DescriptorChain.Writable (chain : DescriptorChain) (a : Nat) : Prop :=
  ∃ d ∈ chain.descriptors, d.writable = true ∧ d.range.Contains a

/-- The device is at work on something else than its queues, with `sound` states of its backend. -/
structure Aside {β : Type} (allowed : Nat → Prop) (sound : β → Prop) (start view : DeviceView β) : Prop where
  guest : start.guest.Touched allowed view.guest
  states : view.states = start.states
  log : view.log = start.log
  backend : sound view.backend

section
variable {α β : Type} {allowed : Nat → Prop} {sound : β → Prop} {start : DeviceView β} {post : α → Prop}

abbrev WorksAside (allowed : Nat → Prop) (sound : β → Prop) (start : DeviceView β) (post : α → Prop)
    (work : DeviceM β α) : Prop :=
  Fallible.Keeps (Aside allowed sound start) post work

theorem Aside.here {view : DeviceView β} (holds : sound view.backend) : Aside allowed sound view view :=
  ⟨.refl _ _, rfl, rfl, holds⟩

theorem onDma_aside {access : DmaM α} (confined : Confined allowed start.guest post access) :
    WorksAside allowed sound start post (onDma access) := by
  intro view aside
  obtain ⟨touched, holds⟩ := confined view.guest aside.guest
  refine ⟨⟨touched, aside.states, aside.log, aside.backend⟩, fun a returned => ?_⟩
  rcases run : access view.guest with ⟨e | b, after⟩
  · rw [onDma_of_error run] at returned
    cases returned
  · rw [onDma_of_ok run] at returned
    cases returned
    exact holds a (by rw [run])

theorem onBackend_aside {call : β → α × β} (kept : ∀ state, sound state → post (call state).1 ∧ sound (call state).2) :
    WorksAside allowed sound start post (onBackend call) := by
  intro view aside
  obtain ⟨holds, still⟩ := kept view.backend aside.backend
  refine ⟨⟨aside.guest, aside.states, aside.log, still⟩, fun a returned => ?_⟩
  cases returned
  exact holds

theorem ofResult_aside {result : Except DeviceError α} :
    WorksAside allowed sound start (fun _ => True) (ofResult result) :=
  .ofExcept fun _ _ => trivial

theorem tryBackend_aside {call : β → Except DeviceError α × β} (kept : ∀ state, sound state → sound (call state).2) :
    WorksAside allowed sound start (fun _ => True) (tryBackend call) := by
  have called : WorksAside allowed sound start (fun _ => True) (onBackend call) :=
    onBackend_aside fun state holds => ⟨trivial, kept state holds⟩
  exact .bind called fun _ _ => ofResult_aside

theorem raise_aside (error : DeviceError) : WorksAside allowed sound start post (raise error) := .fail _

theorem storeHost_aside {f : (Nat → UInt8) → Nat → UInt8}
    (same : ∀ host, Store.SameOutside (start.guest.memory.Reaches allowed) host (f host)) :
    WorksAside allowed sound start (fun _ => True)
      (Fallible.update fun view => { view with guest := { view.guest with host := f view.guest.host } }) := by
  refine .update fun view aside => ⟨?_, aside.states, aside.log, aside.backend⟩
  exact ⟨aside.guest.memory, aside.guest.host.trans (same view.guest.host), aside.guest.leases⟩

theorem copyDescriptors_writable {chain : DescriptorChain} {guest : GuestMemory}
    (writable : ∀ d ∈ chain.descriptors, d.writable = true) (bytes : List UInt8) :
    Confined chain.Writable guest (fun _ => True) (copyDescriptors bytes chain.descriptors 0) :=
  copyDescriptors_confined (fun d member _ inside => ⟨d, member, writable d member, inside⟩) bytes 0

end

end Libvirtio
