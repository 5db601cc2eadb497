import Libvirtio.Error
import Libvirtio.Library.Fallible
import Libvirtio.Library.Store

namespace Libvirtio

def checkedAdd (a b : Nat) : Option Nat := if a + b < 2 ^ 64 then some (a + b) else none

structure DmaRange where
  gpa : Nat
  length : Nat
  deriving DecidableEq, Repr

def DmaRange.endAddress (range : DmaRange) : Option Nat := checkedAdd range.gpa range.length

structure DmaSegment where
  gpa : Nat
  base : Nat
  length : Nat
  deriving DecidableEq, Repr

def DmaSegment.endAddress (segment : DmaSegment) : Option Nat := checkedAdd segment.gpa segment.length

structure DmaPart where
  gpa : Nat
  base : Nat
  length : Nat
  deriving DecidableEq, Repr

structure SegmentsValid (segments : List DmaSegment) : Prop where
  nonempty : segments ≠ []
  wellFormed : ∀ s ∈ segments, 0 < s.length ∧ s.gpa + s.length < 2 ^ 64
  ordered : segments.Pairwise fun a b => a.gpa + a.length ≤ b.gpa

structure DmaMemory where
  segments : List DmaSegment
  valid : SegmentsValid segments

/-- `sort_unstable_by_key(DmaSegment::gpa)`: some order of the segments that is sorted by address. -/
structure UnstableSort where
  sort : List DmaSegment → List DmaSegment
  perm : ∀ segments, (sort segments).Perm segments
  sorted : ∀ segments, (sort segments).Pairwise fun a b => a.gpa ≤ b.gpa

def checkSegments : Option DmaSegment → List DmaSegment → Except Fault Unit
  | _, [] => .ok ()
  | previous, segment :: rest =>
      if segment.length = 0 ∨ segment.endAddress = none then
        .error (.error (.invalidLayout "invalid DMA segment"))
      else
        match previous with
        | none => checkSegments (some segment) rest
        | some before =>
            match before.endAddress with
            | none => .error (.panic "checked above")
            | some stop =>
                if segment.gpa < stop then .error (.error (.invalidLayout "overlapping DMA segments"))
                else checkSegments (some segment) rest

theorem endAddress_eq_some {segment : DmaSegment} {stop : Nat} :
    segment.endAddress = some stop ↔ stop = segment.gpa + segment.length ∧ stop < 2 ^ 64 := by
  unfold DmaSegment.endAddress checkedAdd
  split <;> simp only [Option.some.injEq, reduceCtorEq, false_iff] <;> omega

theorem checkSegments_ok {previous : Option DmaSegment} {segments : List DmaSegment}
    (h : checkSegments previous segments = .ok ()) :
    (∀ s ∈ segments, 0 < s.length ∧ s.gpa + s.length < 2 ^ 64) ∧
      (∀ p, previous = some p → ∀ s ∈ segments, p.gpa + p.length ≤ s.gpa) ∧
      segments.Pairwise fun a b => a.gpa + a.length ≤ b.gpa := by
  induction segments generalizing previous with
  | nil => simp
  | cons segment rest ih =>
      unfold checkSegments at h
      split at h
      · cases h
      · rename_i sound
        obtain ⟨positive, bounded⟩ := not_or.mp sound
        obtain ⟨stop, ends⟩ := Option.ne_none_iff_exists'.mp bounded
        obtain ⟨rfl, fits⟩ := endAddress_eq_some.mp ends
        have tail : checkSegments (some segment) rest = .ok () := by
          cases previous with
          | none => exact h
          | some before =>
              simp only at h
              split at h
              · cases h
              · split at h
                · cases h
                · exact h
        obtain ⟨wellFormed, after, ordered⟩ := ih tail
        have first : ∀ p, previous = some p → p.gpa + p.length ≤ segment.gpa := by
          rintro p rfl
          simp only at h
          split at h
          · cases h
          · rename_i stop ends
            obtain ⟨rfl, -⟩ := endAddress_eq_some.mp ends
            split at h
            · cases h
            · omega
        refine ⟨?_, ?_, ?_⟩
        · rw [List.forall_mem_cons]
          exact ⟨⟨by omega, fits⟩, wellFormed⟩
        · intro p eq
          rw [List.forall_mem_cons]
          refine ⟨first p eq, fun s member => ?_⟩
          have := first p eq
          have := after segment rfl s member
          omega
        · exact List.pairwise_cons.mpr ⟨after segment rfl, ordered⟩

def DmaMemory.new (order : UnstableSort) (segments : List DmaSegment) : Except Fault DmaMemory :=
  if empty : segments = [] then .error (.error (.invalidLayout "DMA mapping has no segments"))
  else
    match checked : checkSegments none (order.sort segments) with
    | .error fault => .error fault
    | .ok () => .ok {
        segments := order.sort segments
        valid := {
          nonempty := fun sortedEmpty => empty (by
            have perm := order.perm segments
            rw [sortedEmpty] at perm
            exact perm.nil_eq.symm)
          wellFormed := (checkSegments_ok checked).1
          ordered := (checkSegments_ok checked).2.2 } }

def DmaMemory.single (segment : DmaSegment) (sound : 0 < segment.length ∧ segment.gpa + segment.length < 2 ^ 64) :
    DmaMemory where
  segments := [segment]
  valid := ⟨by simp, by simpa using sound, List.pairwise_singleton _ _⟩

def DmaSegment.holds (cursor : Nat) (segment : DmaSegment) : Bool :=
  segment.gpa ≤ cursor && segment.endAddress.any (cursor < ·)

/-- The translation loop from `cursor` on. It runs at most once for each byte that is left. -/
def translateFrom (segments : List DmaSegment) (range : DmaRange) (stop : Nat) :
    Nat → Nat → Except DeviceError (List DmaPart)
  | 0, _ => .ok []
  | fuel + 1, cursor =>
      if cursor < stop then
        match segments.find? (DmaSegment.holds cursor) with
        | none => .error (.dmaRange range.gpa range.length)
        | some segment =>
            let partEnd := min (segment.gpa + segment.length) stop
            (translateFrom segments range stop fuel partEnd).map
              ({ gpa := cursor, base := segment.base + (cursor - segment.gpa),
                 length := partEnd - cursor } :: ·)
      else .ok []

def DmaMemory.translate (memory : DmaMemory) (range : DmaRange) : Except DeviceError (List DmaPart) :=
  match range.endAddress with
  | none => .error (.dmaRange range.gpa range.length)
  | some stop => translateFrom memory.segments range stop range.length range.gpa

def DmaMemory.checkRange (memory : DmaMemory) (range : DmaRange) : Except DeviceError Unit :=
  (memory.translate range).map fun _ => ()

/-- The contract of `DmaSegment::new`: each segment maps its own host bytes. -/
def DmaMemory.MapsDistinct (memory : DmaMemory) : Prop :=
  memory.segments.Pairwise fun a b => Store.Apart a.base a.length b.base b.length

instance (memory : DmaMemory) : Decidable memory.MapsDistinct :=
  inferInstanceAs (Decidable (List.Pairwise _ _))

/-- Guest memory as device code reaches it. With `leasesLeft := some n` a concurrent `revoke()` takes
effect after `n` more leases; `none` is memory that is never revoked. -/
structure GuestMemory where
  memory : DmaMemory
  distinct : memory.MapsDistinct
  host : Nat → UInt8
  leasesLeft : Option Nat

abbrev DmaM := Fallible DeviceError GuestMemory

def lease (range : DmaRange) : DmaM (List DmaPart) := fun guest =>
  match guest.leasesLeft with
  | none => (guest.memory.translate range, guest)
  | some 0 => (.error (.down .revoked), guest)
  | some (n + 1) => (guest.memory.translate range, { guest with leasesLeft := some n })

def checkRange (range : DmaRange) : DmaM Unit := fun guest => (guest.memory.checkRange range, guest)

def DmaPart.readSlice (host : Nat → UInt8) (part : DmaPart) : List UInt8 :=
  Store.load host part.base part.length

def gather (host : Nat → UInt8) (parts : List DmaPart) : List UInt8 :=
  parts.flatMap (DmaPart.readSlice host)

def scatter (host : Nat → UInt8) : List DmaPart → List UInt8 → Nat → UInt8
  | [], _ => host
  | part :: rest, bytes =>
      scatter (Store.save host part.base (bytes.take part.length)) rest (bytes.drop part.length)

def DmaMemory.hostAddress (memory : DmaMemory) (gpa : Nat) : Option Nat :=
  (memory.segments.find? (DmaSegment.holds gpa)).map fun s => s.base + (gpa - s.gpa)

def GuestMemory.flat (guest : GuestMemory) : Nat → Option UInt8 :=
  Store.view guest.memory.hostAddress guest.host

end Libvirtio
