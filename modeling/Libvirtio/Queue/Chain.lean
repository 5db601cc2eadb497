import Libvirtio.Library.Walk
import Libvirtio.Queue.Access
import Mathlib.Algebra.Order.BigOperators.Group.List

namespace Libvirtio

namespace VirtQueue
variable {queue : VirtQueue} {guest : GuestMemory} {head : UInt16}

/-- The descriptor that a table holds at an index. -/
def descriptorAt (queue : VirtQueue) (flat : Nat → Option UInt8) (index : UInt16) : Descriptor :=
  let bytes := (Store.read flat (queue.layout.descriptors.gpa + index.toNat * virtqDescSize) virtqDescSize).getD []
  { address := UInt64.ofNat (field bytes 0 8)
    length := UInt32.ofNat (field bytes 8 4)
    flags := UInt16.ofNat (field bytes 12 2)
    next := UInt16.ofNat (field bytes 14 2) }

def following (queue : VirtQueue) (flat : Nat → Option UInt8) (index : UInt16) : Option UInt16 :=
  let descriptor := queue.descriptorAt flat index
  if descriptor.flags &&& virtqDescFNext = 0 then none else some descriptor.next

theorem Ready.descriptors_fit (ready : queue.Ready guest) :
    queue.layout.descriptors.gpa + queue.layout.size.toNat * 16 < 2 ^ 64 := by
  obtain ⟨-, length, -, -, mapped, -⟩ := ready.facts
  have positive := ready.size_pos
  have := guest.fits_of_read (by omega) mapped
  omega

theorem readDescriptor_ready (ready : queue.Ready guest) {index : UInt16} (inside : index < queue.layout.size) :
    queue.readDescriptor index guest = (.ok (queue.descriptorAt guest.flat index), guest) := by
  have bound : index.toNat < queue.layout.size.toNat := UInt16.lt_iff_toNat_lt.mp inside
  obtain ⟨-, length, -, -, mapped, -⟩ := ready.facts
  have fits := ready.descriptors_fit
  have cell : (Store.read guest.flat (queue.layout.descriptors.gpa + index.toNat * 16) 16).isSome :=
    Store.read_sub mapped (by omega) (by omega)
  obtain ⟨bytes, read⟩ := Option.isSome_iff_exists.mp cell
  have address : checkedAdd queue.layout.descriptors.gpa (index.toNat * 16) =
      some (queue.layout.descriptors.gpa + index.toNat * 16) := if_pos (by omega)
  simp only [readDescriptor, address, descriptorAt, virtqDescSize, read, Option.getD_some,
    Fallible.bind_of_ok (readBytes_live ready.live (Nat.succ_pos 15) read), Fallible.pure_apply]

/-- The walk from the head of a chain along `next`. -/
structure Walks (queue : VirtQueue) (flat : Nat → Option UInt8) (head : UInt16) (path : List UInt16) : Prop where
  start : path.head? = some head
  walk : IsWalk (queue.following flat) path

/-- How a walk can end. -/
inductive Outcome (queue : VirtQueue) (flat : Nat → Option UInt8) (head : UInt16) :
    Except DeviceError DescriptorChain → Prop
  | ends {path : List UInt16} {last : UInt16} (walks : queue.Walks flat head (path ++ [last]))
      (inside : ∀ index ∈ path ++ [last], index < queue.layout.size) (stops : queue.following flat last = none) :
      Outcome queue flat head (.ok ⟨head, (path ++ [last]).map (queue.descriptorAt flat)⟩)
  | loops {path : List UInt16} (walks : queue.Walks flat head path)
      (inside : ∀ index ∈ path, index < queue.layout.size) (again : ¬path.Nodup) :
      Outcome queue flat head (.error (.descriptor "descriptor chain loop"))
  | leaves {path : List UInt16} {next : UInt16} (walks : queue.Walks flat head (path ++ [next]))
      (inside : ∀ index ∈ path, index < queue.layout.size) (outside : queue.layout.size ≤ next) :
      Outcome queue flat head (.error (.descriptor "next index exceeds queue size"))

theorem length_le_of_nodup {path : List UInt16} {size : UInt16} (inside : ∀ index ∈ path, index < size)
    (distinct : path.Nodup) : path.length ≤ size.toNat := by
  have mapped : (path.map UInt16.toNat).Nodup := distinct.map fun _ _ same => UInt16.toNat_inj.mp same
  have bounded : path.map UInt16.toNat ⊆ List.range size.toNat := by
    intro n member
    obtain ⟨index, listed, rfl⟩ := List.mem_map.mp member
    exact List.mem_range.mpr (UInt16.lt_iff_toNat_lt.mp (inside index listed))
  have := (List.subperm_of_subset mapped bounded).length_le
  rwa [List.length_map, List.length_range] at this

theorem readChainFrom_outcome (ready : queue.Ready guest) {rounds : Nat} {seen : List UInt16} {current : UInt16}
    (walks : queue.Walks guest.flat head (seen ++ [current]))
    (inside : ∀ index ∈ seen ++ [current], index < queue.layout.size)
    (counted : rounds + seen.length = queue.layout.size.toNat) :
    Outcome queue guest.flat head
      (queue.readChainFrom head rounds current (seen.map (queue.descriptorAt guest.flat)) guest).1 := by
  induction rounds generalizing seen current with
  | zero =>
      refine .loops walks inside fun distinct => ?_
      have few := length_le_of_nodup inside distinct
      rw [List.length_append, List.length_singleton] at few
      omega
  | succ rounds ih =>
      have here := readDescriptor_ready ready (inside current (List.mem_append_right _ (List.mem_singleton_self _)))
      have pushed : seen.map (queue.descriptorAt guest.flat) ++ [queue.descriptorAt guest.flat current] =
          (seen ++ [current]).map (queue.descriptorAt guest.flat) := by rw [List.map_append, List.map_singleton]
      rw [readChainFrom, Fallible.bind_of_ok here, pushed]
      simp only [Fallible.ite_apply]
      split
      · rename_i last
        exact .ends walks inside (by simp only [following, if_pos last])
      · rename_i more
        have onward : queue.following guest.flat current = some (queue.descriptorAt guest.flat current).next := by
          simp only [following, if_neg more]
        have further : queue.Walks guest.flat head
            (seen ++ [current] ++ [(queue.descriptorAt guest.flat current).next]) := by
          refine ⟨?_, ?_⟩
          · rw [List.head?_append, walks.start]
            rfl
          · rw [List.append_assoc]
            exact IsWalk.append_iff.mpr ⟨walks.walk, onward⟩
        split
        · rename_i outside
          exact .leaves further inside outside
        · rename_i within
          refine ih further ?_ (by rw [List.length_append, List.length_singleton]; omega)
          intro index member
          rcases List.mem_append.mp member with old | new
          · exact inside index old
          · rw [List.mem_singleton.mp new]
            exact UInt16.not_le.mp within

theorem readChain_outcome (ready : queue.Ready guest) (inside : head < queue.layout.size) :
    Outcome queue guest.flat head (queue.readChain head guest).1 := by
  rw [readChain, if_neg (UInt16.not_le.mpr inside)]
  have walks : queue.Walks guest.flat head ([] ++ [head]) := ⟨rfl, .singleton _ _⟩
  refine readChainFrom_outcome ready walks ?_ (Nat.add_zero _)
  intro index member
  rwa [List.mem_singleton.mp member]

section
variable {flat : Nat → Option UInt8} {path other : List UInt16} {last next : UInt16}

theorem Walks.ends_nodup (walks : queue.Walks flat head (path ++ [last]))
    (stops : queue.following flat last = none) : (path ++ [last]).Nodup := by
  refine walks.walk.nodup fun again => ?_
  obtain ⟨next, onward⟩ := walks.walk.next_of_mem again
  rw [stops] at onward
  cases onward

theorem Walks.leaves_nodup (walks : queue.Walks flat head (path ++ [next]))
    (inside : ∀ index ∈ path, index < queue.layout.size) (outside : queue.layout.size ≤ next) :
    (path ++ [next]).Nodup :=
  walks.walk.nodup fun again => UInt16.not_le.mpr (inside next again) outside

theorem Walks.ends_prefix (walks : queue.Walks flat head (path ++ [last]))
    (stops : queue.following flat last = none) (walks' : queue.Walks flat head other) : other <+: path ++ [last] :=
  walks.walk.prefix_of_end stops walks'.walk walks.start walks'.start

theorem Walks.leaves_prefix (walks : queue.Walks flat head (path ++ [next])) (outside : queue.layout.size ≤ next)
    (walks' : queue.Walks flat head other) (inside : ∀ index ∈ other, index < queue.layout.size) : other <+: path := by
  rcases walks.walk.comparable walks'.walk walks.start walks'.start with longer | shorter
  · have visited := longer.subset (List.mem_append_right _ (List.mem_singleton_self next))
    exact absurd outside (UInt16.not_le.mpr (inside next visited))
  · rcases List.prefix_concat_iff.mp shorter with rfl | early
    · exact absurd outside (UInt16.not_le.mpr (inside next (List.mem_append_right _ (List.mem_singleton_self next))))
    · exact early

end

theorem Outcome.unique {flat : Nat → Option UInt8} {first second : Except DeviceError DescriptorChain}
    (outcome : Outcome queue flat head first) (outcome' : Outcome queue flat head second) : first = second := by
  have endsLoops {path looping : List UInt16} {last : UInt16} (walks : queue.Walks flat head (path ++ [last]))
      (stops : queue.following flat last = none) (walks' : queue.Walks flat head looping) (again : ¬looping.Nodup) :
      False :=
    again ((walks.ends_nodup stops).sublist (walks.ends_prefix stops walks').sublist)
  have endsLeaves {path leaving : List UInt16} {last next : UInt16} (walks : queue.Walks flat head (path ++ [last]))
      (inside : ∀ index ∈ path ++ [last], index < queue.layout.size) (stops : queue.following flat last = none)
      (walks' : queue.Walks flat head (leaving ++ [next])) (outside : queue.layout.size ≤ next) : False := by
    have visited := (walks.ends_prefix stops walks').subset (List.mem_append_right _ (List.mem_singleton_self next))
    exact UInt16.not_le.mpr (inside next visited) outside
  have loopsLeaves {looping leaving : List UInt16} {next : UInt16} (walks : queue.Walks flat head looping)
      (inside : ∀ index ∈ looping, index < queue.layout.size) (again : ¬looping.Nodup)
      (walks' : queue.Walks flat head (leaving ++ [next])) (inside' : ∀ index ∈ leaving, index < queue.layout.size)
      (outside : queue.layout.size ≤ next) : False := by
    have early := (walks'.leaves_prefix outside walks inside).sublist.trans (List.sublist_append_left leaving [next])
    exact again ((walks'.leaves_nodup inside' outside).sublist early)
  cases outcome with
  | ends walks inside stops =>
      cases outcome' with
      | ends walks' inside' stops' =>
          have same := (walks'.ends_prefix stops' walks).eq_of_length_le (walks.ends_prefix stops walks').length_le
          rw [same]
      | loops walks' inside' again => exact (endsLoops walks stops walks' again).elim
      | leaves walks' inside' outside => exact (endsLeaves walks inside stops walks' outside).elim
  | loops walks inside again =>
      cases outcome' with
      | ends walks' inside' stops => exact (endsLoops walks' stops walks again).elim
      | loops => rfl
      | leaves walks' inside' outside => exact (loopsLeaves walks inside again walks' inside' outside).elim
  | leaves walks inside outside =>
      cases outcome' with
      | ends walks' inside' stops => exact (endsLeaves walks' inside' stops walks outside).elim
      | loops walks' inside' again => exact (loopsLeaves walks' inside' again walks inside outside).elim
      | leaves => rfl

theorem readChain_iff (ready : queue.Ready guest) (inside : head < queue.layout.size)
    {result : Except DeviceError DescriptorChain} :
    (queue.readChain head guest).1 = result ↔ Outcome queue guest.flat head result := by
  constructor
  · rintro rfl
    exact readChain_outcome ready inside
  · exact (readChain_outcome ready inside).unique

theorem Outcome.head_lt {flat : Nat → Option UInt8} {chain : DescriptorChain}
    (outcome : Outcome queue flat head (.ok chain)) : head < queue.layout.size := by
  cases outcome with
  | @ends path last walks inside stops =>
      have start := walks.start
      cases path with
      | nil =>
          cases start
          exact inside _ (List.mem_singleton_self _)
      | cons first rest =>
          cases start
          exact inside _ List.mem_cons_self

theorem Outcome.head_eq {flat : Nat → Option UInt8} {chain : DescriptorChain}
    (outcome : Outcome queue flat head (.ok chain)) : chain.head = head := by
  cases outcome with
  | ends walks inside stops => rfl

theorem Outcome.congr {flat other : Nat → Option UInt8} {chain : DescriptorChain}
    (outcome : Outcome queue flat head (.ok chain))
    (same : ∀ index < queue.layout.size, queue.descriptorAt other index = queue.descriptorAt flat index) :
    Outcome queue other head (.ok chain) := by
  cases outcome with
  | @ends path last walks inside stops =>
      have follows : ∀ index ∈ path ++ [last], queue.following other index = queue.following flat index := by
        intro index member
        simp only [following, same index (inside index member)]
      have table : (path ++ [last]).map (queue.descriptorAt flat) = (path ++ [last]).map (queue.descriptorAt other) :=
        List.map_congr_left fun index member => (same index (inside index member)).symm
      rw [table]
      exact .ends ⟨walks.start, walks.walk.congr follows⟩ inside
        ((follows last (List.mem_append_right _ (List.mem_singleton_self _))).trans stops)

theorem Outcome.length_le {flat : Nat → Option UInt8} {chain : DescriptorChain}
    (outcome : Outcome queue flat head (.ok chain)) : chain.descriptors.length ≤ queue.layout.size.toNat := by
  cases outcome with
  | ends walks inside stops =>
      rw [List.length_map]
      exact length_le_of_nodup inside (walks.ends_nodup stops)

theorem Outcome.sum_lt {flat : Nat → Option UInt8} {chain : DescriptorChain}
    (outcome : Outcome queue flat head (.ok chain)) (small : queue.layout.size.toNat ≤ 2 ^ 15) :
    (chain.descriptors.map fun d => d.length.toNat).sum < 2 ^ 64 := by
  have few := outcome.length_le
  have bounded : (chain.descriptors.map fun d => d.length.toNat).sum ≤ chain.descriptors.length * 2 ^ 32 := by
    have each := List.sum_le_card_nsmul (chain.descriptors.map fun d => d.length.toNat) (2 ^ 32) fun n member => by
      obtain ⟨d, -, rfl⟩ := List.mem_map.mp member
      exact (UInt32.toNat_lt d.length).le
    simpa using each
  omega

theorem readChain_eq_ok (ready : queue.Ready guest) {chain : DescriptorChain} :
    queue.readChain head guest = (.ok chain, guest) ↔ Outcome queue guest.flat head (.ok chain) := by
  constructor
  · intro run
    have inside : head < queue.layout.size := by
      by_contra outside
      rw [readChain, if_pos (UInt16.not_lt.mp outside)] at run
      cases run
    exact (readChain_iff ready inside).mp (congrArg Prod.fst run)
  · intro outcome
    exact Prod.ext ((readChain_iff ready outcome.head_lt).mpr outcome) (queue.readChain_unchanged ready.live head)

theorem Outcome.of_loop {flat : Nat → Option UInt8}
    (outcome : Outcome queue flat head (.error (.descriptor "descriptor chain loop"))) :
    ∃ path, queue.Walks flat head path ∧ ¬path.Nodup := by
  generalize error : Except.error (DeviceError.descriptor "descriptor chain loop") = result at outcome
  cases outcome with
  | ends walks inside stops => cases error
  | loops walks inside again => exact ⟨_, walks, again⟩
  | leaves walks inside outside => simp at error

theorem Outcome.of_leave {flat : Nat → Option UInt8}
    (outcome : Outcome queue flat head (.error (.descriptor "next index exceeds queue size"))) :
    ∃ path next, queue.Walks flat head (path ++ [next]) ∧ (∀ index ∈ path, index < queue.layout.size) ∧
      path.Nodup ∧ queue.layout.size ≤ next := by
  generalize error : Except.error (DeviceError.descriptor "next index exceeds queue size") = result at outcome
  cases outcome with
  | ends walks inside stops => cases error
  | loops walks inside again => simp at error
  | leaves walks inside outside =>
      have distinct := (walks.leaves_nodup inside outside).sublist (List.sublist_append_left _ _)
      exact ⟨_, _, walks, inside, distinct, outside⟩

theorem Walks.leaves_of_outside {flat : Nat → Option UInt8} {path : List UInt16} (walks : queue.Walks flat head path)
    {index : UInt16} (member : index ∈ path) (outside : queue.layout.size ≤ index) :
    Outcome queue flat head (.error (.descriptor "next index exceeds queue size")) := by
  have found : (path.find? (queue.layout.size ≤ ·)).isSome :=
    List.find?_isSome.mpr ⟨index, member, decide_eq_true outside⟩
  obtain ⟨next, first⟩ := Option.isSome_iff_exists.mp found
  obtain ⟨beyond, before, after, rfl, earlier⟩ := List.find?_eq_some_iff_append.mp first
  have start := walks.start
  have walk := walks.walk
  rw [show before ++ next :: after = before ++ [next] ++ after by simp] at start walk
  refine .leaves ⟨?_, walk.beginning⟩ (fun i listed => ?_) (of_decide_eq_true beyond)
  · rwa [List.head?_append_of_ne_nil _ (by simp)] at start
  · simpa using earlier i listed

/-- `read_chain` returns the descriptors of the walk from the head when the walk ends and visits no index twice. It
reports a loop when the walk stays in the table and visits an index twice, and a bad `next` when it leaves the table. -/
theorem readChain_exact (ready : queue.Ready guest) (head : UInt16) :
    (∀ chain, (queue.readChain head guest).1 = .ok chain ↔
      ∃ path last, queue.Walks guest.flat head (path ++ [last]) ∧
        (∀ index ∈ path ++ [last], index < queue.layout.size) ∧ (path ++ [last]).Nodup ∧
        queue.following guest.flat last = none ∧ chain = ⟨head, (path ++ [last]).map (queue.descriptorAt guest.flat)⟩) ∧
    (∀ chain, (queue.readChain head guest).1 = .ok chain → chain.descriptors.length ≤ queue.layout.size.toNat) ∧
    (head < queue.layout.size →
      ((queue.readChain head guest).1 = .error (.descriptor "descriptor chain loop") ↔
        (∀ path, queue.Walks guest.flat head path → ∀ index ∈ path, index < queue.layout.size) ∧
        ∃ path, queue.Walks guest.flat head path ∧ ¬path.Nodup) ∧
      ((queue.readChain head guest).1 = .error (.descriptor "next index exceeds queue size") ↔
        ∃ path next, queue.Walks guest.flat head (path ++ [next]) ∧ (∀ index ∈ path, index < queue.layout.size) ∧
          path.Nodup ∧ queue.layout.size ≤ next)) := by
  have ok : ∀ chain, (queue.readChain head guest).1 = .ok chain ↔
      ∃ path last, queue.Walks guest.flat head (path ++ [last]) ∧
        (∀ index ∈ path ++ [last], index < queue.layout.size) ∧ (path ++ [last]).Nodup ∧
        queue.following guest.flat last = none ∧
        chain = ⟨head, (path ++ [last]).map (queue.descriptorAt guest.flat)⟩ := by
    intro chain
    by_cases inside : head < queue.layout.size
    · rw [readChain_iff ready inside]
      constructor
      · rintro ⟨walks, inside, stops⟩
        exact ⟨_, _, walks, inside, walks.ends_nodup stops, stops, rfl⟩
      · rintro ⟨path, last, walks, inside, -, stops, rfl⟩
        exact .ends walks inside stops
    · rw [readChain, if_pos (UInt16.not_lt.mp inside)]
      refine iff_of_false (by simp) ?_
      rintro ⟨path, last, walks, within, -⟩
      exact inside (within head (List.mem_of_head? walks.start))
  refine ⟨ok, fun chain read => ?_, fun inside => ⟨?_, ?_⟩⟩
  · obtain ⟨path, last, -, inside, distinct, -, rfl⟩ := (ok chain).mp read
    rw [List.length_map]
    exact length_le_of_nodup inside distinct
  · rw [readChain_iff ready inside]
    constructor
    · intro outcome
      refine ⟨fun path walks index member => ?_, ?_⟩
      · by_contra outside
        have leaves := walks.leaves_of_outside member (UInt16.not_lt.mp outside)
        have error := leaves.unique outcome
        simp at error
      · exact outcome.of_loop
    · rintro ⟨stays, path, walks, again⟩
      exact .loops walks (stays path walks) again
  · rw [readChain_iff ready inside]
    refine ⟨Outcome.of_leave, ?_⟩
    · rintro ⟨path, next, walks, inside, -, outside⟩
      exact .leaves walks inside outside

-- Descriptor 0 of two goes on to descriptor 1, which is the last one.
def chainQueue : VirtQueue := ⟨⟨0, 2, ⟨0, 32⟩, ⟨32, 8⟩, ⟨64, 20⟩⟩⟩

def chainGuest : GuestMemory where
  memory := .single ⟨0, 0, 104⟩ (by decide)
  distinct := List.pairwise_singleton _ _
  host := fun a => if a = 12 ∨ a = 14 then 1 else 0
  leasesLeft := none

theorem readChain_exact_all_descriptors :
    ∃ chain, (chainQueue.readChain 0 chainGuest).1 = .ok chain ∧ chain.descriptors.length = 2 ∧
      chain.descriptors.length ≤ chainQueue.layout.size.toNat ∧
      ∃ path last, chainQueue.Walks chainGuest.flat 0 (path ++ [last]) ∧ (path ++ [last]).Nodup := by
  have ready : chainQueue.Ready chainGuest := ⟨rfl, by decide +kernel⟩
  have two : ((chainQueue.readChain 0 chainGuest).1.toOption.map fun chain => chain.descriptors.length) = some 2 := by
    decide +kernel
  obtain ⟨exact, bounded, -⟩ := readChain_exact ready 0
  cases read : (chainQueue.readChain 0 chainGuest).1 with
  | error e =>
      rw [read] at two
      cases two
  | ok chain =>
      rw [read] at two
      obtain ⟨path, last, walks, -, distinct, -⟩ := (exact chain).mp read
      exact ⟨chain, rfl, Option.some.inj two, bounded chain read, path, last, walks, distinct⟩

end VirtQueue

end Libvirtio
