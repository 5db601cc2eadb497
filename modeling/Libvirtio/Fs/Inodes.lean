import Libvirtio.Error
import Libvirtio.Library.Fallible

namespace Libvirtio.Fs

abbrev Bytes := List UInt8

-- `PathBuf` compares paths by their components.
abbrev Path := List Bytes

def slash : UInt8 := 0x2f
def dot : Bytes := [0x2e]
def dotDot : Bytes := [0x2e, 0x2e]

def Plain (name : Bytes) : Prop := name ≠ [] ∧ name ≠ dot ∧ name ≠ dotDot ∧ slash ∉ name

instance (name : Bytes) : Decidable (Plain name) := inferInstanceAs (Decidable (_ ∧ _))

-- Empty components and `.` vanish; `..` stays a component.
def components (name : Bytes) : Path := (name.splitOn slash).filter fun c => c ≠ [] ∧ c ≠ dot

/-- `Path::join`: an absolute path replaces the base. -/
def join (path : Path) (name : Bytes) : Path :=
  if name.head? = some slash then components name else path ++ components name

def startsWith (path base : Path) : Bool := base.isPrefixOf path

theorem components_of_plain {name : Bytes} (plain : Plain name) : components name = [name] := by
  obtain ⟨nonempty, notDot, -, noSlash⟩ := plain
  have single : name.splitOn slash = [name] := by
    unfold List.splitOn
    apply List.splitOnP_eq_singleton
    intro b member
    rw [beq_eq_false_iff_ne]
    rintro rfl
    exact noSlash member
  simp [components, single, nonempty, notDot]

theorem join_of_plain (path : Path) {name : Bytes} (plain : Plain name) : join path name = path ++ [name] := by
  have relative : name.head? ≠ some slash := fun head => plain.2.2.2 (List.mem_of_head? head)
  rw [join, if_neg relative, components_of_plain plain]

def fuseRootId : UInt64 := 1

structure FsInodes where
  next : UInt64
  byId : UInt64 → Option Path
  byPath : Path → Option UInt64

namespace FsInodes

def new (root : Path) : FsInodes where
  next := fuseRootId + 1
  byId := fun id => if id = fuseRootId then some root else none
  byPath := fun path => if path = root then some fuseRootId else none

def bind (inodes : FsInodes) (id : UInt64) (path : Path) : FsInodes where
  next := id + 1
  byId := fun other => if other = id then some path else inodes.byId other
  byPath := fun other => if other = path then some id else inodes.byPath other

def idForPath (path : Path) : Fallible DeviceError FsInodes UInt64 := fun inodes =>
  match inodes.byPath path with
  | some id => (.ok id, inodes)
  | none =>
      if inodes.next.toNat + 1 < 2 ^ 64 then (.ok inodes.next, inodes.bind inodes.next path)
      else (.error (.invalidLayout "virtio-fs inode id overflow"), inodes)

def Confined (root path : Path) : Prop := ∃ names : List Bytes, path = root ++ names ∧ ∀ name ∈ names, Plain name

theorem Confined.join {root path : Path} (confined : Confined root path) {name : Bytes} (plain : Plain name) :
    Confined root (join path name) := by
  obtain ⟨names, rfl, plains⟩ := confined
  refine ⟨names ++ [name], ?_, ?_⟩
  · rw [join_of_plain _ plain, List.append_assoc]
  · intro other member
    rcases List.mem_append.mp member with old | new
    · exact plains other old
    · rw [List.mem_singleton.mp new]
      exact plain

theorem Confined.startsWith {root path : Path} (confined : Confined root path) : startsWith path root = true := by
  obtain ⟨names, rfl, -⟩ := confined
  exact List.isPrefixOf_iff_prefix.mpr (List.prefix_append root names)

structure Inv (root : Path) (inodes : FsInodes) : Prop where
  inverse : ∀ id path, inodes.byId id = some path ↔ inodes.byPath path = some id
  rootBound : inodes.byId fuseRootId = some root
  range : ∀ id path, inodes.byId id = some path → 1 ≤ id.toNat ∧ id.toNat < inodes.next.toNat
  confined : ∀ id path, inodes.byId id = some path → Confined root path

def Extends (before after : FsInodes) : Prop := ∀ id path, before.byId id = some path → after.byId id = some path

theorem Extends.refl (inodes : FsInodes) : Extends inodes inodes := fun _ _ bound => bound

theorem Extends.trans (first second third : FsInodes) (left : Extends first second) (right : Extends second third) :
    Extends first third :=
  fun id path bound => right id path (left id path bound)

theorem new_inv (root : Path) : Inv root (new root) where
  inverse id path := by
    simp only [new]
    by_cases sameId : id = fuseRootId
    · subst sameId
      simp [eq_comm]
    · simp only [sameId, if_false, reduceCtorEq, false_iff]
      split
      · simpa [eq_comm] using sameId
      · simp
  rootBound := by simp [new]
  range id path bound := by
    simp only [new, Option.ite_none_right_eq_some] at bound ⊢
    rw [bound.1]
    decide
  confined id path bound := by
    simp only [new, Option.ite_none_right_eq_some, Option.some.injEq] at bound
    exact ⟨[], by rw [← bound.2, List.append_nil], by simp⟩

variable {root : Path} {inodes after : FsInodes}

theorem Inv.bind (inv : Inv root inodes) {path : Path} (unbound : inodes.byPath path = none)
    (room : inodes.next.toNat + 1 < 2 ^ 64) (confined : Confined root path) :
    Inv root (inodes.bind inodes.next path) ∧ Extends inodes (inodes.bind inodes.next path) := by
  have fresh : inodes.byId inodes.next = none := by
    cases bound : inodes.byId inodes.next with
    | none => rfl
    | some other => exact absurd (inv.range _ _ bound).2 (Nat.lt_irrefl _)
  have next : (inodes.next + 1).toNat = inodes.next.toNat + 1 := by
    rw [UInt64.toNat_add, UInt64.toNat_one, Nat.mod_eq_of_lt room]
  have old : ∀ id other, inodes.byId id = some other → id ≠ inodes.next := by
    rintro id other bound rfl
    rw [fresh] at bound
    cases bound
  have rootPositive := (inv.range _ _ inv.rootBound).2
  refine ⟨⟨?_, ?_, ?_, ?_⟩, ?_⟩
  · intro id other
    simp only [FsInodes.bind]
    by_cases sameId : id = inodes.next <;> by_cases samePath : other = path
    · simp [sameId, samePath]
    · subst sameId
      simp only [if_true, Option.some.injEq, samePath, if_false]
      exact ⟨fun same => absurd same.symm samePath, fun bound => absurd ((inv.inverse _ _).mpr bound) (by simp [fresh])⟩
    · subst samePath
      simp only [sameId, if_false, if_true, Option.some.injEq]
      refine ⟨fun bound => ?_, fun same => absurd same.symm sameId⟩
      rw [(inv.inverse _ _).mp bound] at unbound
      cases unbound
    · simp only [sameId, samePath, if_false]
      exact inv.inverse id other
  · simp only [FsInodes.bind]
    rw [if_neg (old _ _ inv.rootBound)]
    exact inv.rootBound
  · intro id other bound
    simp only [FsInodes.bind] at bound ⊢
    rw [next]
    split at bound
    · rename_i sameId
      subst sameId
      have : fuseRootId.toNat = 1 := rfl
      omega
    · have := inv.range id other bound
      omega
  · intro id other bound
    simp only [FsInodes.bind] at bound
    split at bound
    · cases bound
      exact confined
    · exact inv.confined id other bound
  · intro id other bound
    simp only [FsInodes.bind]
    rw [if_neg (old _ _ bound)]
    exact bound

theorem Inv.idForPath (inv : Inv root inodes) {path : Path} (confined : Confined root path) :
    Inv root (idForPath path inodes).2 ∧ Extends inodes (idForPath path inodes).2 ∧
      ∀ id, (idForPath path inodes).1 = .ok id → (idForPath path inodes).2.byId id = some path := by
  unfold FsInodes.idForPath
  cases bound : inodes.byPath path with
  | some id =>
      refine ⟨inv, .refl inodes, ?_⟩
      intro other same
      cases same
      exact (inv.inverse _ _).mpr bound
  | none =>
      by_cases room : inodes.next.toNat + 1 < 2 ^ 64
      · simp only [if_pos room]
        obtain ⟨kept, extended⟩ := inv.bind bound room confined
        refine ⟨kept, extended, ?_⟩
        intro id same
        cases same
        simp [FsInodes.bind]
      · simp only [if_neg room]
        exact ⟨inv, .refl inodes, fun id same => nomatch same⟩

end FsInodes

end Libvirtio.Fs
