import Libvirtio.Device.Memory
import Libvirtio.Library.Execution

namespace Libvirtio.Memory

structure Read where
  offset : Nat
  length : Nat
  result : Except DeviceError (List UInt8)

def Read.From (config : MemoryConfig) (read : Read) : Prop := read.result = config.read read.offset read.length

/-- A reader looks at the generation, reads parts of the configuration and looks at the generation again. -/
structure Reader where
  generation : Nat
  reads : List Read

/-- `MemoryConfigState` keeps the configuration under a lock and its generation in a watch channel. An `update()` writes
the one, loads the other and sends the next generation, and other calls and readers come in between. -/
structure ConfigState where
  config : MemoryConfig
  generation : Nat
  receivers : Nat
  /-- How many calls of `update()` have written their configuration and not loaded the generation yet. -/
  written : Nat
  /-- The generations that calls of `update()` are about to send. -/
  loaded : List Nat
  readers : List Reader
  /-- What readers have read that found the generation unchanged. -/
  accepted : List (List Read)

namespace ConfigState

def new (config : MemoryConfig) : Except DeviceError ConfigState := do
  let config ← config.validate
  pure { config, generation := 0, receivers := 0, written := 0, loaded := [], readers := [], accepted := [] }

inductive Label where
  | update (config : MemoryConfig)
  | load
  | send (position : Nat)
  | subscribe
  | dropReceiver
  | look
  | read (position offset length : Nat)
  | lookAgain (position : Nat)
  deriving DecidableEq, Repr

def update (s : ConfigState) (config : MemoryConfig) : ConfigState :=
  match config.validate with
  | .error _ => s
  | .ok config => { s with config, written := s.written + 1 }

def load (s : ConfigState) : Option ConfigState :=
  match s.written with
  | 0 => none
  | written + 1 => some { s with written, loaded := s.loaded ++ [(s.generation + 1) % 2 ^ 64] }

/-- A watch channel without a receiver keeps its value. -/
def send (s : ConfigState) (position : Nat) : Option ConfigState :=
  match s.loaded[position]? with
  | none => none
  | some generation => some { s with
      generation := if 0 < s.receivers then generation else s.generation
      loaded := s.loaded.eraseIdx position }

def readPart (s : ConfigState) (position offset length : Nat) : Option ConfigState :=
  match s.readers[position]? with
  | none => none
  | some ⟨generation, reads⟩ =>
      let reads := reads ++ [⟨offset, length, s.config.read offset length⟩]
      some { s with readers := s.readers.set position ⟨generation, reads⟩ }

def lookAgain (s : ConfigState) (position : Nat) : Option ConfigState :=
  match s.readers[position]? with
  | none => none
  | some reader =>
      let s := { s with readers := s.readers.eraseIdx position }
      if reader.generation = s.generation then some { s with accepted := s.accepted ++ [reader.reads] } else some s

-- The generation is seen through a receiver only.
def step (s : ConfigState) : Label → Option ConfigState
  | .update config => some (update s config)
  | .load => load s
  | .send position => send s position
  | .subscribe => some { s with receivers := s.receivers + 1 }
  | .dropReceiver => if 0 < s.receivers then some { s with receivers := s.receivers - 1 } else none
  | .look => if 0 < s.receivers then some { s with readers := s.readers ++ [⟨s.generation, []⟩] } else none
  | .read position offset length => readPart s position offset length
  | .lookAgain position => if 0 < s.receivers then lookAgain s position else none

def Quiet (s : ConfigState) : Prop := s.written = 0 ∧ s.loaded = []

/-- Calls of `update()` do not overlap from load to send, each finds a receiver, and readers look again when no call is
half done. -/
def Orderly (s : ConfigState) : Label → Prop
  | .load => s.loaded = [] ∧ s.generation + 1 < 2 ^ 64
  | .send _ => 0 < s.receivers
  | .lookAgain _ => s.Quiet
  | _ => True

instance (s : ConfigState) : Decidable s.Quiet := inferInstanceAs (Decidable (_ ∧ _))

instance (s : ConfigState) (label : Label) : Decidable (s.Orderly label) :=
  match label with
  | .load => inferInstanceAs (Decidable (_ ∧ _))
  | .send _ => inferInstanceAs (Decidable (_ < _))
  | .lookAgain _ => inferInstanceAs (Decidable s.Quiet)
  | .update _ | .subscribe | .dropReceiver | .look | .read _ _ _ => isTrue trivial

structure Inv (s : ConfigState) : Prop where
  loaded : s.loaded = [] ∨ s.loaded = [s.generation + 1]
  behind : ∀ reader ∈ s.readers, reader.generation ≤ s.generation
  current : s.Quiet → ∀ reader ∈ s.readers, reader.generation = s.generation →
    ∀ read ∈ reader.reads, read.From s.config

variable {s t : ConfigState} {label : Label}

theorem new_eq_ok {config : MemoryConfig} (created : new config = .ok s) :
    ∃ config, s = ⟨config, 0, 0, 0, [], [], []⟩ := by
  unfold new at created
  cases valid : config.validate with
  | error e =>
      rw [valid] at created
      cases created
  | ok config =>
      rw [valid] at created
      cases created
      exact ⟨config, rfl⟩

theorem new_inv {config : MemoryConfig} (created : new config = .ok s) : Inv s := by
  obtain ⟨config, rfl⟩ := new_eq_ok created
  exact {
    loaded := Or.inl rfl
    behind := fun _ member => absurd member List.not_mem_nil
    current := fun _ _ member => absurd member List.not_mem_nil }

/-- A rejected update changes nothing. -/
theorem update_rejected {config : MemoryConfig} {e : DeviceError} (rejected : config.validate = .error e) :
    s.update config = s := by
  rw [update, rejected]

/-- What one step does, with the receivers that it relies on. -/
inductive Moves (s : ConfigState) : Label → ConfigState → Prop where
  | reject {config : MemoryConfig} {e : DeviceError} (invalid : config.validate = .error e) :
      Moves s (.update config) s
  | update {config next : MemoryConfig} (valid : config.validate = .ok next) :
      Moves s (.update config) { s with config := next, written := s.written + 1 }
  | load {written : Nat} (waiting : s.written = written + 1) :
      Moves s .load { s with written, loaded := s.loaded ++ [(s.generation + 1) % 2 ^ 64] }
  | send {position generation : Nat} (found : s.loaded[position]? = some generation) :
      Moves s (.send position) { s with
        generation := if 0 < s.receivers then generation else s.generation
        loaded := s.loaded.eraseIdx position }
  | subscribe : Moves s .subscribe { s with receivers := s.receivers + 1 }
  | dropReceiver (received : 0 < s.receivers) : Moves s .dropReceiver { s with receivers := s.receivers - 1 }
  | look (received : 0 < s.receivers) : Moves s .look { s with readers := s.readers ++ [⟨s.generation, []⟩] }
  | read {position offset length : Nat} {reader : Reader} (found : s.readers[position]? = some reader) :
      Moves s (.read position offset length) { s with
        readers := s.readers.set position
          ⟨reader.generation, reader.reads ++ [⟨offset, length, s.config.read offset length⟩]⟩ }
  | accept {position : Nat} {reader : Reader} (received : 0 < s.receivers)
      (found : s.readers[position]? = some reader) (same : reader.generation = s.generation) :
      Moves s (.lookAgain position) { s with
        readers := s.readers.eraseIdx position, accepted := s.accepted ++ [reader.reads] }
  | discard {position : Nat} {reader : Reader} (received : 0 < s.receivers)
      (found : s.readers[position]? = some reader) (other : reader.generation ≠ s.generation) :
      Moves s (.lookAgain position) { s with readers := s.readers.eraseIdx position }

theorem lookAgain_moves (received : 0 < s.receivers) {position : Nat} (stepped : lookAgain s position = some t) :
    Moves s (.lookAgain position) t := by
  unfold lookAgain at stepped
  split at stepped
  · cases stepped
  · rename_i reader found
    simp only at stepped
    split at stepped
    · rename_i same
      cases stepped
      exact .accept received found same
    · rename_i other
      cases stepped
      exact .discard received found other

theorem step_moves (stepped : step s label = some t) : Moves s label t := by
  cases label with
  | update config =>
      cases stepped
      unfold update
      split
      · rename_i invalid
        exact .reject invalid
      · rename_i valid
        exact .update valid
  | load =>
      simp only [step, load] at stepped
      split at stepped
      · cases stepped
      · rename_i waiting
        cases stepped
        exact .load waiting
  | send position =>
      simp only [step, send] at stepped
      split at stepped
      · cases stepped
      · rename_i found
        cases stepped
        exact .send found
  | subscribe =>
      cases stepped
      exact .subscribe
  | dropReceiver =>
      simp only [step] at stepped
      split at stepped
      · rename_i received
        cases stepped
        exact .dropReceiver received
      · cases stepped
  | look =>
      simp only [step] at stepped
      split at stepped
      · rename_i received
        cases stepped
        exact .look received
      · cases stepped
  | read position offset length =>
      simp only [step, readPart] at stepped
      split at stepped
      · cases stepped
      · rename_i found
        cases stepped
        exact .read found
  | lookAgain position =>
      simp only [step] at stepped
      split at stepped
      · rename_i received
        exact lookAgain_moves received stepped
      · cases stepped

theorem generation_kept (other : ∀ position, label ≠ .send position) (stepped : step s label = some t) :
    t.generation = s.generation := by
  cases step_moves stepped with
  | send => exact absurd rfl (other _)
  | reject | update | load | subscribe | dropReceiver | look | read | accept | discard => rfl

namespace Inv

-- The one generation that may be loaded is the one after the current.
theorem found_next (inv : Inv s) {position generation : Nat} (found : s.loaded[position]? = some generation) :
    generation = s.generation + 1 ∧ s.loaded.eraseIdx position = [] := by
  rcases inv.loaded with none | one
  · rw [none] at found
    cases found
  · rw [one] at found ⊢
    cases position with
    | zero =>
        cases found
        exact ⟨rfl, rfl⟩
    | succ position => cases found

theorem send (inv : Inv s) : Inv { s with generation := s.generation + 1, loaded := [] } where
  loaded := Or.inl rfl
  behind := fun reader member => Nat.le_succ_of_le (inv.behind reader member)
  current := fun _ reader member same => by
    have behind := inv.behind reader member
    simp only at same
    omega

theorem look (inv : Inv s) : Inv { s with readers := s.readers ++ [⟨s.generation, []⟩] } where
  loaded := inv.loaded
  behind := fun reader member => by
    rcases List.mem_append.mp member with old | new
    · exact inv.behind reader old
    · rw [List.mem_singleton.mp new]
  current := fun quiet reader member same read listed => by
    rcases List.mem_append.mp member with old | new
    · exact inv.current quiet reader old same read listed
    · rw [List.mem_singleton.mp new] at listed
      cases listed

theorem read (inv : Inv s) {reader : Reader} (known : reader ∈ s.readers) (position offset length : Nat) :
    Inv { s with
      readers := s.readers.set position
        ⟨reader.generation, reader.reads ++ [⟨offset, length, s.config.read offset length⟩]⟩ } := by
  refine { inv with behind := fun other member => ?_, current := fun quiet other member same read listed => ?_ }
  · rcases List.mem_or_eq_of_mem_set member with old | rfl
    · exact inv.behind other old
    · exact inv.behind reader known
  · rcases List.mem_or_eq_of_mem_set member with old | rfl
    · exact inv.current quiet other old same read listed
    · rcases List.mem_append.mp listed with before | now
      · exact inv.current quiet reader known same read before
      · rw [List.mem_singleton.mp now]
        rfl

theorem leave (inv : Inv s) (position : Nat) : Inv { s with readers := s.readers.eraseIdx position } :=
  { inv with
    behind := fun other member => inv.behind other (List.mem_of_mem_eraseIdx member)
    current := fun quiet other member => inv.current quiet other (List.mem_of_mem_eraseIdx member) }

theorem step (inv : Inv s) (orderly : s.Orderly label) (stepped : step s label = some t) : Inv t := by
  cases step_moves stepped with
  | reject => exact inv
  | update => exact { inv with current := fun quiet => absurd quiet.1 (Nat.succ_ne_zero _) }
  | load =>
      obtain ⟨alone, room⟩ := orderly
      rw [alone, Nat.mod_eq_of_lt room]
      exact { inv with
        loaded := Or.inr rfl
        current := fun quiet => absurd quiet.2 (List.cons_ne_nil _ _) }
  | send found =>
      have received : 0 < s.receivers := orderly
      obtain ⟨rfl, last⟩ := inv.found_next found
      rw [if_pos received, last]
      exact inv.send
  | subscribe | dropReceiver => exact { inv with }
  | look => exact inv.look
  | read found => exact inv.read (List.mem_of_getElem? found) _ _ _
  | accept _ found => exact { inv.leave _ with }
  | discard => exact inv.leave _

end Inv

theorem send_next (inv : Inv s) (received : 0 < s.receivers) {position : Nat}
    (stepped : step s (.send position) = some t) :
    t = { s with generation := s.generation + 1, loaded := [] } := by
  cases step_moves stepped with
  | send found =>
      obtain ⟨rfl, last⟩ := inv.found_next found
      rw [if_pos received, last]

/-- In the state `u` of the run a reader looks again, finds the generation of its first look and has these reads. -/
def AcceptedIn (s₀ : ConfigState) (labels : List Label) (u : ConfigState) (reads : List Read) : Prop :=
  ∃ past position rest, labels = past ++ .lookAgain position :: rest ∧ exec step s₀ past = some u ∧
    u.readers[position]? = some ⟨u.generation, reads⟩

theorem AcceptedIn.later {s₀ u : ConfigState} {labels : List Label} {reads : List Read}
    (accepted : AcceptedIn s₀ labels u reads) (more : List Label) : AcceptedIn s₀ (labels ++ more) u reads := by
  obtain ⟨past, position, rest, rfl, run, found⟩ := accepted
  exact ⟨past, position, rest ++ more, by simp, run, found⟩

theorem accepted_in {s₀ : ConfigState} (empty : s₀.accepted = []) {labels : List Label}
    (run : exec step s₀ labels = some s) : ∀ reads ∈ s.accepted, ∃ u, AcceptedIn s₀ labels u reads := by
  refine Execution.invariant_past (fun labels s => ∀ reads ∈ s.accepted, ∃ u, AcceptedIn s₀ labels u reads) ?_
    (by simp [empty]) run
  intro past u label t before known stepped reads member
  have earlier (old : reads ∈ u.accepted) : ∃ v, AcceptedIn s₀ (past ++ [label]) v reads := by
    obtain ⟨v, accepted⟩ := known reads old
    exact ⟨v, accepted.later [label]⟩
  cases step_moves stepped with
  | @accept position reader _ found same =>
      rcases List.mem_append.mp member with old | new
      · exact earlier old
      · obtain rfl := List.mem_singleton.mp new
        exact ⟨u, past, position, [], rfl, before, by rw [found, ← same]⟩
  | reject | update | load | send | subscribe | dropReceiver | look | read | discard => exact earlier member

/-- What a reader accepts in an orderly run is read from the configuration that the state holds then. -/
theorem AcceptedIn.from_config {s₀ u : ConfigState} {labels : List Label} {reads : List Read}
    (accepted : AcceptedIn s₀ labels u reads) (start : Inv s₀) (orderly : Execution.Along step Orderly s₀ labels) :
    ∀ read ∈ reads, read.From u.config := by
  obtain ⟨past, position, rest, rfl, run, found⟩ := accepted
  obtain ⟨before, now⟩ := Execution.Along.append.mp orderly
  have inv := Execution.invariant_along Inv (fun _ _ _ inv orderly stepped => inv.step orderly stepped) start before run
  have quiet : u.Quiet := (now u run).1
  exact inv.current quiet _ (List.mem_of_getElem? found) rfl

/-- In an orderly run the generation never falls and every update that succeeds raises it, a reader that finds it
unchanged has read the one configuration that the state holds then, and a rejected update changes nothing. -/
theorem generation_identifies_config {config : MemoryConfig} {s₀ : ConfigState} (created : new config = .ok s₀)
    {labels : List Label} (run : exec step s₀ labels = some s) (orderly : Execution.Along step Orderly s₀ labels) :
    (∀ label t, s.Orderly label → step s label = some t →
      s.generation ≤ t.generation ∧ ∀ position, label = .send position → s.generation < t.generation) ∧
    (∀ reads ∈ s.accepted, ∃ u, AcceptedIn s₀ labels u reads ∧ ∀ read ∈ reads, read.From u.config) ∧
    ∀ config e t, config.validate = .error e → step s (.update config) = some t →
      t.config = s.config ∧ t.generation = s.generation := by
  have start := new_inv created
  have inv := Execution.invariant_along Inv (fun _ _ _ inv orderly stepped => inv.step orderly stepped) start orderly run
  refine ⟨fun label t orderly stepped => ?_, fun reads member => ?_, fun config e t rejected stepped => ?_⟩
  · by_cases sends : ∃ position, label = .send position
    · obtain ⟨position, rfl⟩ := sends
      rw [send_next inv orderly stepped]
      exact ⟨Nat.le_succ _, fun _ _ => Nat.lt_succ_self _⟩
    · have other : ∀ position, label ≠ .send position := fun position same => sends ⟨position, same⟩
      exact ⟨Nat.le_of_eq (generation_kept other stepped).symm, fun position same => absurd same (other position)⟩
  · have empty : s₀.accepted = [] := by
      obtain ⟨config, rfl⟩ := new_eq_ok created
      rfl
    obtain ⟨u, accepted⟩ := accepted_in empty run reads member
    exact ⟨u, accepted, accepted.from_config start orderly⟩
  · cases stepped
    rw [update_rejected rejected]
    exact ⟨rfl, rfl⟩

def unplugged : MemoryConfig := ⟨4096, 0, 0, 4096, 4096, 0, 0⟩

def requested : MemoryConfig := { unplugged with requestedSize := 4096 }

def created (config : MemoryConfig) : ConfigState := ⟨config, 0, 0, 0, [], [], []⟩

-- A reader reads the requested size, and then the size is updated.
def updated : List Label := [.subscribe, .look, .read 0 48 8, .lookAgain 0, .update requested, .load]

theorem generation_identifies_config_update :
    ∃ s t, exec step (created unplugged) updated = some s ∧ step s (.send 0) = some t ∧ t.config = requested ∧
      s.generation < t.generation ∧
      ∃ reads ∈ s.accepted, reads.length = 1 ∧ ∃ u, AcceptedIn (created unplugged) updated u reads ∧
        ∀ read ∈ reads, read.From u.config := by
  have ends : (exec step (created unplugged) updated).map
      (fun s => (s.receivers, s.accepted.map List.length, (step s (.send 0)).map ConfigState.config)) =
      some (1, [1], some requested) := by decide +kernel
  obtain ⟨s, run, facts⟩ := Option.map_eq_some_iff.mp ends
  simp only [Prod.mk.injEq] at facts
  obtain ⟨receivers, accepted, next⟩ := facts
  obtain ⟨t, stepped, config⟩ := Option.map_eq_some_iff.mp next
  obtain ⟨raises, one, -⟩ := generation_identifies_config (show new unplugged = .ok (created unplugged) from rfl) run
    (by decide +kernel)
  have received : s.Orderly (.send 0) := by
    rw [Orderly, receivers]
    exact Nat.one_pos
  obtain ⟨reads, listed, length⟩ := List.mem_map.mp (show 1 ∈ s.accepted.map List.length by simp [accepted])
  exact ⟨s, t, run, stepped, config, (raises _ t received stepped).2 0 rfl, reads, listed, length, one reads listed⟩

-- Without a receiver the generation stays. Of two updates that load it together the second does not raise it. A
-- reader that looks again before the send takes parts of two configurations for one.
theorem generation_repeats :
    (exec step (created unplugged) [.update requested, .load, .send 0]).map (fun s => (s.config, s.generation)) =
      some (requested, 0) ∧
    (exec step (created unplugged) [.subscribe, .update requested, .load, .update unplugged, .load, .send 0]).map
        (fun s => (s.generation, (step s (.send 0)).map ConfigState.generation)) = some (1, some 1) ∧
    ∃ s, exec step (created unplugged)
        [.subscribe, .look, .read 0 48 8, .update requested, .read 0 48 8, .lookAgain 0] = some s ∧
      ∃ reads ∈ s.accepted, ¬∃ config, ∀ read ∈ reads, Read.From config read := by
  refine ⟨by decide +kernel, by decide +kernel, _, rfl, _, List.mem_singleton_self _, ?_⟩
  rintro ⟨config, one⟩
  have first := one _ List.mem_cons_self
  have second := one _ (List.mem_cons_of_mem _ List.mem_cons_self)
  have same : unplugged.read 48 8 = requested.read 48 8 := first.trans second.symm
  have differ : (unplugged.read 48 8).toOption ≠ (requested.read 48 8).toOption := by decide +kernel
  exact differ (congrArg Except.toOption same)

end ConfigState

end Libvirtio.Memory
