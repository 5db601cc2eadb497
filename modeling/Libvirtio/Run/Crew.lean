import Libvirtio.Device.Driver
import Libvirtio.Run.Loop

namespace Libvirtio

/-- A worker starts with what was leased for it, and finds the host as some `World`. -/
structure Crew where
  machine : Machine
  resources : Resources
  holdsLeases : Bool
  World : Type
  Work : Type
  Ticket : Type
  Reply : Type
  place : Work → Nat × DescriptorChain
  leases : Ticket → Nat
  usedLength : Reply → UInt32
  takeWork : Nat → DeviceM machine.State (Option Work)
  startWork : Work → DeviceM machine.State Ticket
  runWorker : World → Work → Ticket → DeviceM machine.State Reply
  completeWork : Work → Reply → DeviceM machine.State Unit

namespace Block
variable {F : Type} (host : HostFile F) (device : Device) (resources : Resources)

structure Leases where
  payload : List (List DmaPart)
  status : List DmaPart

def startRequest (request : Request) : IoM F Leases := do
  let payload ← onMemory (leaseAll request.payload)
  let status ← onMemory (lease request.status)
  tryClone host
  pure ⟨payload, status⟩

def runRequest (request : Request) (leases : Leases) : IoM F Completion := do
  let (completion, value) ←
    executeBlocking host device.capacity device.readOnly device.flushSupported request leases.payload
  onMemory (writeStatus leases.status value)
  pure completion

theorem execute_eq (down : Bool) (request : Request) : execute host device down request = (do
    onMemory (checkLive down)
    let leases ← startRequest host request
    runRequest host device request leases) := by
  simp only [execute, startRequest, runRequest, Fallible.bind_assoc, Fallible.pure_bind]

def crew : Crew where
  machine := machine host device resources
  resources := resources
  holdsLeases := true
  World := Unit
  Work := Work
  Ticket := Leases
  Reply := Completion
  place work := (work.queueIndex, work.chain)
  leases ticket := ticket.payload.length + 1
  usedLength := Completion.usedLength
  takeWork := takeWork resources
  startWork work := onIo (startRequest host work.request)
  runWorker _ work ticket := onIo (runRequest host device work.request ticket)
  completeWork := completeWork resources

end Block

namespace Fs
variable (root : Path) (resources : Resources)

theorem executeWork_eq (down : Bool) (host : Host) (request : Bytes) : executeWork down root host request = (do
    checkLive down
    tryBackend (runWorker root host request)) := rfl

def crew : Crew where
  machine := machine root resources
  resources := resources
  holdsLeases := false
  World := Host
  Work := Work
  Ticket := Unit
  Reply := Bytes
  place work := (work.queueIndex, work.chain)
  leases _ := 0
  usedLength reply := UInt32.ofNat reply.length
  takeWork := takeWork resources
  startWork _ := pure ()
  runWorker host work _ := tryBackend (runWorker root host work.request)
  completeWork := completeWork resources

end Fs

namespace Crew

inductive Shipped : Crew → Prop
  | block {F : Type} (host : Block.HostFile F) (device : Block.Device) (resources : Resources) :
      Shipped (Block.crew host device resources)
  | fs (root : Fs.Path) (resources : Resources) : Shipped (Fs.crew root resources)

theorem unit_bind {β : Type} (m : DeviceM β Unit) : (m >>= fun _ => pure ()) = m := by
  funext view
  rw [Fallible.bind_apply]
  rcases m view with ⟨fault | done, after⟩ <;> rfl

def takeWith {β W : Type} (resources : Resources) (index : Nat) (parse : DescriptorChain → DmaM W) :
    DeviceM β (Option W) := do
  let popped ← pop resources index
  match popped with
  | none => pure none
  | some chain => do
      let work ← onDma (parse chain)
      pure (some work)

theorem eq_takeWith {β W γ : Type} {resources : Resources} {index : Nat} {parse : DescriptorChain → DmaM γ}
    {made : DescriptorChain → γ → W} {body : Option DescriptorChain → DeviceM β (Option W)} (absent : body none = pure none)
    (present : ∀ chain, body (some chain) = onDma (parse chain) >>= fun parsed => pure (some (made chain parsed))) :
    (pop resources index >>= body) =
      takeWith resources index fun chain => parse chain >>= fun parsed => pure (made chain parsed) := by
  unfold takeWith
  congr 1
  funext popped
  cases popped with
  | none => exact absent
  | some chain =>
      rw [present]
      funext view
      change _ = (onDma (parse chain >>= fun parsed => pure (made chain parsed)) >>= fun work => pure (some work)) view
      rcases run : parse chain view.guest with ⟨e | parsed, guest⟩
      · have failed : (parse chain >>= fun parsed => pure (made chain parsed)) view.guest = (.error e, guest) :=
          Fallible.bind_of_error run
        rw [Fallible.bind_of_error (onDma_of_error run), Fallible.bind_of_error (onDma_of_error failed)]
      · have mapped : (parse chain >>= fun parsed => pure (made chain parsed)) view.guest =
            (.ok (made chain parsed), guest) := Fallible.bind_of_ok run
        rw [Fallible.bind_of_ok (onDma_of_ok run), Fallible.bind_of_ok (onDma_of_ok mapped)]

/-- `good` work writes what its chain lets it, as do the leases that `fit` it. -/
structure Lawful (crew : Crew) (good : crew.Work → Prop) (fit : DmaMemory → crew.Work → crew.Ticket → Prop) : Prop where
  take : ∀ index view, (∃ fault, crew.takeWork index view = (.error fault, view)) ∨
    ∃ parse, crew.takeWork index view = takeWith crew.resources index parse view ∧ ∀ chain guest,
      Confined chain.Writable guest (fun work => crew.place work = (index, chain) ∧ good work) (parse chain)
  start : ∀ work view, good work → WorksAside (crew.place work).2.Writable (fun _ => True) view
    (fun ticket => fit view.guest.memory work ticket ∧ (crew.holdsLeases = true ↔ 0 < crew.leases ticket))
    (crew.startWork work)
  refuse : ∀ work view, crew.holdsLeases = true → view.guest.leasesLeft = some 0 →
    ∃ fault, (crew.startWork work view).1 = .error fault
  run : ∀ world work ticket view, good work → fit view.guest.memory work ticket →
    WorksAside (crew.place work).2.Writable (fun _ => True) view (fun _ => True) (crew.runWorker world work ticket)
  complete : ∀ work reply, good work → ∃ last announce,
    crew.completeWork work reply = once (finish crew.resources (crew.place work).1 (crew.place work).2 last announce) ∧
    Announcement announce ∧ ∀ view, WorksAside (crew.place work).2.Writable (fun _ => True) view (fun _ => True) last

end Crew

namespace Block
variable {F : Type} {host : HostFile F} {device : Device} {resources : Resources}

/-- The parts of the leases are where the request lets the device write. -/
structure Fit (memory : DmaMemory) (work : Work) (leases : Leases) : Prop where
  payload : work.request.requestType = .tIn → memory.Backs work.chain.Writable leases.payload.flatten
  status : memory.Backs work.chain.Writable leases.status

theorem onIo_aside {α : Type} {allowed : Nat → Prop} {start : DeviceView (State F)} {post : α → Prop} {access : IoM F α}
    (confined : IoConfined allowed start.guest post access) :
    WorksAside allowed (fun _ => True) start post (onIo access) := by
  intro view aside
  obtain ⟨touched, returns⟩ := confined ⟨view.guest, view.backend.file⟩ aside.guest
  refine ⟨⟨touched, aside.states, aside.log, trivial⟩, fun a returned => returns a ?_⟩
  revert returned
  simp only [onIo]
  cases (access ⟨view.guest, view.backend.file⟩).1 with
  | error e => exact fun impossible => by cases impossible
  | ok b => exact fun same => by cases same; rfl

theorem takeWork_eq {index : Nat} (configured : index < resources.queues.length) :
    (takeWork resources index : DeviceM (State F) (Option Work)) = Crew.takeWith resources index fun chain =>
      parseRequest chain >>= fun request => pure ⟨index, chain, request⟩ := by
  unfold takeWork Block.configured
  rw [if_pos configured, Fallible.pure_bind]
  exact Crew.eq_takeWith rfl fun _ => rfl

theorem startRequest_confined {work : Work} {guest : GuestMemory}
    (lawful : ∀ a, work.request.Writes a → work.chain.Writable a) :
    IoConfined work.chain.Writable guest (Fit guest.memory work) (startRequest host work.request) := by
  have cloned : IoConfined work.chain.Writable guest (fun _ => True) (tryClone host) := by
    intro view touched
    unfold tryClone
    split
    · exact ⟨touched, fun _ _ => trivial⟩
    · exact ⟨touched, fun _ _ => trivial⟩
  refine .bind (onMemory_confined (leaseAll_confined work.request.payload)) fun payload backed => ?_
  refine .bind (onMemory_confined (lease_backs fun a member => lawful a (.inl member))) fun status answered => ?_
  refine .bind cloned fun _ _ => .pure ⟨fun reading => backed fun range member a within => ?_, answered⟩
  exact lawful a (.inr ⟨reading, range, member, within⟩)

theorem startRequest_revoked (host : HostFile F) (request : Request) (view : IoView F)
    (revoked : view.guest.leasesLeft = some 0) : startRequest host request view = (.error (.down .revoked), view) := by
  have refused (range : DmaRange) := GuestMemory.lease_revoked revoked range
  have failed {α : Type} {access : DmaM α} (run : access view.guest = (.error (.down .revoked), view.guest)) :
      onMemory access view = (.error (.down .revoked), view) := by
    rw [onMemory, Fallible.zoom_apply, run]
  unfold startRequest
  cases request.payload with
  | nil =>
      rw [Fallible.bind_of_ok (show onMemory (leaseAll []) view = (.ok [], view) from rfl)]
      exact Fallible.bind_of_error (failed (refused _))
  | cons range rest => exact Fallible.bind_of_error (failed (Fallible.bind_of_error (refused range)))

theorem runRequest_confined {work : Work} {leases : Leases} {guest : GuestMemory} (fit : Fit guest.memory work leases) :
    IoConfined work.chain.Writable guest (fun _ => True) (runRequest host device work.request leases) := by
  have executed : IoConfined work.chain.Writable guest (fun _ => True)
      (executeBlocking host device.capacity device.readOnly device.flushSupported work.request leases.payload) :=
    .bind (requestStatus_confined fit.payload) fun _ _ =>
      .bind (.ofExcept fun _ _ => trivial) fun _ (_ : True) => .pure trivial
  refine .bind executed fun ⟨completion, value⟩ _ => ?_
  exact .bind (onMemory_confined (writeStatus_confined fit.status value)) fun _ _ => .pure trivial

theorem lawful : (crew host device resources).Lawful
    (fun work => ∀ a, work.request.Writes a → work.chain.Writable a) Fit where
  take index view := by
    by_cases configured : index < resources.queues.length
    · refine .inr ⟨_, congrFun (takeWork_eq configured) view, fun chain guest => ?_⟩
      exact .bind parseRequest_confined fun request writes => .pure ⟨rfl, writes⟩
    · left
      refine ⟨.error (.invalidLayout "queue index is not configured"), ?_⟩
      change takeWork resources index view = _
      rw [takeWork, Block.configured, if_neg configured]
      rfl
  start work view lawful := by
    have started : WorksAside work.chain.Writable (fun _ => True) view (Fit view.guest.memory work)
        (onIo (startRequest host work.request)) := onIo_aside (startRequest_confined lawful)
    exact started.weaken fun ticket fit => ⟨fit, iff_of_true rfl (Nat.succ_pos _)⟩
  refuse work view _ revoked := by
    have refused := startRequest_revoked host work.request ⟨view.guest, view.backend.file⟩ revoked
    refine ⟨.error (.down .revoked), ?_⟩
    change (onIo (startRequest host work.request) view).1 = _
    simp only [onIo, refused]
    rfl
  run _ work ticket view _ fit := onIo_aside (runRequest_confined fit)
  complete work reply _ := by
    refine ⟨pure reply.usedLength, _, ?_, notifyConfigured_announcement resources work.queueIndex
      "missing queue interrupt notifier" "vector exceeds u16", fun view => .pure trivial⟩
    simp only [once, finish, Fallible.bind_assoc, Fallible.pure_bind, Crew.unit_bind]
    rfl

end Block

namespace Fs
variable {root : Path} {resources : Resources}

theorem takeWork_eq (index : Nat) : takeWork resources index = Crew.takeWith resources index fun chain =>
    parseChain chain >>= fun parsed => pure ⟨index, chain, parsed.1, parsed.2⟩ :=
  Crew.eq_takeWith rfl fun _ => rfl

theorem lawful : (crew root resources).Lawful
    (fun work => ∀ range ∈ work.reply, ∀ a, range.Contains a → work.chain.Writable a) (fun _ _ _ => True) where
  take index view := by
    refine .inr ⟨_, congrFun (takeWork_eq index) view, fun chain guest => ?_⟩
    exact .bind parseChain_confined fun parsed inside => .pure ⟨rfl, inside⟩
  start work view _ := .pure ⟨trivial, by simp [crew]⟩
  refuse _ _ impossible := by cases impossible
  run host work _ view _ _ := tryBackend_aside fun _ _ => trivial
  complete work reply inside := by
    refine ⟨onDma (writeReply work.reply reply), _, ?_, notifyConfigured_announcement resources work.queueIndex
      "missing virtio-fs interrupt notifier" "queue vector exceeds u16",
      fun view => onDma_aside (writeReply_confined inside reply)⟩
    simp only [once, finish, Fallible.bind_assoc, Fallible.pure_bind, Crew.unit_bind]
    simp only [crew, completeWork, finishWork, Fallible.bind_assoc]
    rfl

end Fs

namespace Crew

theorem Shipped.lawful {crew : Crew} (shipped : crew.Shipped) : ∃ good fit, crew.Lawful good fit := by
  cases shipped with
  | block host device resources => exact ⟨_, _, Block.lawful⟩
  | fs root resources => exact ⟨_, _, Fs.lawful⟩

variable {crew : Crew} {good : crew.Work → Prop} {fit : DmaMemory → crew.Work → crew.Ticket → Prop}
  (lawful : crew.Lawful good fit)
include lawful

omit lawful in
theorem look_states {resources : Resources} {s t : Abstract.State} (step : Abstract.Step resources s .look t) :
    t.states = s.states := by
  cases step
  rfl

/-- It fails, perhaps with a chain that it took, or finds none, or returns the work of the chain that it took. -/
theorem Lawful.take_cases (index : Nat) (view : DeviceView crew.machine.State) (held : List (Nat × DescriptorChain)) :
    (∃ fault after, crew.takeWork index view = (.error fault, after) ∧
      (after.states = view.states ∨ ∃ chain, (pop crew.resources index view).1 = .ok (some chain))) ∨
    (∃ after, crew.takeWork index view = (.ok none, after) ∧ (pop crew.resources index view).1 = .ok none ∧
      Trace (Abstract.Step crew.resources) (view.abstract held) [.look] (after.abstract held)) ∨
    ∃ work chain after, crew.takeWork index view = (.ok (some work), after) ∧
      (pop crew.resources index view).1 = .ok (some chain) ∧ crew.place work = (index, chain) ∧ good work ∧
      Trace (Abstract.Step crew.resources) (view.abstract held) [.take index chain, .write index chain]
        (after.abstract (held ++ [(index, chain)])) := by
  rcases lawful.take index view with ⟨fault, failed⟩ | ⟨parse, same, confined⟩
  · exact .inl ⟨fault, view, failed, .inl rfl⟩
  rw [same, takeWith]
  rcases run : pop crew.resources index view with ⟨fault | popped, first⟩ <;>
    obtain ⟨kept, ⟨chain, ok, taken⟩ | ⟨nothing, idle⟩⟩ := pop_realized held run
  · cases ok
  · exact .inl ⟨fault, first, Fallible.bind_of_error run, .inl (look_states idle)⟩
  · cases ok
    have aside : WorksAside chain.Writable (fun _ => True) first (fun work => crew.place work = (index, chain) ∧ good work)
        (onDma (parse chain)) := onDma_aside (confined chain first.guest)
    obtain ⟨aside, returns⟩ := aside first (.here trivial)
    rw [Fallible.bind_of_ok run]
    simp only
    rcases parsed : onDma (parse chain) first with ⟨fault | work, after⟩ <;> rw [parsed] at aside returns
    · exact .inl ⟨fault, after, Fallible.bind_of_error parsed, .inr ⟨chain, rfl⟩⟩
    · obtain ⟨placed, holds⟩ := returns work rfl
      refine .inr (.inr ⟨work, chain, after, Fallible.bind_of_ok parsed, rfl, placed, holds, ?_⟩)
      exact .cons taken (.single (aside.step (by simp)))
  · cases popped with
    | some chain => exact absurd rfl (nothing chain)
    | none => exact .inr (.inl ⟨first, Fallible.bind_of_ok run, rfl, .single idle⟩)

theorem Lawful.complete_realized {work : crew.Work} (holds : good work) (reply : crew.Reply)
    (view : DeviceView crew.machine.State) (before rest : List (Nat × DescriptorChain)) :
    ∃ actions, Realized crew.resources view (before ++ crew.place work :: rest) (before ++ rest)
      (crew.completeWork work reply view) actions ∧ ∀ index chain, .take index chain ∉ actions := by
  obtain ⟨last, announce, same, announcing, aside⟩ := lawful.complete work reply holds
  obtain ⟨-, actions, realized, quiet⟩ := finish_realized crew.resources (crew.place work).1 before rest trivial
    (aside view) announcing
  rw [same]
  exact ⟨actions, realized.once, quiet⟩

end Crew

end Libvirtio
