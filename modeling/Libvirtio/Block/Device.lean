import Libvirtio.Block.Basic
import Libvirtio.Device.Basic

namespace Libvirtio.Block

structure Work where
  queueIndex : Nat
  chain : DescriptorChain
  request : Request
  deriving DecidableEq, Repr

structure State (F : Type) where
  file : F
  pending : List Work

section
variable {F α : Type}

def onIo (access : IoM F α) : DeviceM (State F) α := fun view =>
  match access ⟨view.guest, view.backend.file⟩ with
  | (result, after) =>
      (result.mapError .error,
        { view with guest := after.guest, backend := { view.backend with file := after.file } })

variable (resources : Resources)

def configured (index : Nat) : DeviceM (State F) Unit :=
  if index < resources.queues.length then pure () else raise (.invalidLayout "queue index is not configured")

def takeWork (index : Nat) : DeviceM (State F) (Option Work) := do
  configured resources index
  let popped ← pop resources index
  match popped with
  | none => pure none
  | some chain => do
      let request ← onDma (parseRequest chain)
      pure (some { queueIndex := index, chain, request })

def executeWork (host : HostFile F) (device : Device) (down : Bool) (work : Work) : DeviceM (State F) Completion :=
  onIo (execute host device down work.request)

def completeWork (work : Work) (completion : Completion) : DeviceM (State F) Unit := do
  completeQueue resources work.queueIndex work.chain completion.usedLength
  notifyConfigured resources work.queueIndex "missing queue interrupt notifier" "vector exceeds u16"

def takeRound (index : Nat) : DeviceM (State F) Bool := do
  let taken ← takeWork resources index
  match taken with
  | none => pure false
  | some work => onBackend fun state => (true, { state with pending := state.pending ++ [work] })

-- The pending requests finish in any order.
def finishRound (host : HostFile F) (device : Device) (down : Bool) (position : Nat) : DeviceM (State F) Bool := do
  let ready ← onBackend fun state => (state.pending[position]?, { state with pending := state.pending.eraseIdx position })
  match ready with
  | none => pure false
  | some work => do
      let completion ← executeWork host device down work
      completeWork resources work completion
      pure true

end

end Libvirtio.Block
