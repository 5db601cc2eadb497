import Libvirtio.Device.Access
import Libvirtio.Device.Lengths
import Libvirtio.Library.Execution

namespace Libvirtio

/-- A completion reports no more than its chain lets the device write, except on the transmit queue of vsock. -/
def LengthLaw (kind : Kind) : Event → Prop
  | .completed queue chain usedLength =>
      usedLength.toNat ≤ chain.writableLength ↔ ¬(kind = .vsock ∧ queue = Vsock.queueTx)
  | .notified _ _ => True

theorem fitsU32_eq {n : Nat} {error : DeviceError} {word : UInt32}
    (ok : (if n < 2 ^ 32 then .ok (UInt32.ofNat n) else .error error) = Except.ok word) : word.toNat = n := by
  split at ok
  · cases ok
    rw [UInt32.toNat_ofNat']
    omega
  · cases ok

theorem lengthLaw_of_le {kind : Kind} {queue : Nat} {chain : DescriptorChain} {usedLength : UInt32}
    (bounded : usedLength.toNat ≤ chain.writableLength) (other : ¬(kind = .vsock ∧ queue = Vsock.queueTx)) :
    LengthLaw kind (.completed queue chain usedLength) :=
  ⟨fun _ => other, fun _ => bounded⟩

theorem lengthLaw_zero {kind : Kind} {queue : Nat} {chain : DescriptorChain}
    (other : ¬(kind = .vsock ∧ queue = Vsock.queueTx)) : LengthLaw kind (.completed queue chain 0) :=
  lengthLaw_of_le (Nat.zero_le _) other

abbrev KeepsLengths {β : Type} (kind : Kind) (sound : β → Prop) (round : DeviceM β Bool) : Prop :=
  Fallible.Keeps (Within (LengthLaw kind) sound) (fun _ => True) round

section
variable {β : Type} {kind : Kind} {sound : β → Prop} {resources : Resources}

theorem completed_keeps {index : Nat} {chain : DescriptorChain} {usedLength : UInt32} {interrupt : Except Fault Interrupt}
    (law : LengthLaw kind (.completed index chain usedLength)) :
    KeepsLengths kind sound (do
      completeQueue resources index chain usedLength
      notify resources index interrupt
      pure true) :=
  .bind (completeQueue_keeps resources law) fun _ _ =>
    .bind (notify_keeps resources (fun _ _ => trivial) index interrupt) fun _ _ => .pure trivial

end

namespace Network
variable {γ : Type} {resources : Resources} {backend : Backend γ}

theorem complete_keeps {index : Nat} {chain : DescriptorChain} {usedLength : UInt32}
    (bounded : usedLength.toNat ≤ chain.writableLength) :
    Fallible.Keeps (Within (LengthLaw .network) fun _ : State γ => True) (fun _ => True)
      (complete resources index chain usedLength) :=
  .bind (completeQueue_keeps resources (lengthLaw_of_le bounded (by simp))) fun _ _ =>
    notify_keeps resources (fun _ _ => trivial) index _

theorem txRound_keeps (pair : Nat) : KeepsLengths .network (fun _ : State γ => True) (txRound resources backend pair) := by
  refine .bind_option (pop_keeps resources _) (.pure trivial) fun chain _ => ?_
  refine .bind (onDma_keeps fun _ _ _ _ => trivial) fun frame (_ : True) => ?_
  refine .bind (tryBackend_keeps fun _ _ => trivial) fun _ _ => ?_
  exact .bind (complete_keeps (Nat.zero_le _)) fun _ _ => .pure trivial

theorem nextPair_keeps :
    Fallible.Keeps (Within (LengthLaw .network) fun _ : State γ => True) (fun _ => True) nextPair := by
  refine .bind .read fun view _ => .bind (onBackend_keeps fun _ _ => ⟨trivial, trivial⟩) fun _ (_ : True) => ?_
  exact .ite (fun _ => .fail _) fun _ => .pure trivial

theorem takeFrame_keeps :
    Fallible.Keeps (Within (LengthLaw .network) fun _ : State γ => True) (fun _ => True) (takeFrame backend) := by
  refine .bind (onBackend_keeps fun _ _ => ⟨trivial, trivial⟩) fun taken (_ : True) => ?_
  cases taken with
  | none => exact raise_keeps _
  | some frame => exact .pure trivial

theorem rxRound_keeps : KeepsLengths .network (fun _ : State γ => True) (rxRound resources backend) := by
  refine .bind .read fun view _ => .ite (fun _ => ?_) fun _ => .pure trivial
  refine .bind nextPair_keeps fun pair _ => .bind_option (pop_keeps resources _) (.pure trivial) fun chain _ => ?_
  refine .bind takeFrame_keeps fun frame _ => ?_
  refine .bind (onDma_keeps fun _ _ _ run => writeRxFrame_length run) fun usedLength bounded => ?_
  exact .bind (complete_keeps bounded) fun _ _ => .pure trivial

theorem handleControl_keeps (chain : DescriptorChain) :
    Fallible.Keeps (Within (LengthLaw .network) fun _ : State γ => True) (fun _ => True)
      (handleControl resources chain) := by
  unfold handleControl
  split
  · refine .ite (fun _ => raise_keeps _) fun _ => .bind (onDma_keeps fun _ _ _ _ => trivial) fun _ (_ : True) => ?_
    refine .ite (fun _ => .pure trivial) fun _ => .ite (fun _ => raise_keeps _) fun _ => ?_
    refine .bind (onDma_keeps fun _ _ _ _ => trivial) fun _ (_ : True) => .ite (fun _ => .pure trivial) fun _ => ?_
    exact .bind (onBackend_keeps fun _ _ => ⟨trivial, trivial⟩) fun _ (_ : True) => .pure trivial
  · exact raise_keeps _

theorem writeControlStatus_keeps {lawful : Event → Prop} {sound : State γ → Prop} (chain : DescriptorChain)
    (status : UInt8) :
    Fallible.Keeps (Within lawful sound) (fun _ => 1 ≤ chain.writableLength) (writeControlStatus chain status) := by
  unfold writeControlStatus
  split
  · exact .fail _
  · rename_i descriptor last
    refine .ite (fun _ => raise_keeps _) fun sound => ?_
    simp only [not_or, Decidable.not_not] at sound
    have bounded : 1 ≤ chain.writableLength := by
      have within := DescriptorChain.length_le_writableLength (List.mem_of_getLast? last) sound.1
      rw [sound.2] at within
      exact within
    refine .bind (onDma_keeps fun _ _ _ _ => trivial) fun parts (_ : True) => ?_
    cases parts with
    | nil => exact .fail _
    | cons part rest => exact .ite (fun _ => .fail _) fun _ => (updateGuest_keeps _).weaken fun _ _ => bounded

theorem controlPass_keeps (chain : DescriptorChain) :
    Fallible.Keeps (Within (LengthLaw .network) fun _ : State γ => True) (fun _ => True)
      (controlPass resources chain) := by
  refine .bind (handleControl_keeps chain) fun status _ => ?_
  refine .bind (writeControlStatus_keeps chain status) fun _ bounded => ?_
  exact .bind (complete_keeps bounded) fun _ _ => .pure trivial

theorem controlRound_keeps : KeepsLengths .network (fun _ : State γ => True) (controlRound resources) := by
  refine .bind_option (pop_keeps resources _) (.pure trivial) fun chain _ => ?_
  exact .bind (controlPass_keeps chain) fun _ _ => .pure trivial

end Network

namespace Vsock
variable {β : Type} {resources : Resources} {backend : Backend β}

theorem txLength_pos (packet : Packet) : 0 < (txLength packet).toNat := by
  rw [txLength, UInt32.toNat_ofNat', headerSize]
  omega

-- A transmitted chain has nothing to write, and the header alone makes the length positive.
theorem txRound_keeps : KeepsLengths .vsock (fun _ : β => True) (txRound resources backend) := by
  refine .bind_option (pop_keeps resources _) (.pure trivial) fun chain _ => ?_
  refine .bind (onDma_keeps fun _ _ _ run => readPacket_length run) fun packet none => ?_
  refine .bind (ofResult_keeps fun _ _ => trivial) fun _ (_ : True) => ?_
  refine .bind (tryBackend_keeps fun _ _ => trivial) fun _ _ => completed_keeps ?_
  have := txLength_pos packet
  exact ⟨fun _ => by omega, fun other => absurd ⟨rfl, rfl⟩ other⟩

theorem takePacket_keeps :
    Fallible.Keeps (Within (LengthLaw .vsock) fun _ : β => True) (fun _ => True) (takePacket backend) := by
  refine .bind (onBackend_keeps fun _ _ => ⟨trivial, trivial⟩) fun taken (_ : True) => ?_
  cases taken with
  | none => exact raise_keeps _
  | some packet => exact .pure trivial

theorem rxRound_keeps : KeepsLengths .vsock (fun _ : β => True) (rxRound resources backend) := by
  refine .bind .read fun view _ => .ite (fun _ => ?_) fun _ => .pure trivial
  refine .bind_option (pop_keeps resources _) (.pure trivial) fun chain _ => ?_
  refine .bind takePacket_keeps fun packet _ => .bind (ofResult_keeps fun _ _ => trivial) fun _ (_ : True) => ?_
  refine .bind (ofResult_keeps fun _ _ => trivial) fun bytes (_ : True) => ?_
  refine .bind (onDma_keeps fun _ _ _ run => writePacket_length run) fun _ bounded => ?_
  refine .bind (ofResult_keeps fun _ ok => fitsU32_eq ok) fun usedLength length => completed_keeps ?_
  exact lengthLaw_of_le (length.trans_le bounded) (by simp [queueRx, queueTx])

theorem eventRound_keeps : KeepsLengths .vsock (fun _ : β => True) (eventRound resources) := by
  refine .bind_option (pop_keeps resources _) (.pure trivial) fun chain _ => ?_
  refine .bind (completeQueue_keeps resources (lengthLaw_zero ?_)) fun _ _ => .pure trivial
  simp [queueEvent, queueTx]

end Vsock

namespace Console
variable {β : Type} {resources : Resources} {backend : Backend β}

theorem processTransmit_keeps : KeepsLengths .console (fun _ : β => True) (processTransmit resources backend) := by
  refine .bind_option (pop_keeps resources _) (.pure trivial) fun chain _ => ?_
  refine .bind (onDma_keeps fun _ _ _ _ => trivial) fun bytes (_ : True) => ?_
  exact .bind (tryBackend_keeps fun _ _ => trivial) fun _ _ => completed_keeps (lengthLaw_zero (by simp))

theorem readInput_keeps (capacity : Nat) :
    Fallible.Keeps (Within (LengthLaw .console) fun _ : β => True) (fun _ => True) (readInput backend capacity) := by
  refine .bind (onBackend_keeps fun _ _ => ⟨trivial, trivial⟩) fun input (_ : True) => ?_
  cases input with
  | none => exact raise_keeps _
  | some bytes => exact .pure trivial

theorem processReceive_keeps : KeepsLengths .console (fun _ : β => True) (processReceive resources backend) := by
  refine .bind .read fun view _ => .ite (fun _ => ?_) fun _ => .pure trivial
  refine .bind_option (pop_keeps resources _) (.pure trivial) fun chain _ => ?_
  refine .bind (ofResult_keeps fun _ _ => trivial) fun capacity (_ : True) => ?_
  refine .bind (readInput_keeps capacity) fun bytes _ => ?_
  refine .bind (onDma_keeps fun _ _ _ run => writeChain_length run) fun _ bounded => ?_
  refine .bind (ofResult_keeps fun _ ok => fitsU32_eq ok) fun usedLength length => completed_keeps ?_
  exact lengthLaw_of_le (length.trans_le bounded) (by simp)

end Console

namespace Rng
variable {β : Type} {resources : Resources} {entropy : Entropy β}

theorem fillParts_keeps (parts : List DmaPart) (length : Nat) :
    Fallible.Keeps (Within (LengthLaw .rng) fun _ : β => True)
      (fun filled => filled = length + (parts.map DmaPart.length).sum) (fillParts entropy parts length) := by
  induction parts generalizing length with
  | nil => exact .pure rfl
  | cons part rest ih =>
      refine .bind (onBackend_keeps fun _ _ => ⟨trivial, trivial⟩) fun bytes (_ : True) => ?_
      refine .bind (updateGuest_keeps _) fun _ _ => ?_
      rw [checkedAdd]
      split
      · exact raise_keeps _
      · rename_i next added
        split at added
        · cases added
          refine (ih _).weaken fun filled total => ?_
          rw [total, List.map_cons, List.sum_cons, Nat.add_assoc]
        · cases added

theorem fillDescriptors_keeps (descriptors : List Descriptor) (length : Nat) :
    Fallible.Keeps (Within (LengthLaw .rng) fun _ : β => True)
      (fun filled => (∀ d ∈ descriptors, d.writable = true) ∧
        filled = length + (descriptors.map fun d => d.length.toNat).sum)
      (fillDescriptors entropy descriptors length) := by
  induction descriptors generalizing length with
  | nil => exact .pure ⟨fun d member => absurd member List.not_mem_nil, rfl⟩
  | cons d rest ih =>
      refine .ite (fun _ => raise_keeps _) fun sound => ?_
      refine .bind (onDma_keeps fun guest _ _ run => guest.memory.length_of_translate (lease_eq_ok run).1) fun parts range => ?_
      refine .bind (fillParts_keeps parts length) fun filled here => (ih filled).weaken fun total others => ?_
      simp only [not_or, Decidable.not_not] at sound
      rw [List.forall_mem_cons]
      refine ⟨⟨sound.1, others.1⟩, ?_⟩
      rw [others.2, here, range, List.map_cons, List.sum_cons, Nat.add_assoc]
      rfl

theorem fillChain_keeps (chain : DescriptorChain) :
    Fallible.Keeps (Within (LengthLaw .rng) fun _ : β => True)
      (fun usedLength => usedLength.toNat ≤ chain.writableLength) (fillChain entropy chain) := by
  refine .bind (fillDescriptors_keeps _ 0) fun length filled => .ite (fun small => .pure ?_) fun _ => raise_keeps _
  rw [UInt32.toNat_ofNat', DescriptorChain.writableLength_eq filled.1]
  omega

theorem processQueue_keeps : KeepsLengths .rng (fun _ : β => True) (processQueue entropy resources) := by
  refine .bind_option (pop_keeps resources _) (.pure trivial) fun chain _ => ?_
  exact .bind (fillChain_keeps chain) fun usedLength bounded =>
    completed_keeps (lengthLaw_of_le bounded (by simp))

end Rng

namespace Memory
variable {β : Type} {resources : Resources} {backend : Backend β}

theorem writeResponse_keeps (chain : DescriptorChain) (response : Response) :
    Fallible.Keeps (Within (LengthLaw .memory) fun _ : β => True) (fun _ => True) (writeResponse chain response) := by
  unfold writeResponse
  split
  · exact .fail _
  · exact .bind (onDma_keeps fun _ _ _ _ => trivial) fun _ (_ : True) => updateGuest_keeps _

theorem processRequest_keeps : KeepsLengths .memory (fun _ : β => True) (processRequest resources backend) := by
  refine .bind_option (pop_keeps resources _) (.pure trivial) fun chain _ => ?_
  refine .bind (onDma_keeps fun _ _ _ run => parseRequest_length run) fun request bounded => ?_
  refine .bind (tryBackend_keeps fun _ _ => trivial) fun response _ => ?_
  exact .bind (writeResponse_keeps chain response) fun _ _ =>
    completed_keeps (lengthLaw_of_le bounded (by simp))

end Memory

namespace Block
variable {F : Type} {host : HostFile F} {device : Device} {resources : Resources}

def State.Parsed (state : State F) : Prop := ∀ work ∈ state.pending, work.request.Within work.chain

theorem takeWork_keeps (index : Nat) :
    Fallible.Keeps (Within (LengthLaw .block) State.Parsed)
      (fun taken => ∀ work ∈ taken, work.request.Within work.chain)
      (takeWork resources index : DeviceM (State F) (Option Work)) := by
  refine .bind (.ite (fun _ => .pure trivial) fun _ => raise_keeps _) fun _ (_ : True) => ?_
  refine .bind_option (pop_keeps resources _) (.pure fun work taken => by cases taken) fun chain _ => ?_
  refine .bind (onDma_keeps fun _ _ _ run => parseRequest_within run) fun request within => .pure fun work taken => ?_
  cases taken
  exact within

theorem takeRound_keeps (index : Nat) :
    KeepsLengths .block State.Parsed (takeRound resources index : DeviceM (State F) Bool) := by
  refine .bind_option (takeWork_keeps index) (.pure trivial) fun work within => ?_
  refine onBackend_keeps fun state parsed => ⟨trivial, List.forall_mem_append.mpr ⟨parsed, ?_⟩⟩
  exact List.forall_mem_singleton.mpr (within work rfl)

theorem executeWork_keeps {down : Bool} {work : Work} (within : work.request.Within work.chain) :
    Fallible.Keeps (Within (LengthLaw .block) State.Parsed)
      (fun completion => completion.usedLength.toNat ≤ work.chain.writableLength)
      (executeWork host device down work) := by
  intro view kept
  refine ⟨⟨kept.log, kept.backend⟩, fun completion returned => ?_⟩
  rw [executeWork, onIo] at returned
  rcases run : execute host device down work.request ⟨view.guest, view.backend.file⟩ with ⟨e | done, after⟩
  · rw [run] at returned
    cases returned
  · rw [run] at returned
    cases returned
    exact within.execute run

theorem finishRound_keeps (down : Bool) (position : Nat) :
    KeepsLengths .block State.Parsed (finishRound resources host device down position) := by
  have removed : Fallible.Keeps (Within (LengthLaw .block) State.Parsed)
      (fun ready => ∀ work ∈ ready, work.request.Within work.chain)
      (onBackend fun state : State F =>
        (state.pending[position]?, { state with pending := state.pending.eraseIdx position })) :=
    onBackend_keeps fun state parsed => ⟨fun work ready => parsed work (List.mem_of_getElem? ready),
      fun work member => parsed work (List.mem_of_mem_eraseIdx member)⟩
  refine .bind_option removed (.pure trivial) fun work within => ?_
  refine .bind (executeWork_keeps (within work rfl)) fun completion bounded => ?_
  refine .bind (.bind (completeQueue_keeps resources (lengthLaw_of_le bounded (by simp))) fun _ _ =>
    notifyConfigured_keeps resources (fun _ _ => trivial) _ _ _) fun _ _ => .pure trivial

end Block

namespace Fs
variable {root : Path} {resources : Resources}

def State.Parsed (state : State) : Prop :=
  ∀ work ∈ state.pending, (work.reply.map DmaRange.length).sum = work.chain.writableLength

theorem takeWork_keeps (index : Nat) :
    Fallible.Keeps (Within (LengthLaw .fs) State.Parsed)
      (fun taken => ∀ work ∈ taken, (work.reply.map DmaRange.length).sum = work.chain.writableLength)
      (takeWork resources index) := by
  refine .bind_option (pop_keeps resources _) (.pure fun work taken => by cases taken) fun chain _ => ?_
  refine .bind (onDma_keeps fun _ _ _ run => parseChain_length run) fun parsed sum => .pure fun work taken => ?_
  cases taken
  exact sum

theorem takeRound_keeps (index : Nat) : KeepsLengths .fs State.Parsed (takeRound resources index) := by
  refine .bind_option (takeWork_keeps index) (.pure trivial) fun work within => ?_
  refine onBackend_keeps fun state parsed => ⟨trivial, List.forall_mem_append.mpr ⟨parsed, ?_⟩⟩
  exact List.forall_mem_singleton.mpr (within work rfl)

theorem executeWork_keeps (down : Bool) (host : Host) (request : Bytes) :
    Fallible.Keeps (Within (LengthLaw .fs) State.Parsed) (fun _ => True) (executeWork down root host request) :=
  .bind (.ite (fun _ => raise_keeps _) fun _ => .pure trivial) fun _ (_ : True) =>
    tryBackend_keeps fun _ parsed => parsed

theorem finishRound_keeps (down : Bool) (host : Host) (position : Nat) :
    KeepsLengths .fs State.Parsed (finishRound resources down root host position) := by
  have removed : Fallible.Keeps (Within (LengthLaw .fs) State.Parsed)
      (fun ready => ∀ work ∈ ready, (work.reply.map DmaRange.length).sum = work.chain.writableLength)
      (onBackend fun state : State =>
        (state.pending[position]?, { state with pending := state.pending.eraseIdx position })) :=
    onBackend_keeps fun state parsed => ⟨fun work ready => parsed work (List.mem_of_getElem? ready),
      fun work member => parsed work (List.mem_of_mem_eraseIdx member)⟩
  refine .bind_option removed (.pure trivial) fun work within => ?_
  refine .bind (executeWork_keeps down host work.request) fun reply _ => ?_
  refine .bind (.bind (.bind (onDma_keeps fun _ _ _ run => writeReply_length run) fun usedLength bounded =>
    completeQueue_keeps resources (lengthLaw_of_le ?_ (by simp))) fun _ _ =>
      notifyConfigured_keeps resources (fun _ _ => trivial) _ _ _) fun _ _ => .pure trivial
  exact bounded.trans_eq (within work rfl)

end Fs

namespace Machine
variable {machine : Machine}

theorem once_keeps {β : Type} {kind : Kind} {sound : β → Prop} {round : DeviceM β Bool}
    (keeps : KeepsLengths kind sound round) :
    Fallible.Keeps (Within (LengthLaw kind) sound) (fun _ => True) (once round) :=
  .bind keeps fun _ _ => .pure trivial

theorem changed_keeps {β : Type} {kind : Kind} {sound : β → Prop} {change : β → β}
    (kept : ∀ state, sound state → sound (change state)) :
    Fallible.Keeps (Within (LengthLaw kind) sound) (fun _ => True) (changed change) :=
  onBackend_keeps fun state holds => ⟨trivial, kept state holds⟩

theorem round_keeps (shipped : Shipped machine) :
    ∃ sound : machine.State → Prop, (∀ state, machine.idle state → sound state) ∧
      ∀ port, Fallible.Keeps (Within (LengthLaw machine.kind) sound) (fun _ => True) (machine.round port) := by
  cases shipped with
  | block host device resources =>
      refine ⟨Block.State.Parsed, fun state idle work member => ?_, fun port => ?_⟩
      · have empty : state.pending = [] := idle
        rw [empty] at member
        cases member
      · cases port with
        | take index => exact once_keeps (Block.takeRound_keeps index)
        | finish down position => exact once_keeps (Block.finishRound_keeps down position)
        | host change => exact changed_keeps fun state parsed => parsed
  | fs root resources =>
      refine ⟨Fs.State.Parsed, fun state idle work member => ?_, fun port => ?_⟩
      · have empty : state.pending = [] := idle
        rw [empty] at member
        cases member
      · cases port with
        | take index => exact once_keeps (Fs.takeRound_keeps index)
        | finish down host position => exact once_keeps (Fs.finishRound_keeps down host position)
  | network resources backend =>
      refine ⟨fun _ => True, fun _ _ => trivial, fun port => ?_⟩
      cases port with
      | tx pair => exact once_keeps (Network.txRound_keeps pair)
      | rx => exact once_keeps Network.rxRound_keeps
      | control => exact once_keeps Network.controlRound_keeps
      | host change => exact changed_keeps fun _ _ => trivial
  | vsock resources backend =>
      refine ⟨fun _ => True, fun _ _ => trivial, fun port => ?_⟩
      cases port with
      | tx => exact once_keeps Vsock.txRound_keeps
      | rx => exact once_keeps Vsock.rxRound_keeps
      | event => exact once_keeps Vsock.eventRound_keeps
      | host change => exact changed_keeps fun _ _ => trivial
  | console resources backend =>
      refine ⟨fun _ => True, fun _ _ => trivial, fun port => ?_⟩
      cases port with
      | transmit => exact once_keeps Console.processTransmit_keeps
      | receive => exact once_keeps Console.processReceive_keeps
      | host change => exact changed_keeps fun _ _ => trivial
  | rng resources entropy =>
      exact ⟨fun _ => True, fun _ _ => trivial, fun _ => once_keeps Rng.processQueue_keeps⟩
  | memory resources backend =>
      refine ⟨fun _ => True, fun _ _ => trivial, fun port => ?_⟩
      cases port with
      | request => exact once_keeps Memory.processRequest_keeps
      | host change => exact changed_keeps fun _ _ => trivial

/-- Along every run of every device, the used length of a completed chain is at most what the chain lets the device
write, exactly when the chain was not a vsock transmission. -/
theorem used_length_iff (shipped : Shipped machine) {start view : DeviceView machine.State}
    {labels : List (Label machine)} (fresh : start.log = []) (idle : machine.idle start.backend)
    (run : exec machine.step start labels = some view) {queue : Nat} {chain : DescriptorChain} {usedLength : UInt32}
    (completed : .completed queue chain usedLength ∈ view.log) :
    usedLength.toNat ≤ chain.writableLength ↔ ¬(machine.kind = .vsock ∧ queue = Vsock.queueTx) := by
  obtain ⟨sound, initial, rounds⟩ := round_keeps shipped
  have begins : Within (LengthLaw machine.kind) sound start := by
    refine ⟨fun event member => ?_, initial _ idle⟩
    rw [fresh] at member
    cases member
  have within : Within (LengthLaw machine.kind) sound view := by
    refine Execution.invariant (Within (LengthLaw machine.kind) sound) ?_ begins run
    intro before label after kept stepped
    cases label with
    | guest host leasesLeft =>
        cases stepped
        exact ⟨kept.log, kept.backend⟩
    | round port =>
        cases stepped
        exact (rounds port before kept).1
  exact within.log _ completed

def ringLayout : QueueLayout where
  index := 0
  size := 1
  descriptors := ⟨0, 16⟩
  available := ⟨16, 6⟩
  used := ⟨32, 12⟩

def ringView (descriptor : Descriptor) (data : List UInt8) : DeviceView Unit where
  guest := {
    memory := DmaMemory.single ⟨0, 0, 128⟩ (by decide)
    distinct := by decide
    host := fun a => ((LittleEndian.encode 8 descriptor.address.toNat ++
      LittleEndian.encode 4 descriptor.length.toNat ++ LittleEndian.encode 2 descriptor.flags.toNat ++
      LittleEndian.encode 2 descriptor.next.toNat ++ [0, 0, 1, 0, 0, 0] ++ List.replicate 42 0 ++ data)[a]?).getD 0
    leasesLeft := none }
  states := List.replicate 3 QueueState.new
  backend := ()
  log := []

def ringResources : Resources where
  queues := List.replicate 3 ringLayout
  interrupts := List.replicate 3 fun _ _ => .ok ()
  negotiatedFeatures := 0

def zeroEntropy : Rng.Entropy Unit := ⟨fun n _ => (List.replicate n 0, ()), fun _ _ => List.length_replicate⟩

theorem used_length_iff_entropy :
    ∃ view, exec (step (Rng.machine ringResources zeroEntropy)) (ringView ⟨64, 4, virtqDescFWrite, 0⟩ [])
        [.round ()] = some view ∧
      .completed 0 ⟨0, [⟨64, 4, virtqDescFWrite, 0⟩]⟩ 4 ∈ view.log ∧
      (4 : UInt32).toNat ≤ DescriptorChain.writableLength ⟨0, [⟨64, 4, virtqDescFWrite, 0⟩]⟩ := by
  have ends : (exec (step (Rng.machine ringResources zeroEntropy)) (ringView ⟨64, 4, virtqDescFWrite, 0⟩ [])
      [.round ()]).map DeviceView.log =
      some [.completed 0 ⟨0, [⟨64, 4, virtqDescFWrite, 0⟩]⟩ 4, .notified 0 (.queue 0 0)] := by decide +kernel
  obtain ⟨view, run, log⟩ := Option.map_eq_some_iff.mp ends
  have completed : .completed 0 ⟨0, [⟨64, 4, virtqDescFWrite, 0⟩]⟩ 4 ∈ view.log := by simp [log]
  refine ⟨view, run, completed, ?_⟩
  exact (used_length_iff (.rng ringResources zeroEntropy) rfl trivial run completed).mpr fun vsock => by cases vsock.1

def silentPeer : Vsock.Backend Unit := ⟨fun _ _ => (.ok (), ()), fun _ => false, fun _ => (none, ())⟩

def emptyPacket : List UInt8 := List.replicate 28 0 ++ [1, 0] ++ List.replicate 14 0

-- The chain has no writable descriptor, and the device reports the 44 bytes that it read.
theorem vsock_transmit_length :
    (exec (step (Vsock.machine ringResources silentPeer)) (ringView ⟨64, 44, 0, 0⟩ emptyPacket) [.round .tx]).map
        DeviceView.log = some [.completed 1 ⟨0, [⟨64, 44, 0, 0⟩]⟩ 44, .notified 1 (.queue 1 1)] ∧
      ¬(44 : UInt32).toNat ≤ DescriptorChain.writableLength ⟨0, [⟨64, 44, 0, 0⟩]⟩ := by
  constructor
  all_goals decide +kernel

end Machine

end Libvirtio
