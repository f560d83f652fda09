import LinguaMesh.Ffi.Engine
import LinguaMesh.Ffi.Leases

/-!
# Output buffers

Engines `E` and the calls `C` of the host that hand out buffers and take them back.
A slot of the semaphore goes from `reserve_buffer_slot` to the call, from the call to
the allocation, and from the allocation back to the semaphore when it is freed. A step
is one section under a lock, one operation on the semaphore or the channel, or one
read or write of the shutdown flag; what the host passes as a descriptor is any value.

`queued`, `taken`, `freed` and the `owner` of an allocation record what has happened;
no step reads them. The creation and the destruction of engines, and what a shutdown
cancels, are left out.
-/

namespace LinguaMesh.Ffi.Buffers

open Runs

def maxOutstandingBuffers : Nat := 64

/-- A descriptor as the host holds it; the address 0 is the null pointer. -/
structure LmBuffer where
  data : Nat
  len : Nat
  capacity : Nat
  allocationId : Nat
  deriving DecidableEq, Repr

/-- The zeroed descriptor. -/
def LmBuffer.null : LmBuffer := ⟨0, 0, 0, 0⟩

/-- A `Vec<u8>`. -/
structure ByteVec where
  data : Nat
  bytes : List UInt8
  capacity : Nat
  nonnull : data ≠ 0
  fits : bytes.length ≤ capacity
  deriving DecidableEq

def ByteVec.new : ByteVec := ⟨1, [], 0, by decide, by decide⟩

/-- What `encode_to_vec` makes of an envelope. The protocol version comes first, and it is not zero,
so it is not left out. -/
structure EncodedEnvelope extends ByteVec where
  versioned : [0x08, UInt8.ofNat protocolVersion] <+: bytes
  deriving DecidableEq

inductive Call (E : Type) where
  | getCompatibility (engine : Option E) (output : Option LmBuffer)
  | pollEvent (engine : Option E) (timeoutMs : UInt32) (output : Option LmBuffer)
  | bufferFree (engine : Option E) (buffer : Option LmBuffer)
  | shutdown (engine : Option E)
  deriving DecidableEq

namespace Call

variable {E : Type}

/-- The engine of the handle, if the registry knows it. -/
def engine : Call E → Option E
  | getCompatibility engine _ | pollEvent engine _ _ | bufferFree engine _ | shutdown engine => engine

/-- The descriptor that the host passes, if the pointer to it is not null. -/
def buffer : Call E → Option LmBuffer
  | getCompatibility _ buffer | pollEvent _ _ buffer | bufferFree _ buffer => buffer
  | shutdown _ => none

def isPoll : Call E → Bool
  | pollEvent _ _ _ => true
  | _ => false

/-- The call hands out a buffer. -/
def isOutput : Call E → Bool
  | getCompatibility _ _ | pollEvent _ _ _ => true
  | _ => false

end Call

/-- How far a call has come. -/
inductive Phase where
  | called
  /-- The output descriptor is zeroed and the engine is running. -/
  | admitted
  /-- The call has a slot. -/
  | reserved
  /-- The poll has the receiver of the channel. -/
  | receiving
  | writing (bytes : ByteVec)
  /-- The allocation has left the map, and its slot is to be given back. -/
  | releasing
  /-- The code, and the descriptor as the call leaves it. -/
  | returned (code : LmResultCode) (buffer : Option LmBuffer)
  deriving DecidableEq

def Phase.holdsSlot : Phase → Bool
  | reserved | receiving | writing _ | releasing => true
  | _ => false

/-- An entry of `buffer_allocations`, with its slot. -/
structure BufferAllocation (C : Type) where
  id : Nat
  bytes : ByteVec
  owner : C
  deriving DecidableEq

/-- The descriptor that `write_output_buffer` gives the host. -/
def BufferAllocation.descriptor {C : Type} (allocation : BufferAllocation C) : LmBuffer :=
  ⟨allocation.bytes.data, allocation.bytes.bytes.length, allocation.bytes.capacity, allocation.id⟩

structure LmEngine (C : Type) where
  shutdown : Bool
  events : List EncodedEnvelope
  /-- The poll that has locked the receiver. -/
  receiver : Option C
  allocations : List (BufferAllocation C)
  bufferSlots : Nat
  nextBufferAllocationId : Nat
  queued : List EncodedEnvelope
  taken : List (C × EncodedEnvelope)
  freed : List (C × BufferAllocation C)

structure State (E C : Type) where
  engine : E → LmEngine C
  phase : C → Phase

structure Setup (E C : Type) where
  calls : C → Call E
  /-- The envelope of `core_compatibility`, unless it fails. -/
  compatibility : C → Option EncodedEnvelope

def initial (E C : Type) : State E C :=
  ⟨fun _ => ⟨false, [], none, [], maxOutstandingBuffers, 1, [], [], []⟩, fun _ => .called⟩

namespace LmEngine

variable {C : Type}

/-- `HashMap::get`. -/
def find (engine : LmEngine C) (id : Nat) : Option (BufferAllocation C) :=
  engine.allocations.find? (·.id = id)

/-- The new entry of `write_output_buffer`. -/
def register (engine : LmEngine C) (k : C) (bytes : ByteVec) (id next : Nat) : LmEngine C :=
  { engine with
    allocations := engine.allocations ++ [⟨id, bytes, k⟩], nextBufferAllocationId := next }

def remove (engine : LmEngine C) (k : C) (allocation : BufferAllocation C) : LmEngine C :=
  { engine with
    allocations := engine.allocations.filter (·.id ≠ allocation.id),
    freed := engine.freed ++ [(k, allocation)] }

def release (engine : LmEngine C) : LmEngine C :=
  { engine with bufferSlots := engine.bufferSlots + 1 }

end LmEngine

section Steps

variable {E C : Type} [DecidableEq E] [DecidableEq C] (setup : Setup E C)

def State.set (s : State E C) (k : C) (phase : Phase) (e : E) (engine : LmEngine C) : State E C :=
  ⟨Function.update s.engine e engine, Function.update s.phase k phase⟩

omit [DecidableEq E] in
def State.setPhase (s : State E C) (k : C) (phase : Phase) : State E C :=
  { s with phase := Function.update s.phase k phase }

/-- The call returns and leaves the descriptor as it is. -/
def State.refuse (s : State E C) (k : C) (code : LmResultCode) : State E C :=
  s.setPhase k (.returned code (setup.calls k).buffer)

/-- The checks of a call that hands out a buffer. -/
def outputStep (s : State E C) (k : C) (engine : Option E) (output : Option LmBuffer) : State E C :=
  match output, engine with
  | none, _ => s.refuse setup k .invalidArgument
  | some _, none => s.refuse setup k .invalidArgument
  | some output, some e =>
    if output ≠ .null then s.refuse setup k .invalidArgument
    else if (s.engine e).shutdown then s.refuse setup k .shutdown
    else s.setPhase k .admitted

/-- `lm_engine_buffer_free`, up to the end of its section under the lock. -/
def freeStep (s : State E C) (k : C) (engine : Option E) (buffer : Option LmBuffer) : State E C :=
  match buffer, engine with
  | none, _ => s.refuse setup k .invalidArgument
  | some _, none => s.refuse setup k .invalidArgument
  | some buffer, some e =>
    if buffer.data = 0 then
      if buffer.len = 0 ∧ buffer.capacity = 0 ∧ buffer.allocationId = 0 then s.refuse setup k .ok
      else s.refuse setup k .invalidArgument
    else if buffer.capacity < buffer.len ∨ buffer.allocationId = 0 then
      s.refuse setup k .invalidArgument
    else match (s.engine e).find buffer.allocationId with
      | none => s.refuse setup k .invalidArgument
      | some allocation =>
        if allocation.bytes.data ≠ buffer.data ∨ allocation.bytes.bytes.length ≠ buffer.len ∨
            allocation.bytes.capacity ≠ buffer.capacity then s.refuse setup k .invalidArgument
        else s.set k .releasing e ((s.engine e).remove k allocation)

/-- `reserve_buffer_slot`. -/
def reserveStep (s : State E C) (k : C) (e : E) : State E C :=
  match (s.engine e).bufferSlots with
  | 0 => s.refuse setup k .resourceExhausted
  | slots + 1 => s.set k .reserved e { s.engine e with bufferSlots := slots }

/-- A poll locks the receiver, or gives up at once when it may not wait. -/
def lockStep (s : State E C) (k : C) (e : E) (timeoutMs : UInt32) : Option (State E C) :=
  match (s.engine e).receiver with
  | none => some (s.set k .receiving e { s.engine e with receiver := some k })
  | some _ => if timeoutMs = 0 then some (s.setPhase k (.writing .new)) else none

/-- A poll that has the receiver takes an event, or gives up when it may not wait. -/
def receiveStep (s : State E C) (k : C) (e : E) (timeoutMs : UInt32) : Option (State E C) :=
  match (s.engine e).events with
  | event :: events =>
    some (s.set k (.writing event.toByteVec) e { s.engine e with
      events, receiver := none, taken := (s.engine e).taken ++ [(k, event)] })
  | [] =>
    if timeoutMs = 0 then some (s.set k (.writing .new) e { s.engine e with receiver := none })
    else none

/-- `write_output_buffer`. -/
def writeStep (s : State E C) (k : C) (e : E) (bytes : ByteVec) : Option (State E C) :=
  if bytes.bytes.isEmpty then some (s.set k (.returned .ok (some .null)) e (s.engine e).release)
  else
    let taken id := ((s.engine e).find id).isSome
    (FileLeases.allocate taken (s.engine e).nextBufferAllocationId (maxOutstandingBuffers + 2)).map
      fun (id, next) =>
        s.set k (.returned .ok (some (BufferAllocation.descriptor ⟨id, bytes, k⟩))) e
          ((s.engine e).register k bytes id next)

/-- The next step of a call that has found its engine. -/
def engineStep (s : State E C) (k : C) (e : E) : Option (State E C) :=
  match s.phase k, setup.calls k with
  | .admitted, _ => some (reserveStep setup s k e)
  | .reserved, .getCompatibility _ output =>
    match setup.compatibility k with
    | none => some (s.set k (.returned .internal output) e (s.engine e).release)
    | some envelope => some (s.setPhase k (.writing envelope.toByteVec))
  | .reserved, .pollEvent _ timeoutMs _ => lockStep s k e timeoutMs
  | .receiving, .pollEvent _ timeoutMs _ => receiveStep s k e timeoutMs
  | .writing bytes, _ => writeStep s k e bytes
  | .releasing, _ => some (s.set k (.returned .ok (some .null)) e (s.engine e).release)
  | _, _ => none

/-- The next step of a call. -/
def hostStep (s : State E C) (k : C) : Option (State E C) :=
  match s.phase k, setup.calls k with
  | .called, .getCompatibility engine output | .called, .pollEvent engine _ output =>
    some (outputStep setup s k engine output)
  | .called, .bufferFree engine buffer => some (freeStep setup s k engine buffer)
  | .called, .shutdown none => some (s.refuse setup k .invalidArgument)
  | .called, .shutdown (some e) =>
    some (s.set k (.returned .ok none) e { s.engine e with shutdown := true })
  | _, call => call.engine.bind (engineStep setup s k)

/-- The timeout of a poll that waits for the receiver or for an event. -/
def expireStep (s : State E C) (k : C) : Option (State E C) :=
  match s.phase k, setup.calls k with
  | .reserved, .pollEvent (some _) timeoutMs _ =>
    if timeoutMs = 0 then none else some (s.setPhase k (.writing .new))
  | .receiving, .pollEvent (some e) timeoutMs _ =>
    if timeoutMs = 0 then none
    else some (s.set k (.writing .new) e { s.engine e with receiver := none })
  | _, _ => none

/-- A task of the engine queues an event. -/
def queueStep (s : State E C) (e : E) (event : EncodedEnvelope) : Option (State E C) :=
  if (s.engine e).events.length < eventQueueCapacity then
    some { s with engine := Function.update s.engine e { s.engine e with
      events := (s.engine e).events ++ [event], queued := (s.engine e).queued ++ [event] } }
  else none

inductive Action (E C : Type) where
  | host (k : C)
  | expire (k : C)
  | queue (e : E) (event : EncodedEnvelope)

def step (s : State E C) : Action E C → Option (State E C)
  | .host k => hostStep setup s k
  | .expire k => expireStep setup s k
  | .queue e event => queueStep s e event

end Steps

end LinguaMesh.Ffi.Buffers
