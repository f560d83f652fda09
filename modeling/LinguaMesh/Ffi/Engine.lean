import LinguaMesh.Ffi.Messages
import LinguaMesh.Lib.Runs
import Mathlib.Logic.Function.Basic

/-!
# The native engine

One engine with the calls `C` of the host and the tasks they spawn. A step is one
section under a lock, one operation on a channel, one read or write of the
shutdown flag, or work on local data alone. A submit that is accepted owns an
operation: the task that resolves the host secret and forwards the events, the
task that passes the secret request to the host, and the worker that translates.

What is spawned takes no step before it is scheduled, so a spawn is part of the
step before it. `owner` and the first part of a queued event name the call they
come from; no step reads them. The worker is taken with any events its loop can
send. Buffers of `poll_event` and the destruction of the engine are left out.
-/

namespace LinguaMesh.Ffi

open Runs

abbrev Token := Nat

def eventQueueCapacity : Nat := 64

/-- `EVENT_CAPACITY` of an operation. -/
def eventCapacity : Nat := 32

inductive HostCall where
  | submit (message : Message)
  | sendHostResponse (message : Message)
  | cancel
  | poll
  | shutdown
  deriving DecidableEq

/-- How far a call of the host has come. -/
inductive HostPhase (C : Type) where
  | called
  /-- The message passed `decode_protocol_input`. -/
  | decoded (envelope : Envelope)
  /-- `submit` is about to take the lock. -/
  | checked (envelope : Envelope) (submission : Submission)
  /-- `submit_with_host_secret` begins; the lock was dropped. -/
  | unlocked (envelope : Envelope) (submission : Submission) (secretRef : Str)
  /-- The channel and the request task are there; the lock is to be taken again. -/
  | spawned (cancellation : Token)
  /-- `send_host_response` has matched the active operation. -/
  | matched (envelope : Envelope)
  /-- The pending request was removed; its lease is about to be answered. -/
  | answering (lease : C) (resolution : SecretResolution)
  /-- `cancel` or `poll` found the engine running. -/
  | admitted
  /-- `shutdown` has set the flag. -/
  | flagged
  | returned (code : LmResultCode)
  deriving DecidableEq

structure ActiveOperation (C : Type) where
  operationId : Str
  cancellation : Token
  owner : C
  deriving DecidableEq

/-- A request for the secret of an operation; `lease` is the operation that waits. -/
structure PendingHostRequest (C : Type) where
  lease : C
  operationId : Str
  correlationId : Str
  deriving DecidableEq

/-- `run_host_secret_translation` up to its call of `forward_events`, and `forward_events`
itself, which an operation without a secret runs alone. -/
inductive TaskPhase where
  | idle
  | resolving (cancellation : Token)
  /-- `resolve` has sent its lease. -/
  | waiting (cancellation : Token)
  | resolved (cancellation : Token) (secret : Str)
  /-- The translation runs under `operation`; the slot still holds `cancellation`. -/
  | handing (cancellation operation : Token)
  | forwarding (hostSecret : Bool) (operation : Token)
  | sending (hostSecret : Bool) (operation : Token) (event : TranslationEvent)
  /-- The operation ends with `event`, which is yet to be sent. -/
  | failing (cancellation : Token) (event : TranslationEvent)
  /-- The event was sent; the pending requests are to be cleared. -/
  | clearing (cancellation : Token)
  | releasing (cancellation : Token)
  /-- `forward_events` has returned; the pending requests are to be cleared. -/
  | draining
  | done
  deriving DecidableEq

/-- The lease of the operation is active. -/
def TaskPhase.isWaiting : TaskPhase → Bool
  | .waiting _ => true
  | _ => false

/-- The task that passes secret requests to the host. -/
inductive RequestPhase where
  | idle
  | receiving
  | inserting
  | sending
  | finished
  deriving DecidableEq

/-- The answer channel of the operation's lease. -/
inductive OneShot where
  | unused
  | answered (resolution : SecretResolution)
  /-- The lease was dropped without an answer. -/
  | dropped
  deriving DecidableEq

inductive WorkerPhase where
  | idle
  | starting (sequence : Nat)
  | streaming (sequence : Nat)
  | finished
  deriving DecidableEq

/-- What the tasks of an operation have moved in. -/
structure HostSecretTranslation where
  operationId : Str
  correlationId : Str
  command : TranslateTextCommand
  secretRef : Str

/-- The tasks of one submit call and the channels between them. -/
structure Operation where
  context : HostSecretTranslation
  task : TaskPhase
  request : RequestPhase
  /-- The lease is in the broker's channel. -/
  leaseQueued : Bool
  oneShot : OneShot
  worker : WorkerPhase
  channel : List TranslationEvent

def noOperation : Operation :=
  ⟨⟨[], [], ⟨[], [], [], [], [], [], [], []⟩, []⟩, .idle, .idle, false, .unused, .idle, []⟩

/-- The engine and its calls. `events` are all events ever queued, of which the host has taken
the first `polled`. -/
structure State (C : Type) where
  shutdown : Bool
  active : Option (ActiveOperation C)
  pending : List (Str × PendingHostRequest C)
  cancelled : List Token
  nextToken : Token
  events : List (C × EventEnvelope)
  polled : Nat
  host : C → HostPhase C
  op : C → Operation

/-- The calls of a run, and the identifier that `HostRequestId::new` gives each operation. -/
structure Setup (C : Type) where
  calls : C → HostCall
  requestId : C → Str

def initial (C : Type) : State C :=
  ⟨false, none, [], [], 0, [], 0, fun _ => .called, fun _ => noOperation⟩

/-! ## Parts of a step -/

namespace State

variable {C : Type} [DecidableEq C]

def setHost (s : State C) (k : C) (phase : HostPhase C) : State C :=
  { s with host := Function.update s.host k phase }

def setOp (s : State C) (c : C) (o : Operation) : State C :=
  { s with op := Function.update s.op c o }

def setTask (s : State C) (c : C) (task : TaskPhase) : State C :=
  s.setOp c { s.op c with task }

/-- The call returns. -/
def finish (s : State C) (k : C) (code : LmResultCode) : State C := s.setHost k (.returned code)

def cancel (s : State C) (token : Token) : State C := { s with cancelled := token :: s.cancelled }

/-- The token of the active operation is cancelled, if there is one. -/
def cancelActive (s : State C) : State C :=
  match s.active with
  | some active => s.cancel active.cancellation
  | none => s

/-- The queue of events has room. -/
def hasRoom (s : State C) : Bool := s.events.length - s.polled < eventQueueCapacity

def queue (s : State C) (c : C) (event : EventEnvelope) : State C :=
  { s with events := s.events ++ [(c, event)] }

/-- `clear_active`, and the end of `forward_events`. -/
def clearActive (s : State C) (c : C) : State C :=
  { s with active := s.active.filter fun a => a.operationId ≠ (s.op c).context.operationId }

/-- The slot is given the operation's new token, if it is still that of the operation. -/
def repoint (s : State C) (c : C) (token : Token) : State C :=
  { s with active := s.active.map fun a =>
      if a.operationId = (s.op c).context.operationId then ⟨a.operationId, token, c⟩ else a }

def dropLease (o : Operation) : Operation :=
  match o.oneShot with
  | .unused => { o with oneShot := .dropped }
  | _ => o

/-- The leases of the requests are dropped. -/
def dropLeases (s : State C) (requests : List (Str × PendingHostRequest C)) : State C :=
  { s with op := fun c => if requests.any (·.2.lease = c) then dropLease (s.op c) else s.op c }

/-- `pending.clear()`. -/
def clearPending (s : State C) : State C := { s.dropLeases s.pending with pending := [] }

/-- `pending.insert`, which drops what was there. -/
def insertPending (s : State C) (requestId : Str) (request : PendingHostRequest C) : State C :=
  { s.dropLeases (s.pending.filter (·.1 = requestId)) with
    pending := s.pending.filter (·.1 ≠ requestId) ++ [(requestId, request)] }

/-- No broker of the operation is left, so its request task receives nothing any more. -/
def brokerDropped (s : State C) (c : C) : Bool :=
  match (s.op c).task, s.host c with
  | .done, _ => true
  | .idle, .returned _ => true
  | _, _ => false

end State

/-! ## Steps -/

section Steps

variable [Boundary] {C : Type} [DecidableEq C] (setup : Setup C)

/-- The next step of `lm_engine_submit`. -/
def submitStep (s : State C) (k : C) (message : Message) : Option (State C) :=
  match s.host k with
  | .called =>
    match decodeProtocolInput s.shutdown message with
    | .error code => some (s.finish k code)
    | .ok envelope => some (s.setHost k (.decoded envelope))
  | .decoded envelope =>
    if s.shutdown then some (s.finish k .shutdown)
    else match checkSubmit envelope with
      | .error code => some (s.finish k code)
      | .ok submission => some (s.setHost k (.checked envelope submission))
  | .checked envelope submission =>
    if s.shutdown then some (s.finish k .shutdown)
    else if s.active.isSome then some (s.finish k .busy)
    else match submission.secretRef with
      | some secretRef => some (s.setHost k (.unlocked envelope submission secretRef))
      | none =>
        if Boundary.isProvider submission.config then
          some ({ s with
            active := some ⟨envelope.operationId, s.nextToken, k⟩,
            nextToken := s.nextToken + 1 }.setOp k
              { noOperation with
                context := ⟨envelope.operationId, envelope.correlationId, submission.command, []⟩,
                task := .forwarding false s.nextToken, worker := .starting 0 } |>.finish k .ok)
        else some (s.finish k .invalidArgument)
  | .unlocked envelope submission secretRef =>
    if checkHostSecret submission then
      some ({ s with nextToken := s.nextToken + 1 }.setOp k
          { noOperation with
            context :=
              ⟨envelope.operationId, envelope.correlationId, submission.command, secretRef⟩,
            request := .receiving } |>.setHost k (.spawned s.nextToken))
    else some (s.finish k .invalidArgument)
  | .spawned cancellation =>
    if s.active.isSome then some (s.finish k .busy)
    else some ({ s with active := some ⟨(s.op k).context.operationId, cancellation, k⟩ }.setTask k
      (.resolving cancellation) |>.finish k .ok)
  | _ => none

/-- The next step of `lm_engine_send_host_response`. -/
def responseStep (s : State C) (k : C) (message : Message) : Option (State C) :=
  match s.host k with
  | .called =>
    match decodeProtocolInput s.shutdown message with
    | .error code => some (s.finish k code)
    | .ok envelope => some (s.setHost k (.decoded envelope))
  | .decoded envelope =>
    if envelope.messageType ≠ "host_secret_response" then some (s.finish k .unsupportedMessage)
    else if envelope.sequence ≠ 0 then some (s.finish k .malformedMessage)
    else if s.active.any (·.operationId = envelope.operationId) ∧ envelope.correlationId ≠ [] then
      some (s.setHost k (.matched envelope))
    else some (s.finish k .invalidArgument)
  | .matched envelope =>
    match checkResponse envelope with
    | .error code => some (s.finish k code)
    | .ok (requestId, resolution) =>
      match s.pending.find? (·.1 = requestId) with
      | none => some (s.finish k .invalidArgument)
      | some (_, pending) =>
        if pending.operationId = envelope.operationId ∧
            pending.correlationId = envelope.correlationId then
          some ({ s with pending := s.pending.filter (·.1 ≠ requestId) }.setHost k
            (.answering pending.lease resolution))
        else some (s.finish k .invalidArgument)
  | .answering lease resolution =>
    -- the answer is refused when `resolve` does not wait any more
    if (s.op lease).task.isWaiting then
      some (s.setOp lease { s.op lease with oneShot := .answered resolution } |>.finish k .ok)
    else some (s.finish k .invalidArgument)
  | _ => none

/-- The next step of a call of the host. -/
def hostStep (s : State C) (k : C) : Option (State C) :=
  match setup.calls k with
  | .submit message => submitStep s k message
  | .sendHostResponse message => responseStep s k message
  | .cancel =>
    match s.host k with
    | .called => some (if s.shutdown then s.finish k .shutdown else s.setHost k .admitted)
    | .admitted => some (s.cancelActive.finish k .ok)
    | _ => none
  | .poll =>
    match s.host k with
    | .called => some (if s.shutdown then s.finish k .shutdown else s.setHost k .admitted)
    | .admitted => some ({ s with polled := min (s.polled + 1) s.events.length }.finish k .ok)
    | _ => none
  | .shutdown =>
    match s.host k with
    | .called => some ({ s with shutdown := true }.setHost k .flagged)
    | .flagged => some (s.cancelActive.finish k .ok)
    | _ => none

/-- The error of a provider that cannot be made. -/
def endpointError : TranslationError :=
  .new .invalidEndpoint "The provider endpoint is invalid or unsafe."

/-- The next step of the task of an operation. -/
def taskStep (s : State C) (c : C) : Option (State C) :=
  let o := s.op c
  match o.task with
  | .resolving cancellation =>
    if cancellation ∈ s.cancelled then
      some (s.setTask c (.failing cancellation (errorTerminal 1 cancelledError)))
    else some (s.setOp c { o with task := .waiting cancellation, leaseQueued := true })
  | .waiting cancellation =>
    if cancellation ∈ s.cancelled then
      some (s.setTask c (.failing cancellation (errorTerminal 1 cancelledError)))
    else
      let answer : Option (Option SecretResolution) := match o.oneShot with
        | .unused => none
        | .answered resolution => some (some resolution)
        | .dropped => some none
      answer.map fun answer => match resolutionResult answer with
        | .ok secret => s.setTask c (.resolved cancellation secret)
        | .error e => s.setTask c (.failing cancellation (errorTerminal 1 e))
  | .resolved cancellation secret =>
    if providerForSecret o.context.command secret then
      some ({ s with nextToken := s.nextToken + 1 }.setOp c
        { o with task := .handing cancellation s.nextToken, worker := .starting 1 })
    else some (s.setTask c (.failing cancellation (.failed 1 endpointError)))
  | .handing _ operation => some ((s.repoint c operation).setTask c (.forwarding true operation))
  | .forwarding hostSecret operation =>
    match o.channel, o.worker with
    | event :: channel, _ =>
      some (s.setOp c { o with task := .sending hostSecret operation event, channel })
    | [], .finished => some ((s.clearActive c).setTask c (if hostSecret then .draining else .done))
    | [], _ => none
  | .sending hostSecret operation event =>
    if s.hasRoom then
      some ((s.queue c (encodeEvent o.context.operationId o.context.correlationId event)).setTask c
        (.forwarding hostSecret operation))
    else none
  | .failing cancellation event =>
    if s.hasRoom then
      some ((s.queue c (encodeEvent o.context.operationId o.context.correlationId event)).setTask c
        (.clearing cancellation))
    else none
  | .clearing cancellation => some (s.clearPending.setTask c (.releasing cancellation))
  | .releasing _ => some ((s.clearActive c).setTask c .done)
  | .draining => some (s.clearPending.setTask c .done)
  | .idle | .done => none

/-- The next step of the request task of an operation. -/
def requestStep (s : State C) (c : C) : Option (State C) :=
  let o := s.op c
  match o.request with
  | .receiving =>
    if o.leaseQueued then
      -- a lease whose `resolve` has returned is skipped
      if o.task.isWaiting then
        some (s.setOp c { o with leaseQueued := false, request := .inserting })
      else some (s.setOp c { o with leaseQueued := false })
    else if s.brokerDropped c then some (s.setOp c { o with request := .finished })
    else none
  | .inserting =>
    let t := s.insertPending (setup.requestId c) ⟨c, o.context.operationId, o.context.correlationId⟩
    some (t.setOp c { t.op c with request := .sending })
  | .sending =>
    if s.hasRoom then
      some ((s.queue c (secretRequiredEvent o.context.operationId o.context.correlationId
        (setup.requestId c) o.context.secretRef)).setOp c { o with request := .receiving })
    else none
  | .idle | .finished => none

/-- The worker sends an event: `Started`, then deltas, then a terminal event. -/
def workStep (s : State C) (c : C) (event : TranslationEvent) : Option (State C) :=
  let o := s.op c
  if eventCapacity ≤ o.channel.length then none
  else
    let send (worker : WorkerPhase) := some (s.setOp c { o with worker, channel := o.channel ++ [event] })
    match o.worker, event with
    | .starting n, .started m => if m = n then send (.streaming (n + 1)) else none
    | .streaming n, .textDelta m _ => if m = n then send (.streaming (n + 1)) else none
    | .streaming n, .completed m | .streaming n, .cancelled m | .streaming n, .failed m _ =>
      if m = n then send .finished else none
    | _, _ => none

inductive Action (C : Type) where
  | host (k : C)
  | task (c : C)
  | request (c : C)
  | work (c : C) (event : TranslationEvent)

def step (s : State C) : Action C → Option (State C)
  | .host k => hostStep setup s k
  | .task c => taskStep s c
  | .request c => requestStep setup s c
  | .work c event => workStep s c event

end Steps

/-- A wire format of a few bytes: the kind of the message (0 and 1 for a command without and
with a secret, 2 for a host response), an identifier, and the identifier of the request. -/
@[reducible] def byteBoundary : Boundary where
  decodeEnvelope
    | kind :: id :: payload => some ⟨1, [Char.ofNat id.toNat], [Char.ofNat id.toNat], 0,
        if kind = 2 then "host_secret_response" else "translate_text", kind :: payload⟩
    | _ => none
  decodeCommand payload := some ⟨['e'], ['m'], ['s'], ['l'],
    if payload.head? = some 1 then ['r'] else [], [], [], []⟩
  decodeResponse payload :=
    some ⟨(payload.drop 1).map fun b => Char.ofNat b.toNat, "provided", ['k']⟩
  validateField value _ := some value
  isSecretRef _ := true
  isEndpoint _ := true
  isProvider _ := true

end LinguaMesh.Ffi
