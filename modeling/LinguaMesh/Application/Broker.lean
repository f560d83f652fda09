import LinguaMesh.Application.Adapters
import LinguaMesh.Ffi.Messages
import LinguaMesh.Lib.Runs
import Mathlib.Logic.Function.Basic

/-!
# Requests for secrets

The calls `C` that resolve secrets, the host that answers, and whoever cancels. A call
of `connect` resolves the secrets of its profile one after the other; its `i`-th
request is `(c, i)`. A step is one operation on the channel of leases, on the answer
channel of a lease or on a token. A token that is cancelled has an effect where the
call looks at it next.

The `log` records what has happened; no step reads it.
-/

namespace LinguaMesh.Application.Broker

open Runs
open Ffi (SecretResolution resolutionResult cancelledError)

section Model

variable [Urls] [Uuids]

inductive Call where
  | resolve (secretRef : SecretRef) (cancellation : Nat)
  | connect (profile : ProviderProfile) (cancellation : Nat)

def Call.cancellation : Call → Nat
  | resolve _ cancellation | connect _ cancellation => cancellation

/-- The secrets that a call resolves, unless it is refused before. -/
def Call.plan [Providers] : Call → Except TranslationError (List SecretRef)
  | resolve secretRef _ => .ok [secretRef]
  | connect profile _ => (checkProfile profile).map fun _ => SecretField.all.filterMap (·.ref profile)

/-- How far a call is: the secrets it has, and the references that are left. The first of these is
being resolved. -/
inductive Phase where
  | called
  /-- The lease is to be sent. -/
  | sending (secrets : List Str) (secretRef : SecretRef) (rest : List SecretRef)
  | waiting (secrets : List Str) (secretRef : SecretRef) (rest : List SecretRef)
  /-- The answer is there, or the lease was dropped. -/
  | received (secrets : List Str) (rest : List SecretRef) (answer : Option SecretResolution)
  | returned (result : Except TranslationError (List Str))
  /-- The future was dropped. -/
  | abandoned

/-- The secrets that a call goes on with. -/
def Phase.next (secrets : List Str) : List SecretRef → Phase
  | [] => .returned (.ok secrets)
  | secretRef :: rest => .sending secrets secretRef rest

/-- The answer channel of a lease. Whether an answered or closed lease still has its sender makes no
difference: it takes no answer. -/
inductive OneShot where
  | waiting
  | answered (resolution : SecretResolution)
  /-- The lease was dropped without an answer. -/
  | dropped
  /-- The call does not wait any more. -/
  | closed
  deriving DecidableEq

inductive Event (C : Type) where
  | validated (c : C)
  | requested (id : C × Nat)
  | cancelled (cancellation : Nat)
  | shown (id : C × Nat)
  | answered (id : C × Nat) (resolution : SecretResolution) (accepted : Bool)
  | discarded (id : C × Nat)
  | returned (id : C × Nat) (result : Except TranslationError Str)
  | abandoned (id : C × Nat)

structure State (C : Type) where
  /-- The leases in the channel. -/
  requests : List (C × Nat)
  /-- The host still has its end of the channel. -/
  receiving : Bool
  /-- The leases that the host was given. -/
  shown : List (C × Nat)
  cancelled : List Nat
  phase : C → Phase
  lease : C × Nat → OneShot
  log : List (Event C)

structure Setup (C : Type) where
  calls : C → Call
  capacity : Nat

def initial (C : Type) : State C :=
  ⟨[], true, [], [], fun _ => .called, fun _ => .waiting, []⟩

namespace State

variable {C : Type} [DecidableEq C]

def record (s : State C) (event : Event C) : State C := { s with log := s.log ++ [event] }

def setPhase (s : State C) (c : C) (phase : Phase) : State C :=
  { s with phase := Function.update s.phase c phase }

def setLease (s : State C) (id : C × Nat) (oneShot : OneShot) : State C :=
  { s with lease := Function.update s.lease id oneShot }

/-- `resolve` returns. -/
def finish (s : State C) (id : C × Nat) (result : Except TranslationError Str) (phase : Phase) :
    State C :=
  ((s.setLease id .closed).setPhase id.1 phase).record (.returned id result)

def fail (s : State C) (id : C × Nat) (e : TranslationError) : State C :=
  s.finish id (.error e) (.returned (.error e))

/-- The future of the call is dropped. -/
def abandon (s : State C) (id : C × Nat) : State C :=
  ((s.setLease id .closed).setPhase id.1 .abandoned).record (.abandoned id)

end State

section Steps

variable [Providers] {C : Type} [DecidableEq C] (setup : Setup C)

def isCancelled (s : State C) (c : C) : Prop := (setup.calls c).cancellation ∈ s.cancelled

instance (s : State C) (c : C) : Decidable (isCancelled setup s c) :=
  inferInstanceAs (Decidable (_ ∈ _))

/-- The next step of a call; cancellation comes first. -/
def callStep (s : State C) (c : C) : Option (State C) :=
  match s.phase c with
  | .called =>
    match (setup.calls c).plan with
    | .error e => some (s.setPhase c (.returned (.error e)))
    | .ok refs => some ((s.setPhase c (.next [] refs)).record (.validated c))
  | .sending secrets secretRef rest =>
    let id := (c, secrets.length)
    if isCancelled setup s c then some (s.fail id cancelledError)
    else if !s.receiving then
      some (s.fail id (.new .secretUnavailable "The host secret service is unavailable."))
    else if s.requests.length < setup.capacity then
      some (({ s with requests := s.requests ++ [id] }.setPhase c
        (.waiting secrets secretRef rest)).record (.requested id))
    else none
  | .waiting secrets _ rest =>
    let id := (c, secrets.length)
    if isCancelled setup s c then some (s.fail id cancelledError)
    else match s.lease id with
      | .answered resolution => some (s.setPhase c (.received secrets rest (some resolution)))
      | .dropped => some (s.setPhase c (.received secrets rest none))
      | .waiting | .closed => none
  | .received secrets rest answer =>
    let id := (c, secrets.length)
    if isCancelled setup s c then some (s.fail id cancelledError)
    else match resolutionResult answer with
      | .error e => some (s.fail id e)
      | .ok secret => some (s.finish id (.ok secret) (.next (secrets ++ [secret]) rest))
  | .returned _ | .abandoned => none

/-- The future of a call is dropped. -/
def abandonStep (s : State C) (c : C) : Option (State C) :=
  match s.phase c with
  | .called => some (s.setPhase c .abandoned)
  | .sending secrets _ _ | .waiting secrets _ _ | .received secrets _ _ =>
    some (s.abandon (c, secrets.length))
  | .returned _ | .abandoned => none

/-- `HostSecretRequests::recv` takes a lease: it returns one that is active and drops any other. -/
def recvStep (s : State C) : Option (State C) :=
  match s.requests with
  | [] => none
  | id :: requests =>
    if s.lease id = .waiting then
      some ({ s with requests, shown := id :: s.shown }.record (.shown id))
    else some { s with requests }

/-- `SecretRequestLease::respond`. -/
def answerStep (s : State C) (id : C × Nat) (resolution : SecretResolution) : Option (State C) :=
  if id ∈ s.shown then
    if s.lease id = .waiting then
      some ((s.setLease id (.answered resolution)).record (.answered id resolution true))
    else some (s.record (.answered id resolution false))
  else none

/-- The host drops a lease that it was given. -/
def discardStep (s : State C) (id : C × Nat) : Option (State C) :=
  if id ∈ s.shown ∧ s.lease id = .waiting then
    some ((s.setLease id .dropped).record (.discarded id))
  else none

/-- The host drops its end of the channel, with the leases in it. -/
def closeStep (s : State C) : State C :=
  { s with
    requests := [], receiving := false
    lease := fun id => if id ∈ s.requests ∧ s.lease id = .waiting then .dropped else s.lease id }

inductive Action (C : Type) where
  | call (c : C)
  | abandon (c : C)
  | cancel (cancellation : Nat)
  | recv
  | answer (id : C × Nat) (resolution : SecretResolution)
  | discard (id : C × Nat)
  | close

def step (s : State C) : Action C → Option (State C)
  | .call c => callStep setup s c
  | .abandon c => abandonStep s c
  | .cancel cancellation =>
    some ({ s with cancelled := cancellation :: s.cancelled }.record (.cancelled cancellation))
  | .recv => recvStep s
  | .answer id resolution => answerStep s id resolution
  | .discard id => discardStep s id
  | .close => some (closeStep s)

end Steps

end Model

end LinguaMesh.Application.Broker
