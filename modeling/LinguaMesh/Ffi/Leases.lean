import LinguaMesh.Document.Job
import LinguaMesh.Domain.Utf8
import LinguaMesh.Ffi.Messages
import LinguaMesh.Lib.Linearize
import LinguaMesh.Lib.Runs
import Mathlib.Logic.Function.Basic

/-!
# File leases

The registry of file leases and the calls `C` on it. A step is one section under the
lock of the registry, or one atomic operation on the state of a lease. A lease is
named by the call that has created it: that call, and a consumer's clone after the
lease has left the registry, still reach its state. What a lease lends is read by
none of these calls and left out; whether the importer accepts a document is a
parameter.

`spec` says what the calls do one at a time.
-/

namespace LinguaMesh.Ffi.FileLeases

open Runs Linearize

def maxFileLeases : Nat := 64
def maxFileLeaseLocationBytes : Nat := 4096

inductive LeaseState where
  | active | expired | revoked
  deriving DecidableEq

/-- What a lease is created of: a desktop, temporary or output path, a POSIX or Android
descriptor, or a Windows handle. -/
inductive LeaseSource where
  | path (data : Bytes)
  | descriptor (fd : Int)
  | windowsHandle (value : Nat)
  deriving DecidableEq

/-- `FileLease::location`. -/
def isLocation (value : Str) : Bool :=
  value ≠ [] && utf8Len value ≤ maxFileLeaseLocationBytes && !value.contains '\x00'

/-- `create_path_file_lease` reaches `create_file_lease`. -/
def LeaseSource.isReadable : LeaseSource → Bool
  | .path data =>
    data ≠ [] && data.length ≤ maxFileLeaseLocationBytes && (fromUtf8 data).isSome
  | _ => true

/-- The constructor of the lease succeeds. -/
def LeaseSource.isLease : LeaseSource → Bool
  | .path data => (fromUtf8 data).any isLocation
  | .descriptor fd => 0 ≤ fd
  | .windowsHandle value => value ≠ 0

inductive LeaseCall where
  /-- `output` is what the slot for the identifier holds before. -/
  | create (source : LeaseSource) (output : Nat)
  | consumeDocument (leaseId : Nat) (sourceName document : Bytes)
  | expire (leaseId : Nat)
  | revoke (leaseId : Nat)
  | destroy (leaseId : Nat)
  | isActive (leaseId : Nat)
  deriving DecidableEq

/-- The code of a call, with what it writes when that is `Ok`. -/
inductive CallResult where
  | code (code : LmResultCode)
  | created (leaseId : Nat)
  | active (value : Bool)
  deriving DecidableEq

/-! ## One call at a time -/

/-- The registered leases, whether each is active, and the identifiers given out. -/
structure Leases where
  leases : Nat → Option Bool
  used : List Nat

def Leases.empty : Leases := ⟨fun _ => none, []⟩

def Leases.set (σ : Leases) (leaseId : Nat) (lease : Option Bool) : Leases :=
  { σ with leases := Function.update σ.leases leaseId lease }

/-- A call of a registered lease does its work and returns `Ok`; others are refused. -/
def Leases.change (σ : Leases) (leaseId : Nat) (lease : Option Bool) (code : LmResultCode) :
    Option Leases :=
  match σ.leases leaseId with
  | some _ => if code = .ok then some (σ.set leaseId lease) else none
  | none => if code = .invalidArgument then some σ else none

/-- The effect of a call with this result, if it can have it. -/
def Leases.call (σ : Leases) : LeaseCall → CallResult → Option Leases
  | .create _ _, .created leaseId =>
    if leaseId ∈ σ.used then none else some ⟨(σ.set leaseId (some true)).leases, leaseId :: σ.used⟩
  | .create _ _, .code code => if code = .ok then none else some σ
  | .consumeDocument leaseId _ _, .code code =>
    if code ≠ .ok then some σ
    else if σ.leases leaseId = some true then some (σ.set leaseId none) else none
  | .expire leaseId, .code code | .revoke leaseId, .code code => σ.change leaseId (some false) code
  | .destroy leaseId, .code code => σ.change leaseId none code
  | .isActive leaseId, .active value => if σ.leases leaseId = some value then some σ else none
  | .isActive leaseId, .code code =>
    if σ.leases leaseId = none ∧ code = .invalidArgument then some σ else none
  | _, _ => none

/-! ## The registry -/

inductive Phase (C : Type) where
  | called
  /-- The arguments passed their checks. -/
  | admitted
  /-- `consume_document_bytes` begins. -/
  | looking (sourceName : Str)
  /-- It holds a clone of the lease. -/
  | found (lease : C) (sourceName : Str)
  | acquired (lease : C) (sourceName : Str)
  /-- The document was accepted and the lease was still active. -/
  | checked (lease : C)
  /-- The lease was revoked and is to be removed. -/
  | revoked (lease : C)
  | returned (result : CallResult)
  deriving DecidableEq

structure State (C : Type) where
  leases : List (Nat × C)
  lease : C → LeaseState
  nextFileLeaseId : Nat
  phase : C → Phase C
  history : List (Event C CallResult)

structure Setup (C : Type) where
  calls : C → LeaseCall
  shutdown : Bool
  /-- `DocumentJob::from_utf8` accepts the document. -/
  accepts : Str → Bytes → Bool

def initial (C : Type) : State C := ⟨[], fun _ => .active, 1, fun _ => .called, []⟩

/-- The sequential specification. -/
def spec {C : Type} (setup : Setup C) (σ : Leases) (k : C) (result : CallResult) : Option Leases :=
  σ.call (setup.calls k) result

/-- The first candidate of the counter that is neither zero nor taken, and the counter after it. -/
def allocate (taken : Nat → Bool) (next : Nat) : Nat → Option (Nat × Nat)
  | 0 => none
  | tries + 1 =>
    let candidate := next % 2 ^ 64
    if candidate = 0 ∨ taken candidate then allocate taken (next + 1) tries
    else some (candidate, next + 1)

namespace State

variable {C : Type} [DecidableEq C]

def setPhase (s : State C) (k : C) (phase : Phase C) : State C :=
  { s with phase := Function.update s.phase k phase }

def begin (s : State C) (k : C) (phase : Phase C) : State C :=
  { s.setPhase k phase with history := s.history ++ [.began k] }

def finish (s : State C) (k : C) (result : CallResult) : State C :=
  { s.setPhase k (.returned result) with history := s.history ++ [.returned k result] }

/-- `HashMap::get`. -/
def find (s : State C) (leaseId : Nat) : Option C :=
  (s.leases.find? (·.1 = leaseId)).map Prod.snd

def remove (s : State C) (leaseId : Nat) : State C :=
  { s with leases := s.leases.filter (·.1 ≠ leaseId) }

/-- The compare-exchange of `expire` and `revoke`. -/
def invalidate (s : State C) (lease : C) (state : LeaseState) : State C :=
  if s.lease lease = .active then { s with lease := Function.update s.lease lease state } else s

def insert (s : State C) (k : C) (leaseId next : Nat) : State C :=
  { s with
    leases := s.leases ++ [(leaseId, k)], lease := Function.update s.lease k .active,
    nextFileLeaseId := next }

end State

section Steps

variable {C : Type} [DecidableEq C] (setup : Setup C)

/-- The checks of a call before it touches a lease. -/
def checkArguments (shutdown : Bool) : LeaseCall → Except LmResultCode (Phase C)
  | .create source output =>
    if !source.isReadable then .error .invalidArgument
    else if output ≠ 0 then .error .invalidArgument
    else if shutdown then .error .shutdown
    else if source.isLease then .ok .admitted
    else .error .invalidArgument
  | .consumeDocument leaseId sourceName document =>
    if leaseId = 0 ∨ sourceName = [] ∨ maxFileLeaseLocationBytes < sourceName.length ∨
        maxDocumentBytes < document.length then .error .invalidArgument
    else if shutdown then .error .shutdown
    else match fromUtf8 sourceName with
      | none => .error .invalidArgument
      | some sourceName =>
        if '\x00' ∈ sourceName then .error .invalidArgument else .ok (.looking sourceName)
  | .expire leaseId | .revoke leaseId | .destroy leaseId | .isActive leaseId =>
    if leaseId = 0 then .error .invalidArgument else .ok .admitted

/-- The section under the lock of a call that has one. -/
def sectionStep (s : State C) (k : C) : LeaseCall → Option (State C)
  | .create _ _ =>
    if maxFileLeases ≤ s.leases.length then some (s.finish k (.code .resourceExhausted))
    else (allocate (fun leaseId => (s.find leaseId).isSome) s.nextFileLeaseId (maxFileLeases + 2)).map
      fun (leaseId, next) => (s.insert k leaseId next).finish k (.created leaseId)
  | .expire leaseId =>
    some (match s.find leaseId with
      | none => s.finish k (.code .invalidArgument)
      | some lease => (s.invalidate lease .expired).finish k (.code .ok))
  | .revoke leaseId =>
    some (match s.find leaseId with
      | none => s.finish k (.code .invalidArgument)
      | some lease => (s.invalidate lease .revoked).finish k (.code .ok))
  | .destroy leaseId =>
    some (match s.find leaseId with
      | none => s.finish k (.code .invalidArgument)
      | some lease => ((s.remove leaseId).invalidate lease .revoked).finish k (.code .ok))
  | .isActive leaseId =>
    some (match s.find leaseId with
      | none => s.finish k (.code .invalidArgument)
      | some lease => s.finish k (.active (s.lease lease = .active)))
  | .consumeDocument _ _ _ => none

/-- The steps of `consume_document_bytes`. -/
def consumeStep (s : State C) (k : C) (leaseId : Nat) (document : Bytes) : Option (State C) :=
  match s.phase k with
  | .looking sourceName =>
    some (match s.find leaseId with
      | none => s.finish k (.code .invalidArgument)
      | some lease => s.setPhase k (.found lease sourceName))
  | .found lease sourceName =>
    if s.lease lease = .active then some (s.setPhase k (.acquired lease sourceName))
    else some (s.finish k (.code .invalidArgument))
  | .acquired lease sourceName =>
    if !setup.accepts sourceName document then some (s.finish k (.code .malformedMessage))
    else if s.lease lease = .active then some (s.setPhase k (.checked lease))
    else some (s.finish k (.code .invalidArgument))
  | .checked lease => some ((s.invalidate lease .revoked).setPhase k (.revoked lease))
  | .revoked _ =>
    if (s.find leaseId).isSome then some ((s.remove leaseId).finish k (.code .ok))
    else some (s.finish k (.code .invalidArgument))
  | _ => none

/-- The next step of a call. -/
def step (s : State C) (k : C) : Option (State C) :=
  match s.phase k with
  | .called =>
    match checkArguments setup.shutdown (setup.calls k) with
    | .error code => some ((s.begin k .admitted).finish k (.code code))
    | .ok phase => some (s.begin k phase)
  | .admitted => sectionStep s k (setup.calls k)
  | _ =>
    match setup.calls k with
    | .consumeDocument leaseId _ document => consumeStep setup s k leaseId document
    | _ => none

end Steps

/-! ## The counter -/

theorem allocate_none {taken : Nat → Bool} {next tries : Nat} (h : allocate taken next tries = none)
    {j : Nat} (hj : j < tries) :
    (next + j) % 2 ^ 64 = 0 ∨ taken ((next + j) % 2 ^ 64) = true := by
  induction tries generalizing next j with
  | zero => omega
  | succ tries ih =>
    unfold allocate at h
    simp only at h
    split at h
    · rename_i hbusy
      cases j with
      | zero => exact hbusy
      | succ j =>
        have := ih h (j := j) (by omega)
        rwa [show next + 1 + j = next + (j + 1) by omega] at this
    · cases h

/-- What the counter gives is new. -/
theorem allocate_new {taken : Nat → Bool} {next tries id after : Nat}
    (h : allocate taken next tries = some (id, after)) : id ≠ 0 ∧ taken id = false := by
  induction tries generalizing next with
  | zero => cases h
  | succ tries ih =>
    unfold allocate at h
    simp only at h
    split at h
    · exact ih h
    · rename_i hfree
      cases h
      simpa using hfree

/-- The search for a new identifier ends when there are more tries than candidates to pass over. -/
theorem allocate_ends {taken : Nat → Bool} {next tries : Nat} {ids : List Nat}
    (hids : ∀ id, taken id = true → id ∈ ids) (hlt : ids.length + 1 < tries) (htries : tries ≤ 2 ^ 64) :
    (allocate taken next tries).isSome := by
  by_contra hnone
  rw [Option.not_isSome_iff_eq_none] at hnone
  let candidates := (List.range tries).map fun j => (next + j) % 2 ^ 64
  have hnodup : candidates.Nodup := by
    refine List.Nodup.map_on (fun i hi j hj he => ?_) List.nodup_range
    rw [List.mem_range] at hi hj
    omega
  have hsub : candidates ⊆ 0 :: ids := by
    intro candidate hc
    obtain ⟨j, hj, rfl⟩ := List.mem_map.mp hc
    rcases allocate_none hnone (List.mem_range.mp hj) with hzero | htaken
    · rw [hzero]
      exact List.mem_cons_self ..
    · exact List.mem_cons_of_mem _ (hids _ htaken)
  have hlength := (List.subperm_of_subset hnodup hsub).length_le
  simp only [candidates, List.length_map, List.length_range, List.length_cons] at hlength
  omega

theorem find_isSome {C : Type} {s : State C} {leaseId : Nat} (h : (s.find leaseId).isSome) :
    leaseId ∈ s.leases.map Prod.fst := by
  unfold State.find at h
  rw [Option.isSome_map, List.find?_isSome] at h
  obtain ⟨entry, hentry, he⟩ := h
  exact List.mem_map.mpr ⟨entry, hentry, by simpa using he⟩

/-- The registry always finds a new identifier while it has room. -/
theorem allocate_isSome {C : Type} (s : State C) (hroom : s.leases.length < maxFileLeases) :
    (allocate (fun leaseId => (s.find leaseId).isSome) s.nextFileLeaseId
      (maxFileLeases + 2)).isSome := by
  unfold maxFileLeases at *
  refine allocate_ends (fun _ h => find_isSome h) ?_ ?_
  · rw [List.length_map]
    omega
  · omega

end LinguaMesh.Ffi.FileLeases
