import LinguaMesh.Domain.Text
import LinguaMesh.Lib.Loop
import Mathlib.Data.Char
import Mathlib.Data.List.Lex
import Mathlib.Data.List.Sort

/-!
# Routing profiles

A profile lists candidates, the constraints they have to meet, and the mode of the
choice. `select` filters the candidates, ranks them in automatic mode, and takes
the first one that is left.

Negating an `i64` is checked (`negate`): the result type `Run` keeps an overflow
apart from an error that the planner returns.
-/

namespace LinguaMesh.Routing

open Run

def maxRoutingCandidates : Nat := 32
def maxRoutingIdentifierBytes : Nat := 128

inductive RoutingMode where
  /-- Only the first candidate, which the user has named. -/
  | manual
  /-- In the order that the user gave. -/
  | ordered
  /-- By a stable ranking. -/
  | automatic
  deriving DecidableEq, Repr

inductive RoutingPreference where
  | none | «local» | quality | latency | cost
  deriving DecidableEq, Repr

structure RoutingConstraints where
  localOnly : Bool
  allowRemote : Bool
  providerAllowlist : List Str
  providerDenylist : List Str
  modelAllowlist : List Str
  modelDenylist : List Str
  requireStreaming : Bool
  requireDocument : Bool
  minimumQualityTier : Option UInt8
  maxRequestBytes : Option Nat
  preference : RoutingPreference
  privacySensitive : Bool
  explicitFallbackAllowed : Bool
  deriving DecidableEq, Repr

structure RoutingCandidate where
  providerId : Str
  modelId : Str
  «local» : Bool
  supportsStreaming : Bool
  supportsDocument : Bool
  contextCapacityBytes : Nat
  qualityTier : UInt8
  estimatedLatencyMs : Option UInt64
  estimatedCostMicros : Option UInt64
  sourceLocales : List Str
  targetLocales : List Str
  deriving DecidableEq, Repr

def RoutingCandidate.key (c : RoutingCandidate) : Str := c.providerId ++ '@' :: c.modelId

structure RoutingContext where
  sourceLocale : Option Str
  targetLocale : Str
  requestBytes : Nat
  requireStreaming : Bool
  requireDocument : Bool
  privacySensitive : Bool
  deriving DecidableEq, Repr

inductive RoutingRejectionReason where
  | providerNotAllowed | providerDenied | modelNotAllowed | modelDenied | remoteDisallowed
  | privacyRemoteDisallowed | streamingUnsupported | documentUnsupported | contextTooSmall
  | qualityTooLow | sourceLocaleUnsupported | targetLocaleUnsupported | requestTooLarge
  deriving DecidableEq, Repr

structure RoutingRejection where
  candidate : RoutingCandidate
  reason : RoutingRejectionReason
  deriving DecidableEq, Repr

structure RoutingRank where
  candidate : RoutingCandidate
  scoreComponents : List Int
  deriving DecidableEq, Repr

structure RoutingDecision where
  selected : RoutingCandidate
  eligibleCandidates : List RoutingCandidate
  rejectedCandidates : List RoutingRejection
  ranking : List RoutingRank
  fallbackOrder : List RoutingCandidate
  deriving DecidableEq, Repr

inductive RoutingError where
  | invalidConfiguration (message : String)
  | noEligibleCandidates (rejected : List RoutingRejection)
  deriving DecidableEq, Repr

structure RoutingProfile where
  id : Str
  mode : RoutingMode
  candidates : List RoutingCandidate
  constraints : RoutingConstraints
  deriving DecidableEq, Repr

/-! ## Validation -/

def isIdentifierByte (c : Char) : Bool := c.isAlphanum || c == '.' || c == '_' || c == '-'

def validateIdentifier (value : Str) (field : String) : Except RoutingError Unit :=
  Except.refuseIf
    (value.isEmpty || maxRoutingIdentifierBytes < utf8Len value || !value.all isIdentifierByte)
    (.invalidConfiguration field)

def validateIdentifierList (values : List Str) (field : String) : Except RoutingError Unit :=
  values.forM (validateIdentifier · field)

def validateLocaleList (values : List Str) (field : String) : Except RoutingError Unit :=
  values.forM fun value =>
    Except.refuseIf (value.isEmpty || 64 < utf8Len value ||
      !value.all fun c => c.isAlphanum || c == '-' || c == '_') (.invalidConfiguration field)

def validateCandidate (c : RoutingCandidate) : Except RoutingError Unit := do
  validateIdentifier c.providerId "provider_id"
  validateIdentifier c.modelId "model_id"
  Except.refuseIf (c.contextCapacityBytes == 0)
    (.invalidConfiguration "context capacity must be greater than zero")
  validateLocaleList c.sourceLocales "source locale"
  validateLocaleList c.targetLocales "target locale"

/-- Whether a candidate has the provider and the model of one before it. -/
def repeatsPair : List RoutingCandidate → List RoutingCandidate → Bool
  | _, [] => false
  | previous, c :: rest =>
    previous.any (fun b => b.providerId == c.providerId && b.modelId == c.modelId) ||
      repeatsPair (previous ++ [c]) rest

def validateCandidates (candidates : List RoutingCandidate) : Except RoutingError Unit := do
  Except.refuseIf candidates.isEmpty
    (.invalidConfiguration "at least one routing candidate is required")
  Except.refuseIf (maxRoutingCandidates < candidates.length)
    (.invalidConfiguration "routing candidate count exceeds the limit")
  candidates.forM validateCandidate
  Except.refuseIf (repeatsPair [] candidates)
    (.invalidConfiguration "routing candidates must have unique provider/model pairs")

def RoutingProfile.validate (p : RoutingProfile) : Except RoutingError Unit := do
  validateIdentifier p.id "routing profile id"
  validateCandidates p.candidates
  validateIdentifierList p.constraints.providerAllowlist "provider allowlist"
  validateIdentifierList p.constraints.providerDenylist "provider denylist"
  validateIdentifierList p.constraints.modelAllowlist "model allowlist"
  validateIdentifierList p.constraints.modelDenylist "model denylist"
  Except.refuseIf (p.constraints.maxRequestBytes == some 0)
    (.invalidConfiguration "maximum request bytes must be greater than zero")

/-! ## Filtering -/

/-- A non-empty list of supported locales that does not have `locale`. -/
def lacksLocale (supported : List Str) (locale : Str) : Bool :=
  !supported.isEmpty && !supported.any (eqIgnoreAsciiCase · locale)

def RoutingProfile.rejectionReason (p : RoutingProfile) (c : RoutingCandidate)
    (context : RoutingContext) : Option RoutingRejectionReason :=
  let k := p.constraints
  if !k.providerAllowlist.isEmpty && !k.providerAllowlist.contains c.providerId then
    some .providerNotAllowed
  else if k.providerDenylist.contains c.providerId then some .providerDenied
  else if !k.modelAllowlist.isEmpty && !k.modelAllowlist.contains c.modelId then
    some .modelNotAllowed
  else if k.modelDenylist.contains c.modelId then some .modelDenied
  else if k.localOnly && !c.local then some .remoteDisallowed
  else if (!k.allowRemote || (k.privacySensitive && context.privacySensitive)) && !c.local then
    if k.privacySensitive && context.privacySensitive then some .privacyRemoteDisallowed
    else some .remoteDisallowed
  else if (k.requireStreaming || context.requireStreaming) && !c.supportsStreaming then
    some .streamingUnsupported
  else if (k.requireDocument || context.requireDocument) && !c.supportsDocument then
    some .documentUnsupported
  else if c.contextCapacityBytes < context.requestBytes then some .contextTooSmall
  else if k.maxRequestBytes.any (· < context.requestBytes) then some .requestTooLarge
  else if k.minimumQualityTier.any (c.qualityTier < ·) then some .qualityTooLow
  else if context.sourceLocale.any (lacksLocale c.sourceLocales) then
    some .sourceLocaleUnsupported
  else if lacksLocale c.targetLocales context.targetLocale then some .targetLocaleUnsupported
  else none

def RoutingProfile.eligible (p : RoutingProfile) (context : RoutingContext) :
    List RoutingCandidate :=
  p.candidates.filter fun c => (p.rejectionReason c context).isNone

def RoutingProfile.rejected (p : RoutingProfile) (context : RoutingContext) :
    List RoutingRejection :=
  p.candidates.filterMap fun c => (p.rejectionReason c context).map (⟨c, ·⟩)

/-! ## Ranking -/

def i64Min : Int := -2 ^ 63
def i64Max : Int := 2 ^ 63 - 1

/-- `-x` of an `i64`. -/
def negate (x : Int) : Run RoutingError Int := if x = i64Min then .error .panic else .ok (-x)

/-- `i64::try_from(value).unwrap_or(i64::MAX)`. -/
def saturate (value : UInt64) : Int := min value.toNat i64Max

/-- The component of an estimate, of which less is better; an unknown one is the least `i64`. -/
def estimateComponent : Option UInt64 → Run RoutingError Int
  | none => .ok i64Min
  | some value => negate (saturate value)

def localComponent (c : RoutingCandidate) : Int := if c.local then 1 else 0

def qualityComponent (c : RoutingCandidate) : Int := c.qualityTier.toNat

def RoutingProfile.scoreComponents (p : RoutingProfile) (c : RoutingCandidate) :
    Run RoutingError (List Int) :=
  match p.constraints.preference with
  | .local => .ok [localComponent c, qualityComponent c]
  | .quality => .ok [qualityComponent c, localComponent c]
  | .latency => do
    let component ← estimateComponent c.estimatedLatencyMs
    .ok [component, localComponent c]
  | .cost => do
    let component ← estimateComponent c.estimatedCostMicros
    .ok [component, localComponent c]
  | .none => .ok [localComponent c]

def RoutingProfile.rank (p : RoutingProfile) (c : RoutingCandidate) :
    Run RoutingError RoutingRank := do
  let scoreComponents ← p.scoreComponents c
  .ok ⟨c, scoreComponents⟩

/-- The order of the ranking: the higher score first, then the lesser key. -/
def rankLe (left right : RoutingRank) : Bool :=
  right.scoreComponents < left.scoreComponents ||
    (left.scoreComponents == right.scoreComponents && left.candidate.key ≤ right.candidate.key)

def RoutingProfile.ranked (p : RoutingProfile) (eligible : List RoutingCandidate) :
    Run RoutingError (List RoutingRank) := do
  let ranked ← eligible.mapM p.rank
  .ok (ranked.insertionSort fun left right => rankLe left right)

/-! ## Selection -/

/-- An error of a check is returned. -/
def returnError {α : Type} (x : Except RoutingError α) : Run RoutingError α := x.mapError .err

/-- `eligible[0]`. -/
def firstOf : List RoutingCandidate → Run RoutingError RoutingCandidate
  | [] => .error .panic
  | c :: _ => .ok c

def RoutingProfile.fallbackOrder (p : RoutingProfile) (eligible : List RoutingCandidate) :
    List RoutingCandidate :=
  if p.constraints.explicitFallbackAllowed ∧ p.mode ≠ .manual then eligible.drop 1 else []

def RoutingProfile.select (p : RoutingProfile) (context : RoutingContext) :
    Run RoutingError RoutingDecision := do
  returnError p.validate
  if (trim context.targetLocale).isEmpty then
    fail (.invalidConfiguration "target locale must not be empty")
  else
    let eligible := p.eligible context
    let rejected := p.rejected context
    if eligible.isEmpty then fail (.noEligibleCandidates rejected)
    else do
      let ranking ← if p.mode = .automatic then p.ranked eligible else .ok []
      let eligible := if p.mode = .automatic then ranking.map (·.candidate) else eligible
      let selected ← firstOf eligible
      .ok ⟨selected, eligible, rejected, ranking, p.fallbackOrder eligible⟩

end LinguaMesh.Routing
