import LinguaMesh.Application.Adapters
import LinguaMesh.Lib.Runs

/-!
# Connecting

`ProviderManager` has one active provider. `connect` borrows the manager for as long
as its future lives, so no other call comes between its steps; the token may be
cancelled at any time, and the future may be dropped wherever it waits. A session is
the provider that `connect` constructs, named by its number; `close_session` is called
where the active provider is dropped, and a provider that never became active is
dropped without it. What secrets and models a connect is given, and which of its tokens
are cancelled, is up to the run.

`activated`, `closed`, `dropped` and `last` record what has happened; no step reads them.
-/

namespace LinguaMesh.Application

open Runs

section Model

variable [Urls] [Uuids] [Providers]

abbrev Token : Type := Nat

/-- A call of `connect` whose profile has passed the checks. -/
structure Connection where
  profile : ProviderProfile
  cancellation : Token
  adapter : Adapter
  modelId : Option Str

/-- How far the call of `connect` has come. -/
inductive Phase where
  /-- No call is in progress. -/
  | idle
  | called (profile : ProviderProfile) (cancellation : Token)
  /-- The secrets of `fields` are yet to be resolved. -/
  | resolving (c : Connection) (fields : List SecretField)
    (credentials : Credentials Providers.Identity)
  | constructing (c : Connection) (credentials : Credentials Providers.Identity)
  /-- The models of the new provider are being listed. -/
  | listing (c : Connection) (session : Nat)
  | discovered (c : Connection) (session : Nat)
    (models : Except TranslationError (List ModelDescriptor))
  /-- The old provider is to be dropped. -/
  | replacing (c : Connection) (session : Nat) (models : List ModelDescriptor)
  /-- The new provider is to be stored. -/
  | storing (c : Connection) (session : Nat) (models : List ModelDescriptor)

/-- The provider that was constructed and is not active yet. -/
def Phase.session : Phase → Option Nat
  | .listing _ session | .discovered _ session _ | .replacing _ session _ | .storing _ session _ =>
    some session
  | _ => none

structure ActiveProvider where
  profileId : ProviderProfileId
  session : Nat
  models : List ModelDescriptor

structure ProviderManager where
  active : Option ActiveProvider
  phase : Phase
  cancelled : List Token
  nextSession : Nat
  /-- The sessions that became active, in this order. -/
  activated : List Nat
  /-- The calls of `close_session`. -/
  closed : List Nat
  /-- The sessions dropped before they became active. -/
  dropped : List Nat
  /-- What the last call of `connect` returned, if it did. -/
  last : Option (Except TranslationError (List ModelDescriptor))

namespace ProviderManager

def new : ProviderManager := ⟨none, .idle, [], 0, [], [], [], none⟩

/-- The call ends, and what it has constructed is dropped. -/
def finish (s : ProviderManager)
    (result : Option (Except TranslationError (List ModelDescriptor))) : ProviderManager :=
  { s with phase := .idle, dropped := s.dropped ++ s.phase.session.toList, last := result }

def fail (s : ProviderManager) (e : TranslationError) : ProviderManager :=
  s.finish (some (.error e))

/-- The session of the active provider. -/
def session (s : ProviderManager) : Option Nat := s.active.map (·.session)

/-- The active provider is dropped. -/
def dropActive (s : ProviderManager) : ProviderManager :=
  { s with active := none, closed := s.closed ++ s.session.toList }

/-- The new provider becomes active. -/
def store (s : ProviderManager) (active : ActiveProvider) : ProviderManager :=
  { s with
    active := some active, phase := .idle, activated := s.activated ++ [active.session],
    last := some (.ok active.models) }

def cancelledError : TranslationError := .new .cancelled "Translation was cancelled."

/-- A secret is resolved, or is not. -/
def answerStep (s : ProviderManager) (result : Except TranslationError Str) :
    Option ProviderManager :=
  match s.phase with
  | .resolving c (field :: fields) credentials =>
    if (field.ref c.profile).isNone then none
    else match result with
      | .error e => some (s.fail e)
      | .ok secret =>
        match credentials.put secret field with
        | .error e => some (s.fail e)
        | .ok credentials => some { s with phase := .resolving c fields credentials }
  | _ => none

/-- The provider lists its models. -/
def listStep (s : ProviderManager) (models : Except TranslationError (List ModelDescriptor)) :
    Option ProviderManager :=
  match s.phase with
  | .listing c session =>
    if c.cancellation ∈ s.cancelled then some (s.fail cancelledError)
    else some { s with phase := .discovered c session models }
  | _ => none

/-- The call goes on by itself. -/
def advanceStep (s : ProviderManager) : Option ProviderManager :=
  match s.phase with
  | .called profile cancellation =>
    match checkProfile profile with
    | .error e => some (s.fail e)
    | .ok (adapter, modelId) =>
      let c : Connection := ⟨profile, cancellation, adapter, modelId⟩
      some { s with phase := .resolving c SecretField.all .none }
  | .resolving c [] credentials =>
    if c.cancellation ∈ s.cancelled then some (s.fail cancelledError)
    else some { s with phase := .constructing c credentials }
  | .resolving c (field :: fields) credentials =>
    match field.ref c.profile with
    | none => some { s with phase := .resolving c fields credentials }
    | some _ => none
  | .constructing c credentials =>
    match providerConfig c.profile c.adapter c.modelId credentials >>= Providers.newProvider with
    | .error e => some (s.fail e)
    | .ok () => some { s with phase := .listing c s.nextSession, nextSession := s.nextSession + 1 }
  | .listing c _ => if c.cancellation ∈ s.cancelled then some (s.fail cancelledError) else none
  | .discovered c session models =>
    if c.cancellation ∈ s.cancelled then some (s.fail cancelledError)
    else match connectedModels c.profile models with
      | .error e => some (s.fail e)
      | .ok models => some { s with phase := .replacing c session models }
  | .replacing c session models => some { s.dropActive with phase := .storing c session models }
  | .storing c session models => some (s.store ⟨c.profile.id, session, models⟩)
  | .idle => none

/-- The future is dropped where it waits. -/
def abandonStep (s : ProviderManager) : Option ProviderManager :=
  match s.phase with
  | .resolving c (field :: _) _ =>
    if (field.ref c.profile).isNone then none else some (s.finish none)
  | .called _ _ | .listing _ _ => some (s.finish none)
  | _ => none

end ProviderManager

inductive Action where
  | connect (profile : ProviderProfile) (cancellation : Token)
  | disconnect
  | cancel (cancellation : Token)
  | answer (result : Except TranslationError Str)
  | list (models : Except TranslationError (List ModelDescriptor))
  | advance
  | abandon

def step (s : ProviderManager) : Action → Option ProviderManager
  | .connect profile cancellation =>
    match s.phase with
    | .idle => some { s with phase := .called profile cancellation, last := none }
    | _ => none
  | .disconnect =>
    match s.phase with
    | .idle => some s.dropActive
    | _ => none
  | .cancel cancellation => some { s with cancelled := cancellation :: s.cancelled }
  | .answer result => s.answerStep result
  | .list models => s.listStep models
  | .advance => s.advanceStep
  | .abandon => s.abandonStep

/-! ## Transitions -/

def Phase.profile : Phase → Option ProviderProfile
  | .idle => none
  | .called profile _ => some profile
  | .resolving c _ _ | .constructing c _ | .listing c _ | .discovered c _ _ | .replacing c _ _
  | .storing c _ _ => some c.profile

/-- A call is in progress, and the old provider is active. -/
def Phase.isBefore : Phase → Bool
  | .idle | .storing _ _ _ => false
  | _ => true

def Phase.isStoring : Phase → Bool
  | .storing _ _ _ => true
  | _ => false

theorem not_storing {phase : Phase} (hb : phase.isBefore) : phase.isStoring = false := by
  cases phase <;> first | rfl | exact nomatch hb

/-- What a step can do. -/
inductive Turn (s : ProviderManager) : ProviderManager → Prop where
  | cancel (cancelled : List Token) : Turn s { s with cancelled }
  | begin (profile : ProviderProfile) (cancellation : Token) : s.phase = .idle →
    Turn s { s with phase := .called profile cancellation, last := none }
  | disconnect : s.phase = .idle → Turn s s.dropActive
  | finish {result : Option (Except TranslationError (List ModelDescriptor))} : s.phase.isBefore →
    (∀ models, result ≠ some (.ok models)) → Turn s (s.finish result)
  | goOn {phase : Phase} : s.phase.isBefore → phase.isBefore → phase.profile = s.phase.profile →
    phase.session = s.phase.session → Turn s { s with phase }
  | construct {c : Connection} {credentials : Credentials Providers.Identity} :
    s.phase = .constructing c credentials →
    Turn s { s with phase := .listing c s.nextSession, nextSession := s.nextSession + 1 }
  | replace {c : Connection} {session : Nat} {models : List ModelDescriptor} :
    s.phase = .replacing c session models →
    Turn s { s.dropActive with phase := .storing c session models }
  | store {c : Connection} {session : Nat} {models : List ModelDescriptor} :
    s.phase = .storing c session models → Turn s (s.store ⟨c.profile.id, session, models⟩)

variable {s t : ProviderManager}

theorem turn_fail {e : TranslationError} (h : s.phase.isBefore) : Turn s (s.fail e) :=
  .finish h nofun

theorem answer_turn {result : Except TranslationError Str} (h : s.answerStep result = some t) :
    Turn s t := by
  unfold ProviderManager.answerStep at h
  split at h
  · rename_i c field fields credentials hphase
    have hb : s.phase.isBefore := by
      rw [hphase]
      rfl
    split at h
    · cases h
    · split at h
      · cases h
        exact turn_fail hb
      · split at h <;> cases h
        · exact turn_fail hb
        · exact .goOn hb rfl (by rw [hphase]; rfl) (by rw [hphase]; rfl)
  · cases h

theorem list_turn {models : Except TranslationError (List ModelDescriptor)}
    (h : s.listStep models = some t) : Turn s t := by
  unfold ProviderManager.listStep at h
  split at h
  · rename_i c session hphase
    have hb : s.phase.isBefore := by
      rw [hphase]
      rfl
    split at h <;> cases h
    · exact turn_fail hb
    · exact .goOn hb rfl (by rw [hphase]; rfl) (by rw [hphase]; rfl)
  · cases h

theorem advance_turn (h : s.advanceStep = some t) : Turn s t := by
  have hbefore : ∀ {phase : Phase}, s.phase = phase → phase.isBefore → s.phase.isBefore :=
    fun hp hb => hp ▸ hb
  have hgoOn : ∀ {phase phase' : Phase}, s.phase = phase → phase.isBefore → phase'.isBefore →
      phase'.profile = phase.profile → phase'.session = phase.session →
      Turn s { s with phase := phase' } := by
    rintro phase phase' rfl hb hb' hprofile hsession
    exact .goOn hb hb' hprofile hsession
  unfold ProviderManager.advanceStep at h
  split at h
  · rename_i hphase
    split at h <;> cases h
    · exact turn_fail (hbefore hphase rfl)
    · exact hgoOn hphase rfl rfl rfl rfl
  · rename_i hphase
    split at h <;> cases h
    · exact turn_fail (hbefore hphase rfl)
    · exact hgoOn hphase rfl rfl rfl rfl
  · rename_i hphase
    split at h <;> cases h
    exact hgoOn hphase rfl rfl rfl rfl
  · rename_i hphase
    split at h <;> cases h
    · exact turn_fail (hbefore hphase rfl)
    · exact .construct hphase
  · rename_i hphase
    split at h <;> cases h
    exact turn_fail (hbefore hphase rfl)
  · rename_i hphase
    split at h
    · cases h
      exact turn_fail (hbefore hphase rfl)
    · split at h <;> cases h
      · exact turn_fail (hbefore hphase rfl)
      · exact hgoOn hphase rfl rfl rfl rfl
  · rename_i hphase
    cases h
    exact .replace hphase
  · rename_i hphase
    cases h
    exact .store hphase
  · cases h

theorem abandon_turn (h : s.abandonStep = some t) : Turn s t := by
  unfold ProviderManager.abandonStep at h
  split at h
  · rename_i hphase
    split at h <;> cases h
    exact .finish (by rw [hphase]; rfl) nofun
  · rename_i hphase
    cases h
    exact .finish (by rw [hphase]; rfl) nofun
  · rename_i hphase
    cases h
    exact .finish (by rw [hphase]; rfl) nofun
  · cases h

theorem step_turn {a : Action} (h : step s a = some t) : Turn s t := by
  cases a with
  | connect profile cancellation =>
    simp only [step] at h
    split at h <;> cases h
    rename_i hphase
    exact .begin profile cancellation hphase
  | disconnect =>
    simp only [step] at h
    split at h <;> cases h
    rename_i hphase
    exact .disconnect hphase
  | cancel cancellation =>
    cases h
    exact .cancel _
  | answer result => exact answer_turn h
  | list models => exact list_turn h
  | advance => exact advance_turn h
  | abandon => exact abandon_turn h

/-! ## Sessions -/

/-- The invariant of a run: what becomes of the sessions. -/
structure Accounted (s : ProviderManager) : Prop where
  /-- Sessions are closed in the order in which they became active. -/
  closed : s.activated = s.closed ++ s.session.toList
  sessions : (s.activated ++ s.dropped ++ s.phase.session.toList).Perm (List.range s.nextSession)
  storing : s.phase.isStoring → s.active = none

theorem accounted_new : Accounted .new where
  closed := rfl
  sessions := .refl _
  storing := nofun

theorem accounted_turn (h : Accounted s) (ht : Turn s t) : Accounted t := by
  cases ht with
  | cancel => exact ⟨h.closed, h.sessions, h.storing⟩
  | begin _ _ hphase =>
    refine ⟨h.closed, ?_, nofun⟩
    have hsessions := h.sessions
    rw [hphase] at hsessions
    exact hsessions
  | disconnect hphase =>
    refine ⟨?_, h.sessions, fun _ => rfl⟩
    show s.activated = (s.closed ++ s.session.toList) ++ []
    rw [List.append_nil]
    exact h.closed
  | finish =>
    refine ⟨h.closed, ?_, nofun⟩
    show (s.activated ++ (s.dropped ++ s.phase.session.toList) ++ []).Perm _
    rw [List.append_nil, ← List.append_assoc]
    exact h.sessions
  | @goOn phase _ hb _ hsession =>
    refine ⟨h.closed, ?_, fun hs => ?_⟩
    · show (s.activated ++ s.dropped ++ phase.session.toList).Perm _
      rw [hsession]
      exact h.sessions
    · have hs : phase.isStoring := hs
      rw [not_storing hb] at hs
      cases hs
  | construct hphase =>
    refine ⟨h.closed, ?_, nofun⟩
    have hsessions := h.sessions
    rw [hphase] at hsessions
    show (s.activated ++ s.dropped ++ [s.nextSession]).Perm (List.range (s.nextSession + 1))
    rw [List.range_succ]
    exact (List.append_nil _ ▸ hsessions).append_right _
  | replace hphase =>
    refine ⟨?_, ?_, fun _ => rfl⟩
    · show s.activated = (s.closed ++ s.session.toList) ++ []
      rw [List.append_nil]
      exact h.closed
    · have hsessions := h.sessions
      rw [hphase] at hsessions
      exact hsessions
  | @store c session models hphase =>
    have hnone := h.storing (by rw [hphase]; rfl)
    refine ⟨?_, ?_, nofun⟩
    · show s.activated ++ [session] = s.closed ++ [session]
      rw [h.closed]
      unfold ProviderManager.session
      rw [hnone]
      simp
    · have hsessions := h.sessions
      rw [hphase] at hsessions
      show (s.activated ++ [session] ++ s.dropped ++ []).Perm _
      rw [List.append_nil]
      refine List.Perm.trans ?_ hsessions
      rw [List.append_assoc, List.append_assoc]
      exact List.perm_append_comm.append_left _

theorem accounted_reach {ok : ProviderManager → Action → Prop} (h : Reach step ok .new s) :
    Accounted s :=
  h.invariant accounted_new fun _ _ _ ht _ hs => accounted_turn ht (step_turn hs)

/-! ## One call -/

/-- A call of `connect` is in progress, and nothing that the host sees has changed since `s`. -/
structure Begun (s : ProviderManager) (profile : ProviderProfile) (t : ProviderManager) : Prop where
  active : t.active = s.active
  closed : t.closed = s.closed
  next : s.nextSession ≤ t.nextSession
  profile : t.phase.profile = some profile
  session : ∀ session, t.phase.session = some session → s.nextSession ≤ session

/-- What a call that returned leaves: the old provider, or its own. -/
def Ended (s : ProviderManager) (profile : ProviderProfile) (t : ProviderManager) : Prop :=
  match t.last with
  | some (.ok models) => ∃ session, s.nextSession ≤ session ∧
      t.active = some ⟨profile.id, session, models⟩ ∧ t.closed = s.closed ++ s.session.toList
  | _ => t.active = s.active ∧ t.closed = s.closed

/-- The old provider was dropped. -/
structure Replaced (s : ProviderManager) (profile : ProviderProfile) (t : ProviderManager)
    (c : Connection) (session : Nat) : Prop where
  closed : t.closed = s.closed ++ s.session.toList
  profile : c.profile = profile
  session : s.nextSession ≤ session

/-- How far a call is since `s`. -/
def During (s : ProviderManager) (profile : ProviderProfile) (t : ProviderManager) : Prop :=
  match t.phase with
  | .idle => Ended s profile t
  | .storing c session _ => Replaced s profile t c session
  | _ => Begun s profile t

variable {profile : ProviderProfile} {t' : ProviderManager}

theorem during_before (hb : t.phase.isBefore) : During s profile t ↔ Begun s profile t := by
  unfold During
  split
  · rename_i hphase
    rw [hphase] at hb
    cases hb
  · rename_i hphase
    rw [hphase] at hb
    cases hb
  · rfl

theorem during_turn (h : During s profile t) (hcall : t.phase ≠ .idle) (ht : Turn t t') :
    During s profile t' := by
  cases ht with
  | cancel =>
    unfold During at *
    split at h
    · rename_i hphase
      exact absurd hphase hcall
    · rename_i c session _ hphase
      simp only [hphase]
      exact ⟨h.closed, h.profile, h.session⟩
    · exact ⟨h.active, h.closed, h.next, h.profile, h.session⟩
  | begin _ _ hphase => exact absurd hphase hcall
  | disconnect hphase => exact absurd hphase hcall
  | finish hb hfailed =>
    have h := (during_before hb).mp h
    show Ended s profile (t.finish _)
    unfold Ended
    split
    · rename_i hlast
      exact absurd hlast (hfailed _)
    · exact ⟨h.active, h.closed⟩
  | goOn hb hb' hprofile hsession =>
    have h := (during_before hb).mp h
    refine (during_before hb').mpr ⟨h.active, h.closed, h.next, hprofile.trans h.profile, ?_⟩
    exact fun session hs => h.session session (hsession ▸ hs)
  | construct hphase =>
    have h := (during_before (by rw [hphase]; rfl)).mp h
    refine (during_before rfl).mpr ⟨h.active, h.closed, Nat.le_succ_of_le h.next, ?_, ?_⟩
    · exact (congrArg Phase.profile hphase).symm.trans h.profile
    · rintro session ⟨⟩
      exact h.next
  | replace hphase =>
    have h := (during_before (by rw [hphase]; rfl)).mp h
    refine ⟨?_, ?_, h.session _ (congrArg Phase.session hphase)⟩
    · show t.closed ++ t.session.toList = _
      rw [h.closed, ProviderManager.session, h.active]
      rfl
    · exact Option.some.inj ((congrArg Phase.profile hphase).symm.trans h.profile)
  | @store c session models hphase =>
    have h : Replaced s profile t c session := by
      unfold During at h
      rw [hphase] at h
      exact h
    refine ⟨_, h.session, ?_, h.closed⟩
    show some _ = some _
    rw [h.profile]

def Phase.isIdle : Phase → Bool
  | .idle => true
  | _ => false

/-- The steps of one call. -/
def InCall (s : ProviderManager) (_ : Action) : Prop := s.phase.isIdle = false

/-- What holds in a state of a run. -/
structure Atomic (s : ProviderManager) : Prop where
  /-- The active session is the only one that became active and is not closed. -/
  oneOpen : ∀ session, session ∈ s.activated → session ∉ s.closed → s.session = some session
  closedOnce : s.closed.Nodup
  /-- Between the calls every session is active, closed, or was dropped before it became active. -/
  unleaked : s.phase = .idle → ∀ session < s.nextSession,
    session ∈ s.closed ∨ session ∈ s.dropped ∨ s.session = some session
  /-- A call that returns a list of models has made its provider active and closed the old
  session; one that fails or is dropped has changed nothing. -/
  connect : ∀ profile cancellation s₁ t, step s (.connect profile cancellation) = some s₁ →
    Reach step InCall s₁ t → t.phase = .idle → Ended s profile t
  disconnect : ∀ t, step s .disconnect = some t →
    t.active = none ∧ t.closed = s.closed ++ s.session.toList

theorem connect_ended {cancellation : Token} {s₁ : ProviderManager}
    (hs : step s (.connect profile cancellation) = some s₁) (hrun : Reach step InCall s₁ t)
    (ht : t.phase = .idle) : Ended s profile t := by
  have hbegun : During s profile s₁ := by
    simp only [step] at hs
    split at hs <;> cases hs
    exact ⟨rfl, rfl, Nat.le_refl _, rfl, nofun⟩
  have hduring : During s profile t := by
    refine hrun.invariant (I := During s profile) hbegun fun t a t' h hcall hstep => ?_
    refine during_turn h (fun hidle => ?_) (step_turn hstep)
    rw [InCall, hidle] at hcall
    cases hcall
  unfold During at hduring
  rw [ht] at hduring
  exact hduring

/-- Along every run of calls, whatever fails and whenever it is cancelled or dropped. -/
theorem connect_atomic (h : Reach step (fun _ _ => True) .new s) : Atomic s := by
  have haccounted := accounted_reach h
  have hnodup : (s.activated ++ s.dropped ++ s.phase.session.toList).Nodup :=
    haccounted.sessions.nodup_iff.mpr List.nodup_range
  have honce : s.activated.Nodup := (List.nodup_append.mp (List.nodup_append.mp hnodup).1).1
  refine ⟨fun session ha hc => ?_, ?_, fun hidle session hlt => ?_, ?_, ?_⟩
  · rw [haccounted.closed] at ha
    exact Option.mem_toList.mp ((List.mem_append.mp ha).resolve_left hc)
  · rw [haccounted.closed] at honce
    exact (List.nodup_append.mp honce).1
  · have hmem := haccounted.sessions.mem_iff.mpr (List.mem_range.mpr hlt)
    rw [hidle, haccounted.closed] at hmem
    rcases List.mem_append.mp hmem with hmem | hmem
    · rcases List.mem_append.mp hmem with hmem | hdropped
      · exact (List.mem_append.mp hmem).imp id fun h => .inr (Option.mem_toList.mp h)
      · exact .inr (.inl hdropped)
    · cases hmem
  · exact fun _ _ _ _ hs hrun ht => connect_ended hs hrun ht
  · intro t hs
    simp only [step] at hs
    split at hs <;> cases hs
    exact ⟨rfl, rfl⟩

end Model

/-! ## Three calls -/

section Calls

/-- One address, and providers that take every configuration. -/
local instance connectUrls : Urls :=
  Storage.oneUrl "https://api.example/".toList "https://api.example/".toList "api.example".toList

local instance connectUuids : Uuids := Storage.oneUuid

local instance connectProviders : Providers where
  Identity := Unit
  ollamaEndpoint _ := .ok ()
  anthropicEndpoint _ := .ok ()
  geminiEndpoint _ := .ok ()
  openaiEndpoint _ := .ok ()
  azureEndpoint _ _ _ := .ok ()
  parseIdentity _ := .ok ()
  newProvider _ := .ok ()

def workProfile : ProviderProfile where
  id := Storage.work
  displayName := "work".toList
  presetId := "work".toList
  adapterType := Adapter.ollamaChat.asStr
  baseEndpoint := ⟨"https://api.example/".toList, "https://api.example/".toList, by decide⟩
  secretRef := none
  secretCustomHeadersRef := none
  userNotes := none
  organization := none
  project := none
  region := none
  accountIdentifier := none
  customHeaders := none
  proxyUrl := none
  proxyAuthRef := none
  requestTimeoutSecs := 60
  connectionTimeoutSecs := 10
  streamingIdleTimeoutSecs := 60
  trustedCertificatesPem := none
  clientCertificateIdentityRef := none
  enabled := true
  selectedModel := some "small".toList
  lastSuccessfulHealthCheck := none
  lastFailureCategory := none

/-- Two calls that succeed, and one that is cancelled while the models are listed. -/
def connectRun : List Action :=
  let listing (cancellation : Token) : List Action :=
    .connect workProfile cancellation :: List.replicate 7 .advance
  let connected : List Action := listing 0 ++ .list (.ok []) :: List.replicate 3 .advance
  connected ++ connected ++ listing 1 ++ [.cancel 1, .advance]

/-- The second provider is active, the first session is closed, and the third was dropped. -/
theorem connect_atomic_thrice :
    ∃ s, run step .new connectRun = some s ∧ s.session = some 1 ∧ s.closed = [0] ∧
      s.dropped = [2] ∧ Atomic s := by
  have h : (run step .new connectRun).any (fun s =>
      s.session = some 1 ∧ s.closed = [0] ∧ s.dropped = [2]) := by
    decide +kernel
  obtain ⟨s, hs, h⟩ := (Option.any_eq_true _ _).mp h
  obtain ⟨hsession, hclosed, hdropped⟩ := of_decide_eq_true h
  have hreach := Reach.of_run hs (meets_of_forall (fun _ _ => trivial) _)
  exact ⟨s, hs, hsession, hclosed, hdropped, connect_atomic hreach⟩

end Calls

end LinguaMesh.Application
