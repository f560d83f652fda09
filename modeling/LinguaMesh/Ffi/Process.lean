import LinguaMesh.Ffi.HostEvents

/-!
# The engines of a process

The handles of all engines are in one registry. A call looks its handle up and goes on with
the engine that it finds, which lives until the call is over, whatever becomes of the handle. The
calls with a message look the handle up a second time, when the message is decoded.

As long as the counter of the handles has not wrapped, no handle is given twice (`Registered`).
Then each engine runs as if it were alone, and to it `lm_engine_destroy` is a shutdown
(`engine_alone`); and a handle that is destroyed is never found again (`destroyed_forever`).
-/

namespace LinguaMesh.Ffi

open Runs

/-! ## The registry -/

inductive AbiCall where
  | create
  | submit (message : Message)
  | sendHostResponse (message : Message)
  | cancel
  | poll
  | shutdown
  | destroy
  deriving DecidableEq

/-- What the call is to its engine. `lm_engine_create` has none. -/
def AbiCall.host : AbiCall → HostCall
  | submit message => .submit message
  | sendHostResponse message => .sendHostResponse message
  | cancel => .cancel
  | poll => .poll
  | create | shutdown | destroy => .shutdown

/-- The call looks its handle up twice. -/
def AbiCall.hasMessage : AbiCall → Bool
  | submit _ | sendHostResponse _ => true
  | _ => false

/-- How far a call has come. An engine has the name of the call that created it. -/
inductive AbiPhase (C : Type) where
  | idle
  | called (handle : Nat)
  /-- `lm_engine_create` has an engine without a handle. -/
  | built
  | numbered (handle : Nat)
  | created (handle : Nat)
  /-- In `decode_protocol_input`. -/
  | reading (handle : Nat) (engine : C)
  /-- The message is decoded, and the engine is let go. -/
  | read (handle : Nat) (envelope : Envelope)
  | inside (handle : Nat) (engine : C)
  /-- Returned without an engine. -/
  | refused (code : LmResultCode)
  deriving DecidableEq

structure Process (C : Type) where
  /-- How often `NEXT_ENGINE_HANDLE` was raised. -/
  raised : Nat
  registry : Nat → Option C
  engines : C → State C
  phase : C → AbiPhase C

/-- The calls of a process, whether the runtime of an engine can be built, and the width of a handle. -/
structure ProcessSetup (C : Type) where
  calls : C → AbiCall
  requestId : C → Str
  builds : C → Bool
  usizeBits : Nat

inductive ProcessAction (C : Type) where
  | call (k : C) (handle : Nat)
  | advance (k : C)
  /-- A task of the engine. -/
  | engine (e : C) (action : Action C)

namespace ProcessSetup

variable {C : Type}

def engine (setup : ProcessSetup C) : Setup C := ⟨fun k => (setup.calls k).host, setup.requestId⟩

/-- `NEXT_ENGINE_HANDLE` -/
def nextHandle (setup : ProcessSetup C) (raised : Nat) : Nat := (1 + raised) % 2 ^ setup.usizeBits

end ProcessSetup

namespace Process

variable {C : Type} (p : Process C)

def initial (C : Type) : Process C := ⟨0, fun _ => none, fun _ => Ffi.initial C, fun _ => .idle⟩

def engineRef (handle : Nat) : Option C := if handle = 0 then none else p.registry handle

variable [DecidableEq C]

def setPhase (k : C) (phase : AbiPhase C) : Process C :=
  { p with phase := Function.update p.phase k phase }

def setEngine (e : C) (s : State C) : Process C := { p with engines := Function.update p.engines e s }

def register (handle : Nat) (engine : Option C) : Process C :=
  { p with registry := Function.update p.registry handle engine }

@[simp] theorem setPhase_self (k : C) (phase : AbiPhase C) : (p.setPhase k phase).phase k = phase :=
  Function.update_self ..

theorem setPhase_of_ne {k k' : C} (h : k' ≠ k) (phase : AbiPhase C) :
    (p.setPhase k phase).phase k' = p.phase k' := Function.update_of_ne h ..

@[simp] theorem setEngine_self (e : C) (s : State C) : (p.setEngine e s).engines e = s := Function.update_self ..

theorem setEngine_of_ne {e e' : C} (h : e' ≠ e) (s : State C) : (p.setEngine e s).engines e' = p.engines e' :=
  Function.update_of_ne h ..

/-- The call looks its handle up and goes on with the engine. -/
def lookUp (k : C) (handle : Nat) (found : C → Process C) : Process C :=
  match p.engineRef handle with
  | none => p.setPhase k (.refused .invalidArgument)
  | some e => found e

end Process

section Steps

variable [Boundary] {C : Type} [DecidableEq C] (setup : ProcessSetup C)

/-- The next step of a call. -/
def abiStep (p : Process C) (k : C) : Option (Process C) :=
  match p.phase k with
  | .called handle => match setup.calls k with
    | .create => some (p.setPhase k (if setup.builds k then .built else .refused .internal))
    | .submit _ | .sendHostResponse _ => some (p.lookUp k handle fun e => p.setPhase k (.reading handle e))
    | .destroy => some (p.lookUp k handle fun e => (p.register handle none).setPhase k (.inside handle e))
    | .cancel | .poll | .shutdown => some (p.lookUp k handle fun e => p.setPhase k (.inside handle e))
  | .built =>
    let candidate := setup.nextHandle p.raised
    some ({ p with raised := p.raised + 1 }.setPhase k (if candidate = 0 then .built else .numbered candidate))
  | .numbered handle => some ((p.register handle (some k)).setPhase k (.created handle))
  | .reading handle e => (hostStep setup.engine (p.engines e) k).map fun s =>
    (p.setEngine e s).setPhase k (match s.host k with
      | .decoded envelope => .read handle envelope
      | _ => .inside handle e)
  | .read handle envelope => some (p.lookUp k handle fun e =>
    (p.setEngine e ((p.engines e).setHost k (.decoded envelope))).setPhase k (.inside handle e))
  | .inside _ e => (hostStep setup.engine (p.engines e) k).map (p.setEngine e)
  | .idle | .created _ | .refused _ => none

def processStep (p : Process C) : ProcessAction C → Option (Process C)
  | .call k handle => match p.phase k with
    | .idle => some (p.setPhase k (.called handle))
    | _ => none
  | .advance k => abiStep setup p k
  | .engine _ (.host _) => none
  | .engine e action => (step setup.engine (p.engines e) action).map (p.setEngine e)

/-! ## What a step can do -/

/-- The number that a call has taken for its engine. -/
def AbiPhase.number : AbiPhase C → Option Nat
  | .numbered handle | .created handle => some handle
  | _ => none

/-- The handle of a call, and the engine that it has. -/
def AbiPhase.engine : AbiPhase C → Option (Nat × C)
  | .reading handle e | .inside handle e => some (handle, e)
  | _ => none

/-- The call is about to look its handle up again. -/
def AbiPhase.isReading : AbiPhase C → Bool
  | .reading _ _ | .read _ _ => true
  | _ => false

/-- A step of a call by which nothing but its phase changes. -/
inductive PhaseStep (p : Process C) : ProcessAction C → C → AbiPhase C → Prop where
  | call {k : C} {handle : Nat} : p.phase k = .idle → PhaseStep p (.call k handle) k (.called handle)
  | build {k : C} {handle : Nat} : p.phase k = .called handle → setup.calls k = .create →
    PhaseStep p (.advance k) k .built
  | fail {k : C} {handle : Nat} : p.phase k = .called handle → setup.calls k = .create →
    PhaseStep p (.advance k) k (.refused .internal)
  | refuse {k : C} {handle : Nat} :
    p.phase k = .called handle ∧ setup.calls k ≠ .create ∨ (∃ envelope, p.phase k = .read handle envelope) →
    p.engineRef handle = none → PhaseStep p (.advance k) k (.refused .invalidArgument)
  | find {k e : C} {handle : Nat} {phase : AbiPhase C} : p.phase k = .called handle →
    setup.calls k ≠ .create → setup.calls k ≠ .destroy → p.engineRef handle = some e →
    phase = (if (setup.calls k).hasMessage then .reading handle e else .inside handle e) →
    PhaseStep p (.advance k) k phase

inductive ProcessStep (p : Process C) : ProcessAction C → Process C → Prop where
  | phase {a : ProcessAction C} {k : C} {phase : AbiPhase C} : PhaseStep setup p a k phase →
    ProcessStep p a (p.setPhase k phase)
  /-- The candidate 0 is skipped. -/
  | number {k : C} {phase : AbiPhase C} : p.phase k = .built →
    phase = (if setup.nextHandle p.raised = 0 then .built else .numbered (setup.nextHandle p.raised)) →
    ProcessStep p (.advance k) ({ p with raised := p.raised + 1 }.setPhase k phase)
  | create {k : C} {handle : Nat} : p.phase k = .numbered handle →
    ProcessStep p (.advance k) ((p.register handle (some k)).setPhase k (.created handle))
  | destroy {k e : C} {handle : Nat} : p.phase k = .called handle → setup.calls k = .destroy →
    p.engineRef handle = some e →
    ProcessStep p (.advance k) ((p.register handle none).setPhase k (.inside handle e))
  | host {k e : C} {handle : Nat} {s : State C} {phase : AbiPhase C} : (p.phase k).engine = some (handle, e) →
    hostStep setup.engine (p.engines e) k = some s →
    phase = .inside handle e ∨ p.phase k = .reading handle e ∧
      (∃ envelope, s.host k = .decoded envelope ∧ phase = .read handle envelope) →
    ProcessStep p (.advance k) ((p.setEngine e s).setPhase k phase)
  | again {k e : C} {handle : Nat} {envelope : Envelope} : p.phase k = .read handle envelope →
    p.engineRef handle = some e →
    ProcessStep p (.advance k)
      ((p.setEngine e ((p.engines e).setHost k (.decoded envelope))).setPhase k (.inside handle e))
  | engine {e : C} {action : Action C} {s : State C} : (∀ k, action ≠ .host k) →
    step setup.engine (p.engines e) action = some s → ProcessStep p (.engine e action) (p.setEngine e s)

variable {setup} {p p' : Process C}

omit [Boundary] in
theorem lookUp_cases {k : C} {handle : Nat} {found : C → Process C} :
    p.engineRef handle = none ∧ p.lookUp k handle found = p.setPhase k (.refused .invalidArgument) ∨
      ∃ e, p.engineRef handle = some e ∧ p.lookUp k handle found = found e := by
  unfold Process.lookUp
  cases p.engineRef handle with
  | none => exact .inl ⟨rfl, rfl⟩
  | some e => exact .inr ⟨e, rfl, rfl⟩

theorem abiStep_cases {k : C} (h : abiStep setup p k = some p') : ProcessStep setup p (.advance k) p' := by
  unfold abiStep at h
  split at h
  · rename_i handle hphase
    have hfind {phase : C → AbiPhase C} (hcreate : setup.calls k ≠ .create) (hdestroy : setup.calls k ≠ .destroy)
        (hfound : ∀ e, phase e = if (setup.calls k).hasMessage then .reading handle e else .inside handle e) :
        ProcessStep setup p (.advance k) (p.lookUp k handle fun e => p.setPhase k (phase e)) := by
      rcases lookUp_cases (p := p) (k := k) with ⟨hnone, heq⟩ | ⟨e, he, heq⟩
      · rw [heq]
        exact .phase (.refuse (.inl ⟨hphase, hcreate⟩) hnone)
      · rw [heq]
        exact .phase (.find hphase hcreate hdestroy he (hfound e))
    split at h
    · rename_i hcall
      cases h
      cases setup.builds k with
      | false => exact .phase (.fail hphase hcall)
      | true => exact .phase (.build hphase hcall)
    · rename_i hcall
      cases h
      exact hfind (by rw [hcall]; nofun) (by rw [hcall]; nofun) fun e => by rw [hcall]; rfl
    · rename_i hcall
      cases h
      exact hfind (by rw [hcall]; nofun) (by rw [hcall]; nofun) fun e => by rw [hcall]; rfl
    · rename_i hcall
      cases h
      rcases lookUp_cases (p := p) (k := k) with ⟨hnone, heq⟩ | ⟨e, he, heq⟩
      · rw [heq]
        exact .phase (.refuse (.inl ⟨hphase, by rw [hcall]; nofun⟩) hnone)
      · rw [heq]
        exact .destroy hphase hcall he
    all_goals
      rename_i hcall
      cases h
      exact hfind (by rw [hcall]; nofun) (by rw [hcall]; nofun) fun e => by rw [hcall]; rfl
  · rename_i hphase
    cases h
    exact .number hphase rfl
  · rename_i handle hphase
    cases h
    exact .create hphase
  · rename_i handle e hphase
    obtain ⟨s, hs, rfl⟩ := Option.map_eq_some_iff.mp h
    refine .host (by rw [hphase]; rfl) hs ?_
    split
    · rename_i envelope hhost
      exact .inr ⟨hphase, envelope, hhost, rfl⟩
    · exact .inl rfl
  · rename_i handle envelope hphase
    cases h
    rcases lookUp_cases (p := p) (k := k) with ⟨hnone, heq⟩ | ⟨e, he, heq⟩
    · rw [heq]
      exact .phase (.refuse (.inr ⟨envelope, hphase⟩) hnone)
    · rw [heq]
      exact .again hphase he
  · rename_i handle e hphase
    obtain ⟨s, hs, rfl⟩ := Option.map_eq_some_iff.mp h
    have hsame : p.setEngine e s = (p.setEngine e s).setPhase k (.inside handle e) := by
      have hkept : Function.update p.phase k (.inside handle e) = p.phase := by
        rw [← hphase, Function.update_eq_self]
      unfold Process.setPhase Process.setEngine
      rw [hkept]
    rw [hsame]
    exact .host (by rw [hphase]; rfl) hs (.inl rfl)
  · cases h
  · cases h
  · cases h

theorem processStep_cases {a : ProcessAction C} (h : processStep setup p a = some p') : ProcessStep setup p a p' := by
  cases a with
  | call k handle =>
    dsimp only [processStep] at h
    split at h
    · rename_i hphase
      cases h
      exact .phase (.call hphase)
    · cases h
  | advance k => exact abiStep_cases h
  | engine e action =>
    cases action with
    | host k => cases h
    | task | request | work =>
      obtain ⟨s, hs, rfl⟩ := Option.map_eq_some_iff.mp h
      exact .engine nofun hs

/-- Only its own steps move a call of the host. -/
theorem host_step {setup : Setup C} {s s' : State C} {a : Action C} {k : C} (hs : Step setup s a s')
    (ha : a ≠ .host k) : s'.host k = s.host k := by
  have hupdate {k' : C} {phase : HostPhase C} (ha : Action.host k' ≠ .host k) :
      Function.update s.host k' phase k = s.host k :=
    Function.update_of_ne (fun he => ha (congrArg Action.host he.symm)) ..
  cases hs with
  | advance | unlock | spawn | openDirect | openSecret | poll | flag | take | answer | refuse => exact hupdate ha
  | cancel | shutdown =>
    rw [State.cancelActive_eq]
    exact hupdate ha
  | _ => rfl

/-- What a step makes of the phase of a call. -/
inductive CallMoves (setup : ProcessSetup C) (p : Process C) (a : ProcessAction C) (p' : Process C) (k : C) :
    AbiPhase C → Prop where
  | stay : ((p.phase k).isReading = true → ∀ e, (p'.engines e).host k = (p.engines e).host k) →
    CallMoves setup p a p' k (p.phase k)
  | call {handle : Nat} : a = .call k handle → p.phase k = .idle → CallMoves setup p a p' k (.called handle)
  | build {handle : Nat} {phase : AbiPhase C} : p.phase k = .called handle → setup.calls k = .create →
    phase = .built ∨ phase = .refused .internal → CallMoves setup p a p' k phase
  | number : a = .advance k → p.phase k = .built → p'.raised = p.raised + 1 → setup.nextHandle p.raised ≠ 0 →
    CallMoves setup p a p' k (.numbered (setup.nextHandle p.raised))
  | create {handle : Nat} : p.phase k = .numbered handle → CallMoves setup p a p' k (.created handle)
  | refuse {handle : Nat} : p.phase k = .called handle ∧ setup.calls k ≠ .create ∨
      (∃ envelope, p.phase k = .read handle envelope) →
    p.engineRef handle = none → CallMoves setup p a p' k (.refused .invalidArgument)
  | find {handle : Nat} {e : C} {phase : AbiPhase C} : p.phase k = .called handle → setup.calls k ≠ .create →
    setup.calls k ≠ .destroy → p.engineRef handle = some e →
    phase = (if (setup.calls k).hasMessage then .reading handle e else .inside handle e) →
    CallMoves setup p a p' k phase
  | destroy {handle : Nat} {e : C} : a = .advance k → p.phase k = .called handle → setup.calls k = .destroy →
    p.engineRef handle = some e → p'.registry handle = none → CallMoves setup p a p' k (.inside handle e)
  | decode {handle : Nat} {e : C} {envelope : Envelope} : p.phase k = .reading handle e →
    (p'.engines e).host k = .decoded envelope → CallMoves setup p a p' k (.read handle envelope)
  | enter {handle : Nat} {e : C} : p.phase k = .reading handle e → CallMoves setup p a p' k (.inside handle e)
  | again {handle : Nat} {e : C} {envelope : Envelope} : p.phase k = .read handle envelope →
    p.engineRef handle = some e → CallMoves setup p a p' k (.inside handle e)

theorem call_moves {a : ProcessAction C} (hs : ProcessStep setup p a p') (k : C) :
    CallMoves setup p a p' k (p'.phase k) := by
  have hhost {e' : C} {s : State C} (hsame : s.host k = (p.engines e').host k) (e : C) :
      ((p.setEngine e' s).engines e).host k = (p.engines e).host k := by
    by_cases he : e = e'
    · subst he
      rwa [Process.setEngine_self]
    · rw [Process.setEngine_of_ne _ he]
  -- a step of a call moves that call alone
  have hcall {q : Process C} {k' : C} {phase : AbiPhase C} (hphase : q.phase = p.phase)
      (hkept : k ≠ k' → ∀ e, (q.engines e).host k = (p.engines e).host k)
      (hmoves : k = k' → CallMoves setup p a (q.setPhase k' phase) k phase) :
      CallMoves setup p a (q.setPhase k' phase) k ((q.setPhase k' phase).phase k) := by
    by_cases he : k = k'
    · subst he
      rw [Process.setPhase_self]
      exact hmoves rfl
    · rw [Process.setPhase_of_ne _ he, hphase]
      exact .stay fun _ => hkept he
  cases hs with
  | phase hmove =>
    refine hcall rfl (fun _ _ => rfl) fun he => ?_
    subst he
    cases hmove with
    | call hidle => exact .call rfl hidle
    | build hcalled hcreate => exact .build hcalled hcreate (.inl rfl)
    | fail hcalled hcreate => exact .build hcalled hcreate (.inr rfl)
    | refuse hseeks hnone => exact .refuse hseeks hnone
    | find hcalled hcreate hdestroy hfound hphase => exact .find hcalled hcreate hdestroy hfound hphase
  | @number k' phase hbuilt hphase =>
    refine hcall (q := { p with raised := p.raised + 1 }) rfl (fun _ _ => rfl) fun he => ?_
    subst he
    split at hphase
    · rw [hphase, ← hbuilt]
      exact .stay fun _ _ => rfl
    · rename_i hne
      rw [hphase]
      exact .number rfl hbuilt rfl hne
  | create hnumbered =>
    exact hcall (q := p.register _ _) rfl (fun _ _ => rfl) fun he => .create (he ▸ hnumbered)
  | @destroy k' e handle hcalled hdestroy hfound =>
    refine hcall (q := p.register _ _) rfl (fun _ _ => rfl) fun he => ?_
    subst he
    exact .destroy rfl hcalled hdestroy hfound (Function.update_self ..)
  | @host k' e handle s phase hengine hstep hphase =>
    refine hcall (q := p.setEngine e s) rfl (fun he => hhost ?_) fun he => ?_
    · exact host_step (hostStep_cases hstep) fun ha => he (Action.host.inj ha).symm
    · subst he
      rcases hphase with rfl | ⟨hreading, envelope, hdecoded, rfl⟩
      · cases hphase : p.phase k with
        | inside handle' e' =>
          rw [hphase] at hengine
          cases hengine
          rw [← hphase]
          exact .stay fun hreading => by rw [hphase] at hreading; cases hreading
        | reading handle' e' =>
          rw [hphase] at hengine
          cases hengine
          exact .enter hphase
        | _ =>
          rw [hphase] at hengine
          cases hengine
      · refine .decode hreading ?_
        change ((p.setEngine e s).engines e).host k = .decoded envelope
        rw [Process.setEngine_self, hdecoded]
  | @again k' e handle envelope hread hfound =>
    refine hcall (q := p.setEngine _ _) rfl (fun he => hhost (Function.update_of_ne he ..)) fun he => ?_
    subst he
    exact .again hread hfound
  | engine hne hstep => exact .stay fun _ => hhost (host_step (step_cases hstep) (hne k))

end Steps

/-! ## Handles -/

section Handles

variable [Boundary] {C : Type} [DecidableEq C] {setup : ProcessSetup C} {p p' : Process C} {a : ProcessAction C}

/-- No handle is given twice, and what has a handle has its engine. -/
structure Registered (setup : ProcessSetup C) (p : Process C) : Prop where
  numbers : ∀ k handle, (p.phase k).number = some handle → 0 < handle ∧ handle ≤ p.raised
  distinct : ∀ k k' handle, (p.phase k).number = some handle → (p.phase k').number = some handle → k = k'
  registered : ∀ handle e, p.registry handle = some e → p.phase e = .created handle
  found : ∀ k handle e, (p.phase k).engine = some (handle, e) → p.phase e = .created handle
  read : ∀ k handle envelope, p.phase k = .read handle envelope →
    ∃ e, p.phase e = .created handle ∧ (p.engines e).host k = .decoded envelope
  reading : ∀ k, (p.phase k).isReading = true → (setup.calls k).hasMessage = true
  /-- One call destroys an engine, and the handle is gone. -/
  destroyed : ∀ d handle e, setup.calls d = .destroy → (p.phase d).engine = some (handle, e) →
    p.registry handle = none ∧ ∀ d', setup.calls d' = .destroy → (p.phase d').engine = some (handle, e) → d' = d

omit [Boundary] [DecidableEq C] in
theorem registered_initial : Registered setup (.initial C) where
  numbers := nofun
  distinct := nofun
  registered := nofun
  found := nofun
  read := nofun
  reading := nofun
  destroyed := nofun

/-- A phase that its call does not leave. -/
def AbiPhase.isLast : AbiPhase C → Bool
  | .created _ | .refused _ | .inside _ _ => true
  | _ => false

theorem last_step {k : C} (hs : ProcessStep setup p a p') (hlast : (p.phase k).isLast = true) :
    p'.phase k = p.phase k := by
  have hm := call_moves hs k
  have hnot {phase : AbiPhase C} (hphase : p.phase k = phase) : phase.isLast = true := hphase ▸ hlast
  generalize p'.phase k = phase at hm ⊢
  cases hm with
  | stay => rfl
  | call _ h => cases hnot h
  | build h => cases hnot h
  | number _ h => cases hnot h
  | create h => cases hnot h
  | refuse h => rcases h with ⟨h, -⟩ | ⟨_, h⟩ <;> cases hnot h
  | find h => cases hnot h
  | destroy _ h => cases hnot h
  | decode h => cases hnot h
  | enter h => cases hnot h
  | again h => cases hnot h

theorem created_step {k : C} {handle : Nat} (hs : ProcessStep setup p a p') (hk : p.phase k = .created handle) :
    p'.phase k = .created handle := by
  rw [last_step hs (by rw [hk]; rfl), hk]

theorem raised_step (hs : ProcessStep setup p a p') : p.raised ≤ p'.raised := by
  cases hs with
  | number => exact Nat.le_succ _
  | _ => exact Nat.le_refl _

/-- A number is new only where the counter is raised. -/
theorem number_step {k : C} {handle : Nat} (hs : ProcessStep setup p a p')
    (hk : (p'.phase k).number = some handle) : (p.phase k).number = some handle ∨
      a = .advance k ∧ p'.raised = p.raised + 1 ∧ handle = setup.nextHandle p.raised := by
  have hm := call_moves hs k
  generalize p'.phase k = phase at hm hk
  cases hm with
  | stay => exact .inl hk
  | number ha _ hraised =>
    cases hk
    exact .inr ⟨ha, hraised, rfl⟩
  | create h =>
    rw [h]
    exact .inl hk
  | build _ _ hphase => rcases hphase with rfl | rfl <;> cases hk
  | find _ _ _ _ hphase =>
    rw [hphase] at hk
    split at hk <;> cases hk
  | _ => cases hk

theorem registry_step {handle : Nat} {e : C} (hs : ProcessStep setup p a p')
    (he : p'.registry handle = some e) : p.registry handle = some e ∨
      p.phase e = .numbered handle ∧ p'.phase e = .created handle := by
  cases hs with
  | @create k handle' hnumbered =>
    change Function.update p.registry handle' (some k) handle = some e at he
    rw [Function.update_apply] at he
    split at he
    · rename_i heq
      subst heq
      cases he
      exact .inr ⟨hnumbered, Process.setPhase_self ..⟩
    · exact .inl he
  | @destroy k _ handle' =>
    change Function.update p.registry handle' none handle = some e at he
    rw [Function.update_apply] at he
    split at he
    · cases he
    · exact .inl he
  | _ => exact .inl he

/-- A handle that is not registered stays so, except that of a call that creates an engine. -/
theorem unregistered_step {handle : Nat} (hs : ProcessStep setup p a p') (hnone : p.registry handle = none) :
    p'.registry handle = none ∨ ∃ e, p.phase e = .numbered handle := by
  cases he : p'.registry handle with
  | none => exact .inl rfl
  | some e =>
    rcases registry_step hs he with hold | ⟨hnumbered, -⟩
    · rw [hnone] at hold
      cases hold
    · exact .inr ⟨e, hnumbered⟩

omit [Boundary] [DecidableEq C] in
theorem engineRef_some {handle : Nat} {e : C} (h : p.engineRef handle = some e) : p.registry handle = some e := by
  unfold Process.engineRef at h
  split at h
  · cases h
  · exact h

/-- A call has the engine that it had, or the one that it has found. -/
theorem engine_step {k e : C} {handle : Nat} (hs : ProcessStep setup p a p')
    (hk : (p'.phase k).engine = some (handle, e)) :
    (p.phase k).engine = some (handle, e) ∨ p.registry handle = some e := by
  have hm := call_moves hs k
  generalize p'.phase k = phase at hm hk
  cases hm with
  | stay => exact .inl hk
  | find _ _ _ hfound hphase =>
    rw [hphase] at hk
    split at hk <;> cases hk <;> exact .inr (engineRef_some hfound)
  | destroy _ _ _ hfound =>
    cases hk
    exact .inr (engineRef_some hfound)
  | enter h =>
    rw [h]
    exact .inl hk
  | again _ hfound =>
    cases hk
    exact .inr (engineRef_some hfound)
  | build _ _ hphase => rcases hphase with rfl | rfl <;> cases hk
  | _ => cases hk

theorem reading_step {k : C} (hs : ProcessStep setup p a p') (hk : (p'.phase k).isReading = true) :
    (p.phase k).isReading = true ∨ (setup.calls k).hasMessage = true := by
  have hm := call_moves hs k
  generalize p'.phase k = phase at hm hk
  cases hm with
  | stay => exact .inl hk
  | find _ _ _ _ hphase =>
    cases hmessage : (setup.calls k).hasMessage with
    | false =>
      rw [hphase, hmessage] at hk
      cases hk
    | true => exact .inr rfl
  | decode h =>
    rw [h]
    exact .inl rfl
  | build _ _ hphase => rcases hphase with rfl | rfl <;> cases hk
  | _ => cases hk

/-- The second lookup of a call is for the engine that has decoded its message. -/
theorem read_step {k : C} {handle : Nat} {envelope : Envelope} (hs : ProcessStep setup p a p')
    (hk : p'.phase k = .read handle envelope) :
    (p.phase k = .read handle envelope ∧ ∀ e, (p'.engines e).host k = (p.engines e).host k) ∨
      ∃ e, (p.phase k).engine = some (handle, e) ∧ (p'.engines e).host k = .decoded envelope := by
  have hm := call_moves hs k
  rw [hk] at hm
  generalize hphase : AbiPhase.read handle envelope = phase at hm
  cases hm with
  | stay hkept => exact .inl ⟨rfl, hkept (by rw [← hphase]; rfl)⟩
  | find _ _ _ _ h =>
    rw [h] at hphase
    split at hphase <;> cases hphase
  | decode h hdecoded =>
    cases hphase
    exact .inr ⟨_, by rw [h]; rfl, hdecoded⟩
  | build _ _ h => rcases h with rfl | rfl <;> cases hphase
  | _ => cases hphase

/-- What `lm_engine_destroy` finds it takes out of the registry. -/
theorem destroy_step {d e : C} {handle : Nat} (hs : ProcessStep setup p a p') (hd : setup.calls d = .destroy)
    (hreading : (p.phase d).isReading = false) (hk : (p'.phase d).engine = some (handle, e)) :
    (p.phase d).engine = some (handle, e) ∨
      a = .advance d ∧ p.registry handle = some e ∧ p'.registry handle = none := by
  have hm := call_moves hs d
  generalize p'.phase d = phase at hm hk
  cases hm with
  | stay => exact .inl hk
  | find _ _ hdestroy => exact absurd hd hdestroy
  | destroy ha _ _ hfound hnone =>
    cases hk
    exact .inr ⟨ha, engineRef_some hfound, hnone⟩
  | enter h =>
    rw [h]
    exact .inl hk
  | again h =>
    rw [h] at hreading
    cases hreading
  | build _ _ hphase => rcases hphase with rfl | rfl <;> cases hk
  | _ => cases hk

theorem registered_step (h : Registered setup p) (hs : ProcessStep setup p a p')
    (hraised : p'.raised < 2 ^ setup.usizeBits) : Registered setup p' := by
  have hnew : p'.raised = p.raised + 1 → setup.nextHandle p.raised = p.raised + 1 := by
    intro heq
    unfold ProcessSetup.nextHandle
    rw [Nat.mod_eq_of_lt (by omega), Nat.add_comm]
  have hmono := raised_step hs
  have hnumber {handle : Nat} {e : C} (he : p.phase e = .created handle) : (p.phase e).number = some handle := by
    rw [he]
    rfl
  have hfound {k e : C} {handle : Nat} (hk : (p'.phase k).engine = some (handle, e)) :
      p.phase e = .created handle := by
    rcases engine_step hs hk with hold | hregistered
    · exact h.found k handle e hold
    · exact h.registered handle e hregistered
  refine ⟨fun k handle hk => ?_, fun k k' handle hk hk' => ?_, fun handle e he => ?_,
    fun k handle e hk => created_step hs (hfound hk), fun k handle envelope hk => ?_, fun k hk => ?_,
    fun d handle e hd hk => ?_⟩
  · rcases number_step hs hk with hold | ⟨-, hone, rfl⟩
    · have hbound := h.numbers k handle hold
      omega
    · have := hnew hone
      omega
  · rcases number_step hs hk with hold | ⟨ha, hone, rfl⟩
    · rcases number_step hs hk' with hold' | ⟨-, hone, rfl⟩
      · exact h.distinct k k' handle hold hold'
      · have hbound := h.numbers k _ hold
        have := hnew hone
        omega
    · rcases number_step hs hk' with hold' | ⟨ha', -⟩
      · have hbound := h.numbers k' _ hold'
        have := hnew hone
        omega
      · exact ProcessAction.advance.inj (ha.symm.trans ha')
  · rcases registry_step hs he with hold | ⟨-, hcreated⟩
    · exact created_step hs (h.registered handle e hold)
    · exact hcreated
  · rcases read_step hs hk with ⟨hold, hkept⟩ | ⟨e, hengine, hdecoded⟩
    · obtain ⟨e, hcreated, hdecoded⟩ := h.read k handle envelope hold
      exact ⟨e, created_step hs hcreated, (hkept e).trans hdecoded⟩
    · exact ⟨e, created_step hs (h.found k handle e hengine), hdecoded⟩
  · exact (reading_step hs hk).elim (h.reading k) id
  · -- the handle is gone when the call has taken the engine out
    have hgone {d : C} (hd : setup.calls d = .destroy) (hk : (p'.phase d).engine = some (handle, e)) :
        (p.phase d).engine = some (handle, e) ∨
          a = .advance d ∧ p.registry handle = some e ∧ p'.registry handle = none := by
      refine destroy_step hs hd ?_ hk
      by_contra hreading
      have hmessage := h.reading d (by simpa using hreading)
      rw [hd] at hmessage
      cases hmessage
    rcases hgone hd hk with hold | ⟨ha, hregistered, hnone⟩
    · obtain ⟨hnone, honce⟩ := h.destroyed d handle e hd hold
      constructor
      · rcases unregistered_step hs hnone with hnone | ⟨e', he'⟩
        · exact hnone
        · have hcreated := h.found d handle e hold
          have := h.distinct e' e handle (by rw [he']; rfl) (hnumber hcreated)
          rw [this, hcreated] at he'
          cases he'
      · intro d' hd' hk'
        rcases hgone hd' hk' with hold' | ⟨-, hregistered, -⟩
        · exact honce d' hd' hold'
        · rw [hnone] at hregistered
          cases hregistered
    · refine ⟨hnone, fun d' hd' hk' => ?_⟩
      rcases hgone hd' hk' with hold' | ⟨ha', -⟩
      · rw [(h.destroyed d' handle e hd' hold').1] at hregistered
        cases hregistered
      · exact ProcessAction.advance.inj (ha'.symm.trans ha)

theorem registered_reach {ok : Process C → ProcessAction C → Prop}
    (h : Reach (processStep setup) ok (.initial C) p) (hraised : p.raised < 2 ^ setup.usizeBits) :
    Registered setup p := by
  refine h.invariant (I := fun p => p.raised < 2 ^ setup.usizeBits → Registered setup p)
    (fun _ => registered_initial) (fun t a t' ih _ ht hraised => ?_) hraised
  have hs := processStep_cases ht
  exact registered_step (ih (Nat.lt_of_le_of_lt (raised_step hs) hraised)) hs hraised

theorem raised_run {actions : List (ProcessAction C)} (h : run (processStep setup) p actions = some p') :
    p.raised ≤ p'.raised := by
  induction actions generalizing p with
  | nil =>
    cases h
    exact Nat.le_refl _
  | cons a actions ih =>
    obtain ⟨t, ht, h⟩ := Option.bind_eq_some_iff.mp h
    exact Nat.le_trans (raised_step (processStep_cases ht)) (ih h)

/-- A call that has returned without an engine is over. -/
theorem refused_run {actions : List (ProcessAction C)} {k : C} {code : LmResultCode}
    (h : run (processStep setup) p actions = some p') (hk : p.phase k = .refused code) :
    p'.phase k = .refused code := by
  induction actions generalizing p with
  | nil =>
    cases h
    exact hk
  | cons a actions ih =>
    obtain ⟨t, ht, h⟩ := Option.bind_eq_some_iff.mp h
    refine ih h ?_
    rw [last_step (processStep_cases ht) (by rw [hk]; rfl), hk]

theorem registered_run {actions : List (ProcessAction C)} (hrun : run (processStep setup) (.initial C) actions = some p)
    (hraised : p.raised < 2 ^ setup.usizeBits) : Registered setup p :=
  registered_reach (.of_run hrun (meets_of_forall (fun _ _ => trivial) _)) hraised

/-! ## One engine -/

def Action.isHost : Action C → Bool
  | .host _ => true
  | _ => false

/-- What the tasks of an engine do in a run. -/
def engineActions (e : C) (actions : List (ProcessAction C)) : List (Action C) :=
  actions.filterMap fun
    | .engine e' action => if e' = e then some action else none
    | _ => none

/-- A step of the process is one of an engine, or it leaves the engine as it is. -/
theorem engine_move (h : Registered setup p) (hs : ProcessStep setup p a p') (e : C) :
    p'.engines e = p.engines e ∧ engineActions e [a] = [] ∨
      ∃ action, step setup.engine (p.engines e) action = some (p'.engines e) ∧
        engineActions e [a] = [action].filter (!·.isHost) := by
  have hkept {e' : C} {s : State C} (hne : e ≠ e') : (p.setEngine e' s).engines e = p.engines e :=
    Process.setEngine_of_ne _ hne _
  cases hs with
  | phase hmove => exact .inl ⟨rfl, by cases hmove <;> rfl⟩
  | number | create | destroy => exact .inl ⟨rfl, rfl⟩
  | @host k e' _ s _ _ hstep =>
    by_cases he : e = e'
    · subst he
      refine .inr ⟨.host k, ?_, rfl⟩
      change hostStep setup.engine (p.engines e) k = some ((p.setEngine e s).engines e)
      rw [Process.setEngine_self, hstep]
    · exact .inl ⟨hkept he, rfl⟩
  | @again k e' handle envelope hread hfound =>
    refine .inl ⟨?_, rfl⟩
    by_cases he : e = e'
    · subst he
      -- the handle still is that of the engine that has decoded the message
      obtain ⟨e', hcreated, hdecoded⟩ := h.read k handle envelope hread
      have hsame : e' = e := by
        refine h.distinct e' e handle (by rw [hcreated]; rfl) ?_
        rw [h.registered handle e (engineRef_some hfound)]
        rfl
      subst hsame
      change (p.setEngine e' _).engines e' = p.engines e'
      rw [Process.setEngine_self, ← hdecoded]
      unfold State.setHost
      rw [Function.update_eq_self]
    · exact hkept he
  | @engine e' action s hhost hstep =>
    by_cases he : e = e'
    · subst he
      refine .inr ⟨action, by rw [Process.setEngine_self, hstep], ?_⟩
      have haction : action.isHost = false := by
        cases action with
        | host k => exact absurd rfl (hhost k)
        | _ => rfl
      simp [engineActions, haction]
    · exact .inl ⟨hkept he, by simp [engineActions, Ne.symm he]⟩

theorem engine_run {actions : List (ProcessAction C)} (h : Registered setup p)
    (hrun : run (processStep setup) p actions = some p') (hraised : p'.raised < 2 ^ setup.usizeBits) (e : C) :
    ∃ as, run (step setup.engine) (p.engines e) as = some (p'.engines e) ∧
      as.filter (!·.isHost) = engineActions e actions := by
  induction actions generalizing p with
  | nil =>
    cases hrun
    exact ⟨[], rfl, rfl⟩
  | cons a actions ih =>
    obtain ⟨t, ht, hrun⟩ := Option.bind_eq_some_iff.mp hrun
    have hs := processStep_cases ht
    have hbound := Nat.lt_of_le_of_lt (raised_run hrun) hraised
    obtain ⟨as, has, htasks⟩ := ih (registered_step h hs hbound) hrun
    have happend : engineActions e (a :: actions) = engineActions e [a] ++ engineActions e actions :=
      List.filterMap_append (l := [a])
    rw [happend, ← htasks]
    rcases engine_move h hs e with ⟨hsame, hnone⟩ | ⟨action, hstep, hone⟩
    · rw [hsame] at has
      exact ⟨as, has, by rw [hnone]; rfl⟩
    · refine ⟨action :: as, ?_, ?_⟩
      · exact Option.bind_eq_some_iff.mpr ⟨t.engines e, hstep, has⟩
      · rw [hone, ← List.filter_append]
        rfl

/-- In a process whose counter of handles has not wrapped, each engine is in a state that it reaches alone, by a run
with the same steps of its tasks. There `lm_engine_destroy` is a shutdown. -/
theorem engine_alone {actions : List (ProcessAction C)} (hrun : run (processStep setup) (.initial C) actions = some p)
    (hraised : p.raised < 2 ^ setup.usizeBits) (e : C) :
    ∃ as, run (step setup.engine) (initial C) as = some (p.engines e) ∧
      as.filter (!·.isHost) = engineActions e actions :=
  engine_run registered_initial hrun hraised e

/-! ## A handle that is destroyed -/

/-- The call is yet to look the handle up. -/
def AbiPhase.Seeks (phase : AbiPhase C) (handle : Nat) : Prop :=
  phase = .called handle ∨ ∃ envelope, phase = .read handle envelope

theorem seeks_step {k : C} {handle : Nat} (hs : ProcessStep setup p a p') (hcall : setup.calls k ≠ .create)
    (hk : (p.phase k).Seeks handle) (hnone : p.registry handle = none) :
    p'.phase k = p.phase k ∨ p'.phase k = .refused .invalidArgument := by
  have hm := call_moves hs k
  have hseeks {phase : AbiPhase C} (hphase : p.phase k = phase) : phase.Seeks handle := hphase ▸ hk
  have hmissed {handle' : Nat} {e : C} (hsame : handle' = handle) (hfound : p.engineRef handle' = some e) :
      False := by
    rw [hsame] at hfound
    rw [engineRef_some hfound] at hnone
    cases hnone
  generalize p'.phase k = phase at hm ⊢
  cases hm with
  | stay => exact .inl rfl
  | refuse => exact .inr rfl
  | call _ h => rcases hseeks h with h | ⟨_, h⟩ <;> cases h
  | build _ hcreate => exact absurd hcreate hcall
  | number _ h => rcases hseeks h with h | ⟨_, h⟩ <;> cases h
  | create h => rcases hseeks h with h | ⟨_, h⟩ <;> cases h
  | find h _ _ hfound =>
    rcases hseeks h with h | ⟨_, h⟩
    · cases h
      exact (hmissed rfl hfound).elim
    · cases h
  | destroy _ h _ hfound =>
    rcases hseeks h with h | ⟨_, h⟩
    · cases h
      exact (hmissed rfl hfound).elim
    · cases h
  | decode h => rcases hseeks h with h | ⟨_, h⟩ <;> cases h
  | enter h => rcases hseeks h with h | ⟨_, h⟩ <;> cases h
  | again h hfound =>
    rcases hseeks h with h | ⟨_, h⟩
    · cases h
    · cases h
      exact (hmissed rfl hfound).elim

/-- What stays so when the call `d` has taken the engine out of the registry. -/
structure Destroyed (setup : ProcessSetup C) (d e : C) (handle : Nat) (p : Process C) : Prop where
  removed : ∀ handle, p.registry handle ≠ some e
  unregistered : p.registry handle = none
  given : ∀ k, p.phase k = .created handle → k = e
  once : ∀ d' handle', setup.calls d' = .destroy → p.phase d' = .inside handle' e → d' = d

omit [Boundary] [DecidableEq C] in
theorem Registered.destroyed_of_inside (h : Registered setup p) {d e : C} {handle : Nat}
    (hd : setup.calls d = .destroy) (hin : p.phase d = .inside handle e) : Destroyed setup d e handle p := by
  have hengine : (p.phase d).engine = some (handle, e) := by
    rw [hin]
    rfl
  have hcreated := h.found d handle e hengine
  have hnone := h.destroyed d handle e hd hengine
  have hname {handle' : Nat} (he : p.phase e = .created handle') : handle' = handle := by
    rw [hcreated] at he
    cases he
    rfl
  refine ⟨fun handle' he => ?_, hnone.1, fun k hk => ?_, fun d' handle' hd' hin' => ?_⟩
  · rw [hname (h.registered handle' e he), hnone.1] at he
    cases he
  · exact h.distinct k e handle (by rw [hk]; rfl) (by rw [hcreated]; rfl)
  · have hengine' : (p.phase d').engine = some (handle', e) := by
      rw [hin']
      rfl
    have hsame := hname (h.found d' handle' e hengine')
    exact hnone.2 d' hd' (hsame ▸ hengine')

/-- From the step on in which a call takes an engine out of the registry, the engine is not found under
any handle, no other call destroys it, its handle is not given to another engine, and every call with the
handle that is yet to look it up waits or is refused. -/
theorem destroyed_forever {actions later : List (ProcessAction C)} {d e : C} {handle : Nat}
    (hrun : run (processStep setup) (.initial C) actions = some p) (hd : setup.calls d = .destroy)
    (hin : p.phase d = .inside handle e) (hlater : run (processStep setup) p later = some p')
    (hraised : p'.raised < 2 ^ setup.usizeBits) :
    Destroyed setup d e handle p' ∧ ∀ k, setup.calls k ≠ .create → (p.phase k).Seeks handle →
      p'.phase k = p.phase k ∨ p'.phase k = .refused .invalidArgument := by
  have hregistered := registered_run hrun (Nat.lt_of_le_of_lt (raised_run hlater) hraised)
  clear hrun
  induction later generalizing p with
  | nil =>
    cases hlater
    exact ⟨hregistered.destroyed_of_inside hd hin, fun _ _ _ => .inl rfl⟩
  | cons a later ih =>
    obtain ⟨t, ht, hlater⟩ := Option.bind_eq_some_iff.mp hlater
    have hs := processStep_cases ht
    have hbound := Nat.lt_of_le_of_lt (raised_run hlater) hraised
    have hin' : t.phase d = .inside handle e := by rw [last_step hs (by rw [hin]; rfl), hin]
    obtain ⟨hgone, hrest⟩ := ih hin' hlater (registered_step hregistered hs hbound)
    refine ⟨hgone, fun k hk hseeks => ?_⟩
    rcases seeks_step hs hk hseeks (hregistered.destroyed_of_inside hd hin).unregistered with hsame | hrefused
    · rw [← hsame] at hseeks ⊢
      exact hrest k hk hseeks
    · exact .inr (refused_run hlater hrefused)

end Handles

/-! ## Two engines -/

section Bytes

local instance processBoundary : Boundary := byteBoundary

/-- Two engines. A submit has decoded its message when the first engine is destroyed, and a cancel comes after. -/
def staleCalls : ProcessSetup (Fin 5) where
  calls
    | 0 | 1 => .create
    | 2 => .submit [0, 65]
    | 3 => .destroy
    | 4 => .cancel
  requestId _ := ['A']
  builds _ := true
  usizeBits := 64

def createRun (k : Fin 5) : List (ProcessAction (Fin 5)) := .call k 0 :: List.replicate 3 (.advance k)

def staleRun : List (ProcessAction (Fin 5)) :=
  createRun 0 ++ createRun 1 ++
    [.call 2 1, .advance 2, .advance 2, .call 3 1, .call 4 1, .advance 3]

def staleRest : List (ProcessAction (Fin 5)) := [.advance 2, .advance 3, .advance 4, .advance 3]

theorem destroyed_forever_stale :
    ∃ p q, run (processStep staleCalls) (.initial _) staleRun = some p ∧
      run (processStep staleCalls) p staleRest = some q ∧ Destroyed staleCalls 3 0 1 q ∧
      (∀ k, staleCalls.calls k ≠ .create → (p.phase k).Seeks 1 →
        q.phase k = p.phase k ∨ q.phase k = .refused .invalidArgument) ∧
      q.phase 2 = .refused .invalidArgument ∧ q.phase 4 = .refused .invalidArgument ∧
      (q.engines 0).host 3 = .returned .ok := by
  have h : (run (processStep staleCalls) (.initial _) staleRun).any (fun p =>
      p.phase 3 = .inside 1 0 ∧ (run (processStep staleCalls) p staleRest).any (fun q =>
        q.raised < 2 ^ 64 ∧ q.phase 2 = .refused .invalidArgument ∧ q.phase 4 = .refused .invalidArgument ∧
          (q.engines 0).host 3 = .returned .ok)) := by
    decide +kernel
  obtain ⟨p, hp, h⟩ := (Option.any_eq_true _ _).mp h
  obtain ⟨hin, h⟩ := of_decide_eq_true h
  obtain ⟨q, hq, h⟩ := (Option.any_eq_true _ _).mp h
  obtain ⟨hraised, h⟩ := of_decide_eq_true h
  obtain ⟨hgone, hrest⟩ := destroyed_forever hp rfl hin hq hraised
  exact ⟨p, q, hp, hq, hgone, hrest, h⟩

/-- The second engine translates while the first one is destroyed. -/
def aloneRun : List (ProcessAction (Fin 5)) :=
  createRun 0 ++ createRun 1 ++ .call 2 2 :: List.replicate 5 (.advance 2) ++
    [.engine 1 (.work 2 (.started 0)), .call 3 1, .engine 1 (.task 2), .advance 3, .engine 1 (.task 2), .advance 3]

theorem engine_alone_second :
    ∃ p as, run (processStep staleCalls) (.initial _) aloneRun = some p ∧
      run (step staleCalls.engine) (initial _) as = some (p.engines 1) ∧
      as.filter (!·.isHost) = [.work 2 (.started 0), .task 2, .task 2] ∧
      (p.engines 1).events.map (·.2.messageType) = ["started"] := by
  have h : (run (processStep staleCalls) (.initial _) aloneRun).any (fun p =>
      p.raised < 2 ^ 64 ∧ (p.engines 1).events.map (·.2.messageType) = ["started"]) := by
    decide +kernel
  obtain ⟨p, hp, h⟩ := (Option.any_eq_true _ _).mp h
  obtain ⟨hraised, hevents⟩ := of_decide_eq_true h
  obtain ⟨as, has, htasks⟩ := engine_alone hp hraised 1
  exact ⟨p, as, hp, has, htasks, hevents⟩

end Bytes

end LinguaMesh.Ffi
