import LinguaMesh.Ffi.Owner

/-!
# The Kotlin wrapper

`LinguaMeshEngine` uses its handle under the read lock of `lifecycleLock`, and closes under the write
lock, which it keeps until the engine is destroyed. So when any call of `close` has returned
the engine is destroyed, while a second call in the Swift wrapper returns at once.

It refines the owner of a handle (`kotlin_refines`).
-/

namespace LinguaMesh.Ffi

open Runs

inductive KotlinPhase where
  | idle
  /-- Under the read lock. -/
  | inside
  /-- Under the write lock. -/
  | shutting (current : Nat)
  | destroying
  | thrown
  | returned
  deriving DecidableEq

structure KotlinEngine (K : Type) where
  /-- 0 once it is closed. -/
  handle : Nat
  readers : Nat
  writer : Option K
  phase : K → KotlinPhase

/-- The wrapper and the process that it is in. -/
structure Kotlin (K C : Type) where
  engine : KotlinEngine K
  process : Process C

/-- The calls of the wrapper: those of `close`, and those of `withHandle`. -/
structure KotlinSetup (K C : Type) extends OwnerSetup K C where
  closes : K → Bool

inductive KotlinAction (K C : Type) where
  | call (k : K)
  | process (action : ProcessAction C)

section Steps

variable [Boundary] {K C : Type} [DecidableEq K] [DecidableEq C] (setup : KotlinSetup K C)

def KotlinEngine.setPhase (w : KotlinEngine K) (k : K) (phase : KotlinPhase) : KotlinEngine K :=
  { w with phase := Function.update w.phase k phase }

namespace Kotlin

def setPhase (s : Kotlin K C) (k : K) (phase : KotlinPhase) : Kotlin K C := { s with engine := s.engine.setPhase k phase }

/-- A call of the ABI with the handle. -/
def abi (s : Kotlin K C) (c : C) (current : Nat) : Kotlin K C :=
  { s with process := s.process.setPhase c (.called current) }

end Kotlin

/-- The next section of a call. A lock that is not free is waited for. -/
def kotlinCall (s : Kotlin K C) (k : K) : Option (Kotlin K C) :=
  let current := s.engine.handle
  match s.engine.phase k with
  | .idle =>
    if s.engine.writer.isSome then none
    else if setup.closes k then
      if s.engine.readers ≠ 0 then none
      else if current = 0 then some (s.setPhase k .returned)
      else some (({ s with engine.handle := 0, engine.writer := some k }.setPhase k (.shutting current)).abi
        (setup.abi k .shut) current)
    else if current = 0 then some (s.setPhase k .thrown)
    else some (({ s with engine.readers := s.engine.readers + 1 }.setPhase k .inside).abi (setup.abi k .body) current)
  | .inside => (s.process.result (setup.abi k .body)).map fun _ =>
    { s with engine.readers := s.engine.readers - 1 }.setPhase k .returned
  | .shutting current => (s.process.result (setup.abi k .shut)).map fun _ =>
    (s.setPhase k .destroying).abi (setup.abi k .destroy) current
  | .destroying => (s.process.result (setup.abi k .destroy)).map fun _ =>
    { s with engine.writer := none }.setPhase k .returned
  | .thrown | .returned => none

def kotlinStep (s : Kotlin K C) : KotlinAction K C → Option (Kotlin K C)
  | .call k => kotlinCall setup s k
  | .process action => (processStep setup.process s.process action).map fun process => { s with process }

inductive KotlinStep (s : Kotlin K C) : KotlinAction K C → Kotlin K C → Prop where
  | process {action : ProcessAction C} {process : Process C} :
    processStep setup.process s.process action = some process → KotlinStep s (.process action) { s with process }
  | refuse {k : K} {phase : KotlinPhase} : s.engine.phase k = .idle → s.engine.writer = none → s.engine.handle = 0 →
    phase = .returned ∨ phase = .thrown ∧ setup.closes k = false → KotlinStep s (.call k) (s.setPhase k phase)
  | enter {k : K} : s.engine.phase k = .idle → setup.closes k = false → s.engine.writer = none → s.engine.handle ≠ 0 →
    KotlinStep s (.call k) (({ s with engine.readers := s.engine.readers + 1 }.setPhase k .inside).abi
      (setup.abi k .body) s.engine.handle)
  | leave {k : K} {code : LmResultCode} : s.engine.phase k = .inside →
    s.process.result (setup.abi k .body) = some code →
    KotlinStep s (.call k) ({ s with engine.readers := s.engine.readers - 1 }.setPhase k .returned)
  | take {k : K} : s.engine.phase k = .idle → s.engine.writer = none → s.engine.readers = 0 → s.engine.handle ≠ 0 →
    KotlinStep s (.call k) (({ s with engine.handle := 0, engine.writer := some k }.setPhase k
      (.shutting s.engine.handle)).abi (setup.abi k .shut) s.engine.handle)
  | destroy {k : K} {current : Nat} {code : LmResultCode} : s.engine.phase k = .shutting current →
    s.process.result (setup.abi k .shut) = some code →
    KotlinStep s (.call k) ((s.setPhase k .destroying).abi (setup.abi k .destroy) current)
  | finish {k : K} {code : LmResultCode} : s.engine.phase k = .destroying →
    s.process.result (setup.abi k .destroy) = some code →
    KotlinStep s (.call k) ({ s with engine.writer := none }.setPhase k .returned)

variable {setup} {s s' : Kotlin K C}

theorem kotlinStep_cases {a : KotlinAction K C} (h : kotlinStep setup s a = some s') : KotlinStep setup s a s' := by
  cases a with
  | process action =>
    obtain ⟨process, hp, rfl⟩ := Option.map_eq_some_iff.mp h
    exact .process hp
  | call k =>
    dsimp only [kotlinStep, kotlinCall] at h
    split at h
    · rename_i hidle
      split at h
      · cases h
      · rename_i hwriter
        have hfree : s.engine.writer = none := Option.not_isSome_iff_eq_none.mp hwriter
        split at h
        · split at h
          · cases h
          · rename_i hreaders
            split at h
            · rename_i hclosed
              cases h
              exact .refuse hidle hfree hclosed (.inl rfl)
            · rename_i hopen
              cases h
              exact .take hidle hfree (not_not.mp hreaders) hopen
        · rename_i hcloses
          split at h
          · rename_i hclosed
            cases h
            exact .refuse hidle hfree hclosed (.inr ⟨rfl, by simpa using hcloses⟩)
          · rename_i hopen
            cases h
            exact .enter hidle (by simpa using hcloses) hfree hopen
    · rename_i hinside
      obtain ⟨code, hcode, rfl⟩ := Option.map_eq_some_iff.mp h
      exact .leave hinside hcode
    · rename_i current hshutting
      obtain ⟨code, hcode, rfl⟩ := Option.map_eq_some_iff.mp h
      exact .destroy hshutting hcode
    · rename_i hdestroying
      obtain ⟨code, hcode, rfl⟩ := Option.map_eq_some_iff.mp h
      exact .finish hdestroying hcode
    · cases h
    · cases h

end Steps

/-! ## The lock -/

/-- A call of `close` has the write lock. -/
def KotlinPhase.isClosing : KotlinPhase → Bool
  | .shutting _ | .destroying => true
  | _ => false

section Lock

variable {K : Type}

/-- The invariant of the lock and the handle. -/
structure KotlinHeld (w : KotlinEngine K) : Prop where
  count : Tally w.readers fun k => w.phase k = .inside
  writer : ∀ k, (w.phase k).isClosing = true ↔ w.writer = some k
  /-- Nobody reads while the lock is written under, and the handle is gone. -/
  exclusive : w.writer.isSome = true → w.readers = 0 ∧ w.handle = 0

variable [DecidableEq K] {w : KotlinEngine K} {k : K} {phase : KotlinPhase}

theorem KotlinEngine.setPhase_self : (w.setPhase k phase).phase k = phase := Function.update_self ..

theorem KotlinEngine.setPhase_of_ne {k' : K} (h : k' ≠ k) : (w.setPhase k phase).phase k' = w.phase k' :=
  Function.update_of_ne h ..

/-- What holds of the phase that is set and of the others holds of all. -/
theorem KotlinEngine.forall_setPhase (P : K → KotlinPhase → Prop) (hnew : P k phase)
    (hold : ∀ k', k' ≠ k → P k' (w.phase k')) (k' : K) : P k' ((w.setPhase k phase).phase k') :=
  (Function.forall_update_iff w.phase P).mpr ⟨hnew, hold⟩ k'

/-- The calls with the locks after a step of one call. -/
theorem KotlinHeld.move (h : KotlinHeld w) (w' : KotlinEngine K) (hphases : w'.phase = w.phase)
    (hcount : Tally w'.readers fun k' => k' = k ∧ phase = .inside ∨ k' ≠ k ∧ w.phase k' = .inside)
    (hself : phase.isClosing = true ↔ w'.writer = some k)
    (hothers : ∀ k', k' ≠ k → (w.writer = some k' ↔ w'.writer = some k'))
    (hexclusive : w'.writer.isSome = true → w'.readers = 0 ∧ w'.handle = 0) : KotlinHeld (w'.setPhase k phase) where
  count := by
    refine hcount.congr (KotlinEngine.forall_setPhase (fun k' phase' => phase' = .inside ↔ _) ?_ fun k' he => ?_)
    · exact ⟨fun hinside => .inl ⟨rfl, hinside⟩, fun h => h.elim (·.2) fun h => absurd rfl h.1⟩
    · rw [hphases]
      exact ⟨fun hinside => .inr ⟨he, hinside⟩, fun h => h.elim (fun h => absurd h.1 he) (·.2)⟩
  writer := by
    refine KotlinEngine.forall_setPhase (fun k' phase' => phase'.isClosing = true ↔ w'.writer = some k') hself
      fun k' he => ?_
    rw [hphases, h.writer k']
    exact hothers k' he
  exclusive := hexclusive

end Lock

/-! ## The wrapper refines the owner -/

section Design

variable {K C : Type}

/-- What a phase is to the owner. -/
def KotlinPhase.owner : KotlinPhase → OwnerPhase
  | .idle => .outside
  | .inside => .inside
  | .shutting current => .shutting current
  | .destroying => .destroying
  | .thrown | .returned => .ended

def KotlinEngine.owner (w : KotlinEngine K) : Owner K :=
  ⟨if w.handle = 0 then none else some w.handle, fun k => (w.phase k).owner⟩

def Kotlin.owning (s : Kotlin K C) : Owning K C := ⟨s.engine.owner, s.process⟩

variable [Boundary] [DecidableEq K] [DecidableEq C] {setup : KotlinSetup K C} {handle : Nat} {s s' : Kotlin K C}

/-- What else goes on in the process. -/
def KotlinAllows (setup : KotlinSetup K C) (handle : Nat) (_ : Kotlin K C) : KotlinAction K C → Prop
  | .process action => setup.Allows handle action
  | _ => True

theorem kotlinHeld_step {a : KotlinAction K C} (h : KotlinHeld s.engine) (hs : KotlinStep setup s a s') :
    KotlinHeld s'.engine := by
  -- a call that is not inside, before and after
  have houtside {k : K} {phase : KotlinPhase} {count : Nat} (hk : s.engine.phase k ≠ .inside)
      (hphase : phase ≠ .inside) (hcount : count = s.engine.readers) :
      Tally count fun k' => k' = k ∧ phase = .inside ∨ k' ≠ k ∧ s.engine.phase k' = .inside := by
    subst hcount
    refine h.count.congr fun k' => ⟨fun hin => ?_, fun hin => .inr ⟨?_, hin⟩⟩
    · exact hin.elim (fun hin => absurd hin.2 hphase) (·.2)
    · rintro rfl
      exact hk hin
  have hnot {k : K} (hk : (s.engine.phase k).isClosing = false) : s.engine.writer ≠ some k := by
    intro hw
    rw [(h.writer k).mpr hw] at hk
    cases hk
  cases hs with
  | process => exact h
  | @refuse k phase hidle hfree hclosed hphase =>
    have hover : phase ≠ .inside ∧ phase.isClosing = false := by
      rcases hphase with rfl | ⟨rfl, -⟩ <;> exact ⟨nofun, rfl⟩
    refine h.move s.engine rfl (houtside (by rw [hidle]; nofun) hover.1 rfl) ?_ (fun _ _ => .rfl) h.exclusive
    rw [hover.2, hfree]
    exact iff_of_false nofun nofun
  | @enter k hidle _ hfree hopen =>
    refine h.move { s.engine with readers := s.engine.readers + 1 } rfl ?_ ?_ (fun _ _ => .rfl) fun hw => ?_
    · refine h.count.enter (k := k) (by rw [hidle]; nofun) fun k' => ?_
      by_cases he : k' = k
      · exact iff_of_true (.inl ⟨he, rfl⟩) (.inl he)
      · exact ⟨fun hin => hin.elim (fun hin => .inl hin.1) fun hin => .inr hin.2,
          fun hin => .inr ⟨he, hin.resolve_left he⟩⟩
    · exact iff_of_false nofun (hnot (by rw [hidle]; rfl))
    · rw [hfree] at hw
      cases hw
  | @leave k code hinside =>
    refine h.move { s.engine with readers := s.engine.readers - 1 } rfl ?_ ?_ (fun _ _ => .rfl) fun hw => ?_
    · exact h.count.leave hinside fun k' => ⟨fun hin => hin.elim (fun hin => nomatch hin.2) id, .inr⟩
    · exact iff_of_false nofun (hnot (by rw [hinside]; rfl))
    · obtain ⟨hreaders, hclosed⟩ := h.exclusive hw
      exact ⟨by show s.engine.readers - 1 = 0; omega, hclosed⟩
  | @take k hidle hfree hreaders hopen =>
    refine h.move { s.engine with handle := 0, writer := some k } rfl
      (houtside (by rw [hidle]; nofun) nofun rfl) (iff_of_true rfl rfl) (fun k' he => ?_) fun _ => ⟨hreaders, rfl⟩
    rw [hfree]
    exact iff_of_false nofun fun heq => he (Option.some.inj heq).symm
  | @destroy k current code hshutting =>
    refine h.move s.engine rfl (houtside (by rw [hshutting]; nofun) nofun rfl) ?_ (fun _ _ => .rfl) h.exclusive
    rw [← h.writer k, hshutting]
    exact .rfl
  | @finish k code hdestroying =>
    refine h.move { s.engine with writer := none } rfl (houtside (by rw [hdestroying]; nofun) nofun rfl)
      (iff_of_false nofun nofun) (fun k' he => iff_of_false (fun hw => ?_) nofun) nofun
    have hk := (h.writer k).mp (by rw [hdestroying]; rfl)
    exact he (Option.some.inj (hw.symm.trans hk))

omit [Boundary] [DecidableEq C] in
theorem kotlin_owning_setPhase (w : KotlinEngine K) (p : Process C) (k : K) (phase : KotlinPhase) :
    (⟨w.setPhase k phase, p⟩ : Kotlin K C).owning = ⟨w.owner.setPhase k phase.owner, p⟩ := by
  have hphase : (fun k' => ((w.setPhase k phase).phase k').owner) =
      Function.update (fun k' => (w.phase k').owner) k phase.owner := by
    funext k'
    by_cases he : k' = k
    · rw [he, KotlinEngine.setPhase_self, Function.update_self]
    · rw [KotlinEngine.setPhase_of_ne he, Function.update_of_ne he]
  unfold Kotlin.owning KotlinEngine.owner Owner.setPhase
  rw [hphase]
  rfl

/-- Each step of the wrapper is one of the owner. -/
theorem kotlin_refines {a : KotlinAction K C} (h : KotlinHeld s.engine) (hs : KotlinStep setup s a s')
    (hok : KotlinAllows setup handle s a) : OwnerStep setup.toOwnerSetup handle s.owning s'.owning := by
  have hphase {k : K} {phase : KotlinPhase} (hk : s.engine.phase k = phase) :
      s.owning.owner.phase k = phase.owner := congrArg KotlinPhase.owner hk
  have hseen {w : KotlinEngine K} {p : Process C} {k : K} {phase : KotlinPhase}
      (hstep : OwnerStep setup.toOwnerSetup handle s.owning ⟨w.owner.setPhase k phase.owner, p⟩) :
      OwnerStep setup.toOwnerSetup handle s.owning (Kotlin.owning ⟨w.setPhase k phase, p⟩) := by
    rw [kotlin_owning_setPhase]
    exact hstep
  have hcurrent (hopen : s.engine.handle ≠ 0) : s.owning.owner.handle = some s.engine.handle := if_neg hopen
  cases hs with
  | process ht => exact .process hok ht
  | @refuse k phase hidle _ _ hover =>
    have hstep : OwnerStep setup.toOwnerSetup handle s.owning _ := .refuse (hphase hidle)
    rcases hover with rfl | ⟨rfl, -⟩ <;> exact hseen hstep
  | enter hidle _ _ hopen => exact hseen (.enter (hcurrent hopen) (hphase hidle))
  | leave hinside hcode => exact hseen (.leave (hphase hinside) hcode)
  | @take k hidle _ hreaders hopen =>
    have hinside (k' : K) : s.owning.owner.phase k' ≠ .inside := by
      intro hk'
      refine (hreaders ▸ h.count).not_of_zero k' ?_
      change (s.engine.phase k').owner = .inside at hk'
      generalize s.engine.phase k' = phase at hk'
      cases phase <;> first | rfl | cases hk'
    exact hseen (w := { s.engine with handle := 0, writer := some k }) (.take (hcurrent hopen) (hphase hidle) hinside)
  | destroy hshutting hcode => exact hseen (.destroy (hphase hshutting) hcode)
  | finish hdestroying hcode => exact hseen (.finish (hphase hdestroying) hcode)

/-! ## Runs of the wrapper -/

def KotlinEngine.initial (K : Type) (handle : Nat) : KotlinEngine K := ⟨handle, 0, none, fun _ => .idle⟩

omit [Boundary] [DecidableEq K] in
theorem kotlinHeld_initial : KotlinHeld (KotlinEngine.initial K handle) where
  count := .none nofun
  writer _ := iff_of_false nofun nofun
  exclusive := nofun

/-- The engine is destroyed once the handle is gone and the write lock is free, and this is when a call of
`close` returns. -/
structure KotlinClosed (setup : KotlinSetup K C) (s : Kotlin K C) : Prop where
  closed : s.engine.handle = 0 → s.engine.writer = none →
    ∃ k, (s.process.result (setup.abi k .destroy)).isSome = true
  returned : ∀ k, setup.closes k = true → s.engine.phase k = .returned →
    s.engine.handle = 0 ∧ s.engine.writer = none
  inside : ∀ k, s.engine.phase k = .inside → setup.closes k = false

theorem kotlinClosed_step {a : KotlinAction K C} (h : KotlinHeld s.engine) (hc : KotlinClosed setup s)
    (hs : KotlinStep setup s a s') : KotlinClosed setup s' := by
  have hinside {w : KotlinEngine K} {k : K} {phase : KotlinPhase} (hw : w.phase = s.engine.phase)
      (hphase : phase = .inside → setup.closes k = false) (k' : K) :
      (w.setPhase k phase).phase k' = .inside → setup.closes k' = false :=
    KotlinEngine.forall_setPhase (fun k' phase' => phase' = .inside → setup.closes k' = false) hphase
      (fun k' _ => hw ▸ hc.inside k') k'
  have hreturned {w : KotlinEngine K} {k : K} {phase : KotlinPhase} (hw : w.phase = s.engine.phase) {P : Prop}
      (hphase : setup.closes k = true → phase = .returned → P) (hP : s.engine.handle = 0 ∧ s.engine.writer = none → P)
      (k' : K) : setup.closes k' = true → (w.setPhase k phase).phase k' = .returned → P :=
    KotlinEngine.forall_setPhase (fun k' phase' => setup.closes k' = true → phase' = .returned → P) hphase
      (fun k' _ hcloses hk' => hP (hc.returned k' hcloses (hw ▸ hk'))) k'
  cases hs with
  | process ht =>
    refine ⟨fun hclosed hfree => ?_, hc.returned, hc.inside⟩
    obtain ⟨k, hk⟩ := hc.closed hclosed hfree
    obtain ⟨code, hcode⟩ := Option.isSome_iff_exists.mp hk
    exact ⟨k, Option.isSome_iff_exists.mpr ⟨code, result_kept (processStep_cases ht) hcode⟩⟩
  | @refuse k phase _ hfree hclosed hphase =>
    refine ⟨hc.closed, hreturned rfl (fun _ _ => ⟨hclosed, hfree⟩) id, hinside rfl fun hin => ?_⟩
    rcases hphase with rfl | ⟨rfl, -⟩ <;> cases hin
  | enter _ hcloses _ hopen =>
    exact ⟨fun hclosed => absurd hclosed hopen, hreturned rfl nofun fun hover => absurd hover.1 hopen,
      hinside rfl fun _ => hcloses⟩
  | leave hin =>
    refine ⟨hc.closed, hreturned rfl (fun hcloses _ => ?_) id, hinside rfl nofun⟩
    rw [hc.inside _ hin] at hcloses
    cases hcloses
  | take _ _ _ hopen => exact ⟨nofun, hreturned rfl nofun fun hover => absurd hover.1 hopen, hinside rfl nofun⟩
  | @destroy k current code hshutting =>
    have hwriter := (h.writer k).mp (by rw [hshutting]; rfl)
    have hheld : s.engine.writer ≠ none := fun hfree => nomatch hwriter.symm.trans hfree
    exact ⟨fun _ hfree => absurd hfree hheld, hreturned rfl nofun fun hover => absurd hover.2 hheld, hinside rfl nofun⟩
  | @finish k code hdestroying hcode =>
    have hclosed := (h.exclusive (by rw [(h.writer k).mp (by rw [hdestroying]; rfl)]; rfl)).2
    exact ⟨fun _ _ => ⟨k, Option.isSome_iff_exists.mpr ⟨code, hcode⟩⟩,
      hreturned rfl (fun _ _ => ⟨hclosed, rfl⟩) fun _ => ⟨hclosed, rfl⟩, hinside rfl nofun⟩

end Design

/-! ## A call that is closed under -/

section Bytes

local instance kotlinBoundary : Boundary := byteBoundary

/-- The second call closes the wrapper. -/
def closedAfter : KotlinSetup (Fin 2) PairCall := { pairSetup with closes := fun k => k = pairClose }

/-- The wrapper is closed when the first call has left. -/
def closedAfterRun : List (KotlinAction (Fin 2) PairCall) :=
  let abi (k : Fin 2) (part : AbiPart) : KotlinAction (Fin 2) PairCall := .process (.advance (some (k, part)))
  [.call pairCancel] ++ List.replicate 3 (abi pairCancel .body) ++ [.call pairCancel, .call pairClose] ++
    List.replicate 3 (abi pairClose .shut) ++ [.call pairClose] ++
    List.replicate 3 (abi pairClose .destroy) ++ [.call pairClose]

end Bytes

end LinguaMesh.Ffi
