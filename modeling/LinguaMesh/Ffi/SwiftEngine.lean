import LinguaMesh.Ffi.Owner

/-!
# The Swift wrapper

`LinguaMeshEngine` counts the calls that are inside, under a condition variable. A call that
closes it sets a flag, sleeps until the count is zero, and takes the handle. A step is
one section under the lock, or one step of the process.

It refines the owner of a handle (`swift_refines`). That the waking of the closing call is not lost is its
own: no call sleeps while the count is zero (`SwiftHeld`).
-/

namespace LinguaMesh.Ffi

open Runs

inductive SwiftPhase where
  | idle
  | inside
  /-- In `lifecycle.wait()`. -/
  | asleep
  /-- To test `activeCalls > 0` again. -/
  | awake
  | shutting (current : Nat)
  | destroying
  | thrown
  | returned
  deriving DecidableEq

structure SwiftEngine (K : Type) where
  handle : Option Nat
  activeCalls : Nat
  closing : Bool
  phase : K → SwiftPhase

/-- The wrapper and the process that it is in. -/
structure Swift (K C : Type) where
  engine : SwiftEngine K
  process : Process C

/-- The calls of the wrapper: those of `close` and `deinit`, and those of `withHandle`. -/
structure SwiftSetup (K C : Type) extends OwnerSetup K C where
  closes : K → Bool

inductive SwiftAction (K C : Type) where
  | call (k : K)
  /-- `wait` returns for no reason. -/
  | wake (k : K)
  | process (action : ProcessAction C)

section Steps

variable [Boundary] {K C : Type} [DecidableEq K] [DecidableEq C] (setup : SwiftSetup K C)

namespace SwiftEngine

def setPhase (w : SwiftEngine K) (k : K) (phase : SwiftPhase) : SwiftEngine K :=
  { w with phase := Function.update w.phase k phase }

omit [DecidableEq K] in
/-- `lifecycle.broadcast()` -/
def broadcast (w : SwiftEngine K) : SwiftEngine K :=
  { w with phase := fun k => if w.phase k = .asleep then .awake else w.phase k }

/-- A call of `withHandle` leaves. -/
def leave (w : SwiftEngine K) (k : K) : SwiftEngine K :=
  let w := { w with activeCalls := w.activeCalls - 1 }
  (if w.activeCalls = 0 then w.broadcast else w).setPhase k .returned

end SwiftEngine

namespace Swift

def setPhase (s : Swift K C) (k : K) (phase : SwiftPhase) : Swift K C := { s with engine := s.engine.setPhase k phase }

/-- A call of the ABI with the handle. -/
def abi (s : Swift K C) (c : C) (current : Nat) : Swift K C :=
  { s with process := s.process.setPhase c (.called current) }

/-- The loop of `detachHandle` and what follows it. -/
def detach (s : Swift K C) (k : K) : Swift K C :=
  if 0 < s.engine.activeCalls then s.setPhase k .asleep
  else match s.engine.handle with
    | none => s.setPhase k .returned
    | some current => ({ s with engine.handle := none }.setPhase k (.shutting current)).abi (setup.abi k .shut) current

end Swift

/-- The next section of a call. -/
def swiftCall (s : Swift K C) (k : K) : Option (Swift K C) :=
  match s.engine.phase k with
  | .idle =>
    if setup.closes k then
      some (if s.engine.closing then s.setPhase k .returned
        else { s with engine.closing := true }.detach setup k)
    else match s.engine.closing, s.engine.handle with
      | false, some current => some (({ s with engine.activeCalls := s.engine.activeCalls + 1 }.setPhase k .inside).abi
          (setup.abi k .body) current)
      | _, _ => some (s.setPhase k .thrown)
  | .inside => (s.process.result (setup.abi k .body)).map fun _ => { s with engine := s.engine.leave k }
  | .awake => some (s.detach setup k)
  | .shutting current => (s.process.result (setup.abi k .shut)).map fun _ =>
    (s.setPhase k .destroying).abi (setup.abi k .destroy) current
  | .destroying => (s.process.result (setup.abi k .destroy)).map fun _ => s.setPhase k .returned
  | .asleep | .thrown | .returned => none

def swiftStep (s : Swift K C) : SwiftAction K C → Option (Swift K C)
  | .call k => swiftCall setup s k
  | .wake k => if s.engine.phase k = .asleep then some (s.setPhase k .awake) else none
  | .process action => (processStep setup.process s.process action).map fun process => { s with process }

/-- A call of `close` is at the loop of `detachHandle`, for the first time or again. -/
def SwiftEngine.Detaches (w : SwiftEngine K) (k : K) (closing : Bool) : Prop :=
  w.phase k = .idle ∧ w.closing = false ∧ closing = true ∨ w.phase k = .awake ∧ closing = w.closing

inductive SwiftStep (s : Swift K C) : SwiftAction K C → Swift K C → Prop where
  | process {action : ProcessAction C} {process : Process C} :
    processStep setup.process s.process action = some process → SwiftStep s (.process action) { s with process }
  | wake {k : K} : s.engine.phase k = .asleep → SwiftStep s (.wake k) (s.setPhase k .awake)
  | refuse {k : K} {phase : SwiftPhase} : s.engine.phase k = .idle → phase = .returned ∨ phase = .thrown →
    SwiftStep s (.call k) (s.setPhase k phase)
  | enter {k : K} {current : Nat} : s.engine.phase k = .idle → s.engine.closing = false →
    s.engine.handle = some current →
    SwiftStep s (.call k) (({ s with engine.activeCalls := s.engine.activeCalls + 1 }.setPhase k .inside).abi
      (setup.abi k .body) current)
  | leave {k : K} {code : LmResultCode} : s.engine.phase k = .inside →
    s.process.result (setup.abi k .body) = some code →
    SwiftStep s (.call k) { s with engine := s.engine.leave k }
  | sleep {k : K} {closing : Bool} : s.engine.Detaches k closing → 0 < s.engine.activeCalls →
    SwiftStep s (.call k) ({ s with engine.closing := closing }.setPhase k .asleep)
  | take {k : K} {closing : Bool} {current : Nat} : s.engine.Detaches k closing → s.engine.activeCalls = 0 →
    s.engine.handle = some current →
    SwiftStep s (.call k) (({ s with engine.closing := closing, engine.handle := none }.setPhase k
      (.shutting current)).abi (setup.abi k .shut) current)
  | gone {k : K} {closing : Bool} : s.engine.Detaches k closing → s.engine.handle = none →
    SwiftStep s (.call k) ({ s with engine.closing := closing }.setPhase k .returned)
  | destroy {k : K} {current : Nat} {code : LmResultCode} : s.engine.phase k = .shutting current →
    s.process.result (setup.abi k .shut) = some code →
    SwiftStep s (.call k) ((s.setPhase k .destroying).abi (setup.abi k .destroy) current)
  | finish {k : K} {code : LmResultCode} : s.engine.phase k = .destroying →
    s.process.result (setup.abi k .destroy) = some code → SwiftStep s (.call k) (s.setPhase k .returned)

variable {setup} {s s' : Swift K C}

theorem detach_cases {k : K} {closing : Bool} (hk : s.engine.Detaches k closing) :
    SwiftStep setup s (.call k) (({ s with engine.closing := closing } : Swift K C).detach setup k) := by
  unfold Swift.detach
  split
  · rename_i hactive
    exact .sleep hk hactive
  · rename_i hactive
    split
    · rename_i hnone
      exact .gone hk hnone
    · rename_i current hcurrent
      exact .take hk (Nat.eq_zero_of_not_pos hactive) hcurrent

theorem swiftStep_cases {a : SwiftAction K C} (h : swiftStep setup s a = some s') : SwiftStep setup s a s' := by
  cases a with
  | process action =>
    obtain ⟨process, hp, rfl⟩ := Option.map_eq_some_iff.mp h
    exact .process hp
  | wake k =>
    dsimp only [swiftStep] at h
    split at h
    · rename_i hasleep
      cases h
      exact .wake hasleep
    · cases h
  | call k =>
    dsimp only [swiftStep, swiftCall] at h
    split at h
    · rename_i hidle
      split at h
      · split at h
        · cases h
          exact .refuse hidle (.inl rfl)
        · rename_i hopen
          cases h
          exact detach_cases (.inl ⟨hidle, by simpa using hopen, rfl⟩)
      · split at h
        · rename_i current hopen hcurrent
          cases h
          exact .enter hidle hopen hcurrent
        · cases h
          exact .refuse hidle (.inr rfl)
    · rename_i hinside
      obtain ⟨code, hcode, rfl⟩ := Option.map_eq_some_iff.mp h
      exact .leave hinside hcode
    · rename_i hawake
      cases h
      have hdetach : s.engine.Detaches _ s.engine.closing := .inr ⟨hawake, rfl⟩
      exact detach_cases hdetach
    · rename_i current hshutting
      obtain ⟨code, hcode, rfl⟩ := Option.map_eq_some_iff.mp h
      exact .destroy hshutting hcode
    · rename_i hdestroying
      obtain ⟨code, hcode, rfl⟩ := Option.map_eq_some_iff.mp h
      exact .finish hdestroying hcode
    · cases h
    · cases h
    · cases h

end Steps

/-! ## The lock -/

/-- A call of `close` is waiting in `detachHandle`. -/
def SwiftPhase.isWaiting : SwiftPhase → Bool
  | .asleep | .awake => true
  | _ => false

/-- A call of `close` has set the flag and is not over. -/
def SwiftPhase.isClosing : SwiftPhase → Bool
  | .asleep | .awake | .shutting _ | .destroying => true
  | _ => false

section Lock

variable {K : Type}

/-- The invariant of the fields under the lock. -/
structure SwiftHeld (w : SwiftEngine K) : Prop where
  count : Tally w.activeCalls fun k => w.phase k = .inside
  opened : w.closing = false → w.handle.isSome = true ∧ ∀ k, (w.phase k).isClosing = false
  sole : ∀ k k', (w.phase k).isClosing = true → (w.phase k').isClosing = true → k = k'
  waiting : ∀ k, (w.phase k).isWaiting = true → w.handle.isSome = true
  /-- Who is asleep will be woken. -/
  asleep : ∀ k, w.phase k = .asleep → 0 < w.activeCalls

theorem SwiftPhase.closing_of_waiting {phase : SwiftPhase} (h : phase.isWaiting = true) : phase.isClosing = true := by
  cases phase <;> first | rfl | cases h

variable [DecidableEq K] {w : SwiftEngine K} {k : K} {phase : SwiftPhase}

theorem SwiftEngine.setPhase_self : (w.setPhase k phase).phase k = phase := Function.update_self ..

theorem SwiftEngine.setPhase_of_ne {k' : K} (h : k' ≠ k) : (w.setPhase k phase).phase k' = w.phase k' :=
  Function.update_of_ne h ..

/-- A call moves that is not inside, before and after. -/
theorem SwiftHeld.move (h : SwiftHeld w) {handle : Option Nat} {closing : Bool} (hk : w.phase k ≠ .inside)
    (hphase : phase ≠ .inside)
    (hopened : closing = false → w.closing = false ∧ handle.isSome = true ∧ phase.isClosing = false)
    (hsole : phase.isClosing = true → ∀ k', k' ≠ k → (w.phase k').isClosing = false)
    (hwaiting : phase.isWaiting = true → handle.isSome = true)
    (hothers : ∀ k', k' ≠ k → (w.phase k').isWaiting = true → handle.isSome = true)
    (hasleep : phase = .asleep → 0 < w.activeCalls) :
    SwiftHeld ({ w with handle, closing }.setPhase k phase) := by
  have hcases {P : SwiftPhase → K → Prop} (hnew : P phase k) (hold : ∀ k', k' ≠ k → P (w.phase k') k') (k' : K) :
      P (({ w with handle, closing }.setPhase k phase).phase k') k' := by
    by_cases he : k' = k
    · subst he
      rw [SwiftEngine.setPhase_self]
      exact hnew
    · rw [SwiftEngine.setPhase_of_ne he]
      exact hold k' he
  refine ⟨h.count.congr ?_, fun hclosing => ?_, fun k₁ k₂ hk₁ hk₂ => ?_, ?_, ?_⟩
  · exact hcases (P := fun phase k => phase = .inside ↔ w.phase k = .inside) (iff_of_false hphase hk) fun _ _ => .rfl
  · obtain ⟨hopen, hsome, hnot⟩ := hopened hclosing
    exact ⟨hsome, hcases (P := fun phase _ => phase.isClosing = false) hnot fun k' _ => (h.opened hopen).2 k'⟩
  · by_cases he₁ : k₁ = k
    · by_cases he₂ : k₂ = k
      · exact he₁.trans he₂.symm
      · subst he₁
        rw [SwiftEngine.setPhase_self] at hk₁
        rw [SwiftEngine.setPhase_of_ne he₂] at hk₂
        rw [hsole hk₁ k₂ he₂] at hk₂
        cases hk₂
    · rw [SwiftEngine.setPhase_of_ne he₁] at hk₁
      by_cases he₂ : k₂ = k
      · subst he₂
        rw [SwiftEngine.setPhase_self] at hk₂
        rw [hsole hk₂ k₁ he₁] at hk₁
        cases hk₁
      · rw [SwiftEngine.setPhase_of_ne he₂] at hk₂
        exact h.sole k₁ k₂ hk₁ hk₂
  · exact hcases (P := fun phase _ => phase.isWaiting = true → handle.isSome = true) hwaiting hothers
  · exact hcases (P := fun phase _ => phase = .asleep → 0 < w.activeCalls) hasleep fun k' _ => h.asleep k'

theorem SwiftHeld.enter (h : SwiftHeld w) (hk : w.phase k = .idle) :
    SwiftHeld ({ w with activeCalls := w.activeCalls + 1 }.setPhase k .inside) := by
  have hcases {P : SwiftPhase → Prop} (hnew : P .inside) (hold : ∀ k', P (w.phase k')) (k' : K) :
      P (({ w with activeCalls := w.activeCalls + 1 }.setPhase k .inside).phase k') := by
    by_cases he : k' = k
    · rw [he, SwiftEngine.setPhase_self]
      exact hnew
    · rw [SwiftEngine.setPhase_of_ne he]
      exact hold k'
  have hclosing {k' : K}
      (hk' : (({ w with activeCalls := w.activeCalls + 1 }.setPhase k .inside).phase k').isClosing = true) :
      (w.phase k').isClosing = true := by
    by_cases he : k' = k
    · rw [he, SwiftEngine.setPhase_self] at hk'
      cases hk'
    · rwa [SwiftEngine.setPhase_of_ne he] at hk'
  refine ⟨h.count.enter (k := k) (by rw [hk]; nofun) fun k' => ?_, fun hopen => ?_, fun k₁ k₂ hk₁ hk₂ => ?_, ?_, ?_⟩
  · by_cases he : k' = k
    · rw [he, SwiftEngine.setPhase_self]
      exact iff_of_true rfl (.inl rfl)
    · rw [SwiftEngine.setPhase_of_ne he]
      exact (or_iff_right he).symm
  · exact ⟨(h.opened hopen).1, hcases (P := fun phase => phase.isClosing = false) rfl (h.opened hopen).2⟩
  · exact h.sole k₁ k₂ (hclosing hk₁) (hclosing hk₂)
  · exact hcases (P := fun phase => phase.isWaiting = true → w.handle.isSome = true) nofun h.waiting
  · exact fun _ _ => Nat.succ_pos _

theorem SwiftEngine.leave_eq (w : SwiftEngine K) (k : K) :
    (w.leave k).activeCalls = w.activeCalls - 1 ∧ (w.leave k).handle = w.handle ∧ (w.leave k).closing = w.closing ∧
      (w.leave k).phase k = .returned ∧ ∀ k', k' ≠ k → (w.leave k).phase k' =
        if w.activeCalls - 1 = 0 ∧ w.phase k' = .asleep then .awake else w.phase k' := by
  unfold SwiftEngine.leave
  dsimp only
  split
  · rename_i hnone
    refine ⟨rfl, rfl, rfl, SwiftEngine.setPhase_self, fun k' he => ?_⟩
    rw [SwiftEngine.setPhase_of_ne he]
    simp [SwiftEngine.broadcast, hnone]
  · rename_i hsome
    refine ⟨rfl, rfl, rfl, SwiftEngine.setPhase_self, fun k' he => ?_⟩
    rw [SwiftEngine.setPhase_of_ne he, if_neg fun h => hsome h.1]

/-- Who leaves last wakes the call that waits. -/
theorem SwiftHeld.leave (h : SwiftHeld w) (hk : w.phase k = .inside) : SwiftHeld (w.leave k) := by
  obtain ⟨hactive, hhandle, hclosing, hself, hother⟩ := w.leave_eq k
  have hsame (k' : K) (he : k' ≠ k) : ((w.leave k).phase k').isClosing = (w.phase k').isClosing ∧
      ((w.leave k).phase k').isWaiting = (w.phase k').isWaiting := by
    rw [hother k' he]
    split
    · rename_i hasleep
      rw [hasleep.2]
      exact ⟨rfl, rfl⟩
    · exact ⟨rfl, rfl⟩
  have hclosed {k' : K} (hk' : ((w.leave k).phase k').isClosing = true) : (w.phase k').isClosing = true := by
    by_cases he : k' = k
    · rw [he, hself] at hk'
      cases hk'
    · rwa [(hsame k' he).1] at hk'
  refine ⟨hactive ▸ h.count.leave hk fun k' => ?_, fun hopen => ?_, fun k₁ k₂ hk₁ hk₂ => ?_, fun k' hk' => ?_,
    fun k' hk' => ?_⟩
  · by_cases he : k' = k
    · rw [he, hself]
      exact iff_of_false nofun fun hne => hne.1 rfl
    · rw [hother k' he]
      split
      · rename_i hasleep
        rw [hasleep.2]
        exact iff_of_false nofun nofun
      · exact (and_iff_right he).symm
  · rw [hclosing] at hopen
    rw [hhandle]
    refine ⟨(h.opened hopen).1, fun k' => ?_⟩
    by_contra hk'
    have hnot := (h.opened hopen).2 k'
    rw [hclosed (by simpa using hk')] at hnot
    cases hnot
  · exact h.sole k₁ k₂ (hclosed hk₁) (hclosed hk₂)
  · rw [hhandle]
    by_cases he : k' = k
    · rw [he, hself] at hk'
      cases hk'
    · exact h.waiting k' (by rwa [(hsame k' he).2] at hk')
  · rw [hactive]
    by_cases he : k' = k
    · rw [he, hself] at hk'
      cases hk'
    · rw [hother k' he] at hk'
      split at hk'
      · cases hk'
      · rename_i hawake
        exact Nat.pos_of_ne_zero fun hnone => hawake ⟨hnone, hk'⟩

omit [DecidableEq K] in
/-- A call that detaches the handle finds it, and is the only one that closes. -/
theorem SwiftHeld.detaches (h : SwiftHeld w) {closing : Bool} (hk : w.Detaches k closing) :
    closing = true ∧ w.handle.isSome = true ∧ (∀ k', k' ≠ k → (w.phase k').isClosing = false) ∧
      w.phase k ≠ .inside := by
  rcases hk with ⟨hidle, hopen, rfl⟩ | ⟨hawake, rfl⟩
  · exact ⟨rfl, (h.opened hopen).1, fun k' _ => (h.opened hopen).2 k', by rw [hidle]; nofun⟩
  · have hself : (w.phase k).isClosing = true := by
      rw [hawake]
      rfl
    refine ⟨?_, h.waiting k (by rw [hawake]; rfl), fun k' he => ?_, by rw [hawake]; nofun⟩
    · by_contra hopen
      have hnot := (h.opened (by simpa using hopen)).2 k
      rw [hself] at hnot
      cases hnot
    · by_contra hk'
      exact he (h.sole k' k (by simpa using hk') hself)

end Lock

/-! ## The wrapper refines the owner -/

section Design

variable {K C : Type}

/-- What a phase is to the owner. -/
def SwiftPhase.owner : SwiftPhase → OwnerPhase
  | .idle | .asleep | .awake => .outside
  | .inside => .inside
  | .shutting current => .shutting current
  | .destroying => .destroying
  | .thrown | .returned => .ended

def Swift.owning (s : Swift K C) : Owning K C :=
  ⟨⟨s.engine.handle, fun k => (s.engine.phase k).owner⟩, s.process⟩

variable [Boundary] [DecidableEq K] [DecidableEq C] {setup : SwiftSetup K C} {handle : Nat} {s s' : Swift K C}

/-- What else goes on in the process. -/
def SwiftAllows (setup : SwiftSetup K C) (handle : Nat) (_ : Swift K C) : SwiftAction K C → Prop
  | .process action => setup.Allows handle action
  | _ => True

theorem swiftHeld_step {a : SwiftAction K C} (h : SwiftHeld s.engine) (hs : SwiftStep setup s a s') :
    SwiftHeld s'.engine := by
  have hsole {k : K} (hk : (s.engine.phase k).isClosing = true) (k' : K) (he : k' ≠ k) :
      (s.engine.phase k').isClosing = false := by
    by_contra hk'
    exact he (h.sole k' k (by simpa using hk') hk)
  have hclosed {k : K} (hk : (s.engine.phase k).isClosing = true) {P : Prop} (hopen : s.engine.closing = false) : P := by
    have hnot := (h.opened hopen).2 k
    rw [hk] at hnot
    cases hnot
  cases hs with
  | process => exact h
  | @wake k hasleep =>
    have hk : (s.engine.phase k).isClosing = true := by rw [hasleep]; rfl
    exact h.move (by rw [hasleep]; nofun) nofun (hclosed hk) (fun _ => hsole hk)
      (fun _ => h.waiting k (by rw [hasleep]; rfl)) (fun k' _ => h.waiting k') nofun
  | @refuse k phase hidle hphase =>
    have hover : phase ≠ .inside ∧ phase.isClosing = false ∧ phase.isWaiting = false ∧ phase ≠ .asleep := by
      rcases hphase with rfl | rfl <;> exact ⟨nofun, rfl, rfl, nofun⟩
    obtain ⟨hinside, hclosing, hwaiting, hasleep⟩ := hover
    refine h.move (by rw [hidle]; nofun) hinside (fun hopen => ⟨hopen, (h.opened hopen).1, hclosing⟩)
      (fun hc => ?_) (fun hw => ?_) (fun k' _ => h.waiting k') fun ha => absurd ha hasleep
    · rw [hclosing] at hc
      cases hc
    · rw [hwaiting] at hw
      cases hw
  | enter hidle => exact h.enter hidle
  | leave hinside => exact h.leave hinside
  | sleep hk hactive =>
    obtain ⟨rfl, hsome, hothers, hinside⟩ := h.detaches hk
    exact h.move hinside nofun nofun (fun _ => hothers) (fun _ => hsome) (fun k' _ => h.waiting k') fun _ => hactive
  | take hk =>
    obtain ⟨rfl, hsome, hothers, hinside⟩ := h.detaches hk
    refine h.move hinside nofun nofun (fun _ => hothers) nofun (fun k' he hw => ?_) nofun
    exact nomatch (SwiftPhase.closing_of_waiting hw).symm.trans (hothers k' he)
  | gone hk hnone =>
    obtain ⟨-, hsome, -⟩ := h.detaches hk
    rw [hnone] at hsome
    cases hsome
  | @destroy k current code hshutting =>
    have hk : (s.engine.phase k).isClosing = true := by rw [hshutting]; rfl
    exact h.move (by rw [hshutting]; nofun) nofun (hclosed hk) (fun _ => hsole hk) nofun
      (fun k' _ => h.waiting k') nofun
  | @finish k code hdestroying =>
    have hk : (s.engine.phase k).isClosing = true := by rw [hdestroying]; rfl
    exact h.move (by rw [hdestroying]; nofun) nofun (hclosed hk) nofun nofun (fun k' _ => h.waiting k') nofun

omit [Boundary] [DecidableEq C] in
theorem owning_setPhase (w : SwiftEngine K) (p : Process C) (k : K) (phase : SwiftPhase) :
    (⟨w.setPhase k phase, p⟩ : Swift K C).owning =
      ⟨Owner.setPhase ⟨w.handle, fun k => (w.phase k).owner⟩ k phase.owner, p⟩ := by
  have hphase : (fun k' => ((w.setPhase k phase).phase k').owner) =
      Function.update (fun k' => (w.phase k').owner) k phase.owner := by
    funext k'
    by_cases he : k' = k
    · rw [he, SwiftEngine.setPhase_self, Function.update_self]
    · rw [SwiftEngine.setPhase_of_ne he, Function.update_of_ne he]
  unfold Swift.owning Owner.setPhase
  rw [hphase]
  rfl

omit [Boundary] [DecidableEq C] in
/-- The owner does not see a call that waits. -/
theorem owning_unseen (w : SwiftEngine K) (p : Process C) {k : K} {phase : SwiftPhase}
    (hphase : phase.owner = (w.phase k).owner) :
    (⟨w.setPhase k phase, p⟩ : Swift K C).owning = (⟨w, p⟩ : Swift K C).owning := by
  rw [owning_setPhase, hphase]
  unfold Owner.setPhase
  rw [Function.update_eq_self]
  rfl

/-- Each step of the wrapper is one of the owner, or one that the owner does not see. -/
theorem swift_refines {a : SwiftAction K C} (h : SwiftHeld s.engine) (hs : SwiftStep setup s a s')
    (hok : SwiftAllows setup handle s a) :
    OwnerStep setup.toOwnerSetup handle s.owning s'.owning ∨ s'.owning = s.owning := by
  have hphase {k : K} {phase : SwiftPhase} (hk : s.engine.phase k = phase) :
      s.owning.owner.phase k = phase.owner := congrArg SwiftPhase.owner hk
  have hseen {w : SwiftEngine K} {p : Process C} {k : K} {phase : SwiftPhase}
      (hstep : OwnerStep setup.toOwnerSetup handle s.owning
        ⟨Owner.setPhase ⟨w.handle, fun k => (w.phase k).owner⟩ k phase.owner, p⟩) :
      OwnerStep setup.toOwnerSetup handle s.owning (Swift.owning ⟨w.setPhase k phase, p⟩) := by
    rw [owning_setPhase]
    exact hstep
  have houtside {k : K} {closing : Bool} (hk : s.engine.Detaches k closing) :
      s.owning.owner.phase k = .outside := by
    rcases hk with ⟨hidle, -⟩ | ⟨hawake, -⟩
    · exact hphase hidle
    · exact hphase hawake
  cases hs with
  | process ht => exact .inl (.process hok ht)
  | wake hasleep => exact .inr (owning_unseen _ _ (hphase hasleep).symm)
  | @refuse k phase hidle hover =>
    have hstep : OwnerStep setup.toOwnerSetup handle s.owning _ := .refuse (hphase hidle)
    rcases hover with rfl | rfl <;> exact .inl (hseen hstep)
  | enter hidle _ hcurrent => exact .inl (hseen (.enter hcurrent (hphase hidle)))
  | @leave k code hinside hcode =>
    have hleave : ({ s with engine := s.engine.leave k } : Swift K C).owning =
        ⟨s.owning.owner.setPhase k .ended, s.process⟩ := by
      obtain ⟨-, hhandle, -, hself, hother⟩ := s.engine.leave_eq k
      unfold Swift.owning Owner.setPhase
      dsimp only
      rw [hhandle]
      congr 2
      funext k'
      by_cases he : k' = k
      · rw [he, hself, Function.update_self]
        rfl
      · rw [hother k' he, Function.update_of_ne he]
        split
        · rename_i hasleep
          rw [hasleep.2]
          rfl
        · rfl
    rw [hleave]
    exact .inl (.leave (hphase hinside) hcode)
  | @sleep k closing hk _ =>
    have hsame : SwiftPhase.asleep.owner = (s.engine.phase k).owner := (houtside hk).symm
    exact .inr (owning_unseen { s.engine with closing } s.process hsame)
  | @take k closing current hk hactive hcurrent =>
    refine .inl (hseen (.take hcurrent (houtside hk) fun k' hk' => ?_))
    have hinside : s.engine.phase k' = .inside := by
      change (s.engine.phase k').owner = .inside at hk'
      generalize s.engine.phase k' = phase at hk'
      cases phase <;> first | rfl | cases hk'
    exact (hactive ▸ h.count).not_of_zero k' hinside
  | gone hk hnone =>
    obtain ⟨-, hsome, -⟩ := h.detaches hk
    rw [hnone] at hsome
    cases hsome
  | destroy hshutting hcode => exact .inl (hseen (.destroy (hphase hshutting) hcode))
  | finish hdestroying hcode => exact .inl (hseen (.finish (hphase hdestroying) hcode))

/-! ## Runs of the wrapper -/

def SwiftEngine.initial (K : Type) (handle : Nat) : SwiftEngine K := ⟨some handle, 0, false, fun _ => .idle⟩

omit [Boundary] [DecidableEq K] in
theorem swiftHeld_initial : SwiftHeld (SwiftEngine.initial K handle) where
  count := .none nofun
  opened _ := ⟨rfl, fun _ => rfl⟩
  sole := nofun
  waiting := nofun
  asleep := nofun

/-- Once the flag is set, the call that has set it is under way, or it has destroyed the engine. -/
def SwiftClosed (setup : SwiftSetup K C) (s : Swift K C) : Prop := s.engine.closing = true →
  (∃ k, (s.engine.phase k).isClosing = true) ∨ ∃ k, (s.process.result (setup.abi k .destroy)).isSome = true

theorem swiftClosed_step {a : SwiftAction K C} (h : SwiftHeld s.engine) (hc : SwiftClosed setup s)
    (hs : SwiftStep setup s a s') : SwiftClosed setup s' := by
  have hcloses {w : SwiftEngine K} {p : Process C} {k : K} {phase : SwiftPhase} (hphase : phase.isClosing = true) :
      SwiftClosed setup ⟨w.setPhase k phase, p⟩ :=
    fun _ => .inl ⟨k, by rw [SwiftEngine.setPhase_self]; exact hphase⟩
  cases hs with
  | process ht =>
    intro hset
    rcases hc hset with hunderway | ⟨k, hk⟩
    · exact .inl hunderway
    · obtain ⟨code, hcode⟩ := Option.isSome_iff_exists.mp hk
      exact .inr ⟨k, by rw [result_kept (processStep_cases ht) hcode]; rfl⟩
  | wake => exact hcloses rfl
  | @refuse k phase hidle =>
    intro hset
    refine (hc hset).imp_left fun ⟨k', hk'⟩ => ⟨k', ?_⟩
    have hne : k' ≠ k := by
      rintro rfl
      rw [hidle] at hk'
      cases hk'
    change ((s.engine.setPhase k phase).phase k').isClosing = true
    rw [SwiftEngine.setPhase_of_ne hne]
    exact hk'
  | enter _ hopen => exact fun hset => nomatch hopen.symm.trans hset
  | @leave k _ hinside =>
    obtain ⟨-, -, hclosing, -, hother⟩ := s.engine.leave_eq k
    intro hset
    refine (hc (hclosing.symm.trans hset)).imp_left fun ⟨k', hk'⟩ => ⟨k', ?_⟩
    have hne : k' ≠ k := by
      rintro rfl
      rw [hinside] at hk'
      cases hk'
    change ((s.engine.leave k).phase k').isClosing = true
    rw [hother k' hne]
    split
    · rfl
    · exact hk'
  | sleep => exact hcloses rfl
  | take => exact hcloses rfl
  | gone hk hnone =>
    obtain ⟨-, hsome, -⟩ := h.detaches hk
    rw [hnone] at hsome
    cases hsome
  | destroy => exact hcloses rfl
  | @finish k code _ hcode => exact fun _ => .inr ⟨k, Option.isSome_iff_exists.mpr ⟨code, hcode⟩⟩

/-- Once `closing` is set, a call that has not entered never makes a call of the ABI. -/
theorem swift_closed {k : K} {ok : Swift K C → SwiftAction K C → Prop} (hset : s.engine.closing = true)
    (hk : (s.engine.phase k).owner = .ended ∨ s.engine.phase k = .idle) (h : Reach (swiftStep setup) ok s s') :
    (s'.engine.phase k).owner = .ended ∨ s'.engine.phase k = .idle := by
  refine (h.invariant (I := fun s => s.engine.closing = true ∧ ((s.engine.phase k).owner = .ended ∨
    s.engine.phase k = .idle)) ⟨hset, hk⟩ fun t a t' ⟨hset, hk⟩ _ ht => ?_).2
  have hother {w : SwiftEngine K} {k' : K} {phase : SwiftPhase} (hw : w.phase = t.engine.phase)
      (hphase : k = k' → phase.owner = .ended) :
      ((w.setPhase k' phase).phase k).owner = .ended ∨ (w.setPhase k' phase).phase k = .idle := by
    by_cases he : k = k'
    · subst he
      rw [SwiftEngine.setPhase_self]
      exact .inl (hphase rfl)
    · rw [SwiftEngine.setPhase_of_ne he, hw]
      exact hk
  have hnot {k' : K} {phase : SwiftPhase} {P : Prop} (hphase : t.engine.phase k' = phase)
      (hmoves : phase.owner ≠ .ended ∧ phase ≠ .idle) (he : k = k') : P := by
    subst he
    rw [hphase] at hk
    exact (hk.elim hmoves.1 hmoves.2).elim
  have hdetaches {k' : K} {closing : Bool} (hd : t.engine.Detaches k' closing) : t.engine.phase k' = .awake :=
    (hd.resolve_left fun ⟨_, hopen, _⟩ => nomatch hopen.symm.trans hset).1
  cases swiftStep_cases ht with
  | process => exact ⟨hset, hk⟩
  | wake hasleep => exact ⟨hset, hother rfl (hnot hasleep ⟨nofun, nofun⟩)⟩
  | refuse _ hphase => exact ⟨hset, hother rfl fun _ => by rcases hphase with rfl | rfl <;> rfl⟩
  | enter _ hopen => exact nomatch hopen.symm.trans hset
  | @leave k' _ hinside =>
    obtain ⟨-, -, hclosing, -, hrest⟩ := t.engine.leave_eq k'
    refine ⟨hclosing.trans hset, ?_⟩
    have hne : k ≠ k' := hnot hinside ⟨nofun, nofun⟩
    change ((t.engine.leave k').phase k).owner = .ended ∨ (t.engine.leave k').phase k = .idle
    rw [hrest k hne, if_neg]
    · exact hk
    · rintro ⟨-, hasleep⟩
      exact hnot hasleep ⟨nofun, nofun⟩ rfl
  | sleep hd => exact ⟨hd.elim (·.2.2) fun h => h.2.trans hset, hother rfl (hnot (hdetaches hd) ⟨nofun, nofun⟩)⟩
  | take hd => exact ⟨hd.elim (·.2.2) fun h => h.2.trans hset, hother rfl (hnot (hdetaches hd) ⟨nofun, nofun⟩)⟩
  | gone hd => exact ⟨hd.elim (·.2.2) fun h => h.2.trans hset, hother rfl (hnot (hdetaches hd) ⟨nofun, nofun⟩)⟩
  | destroy hshutting => exact ⟨hset, hother rfl (hnot hshutting ⟨nofun, nofun⟩)⟩
  | finish hdestroying => exact ⟨hset, hother rfl (hnot hdestroying ⟨nofun, nofun⟩)⟩

end Design

/-! ## A call that is closed under -/

section Bytes

local instance swiftBoundary : Boundary := byteBoundary

/-- The second call closes the wrapper. -/
def closedUnder : SwiftSetup (Fin 2) PairCall := { pairSetup with closes := fun k => k = pairClose }

/-- The wrapper is closed while the first call is inside; the closing call sleeps until it leaves. -/
def closedUnderRun : List (SwiftAction (Fin 2) PairCall) :=
  let abi (k : Fin 2) (part : AbiPart) : SwiftAction (Fin 2) PairCall := .process (.advance (some (k, part)))
  [.call pairCancel, abi pairCancel .body, .call pairClose, abi pairCancel .body, abi pairCancel .body,
    .call pairCancel, .call pairClose] ++ List.replicate 3 (abi pairClose .shut) ++ [.call pairClose] ++
    List.replicate 3 (abi pairClose .destroy) ++ [.call pairClose]

end Bytes

end LinguaMesh.Ffi
