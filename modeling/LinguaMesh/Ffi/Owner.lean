import LinguaMesh.Ffi.Process
import Mathlib.Data.Finset.Card

/-!
# The owner of a handle

What a wrapper of the C ABI is for: it has the handle of one engine, its calls use it while they are
inside, and a call that closes it takes the handle when none is inside, shuts the engine down
and destroys it. `OwnerStep` is this design, beside everything else that goes on in the
process. What every run of it keeps is `Owned`: no call of the owner is ever refused for its handle, and
when the engine is destroyed all calls that have used it have returned.
-/

namespace LinguaMesh.Ffi

open Runs

/-- The calls of the ABI that a call of the owner may make. -/
inductive AbiPart where
  | body
  | shut
  | destroy
  deriving DecidableEq

/-- The calls of an owner, `K`, and those that they make of the ABI. -/
structure OwnerSetup (K C : Type) where
  process : ProcessSetup C
  abi : K → AbiPart → C
  injective : ∀ {k k' : K} {part part' : AbiPart}, abi k part = abi k' part' → k = k' ∧ part = part'
  body : ∀ k, process.calls (abi k .body) ≠ .create ∧ process.calls (abi k .body) ≠ .destroy
  shut : ∀ k, process.calls (abi k .shut) = .shutdown
  destroy : ∀ k, process.calls (abi k .destroy) = .destroy

inductive OwnerPhase where
  | outside
  | inside
  /-- The handle is taken, and the engine is to be shut down. -/
  | shutting (handle : Nat)
  | destroying
  | ended
  deriving DecidableEq

structure Owner (K : Type) where
  handle : Option Nat
  phase : K → OwnerPhase

section Calls

variable {C : Type}

/-- The handle that a call uses. -/
def AbiPhase.handle : AbiPhase C → Option Nat
  | .called handle | .reading handle _ | .read handle _ | .inside handle _ => some handle
  | _ => none

/-- The code that a call has returned. -/
def Process.result (p : Process C) (c : C) : Option LmResultCode :=
  match p.phase c with
  | .created _ => some .ok
  | .refused code => some code
  | .inside _ e => match (p.engines e).host c with
    | .returned code => some code
    | _ => none
  | _ => none

/-- A call that has a handle and has returned is inside its engine. -/
theorem inside_of_result {p : Process C} {c : C} {handle : Nat} {code : LmResultCode}
    (hc : (p.phase c).handle = some handle) (hresult : p.result c = some code) :
    ∃ e, p.phase c = .inside handle e := by
  unfold Process.result at hresult
  cases hphase : p.phase c with
  | inside handle' e =>
    rw [hphase] at hc
    cases hc
    exact ⟨e, rfl⟩
  | created | refused =>
    rw [hphase] at hc
    cases hc
  | _ =>
    rw [hphase] at hresult
    cases hresult

variable [Boundary] [DecidableEq C] {setup : ProcessSetup C} {p p' : Process C} {a : ProcessAction C}

/-- A call has the handle that it is called with. -/
theorem handle_step {c : C} {handle : Nat} (hs : ProcessStep setup p a p') (hc : (p'.phase c).handle = some handle) :
    (p.phase c).handle = some handle ∨ a = .call c handle := by
  have hm := call_moves hs c
  generalize p'.phase c = phase at hm hc
  cases hm with
  | stay => exact .inl hc
  | call ha =>
    cases hc
    exact .inr ha
  | find h _ _ _ hphase =>
    rw [h]
    rw [hphase] at hc
    split at hc <;> exact .inl hc
  | destroy _ h =>
    rw [h]
    exact .inl hc
  | decode h =>
    rw [h]
    exact .inl hc
  | enter h =>
    rw [h]
    exact .inl hc
  | again h =>
    rw [h]
    exact .inl hc
  | build _ _ hphase => rcases hphase with rfl | rfl <;> cases hc
  | _ => cases hc

/-- A call keeps its handle as long as the handle is registered. -/
theorem handle_kept {c e : C} {handle : Nat} (hs : ProcessStep setup p a p') (hcall : setup.calls c ≠ .create)
    (hc : (p.phase c).handle = some handle) (hfound : p.engineRef handle = some e) :
    (p'.phase c).handle = some handle := by
  have hm := call_moves hs c
  have hhas {phase : AbiPhase C} (hphase : p.phase c = phase) : phase.handle = some handle := hphase ▸ hc
  generalize p'.phase c = phase at hm ⊢
  cases hm with
  | stay => exact hc
  | call _ h => cases hhas h
  | build _ hcreate => exact absurd hcreate hcall
  | number _ h => cases hhas h
  | create h => cases hhas h
  | refuse h hnone =>
    exfalso
    rcases h with ⟨h, -⟩ | ⟨envelope, h⟩
    · cases hhas h
      rw [hfound] at hnone
      cases hnone
    · cases hhas h
      rw [hfound] at hnone
      cases hnone
  | find h _ _ _ hphase =>
    rw [hphase]
    split <;> exact (hhas h :)
  | destroy _ h => exact (hhas h :)
  | decode h => exact (hhas h :)
  | enter h => exact (hhas h :)
  | again h => exact (hhas h :)

theorem idle_kept {c : C} (hs : ProcessStep setup p a p') (hc : p.phase c = .idle)
    (hcall : ∀ handle, a ≠ .call c handle) : p'.phase c = .idle := by
  have hm := call_moves hs c
  generalize p'.phase c = phase at hm ⊢
  cases hm with
  | stay => exact hc
  | call ha => exact absurd ha (hcall _)
  | refuse h => rcases h with ⟨h, -⟩ | ⟨_, h⟩ <;> cases hc.symm.trans h
  | build h => cases hc.symm.trans h
  | number _ h => cases hc.symm.trans h
  | create h => cases hc.symm.trans h
  | find h => cases hc.symm.trans h
  | destroy _ h => cases hc.symm.trans h
  | decode h => cases hc.symm.trans h
  | enter h => cases hc.symm.trans h
  | again h => cases hc.symm.trans h

/-- A handle stays registered until a call that destroys the engine has looked it up. -/
theorem registered_kept {e : C} {handle : Nat} (h : Registered setup p) (hs : ProcessStep setup p a p')
    (he : p.registry handle = some e)
    (hdestroy : ∀ d, setup.calls d = .destroy → p.phase d = .called handle → p'.phase d = .called handle) :
    p'.registry handle = some e := by
  cases hs with
  | @create k handle' hnumbered =>
    have hne : handle ≠ handle' := by
      rintro rfl
      have hcreated := h.registered handle e he
      have hsame := h.distinct k e handle (by rw [hnumbered]; rfl) (by rw [hcreated]; rfl)
      rw [hsame, hcreated] at hnumbered
      cases hnumbered
    exact (Function.update_of_ne hne ..).trans he
  | @destroy d e' handle' hcalled hcall _ =>
    have hne : handle ≠ handle' := by
      rintro rfl
      have hkept := hdestroy d hcall hcalled
      rw [Process.setPhase_self] at hkept
      cases hkept
    exact (Function.update_of_ne hne ..).trans he
  | _ => exact he

theorem hostStep_returned {setup : Setup C} {s : State C} {c : C} {code : LmResultCode}
    (hc : s.host c = .returned code) : hostStep setup s c = none := by
  unfold hostStep submitStep responseStep
  rw [hc]
  cases setup.calls c <;> rfl

/-- A call that has returned does nothing more. -/
theorem result_kept {c : C} {code : LmResultCode} (hs : ProcessStep setup p a p') (hc : p.result c = some code) :
    p'.result c = some code := by
  have hphase : p'.phase c = p.phase c := by
    refine last_step hs ?_
    unfold Process.result at hc
    generalize p.phase c = phase at hc
    cases phase <;> first | rfl | cases hc
  unfold Process.result at hc ⊢
  rw [hphase]
  cases hinside : p.phase c with
  | inside handle e =>
    rw [hinside] at hc
    dsimp only at hc ⊢
    have hreturned : (p.engines e).host c = .returned code := by
      cases hhost : (p.engines e).host c with
      | returned code' =>
        rw [hhost] at hc
        rw [Option.some.inj hc]
      | _ =>
        rw [hhost] at hc
        cases hc
    have hkept {e' : C} {s : State C} (hsame : s.host c = (p.engines e').host c) :
        ((p.setEngine e' s).engines e).host c = (p.engines e).host c := by
      by_cases he : e = e'
      · subst he
        rwa [Process.setEngine_self]
      · rw [Process.setEngine_of_ne _ he]
    have hhost : (p'.engines e).host c = (p.engines e).host c := by
      cases hs with
      | phase | number | create | destroy => rfl
      | @host k e' handle' s phase hengine hstep hmoves =>
        by_cases hk : c = k
        · subst hk
          rw [hinside] at hengine
          cases hengine
          rw [hostStep_returned hreturned] at hstep
          cases hstep
        · exact hkept (host_step (hostStep_cases hstep) fun ha => hk (Action.host.inj ha).symm)
      | again hread =>
        refine hkept (Function.update_of_ne ?_ ..)
        rintro rfl
        rw [hinside] at hread
        cases hread
      | engine hne hstep => exact hkept (host_step (step_cases hstep) (hne c))
    rw [hhost, hreturned]
  | _ =>
    rw [hinside] at hc
    exact hc

end Calls

/-! ## Counting the calls inside -/

/-- A counter of the elements that have a property. -/
def Tally {K : Type} (count : Nat) (P : K → Prop) : Prop :=
  ∃ members : Finset K, members.card = count ∧ ∀ k, k ∈ members ↔ P k

namespace Tally

variable {K : Type} {count : Nat} {P P' : K → Prop}

theorem none (h : ∀ k, ¬ P k) : Tally 0 P := ⟨∅, rfl, fun k => iff_of_false (Finset.notMem_empty k) (h k)⟩

theorem congr (h : Tally count P) (hP : ∀ k, P' k ↔ P k) : Tally count P' := by
  obtain ⟨members, hcard, hmem⟩ := h
  exact ⟨members, hcard, fun k => (hmem k).trans (hP k).symm⟩

theorem exists_of_pos (h : Tally count P) (hcount : 0 < count) : ∃ k, P k := by
  obtain ⟨members, hcard, hmem⟩ := h
  obtain ⟨k, hk⟩ := Finset.card_pos.mp (hcard ▸ hcount)
  exact ⟨k, (hmem k).mp hk⟩

theorem not_of_zero (h : Tally 0 P) (k : K) : ¬ P k := by
  obtain ⟨members, hcard, hmem⟩ := h
  rw [← hmem k, Finset.card_eq_zero.mp hcard]
  exact Finset.notMem_empty k

variable [DecidableEq K] {k : K}

theorem enter (h : Tally count P) (hk : ¬ P k) (hP : ∀ k', P' k' ↔ k' = k ∨ P k') : Tally (count + 1) P' := by
  obtain ⟨members, hcard, hmem⟩ := h
  refine ⟨insert k members, ?_, fun k' => ?_⟩
  · rw [Finset.card_insert_of_notMem fun hin => hk ((hmem k).mp hin), hcard]
  · rw [Finset.mem_insert, hmem, hP]

theorem leave (h : Tally count P) (hk : P k) (hP : ∀ k', P' k' ↔ k' ≠ k ∧ P k') : Tally (count - 1) P' := by
  obtain ⟨members, hcard, hmem⟩ := h
  refine ⟨members.erase k, ?_, fun k' => ?_⟩
  · rw [Finset.card_erase_of_mem ((hmem k).mpr hk), hcard]
  · rw [Finset.mem_erase, hmem, hP]

end Tally

/-! ## The owner -/

section Owner

variable {K C : Type}

structure Owning (K C : Type) where
  owner : Owner K
  process : Process C

/-- A call of the ABI that is not of the owner. -/
def OwnerSetup.Foreign (setup : OwnerSetup K C) (c : C) : Prop := ∀ k part, setup.abi k part ≠ c

/-- What else goes on in the process. Others do not have the handle. -/
def OwnerSetup.Allows (setup : OwnerSetup K C) (handle : Nat) : ProcessAction C → Prop
  | .call c handle' => setup.Foreign c ∧ handle' ≠ handle
  | _ => True

/-- A call of the ABI that was not made, or that has returned from the engine. -/
def Finished (p : Process C) (handle : Nat) (c : C) : Prop :=
  p.phase c = .idle ∨ (p.phase c).handle = some handle ∧ (p.result c).isSome

/-- What a call of the owner has made of the ABI when it is in this phase. -/
def OwnerSetup.Place (setup : OwnerSetup K C) (handle : Nat) (e : C) (s : Owning K C) (k : K) : OwnerPhase → Prop
  | .outside => ∀ part, s.process.phase (setup.abi k part) = .idle
  | .inside => s.owner.handle = some handle ∧ (s.process.phase (setup.abi k .body)).handle = some handle ∧
      s.process.phase (setup.abi k .shut) = .idle ∧ s.process.phase (setup.abi k .destroy) = .idle
  | .shutting current => current = handle ∧ s.owner.handle = none ∧ s.process.registry handle = some e ∧
      s.process.phase (setup.abi k .body) = .idle ∧ (s.process.phase (setup.abi k .shut)).handle = some handle ∧
      s.process.phase (setup.abi k .destroy) = .idle
  | .destroying => s.owner.handle = none ∧ s.process.phase (setup.abi k .body) = .idle ∧
      (s.process.phase (setup.abi k .shut) ≠ .idle ∧ Finished s.process handle (setup.abi k .shut)) ∧
      (s.process.phase (setup.abi k .destroy) = .called handle ∧ s.process.registry handle = some e ∨
        s.process.phase (setup.abi k .destroy) = .inside handle e)
  | .ended => (∀ part, Finished s.process handle (setup.abi k part)) ∧
      (s.process.phase (setup.abi k .destroy) ≠ .idle → s.process.phase (setup.abi k .shut) ≠ .idle)

/-- The invariant of an owner of the handle of the engine `e`. -/
structure Owned (setup : OwnerSetup K C) (handle : Nat) (e : C) (s : Owning K C) : Prop where
  registered : Registered setup.process s.process
  created : s.process.phase e = .created handle
  /-- While the owner has the handle nobody has closed it. -/
  held : ∀ current, s.owner.handle = some current → current = handle ∧ s.process.registry handle = some e ∧
    ∀ k, s.process.phase (setup.abi k .shut) = .idle
  place : ∀ k, setup.Place handle e s k (s.owner.phase k)
  foreign : ∀ c, setup.Foreign c → (s.process.phase c).handle ≠ some handle
  closer : ∀ k k', s.process.phase (setup.abi k .shut) ≠ .idle → s.process.phase (setup.abi k' .shut) ≠ .idle →
    k = k'

variable {setup : OwnerSetup K C} {handle : Nat} {e : C} {s s' : Owning K C}

theorem Finished.returned {p : Process C} {c : C} (h : Finished p handle c) (hmade : p.phase c ≠ .idle) :
    ∃ e code, p.phase c = .inside handle e ∧ p.result c = some code := by
  rcases h with hidle | ⟨hhandle, hresult⟩
  · exact absurd hidle hmade
  · obtain ⟨code, hcode⟩ := Option.isSome_iff_exists.mp hresult
    obtain ⟨e, hinside⟩ := inside_of_result hhandle hcode
    exact ⟨e, code, hinside, hcode⟩

theorem Finished.congr {p p' : Process C} {c : C} (h : Finished p handle c) (hphase : p'.phase c = p.phase c)
    (hresult : p'.result c = p.result c) : Finished p' handle c := by
  unfold Finished
  rw [hphase, hresult]
  exact h

/-- A call of the owner has no part in a step that changes nothing of what it has made. -/
theorem place_congr {k : K} {phase : OwnerPhase} (h : setup.Place handle e s k phase)
    (howner : s'.owner.handle = s.owner.handle) (hregistry : s'.process.registry = s.process.registry)
    (hphase : ∀ part, s'.process.phase (setup.abi k part) = s.process.phase (setup.abi k part))
    (hresult : ∀ part, s'.process.result (setup.abi k part) = s.process.result (setup.abi k part)) :
    setup.Place handle e s' k phase := by
  unfold OwnerSetup.Place Finished at h ⊢
  simp only [howner, hregistry, hphase, hresult]
  exact h

theorem Owned.engineRef (h : Owned setup handle e s) (he : s.process.registry handle = some e) :
    s.process.engineRef handle = some e := by
  have hpositive := (h.registered.numbers e handle (by rw [h.created]; rfl)).1
  unfold Process.engineRef
  rw [if_neg (by omega), he]

/-- Who has called `lm_engine_destroy` has called `lm_engine_shutdown`. -/
theorem Owned.shut_of_destroy (h : Owned setup handle e s) {k : K}
    (hk : s.process.phase (setup.abi k .destroy) ≠ .idle) : s.process.phase (setup.abi k .shut) ≠ .idle := by
  have hplace := h.place k
  generalize s.owner.phase k = phase at hplace
  cases phase with
  | outside => exact absurd (hplace .destroy) hk
  | inside => exact absurd hplace.2.2.2 hk
  | shutting => exact absurd hplace.2.2.2.2.2 hk
  | destroying => exact hplace.2.2.1.1
  | ended => exact hplace.2 hk

theorem OwnerSetup.not_create (setup : OwnerSetup K C) (k : K) (part : AbiPart) :
    setup.process.calls (setup.abi k part) ≠ .create := by
  cases part with
  | body => exact (setup.body k).1
  | shut => rw [setup.shut]; nofun
  | destroy => rw [setup.destroy]; nofun

/-- A call that destroys the engine is the owner's own. -/
theorem Owned.destroyer (h : Owned setup handle e s) {d : C} (hd : setup.process.calls d = .destroy)
    (hcalled : s.process.phase d = .called handle) : ∃ k, d = setup.abi k .destroy := by
  by_contra hnone
  refine h.foreign d (fun k part heq => ?_) (by rw [hcalled]; rfl)
  subst heq
  cases part with
  | body => exact (setup.body k).2 hd
  | shut => rw [setup.shut] at hd; cases hd
  | destroy => exact hnone ⟨k, rfl⟩

/-! ## Steps of the owner -/

section Design

variable [DecidableEq K] [DecidableEq C]

def Owner.setPhase (o : Owner K) (k : K) (phase : OwnerPhase) : Owner K :=
  { o with phase := Function.update o.phase k phase }

inductive OwnerStep [Boundary] (setup : OwnerSetup K C) (handle : Nat) (s : Owning K C) : Owning K C → Prop where
  | process {a : ProcessAction C} {p : Process C} : setup.Allows handle a →
    processStep setup.process s.process a = some p → OwnerStep setup handle s ⟨s.owner, p⟩
  | enter {k : K} {current : Nat} : s.owner.handle = some current → s.owner.phase k = .outside →
    OwnerStep setup handle s
      ⟨s.owner.setPhase k .inside, s.process.setPhase (setup.abi k .body) (.called current)⟩
  | leave {k : K} {code : LmResultCode} : s.owner.phase k = .inside →
    s.process.result (setup.abi k .body) = some code →
    OwnerStep setup handle s ⟨s.owner.setPhase k .ended, s.process⟩
  | take {k : K} {current : Nat} : s.owner.handle = some current → s.owner.phase k = .outside →
    (∀ k, s.owner.phase k ≠ .inside) →
    OwnerStep setup handle s ⟨{ s.owner with handle := none }.setPhase k (.shutting current),
      s.process.setPhase (setup.abi k .shut) (.called current)⟩
  | destroy {k : K} {current : Nat} {code : LmResultCode} : s.owner.phase k = .shutting current →
    s.process.result (setup.abi k .shut) = some code →
    OwnerStep setup handle s
      ⟨s.owner.setPhase k .destroying, s.process.setPhase (setup.abi k .destroy) (.called current)⟩
  | finish {k : K} {code : LmResultCode} : s.owner.phase k = .destroying →
    s.process.result (setup.abi k .destroy) = some code →
    OwnerStep setup handle s ⟨s.owner.setPhase k .ended, s.process⟩
  /-- A call that finds the owner closed, or closing. -/
  | refuse {k : K} : s.owner.phase k = .outside → OwnerStep setup handle s ⟨s.owner.setPhase k .ended, s.process⟩

end Design


section Steps

variable [Boundary] [DecidableEq C] {a : ProcessAction C} {p : Process C}

theorem finished_kept {c : C} (hs : ProcessStep setup.process s.process a p)
    (hcall : ∀ handle, a ≠ .call c handle) (h : Finished s.process handle c) : Finished p handle c := by
  by_cases hidle : s.process.phase c = .idle
  · exact .inl (idle_kept hs hidle hcall)
  · obtain ⟨e, code, hinside, hcode⟩ := h.returned hidle
    refine .inr ⟨?_, by rw [result_kept hs hcode]; rfl⟩
    rw [last_step hs (by rw [hinside]; rfl), hinside]
    rfl

/-- The owner's call of `lm_engine_destroy` finds the engine. -/
theorem Owned.destroying_step (h : Owned setup handle e s) (hs : ProcessStep setup.process s.process a p) {k : K}
    (hcalled : s.process.phase (setup.abi k .destroy) = .called handle) (he : s.process.registry handle = some e) :
    p.phase (setup.abi k .destroy) = .called handle ∧ p.registry handle = some e ∨
      p.phase (setup.abi k .destroy) = .inside handle e := by
  have hm := call_moves hs (setup.abi k .destroy)
  generalize hphase : p.phase (setup.abi k .destroy) = phase at hm
  have hfound := h.engineRef he
  cases hm with
  | stay =>
    refine .inl ⟨hcalled, registered_kept h.registered hs he fun d hd hd' => ?_⟩
    obtain ⟨k', rfl⟩ := h.destroyer hd hd'
    have hshut := h.shut_of_destroy (k := k) (by rw [hcalled]; nofun)
    have hshut' := h.shut_of_destroy (k := k') (by rw [hd']; nofun)
    rw [h.closer k' k hshut' hshut, hphase, hcalled]
  | destroy _ hcalled' _ hfound' =>
    cases hcalled.symm.trans hcalled'
    rw [hfound] at hfound'
    cases hfound'
    exact .inr rfl
  | call _ h' => cases hcalled.symm.trans h'
  | build _ hcreate => exact absurd hcreate (setup.not_create k .destroy)
  | number _ h' => cases hcalled.symm.trans h'
  | create h' => cases hcalled.symm.trans h'
  | refuse h' hnone =>
    rcases h' with ⟨h', -⟩ | ⟨_, h'⟩
    · cases hcalled.symm.trans h'
      rw [hfound] at hnone
      cases hnone
    · cases hcalled.symm.trans h'
  | find _ _ hdestroy => exact absurd (setup.destroy k) hdestroy
  | decode h' => cases hcalled.symm.trans h'
  | enter h' => cases hcalled.symm.trans h'
  | again h' => cases hcalled.symm.trans h'

theorem Owned.process_step (h : Owned setup handle e s) (hs : ProcessStep setup.process s.process a p)
    (hallows : setup.Allows handle a) (hraised : p.raised < 2 ^ setup.process.usizeBits) :
    Owned setup handle e ⟨s.owner, p⟩ := by
  have hown (k : K) (part : AbiPart) (current : Nat) : a ≠ .call (setup.abi k part) current := by
    rintro rfl
    exact hallows.1 k part rfl
  have hidle {k : K} {part : AbiPart} (hk : s.process.phase (setup.abi k part) = .idle) :
      p.phase (setup.abi k part) = .idle := idle_kept hs hk (hown k part)
  have hfinished {k : K} {part : AbiPart} (hk : Finished s.process handle (setup.abi k part)) :
      Finished p handle (setup.abi k part) := finished_kept hs (hown k part) hk
  have hhas {k : K} {part : AbiPart} (he : s.process.registry handle = some e)
      (hk : (s.process.phase (setup.abi k part)).handle = some handle) :
      (p.phase (setup.abi k part)).handle = some handle :=
    handle_kept hs (setup.not_create k part) hk (h.engineRef he)
  -- the owner's call of `lm_engine_destroy` is the only one with the handle
  have hregistered (he : s.process.registry handle = some e)
      (hnone : ∀ k, s.process.phase (setup.abi k .destroy) ≠ .called handle) : p.registry handle = some e := by
    refine registered_kept h.registered hs he fun d hd hcalled => ?_
    obtain ⟨k, rfl⟩ := h.destroyer hd hcalled
    exact absurd hcalled (hnone k)
  have hshut {k : K} (hk : p.phase (setup.abi k .shut) ≠ .idle) : s.process.phase (setup.abi k .shut) ≠ .idle :=
    fun hk' => hk (hidle hk')
  refine ⟨registered_step h.registered hs hraised, created_step hs h.created, fun current hcurrent => ?_,
    fun k => ?_, fun c hc hhandle => ?_, fun k k' hk hk' => h.closer k k' (hshut hk) (hshut hk')⟩
  · obtain ⟨hsame, he, hopen⟩ := h.held current hcurrent
    refine ⟨hsame, hregistered he fun k hk => ?_, fun k => hidle (hopen k)⟩
    exact h.shut_of_destroy (k := k) (by rw [hk]; nofun) (hopen k)
  · have hplace := h.place k
    change setup.Place handle e ⟨s.owner, p⟩ k (s.owner.phase k)
    generalize s.owner.phase k = phase at hplace
    cases phase with
    | outside => exact fun part => hidle (hplace part)
    | inside =>
      obtain ⟨howner, hbody, hs', hd⟩ := hplace
      exact ⟨howner, hhas (h.held handle howner).2.1 hbody, hidle hs', hidle hd⟩
    | shutting =>
      obtain ⟨hsame, howner, he, hbody, hs', hd⟩ := hplace
      refine ⟨hsame, howner, hregistered he fun k' hk' => ?_, hidle hbody, hhas he hs', hidle hd⟩
      have hk : s.process.phase (setup.abi k .shut) ≠ .idle := by
        intro hk
        rw [hk] at hs'
        cases hs'
      rw [h.closer k' k (h.shut_of_destroy (by rw [hk']; nofun)) hk, hd] at hk'
      cases hk'
    | destroying =>
      obtain ⟨howner, hbody, ⟨hshut, hreturned⟩, hd⟩ := hplace
      refine ⟨howner, hidle hbody, ⟨?_, hfinished hreturned⟩, ?_⟩
      · obtain ⟨e, code, hinside, -⟩ := hreturned.returned hshut
        show p.phase _ ≠ .idle
        rw [last_step hs (by rw [hinside]; rfl), hinside]
        nofun
      · rcases hd with ⟨hcalled, he⟩ | hinside
        · exact h.destroying_step hs hcalled he
        · refine .inr ?_
          show p.phase _ = _
          rw [last_step hs (by rw [hinside]; rfl), hinside]
    | ended =>
      obtain ⟨hreturned, horder⟩ := hplace
      refine ⟨fun part => hfinished (hreturned part), fun hd hk => ?_⟩
      have hd' : s.process.phase (setup.abi k .destroy) ≠ .idle := fun hd' => hd (hidle hd')
      obtain ⟨e, code, hinside, -⟩ := (hreturned .shut).returned (horder hd')
      rw [last_step hs (by rw [hinside]; rfl), hinside] at hk
      cases hk
  · rcases handle_step hs hhandle with hold | rfl
    · exact h.foreign c hc hold
    · exact hallows.2 rfl

/-! ## Steps of the owner itself -/

omit [Boundary] in
theorem result_setPhase {c c' : C} (hne : c' ≠ c) (phase : AbiPhase C) :
    (s.process.setPhase c phase).result c' = s.process.result c' := by
  unfold Process.result
  rw [Process.setPhase_of_ne _ hne]
  rfl

omit [Boundary] [DecidableEq C] in
theorem abi_ne {k k' : K} {part part' : AbiPart} (hne : k' ≠ k ∨ part' ≠ part) :
    setup.abi k' part' ≠ setup.abi k part := by
  intro heq
  obtain ⟨hk, hpart⟩ := setup.injective heq
  rcases hne with hne | hne
  · exact hne hk
  · exact hne hpart

/-- The owner makes a call with its handle. -/
theorem Owned.begin (h : Owned setup handle e s) (hraised : s.process.raised < 2 ^ setup.process.usizeBits) {k : K}
    {part : AbiPart} (hidle : s.process.phase (setup.abi k part) = .idle) :
    Registered setup.process (s.process.setPhase (setup.abi k part) (.called handle)) ∧
      (s.process.setPhase (setup.abi k part) (.called handle)).phase e = .created handle ∧
      ∀ c, setup.Foreign c → ((s.process.setPhase (setup.abi k part) (.called handle)).phase c).handle ≠ some handle := by
  have hs : ProcessStep setup.process s.process (.call (setup.abi k part) handle)
      (s.process.setPhase (setup.abi k part) (.called handle)) := .phase (.call hidle)
  refine ⟨registered_step h.registered hs hraised, created_step hs h.created, fun c hc => ?_⟩
  rw [Process.setPhase_of_ne _ fun heq => hc k part heq.symm]
  exact h.foreign c hc

end Steps

section Design

variable [Boundary] [DecidableEq K] [DecidableEq C]

omit [Boundary] [DecidableEq C] in
/-- The phase of one call of the owner changes, and what goes on in the process does not. -/
theorem Owned.settle (h : Owned setup handle e s) {k : K} {phase : OwnerPhase}
    (hplace : setup.Place handle e ⟨s.owner.setPhase k phase, s.process⟩ k phase) :
    Owned setup handle e ⟨s.owner.setPhase k phase, s.process⟩ := by
  refine ⟨h.registered, h.created, h.held, fun k' => ?_, h.foreign, h.closer⟩
  by_cases he : k' = k
  · subst he
    rw [show (s.owner.setPhase k' phase).phase k' = phase from Function.update_self ..]
    exact hplace
  · rw [show (s.owner.setPhase k phase).phase k' = s.owner.phase k' from Function.update_of_ne he ..]
    exact place_congr (h.place k') rfl rfl (fun _ => rfl) fun _ => rfl

theorem Owned.enter (h : Owned setup handle e s) (hraised : s.process.raised < 2 ^ setup.process.usizeBits) {k : K}
    {current : Nat} (hcurrent : s.owner.handle = some current) (hk : s.owner.phase k = .outside) :
    Owned setup handle e
      ⟨s.owner.setPhase k .inside, s.process.setPhase (setup.abi k .body) (.called current)⟩ := by
  obtain ⟨rfl, he, hopen⟩ := h.held current hcurrent
  have hplace := h.place k
  rw [hk] at hplace
  obtain ⟨hregistered, hcreated, hforeign⟩ := h.begin hraised (hplace .body)
  have hphase (k' : K) (part : AbiPart) (hne : k' ≠ k ∨ part ≠ .body) :
      (s.process.setPhase (setup.abi k .body) (.called current)).phase (setup.abi k' part) =
        s.process.phase (setup.abi k' part) := Process.setPhase_of_ne _ (abi_ne hne) _
  have hshut (k' : K) : (s.process.setPhase (setup.abi k .body) (.called current)).phase (setup.abi k' .shut) = .idle :=
    (hphase k' .shut (.inr (by decide))).trans (hopen k')
  refine ⟨hregistered, hcreated, fun current' hcurrent' => ?_, fun k' => ?_, hforeign, fun k' _ hk' => ?_⟩
  · exact ⟨(h.held current' hcurrent').1, he, hshut⟩
  · by_cases hne : k' = k
    · subst hne
      rw [show (s.owner.setPhase k' .inside).phase k' = .inside from Function.update_self ..]
      refine ⟨hcurrent, ?_, hshut k', (hphase k' .destroy (.inr (by decide))).trans (hplace .destroy)⟩
      change ((s.process.setPhase _ _).phase _).handle = _
      rw [Process.setPhase_self]
      rfl
    · rw [show (s.owner.setPhase k .inside).phase k' = s.owner.phase k' from Function.update_of_ne hne ..]
      exact place_congr (h.place k') rfl rfl (fun part => hphase k' part (.inl hne))
        fun _ => result_setPhase (abi_ne (.inl hne)) _
  · exact absurd (hshut k') hk'

theorem Owned.take (h : Owned setup handle e s) (hraised : s.process.raised < 2 ^ setup.process.usizeBits) {k : K}
    {current : Nat} (hcurrent : s.owner.handle = some current) (hk : s.owner.phase k = .outside)
    (hempty : ∀ k, s.owner.phase k ≠ .inside) :
    Owned setup handle e ⟨{ s.owner with handle := none }.setPhase k (.shutting current),
      s.process.setPhase (setup.abi k .shut) (.called current)⟩ := by
  obtain ⟨rfl, he, hopen⟩ := h.held current hcurrent
  have hplace := h.place k
  rw [hk] at hplace
  obtain ⟨hregistered, hcreated, hforeign⟩ := h.begin hraised (hplace .shut)
  have hphase (k' : K) (part : AbiPart) (hne : k' ≠ k ∨ part ≠ .shut) :
      (s.process.setPhase (setup.abi k .shut) (.called current)).phase (setup.abi k' part) =
        s.process.phase (setup.abi k' part) := Process.setPhase_of_ne _ (abi_ne hne) _
  have hcloser {k' : K}
      (hk' : (s.process.setPhase (setup.abi k .shut) (.called current)).phase (setup.abi k' .shut) ≠ .idle) :
      k' = k := by
    by_contra hne
    exact hk' ((hphase k' .shut (.inl hne)).trans (hopen k'))
  refine ⟨hregistered, hcreated, nofun, fun k' => ?_, hforeign, fun k' k'' hk' hk'' => ?_⟩
  · by_cases hne : k' = k
    · subst hne
      rw [show (Owner.setPhase { s.owner with handle := none } k' (.shutting current)).phase k' = _ from
        Function.update_self ..]
      refine ⟨rfl, rfl, he, (hphase k' .body (.inr (by decide))).trans (hplace .body), ?_,
        (hphase k' .destroy (.inr (by decide))).trans (hplace .destroy)⟩
      change ((s.process.setPhase _ _).phase _).handle = _
      rw [Process.setPhase_self]
      rfl
    · rw [show (Owner.setPhase { s.owner with handle := none } k (.shutting current)).phase k' = s.owner.phase k' from
        Function.update_of_ne hne ..]
      -- the others have not entered, or have left
      have hother := h.place k'
      have hnone := hempty k'
      generalize s.owner.phase k' = phase at hother hnone
      cases phase with
      | outside => exact fun part => (hphase k' part (.inl hne)).trans (hother part)
      | inside => exact absurd rfl hnone
      | shutting => exact nomatch hcurrent.symm.trans hother.2.1
      | destroying => exact nomatch hcurrent.symm.trans hother.1
      | ended =>
        have hsame := hphase k' .shut (.inl hne)
        refine ⟨fun part => ?_, fun hd hshut => hother.2 (fun hidle => hd ?_) (hsame.symm.trans hshut)⟩
        · exact (hother.1 part).congr (hphase k' part (.inl hne)) (result_setPhase (abi_ne (.inl hne)) _)
        · exact (hphase k' .destroy (.inl hne)).trans hidle
  · exact (hcloser hk').trans (hcloser hk'').symm

theorem Owned.destroy (h : Owned setup handle e s) (hraised : s.process.raised < 2 ^ setup.process.usizeBits) {k : K}
    {current : Nat} {code : LmResultCode} (hk : s.owner.phase k = .shutting current)
    (hresult : s.process.result (setup.abi k .shut) = some code) :
    Owned setup handle e
      ⟨s.owner.setPhase k .destroying, s.process.setPhase (setup.abi k .destroy) (.called current)⟩ := by
  have hplace := h.place k
  rw [hk] at hplace
  obtain ⟨rfl, howner, he, hbody, hshut, hidle⟩ := hplace
  obtain ⟨hregistered, hcreated, hforeign⟩ := h.begin hraised hidle
  have hphase (k' : K) (part : AbiPart) (hne : k' ≠ k ∨ part ≠ .destroy) :
      (s.process.setPhase (setup.abi k .destroy) (.called current)).phase (setup.abi k' part) =
        s.process.phase (setup.abi k' part) := Process.setPhase_of_ne _ (abi_ne hne) _
  have hsame (k' : K) := hphase k' .shut (.inr (by decide))
  refine ⟨hregistered, hcreated, fun current' hcurrent' => ?_, fun k' => ?_, hforeign, fun k' k'' hk' hk'' => ?_⟩
  · exact nomatch howner.symm.trans hcurrent'
  · by_cases hne : k' = k
    · subst hne
      rw [show (s.owner.setPhase k' .destroying).phase k' = .destroying from Function.update_self ..]
      obtain ⟨e', hinside⟩ := inside_of_result hshut hresult
      refine ⟨howner, (hphase k' .body (.inr (by decide))).trans hbody, ⟨?_, .inr ⟨?_, ?_⟩⟩, .inl ⟨?_, he⟩⟩
      · show (s.process.setPhase _ _).phase _ ≠ _
        rw [hsame, hinside]
        nofun
      · show ((s.process.setPhase _ _).phase _).handle = _
        rw [hsame, hshut]
      · show ((s.process.setPhase _ _).result _).isSome
        rw [result_setPhase (abi_ne (.inr (by decide))), hresult]
        rfl
      · exact Process.setPhase_self ..
    · rw [show (s.owner.setPhase k .destroying).phase k' = s.owner.phase k' from Function.update_of_ne hne ..]
      exact place_congr (h.place k') rfl rfl (fun part => hphase k' part (.inl hne))
        fun _ => result_setPhase (abi_ne (.inl hne)) _
  · exact h.closer k' k'' (by rwa [hsame] at hk') (by rwa [hsame] at hk'')

theorem owned_step (h : Owned setup handle e s) (hs : OwnerStep setup handle s s')
    (hraised : s'.process.raised < 2 ^ setup.process.usizeBits) : Owned setup handle e s' := by
  cases hs with
  | process hallows ht => exact h.process_step (processStep_cases ht) hallows hraised
  | enter hcurrent hk => exact h.enter hraised hcurrent hk
  | take hcurrent hk hempty => exact h.take hraised hcurrent hk hempty
  | destroy hk hresult => exact h.destroy hraised hk hresult
  | @leave k code hk hresult =>
    refine h.settle ⟨fun part => ?_, fun hd => ?_⟩
    · have hplace := h.place k
      rw [hk] at hplace
      cases part with
      | body => exact .inr ⟨hplace.2.1, by rw [hresult]; rfl⟩
      | shut => exact .inl hplace.2.2.1
      | destroy => exact .inl hplace.2.2.2
    · exact h.shut_of_destroy hd
  | @finish k code hk hresult =>
    refine h.settle ⟨fun part => ?_, fun hd => ?_⟩
    · have hplace := h.place k
      rw [hk] at hplace
      obtain ⟨-, hbody, ⟨-, hshut⟩, hd⟩ := hplace
      cases part with
      | body => exact .inl hbody
      | shut => exact hshut
      | destroy =>
        refine .inr ⟨?_, by rw [hresult]; rfl⟩
        rcases hd with ⟨hcalled, -⟩ | hinside
        · rw [hcalled]
          rfl
        · rw [hinside]
          rfl
    · exact h.shut_of_destroy hd
  | @refuse k hk =>
    have hplace := h.place k
    rw [hk] at hplace
    exact h.settle ⟨fun part => .inl (hplace part), fun hd => absurd (hplace .destroy) hd⟩

theorem raised_owner (hs : OwnerStep setup handle s s') : s.process.raised ≤ s'.process.raised := by
  cases hs with
  | process _ ht => exact raised_step (processStep_cases ht)
  | _ => exact Nat.le_refl _

end Design

/-! ## What the host relies on -/

/-- Who becomes the owner: nobody else has the handle of the engine, and no call was made with it. -/
structure OwnerSetup.Holds (setup : OwnerSetup K C) (handle : Nat) (e : C) (p : Process C) : Prop where
  registered : p.registry handle = some e
  unused : ∀ k part, p.phase (setup.abi k part) = .idle
  foreign : ∀ c, setup.Foreign c → (p.phase c).handle ≠ some handle

theorem owned_initial {p : Process C} (h : setup.Holds handle e p) (hregistered : Registered setup.process p) :
    Owned setup handle e ⟨⟨some handle, fun _ => .outside⟩, p⟩ where
  registered := hregistered
  created := hregistered.registered handle e h.registered
  held := fun _ hcurrent => ⟨(Option.some.inj hcurrent).symm, h.registered, fun k => h.unused k .shut⟩
  place := h.unused
  foreign := h.foreign
  closer := fun k _ hk => absurd (h.unused k .shut) hk

/-- Every call of the owner goes to its engine and is not refused, one call destroys the engine, and when it
does all others have returned. -/
structure Guarded (setup : OwnerSetup K C) (e : C) (p : Process C) : Prop where
  accepted : ∀ k part code, p.phase (setup.abi k part) ≠ .refused code
  engine : ∀ k part handle' e', (p.phase (setup.abi k part)).engine = some (handle', e') → e' = e
  once : ∀ k k', p.phase (setup.abi k .destroy) ≠ .idle → p.phase (setup.abi k' .destroy) ≠ .idle → k = k'
  alone : ∀ k, p.phase (setup.abi k .destroy) ≠ .idle → ∀ k' part, part ≠ .destroy →
    p.phase (setup.abi k' part) = .idle ∨ (p.result (setup.abi k' part)).isSome

/-- A call of the ABI was not made, or it has the handle. -/
theorem Owned.made (h : Owned setup handle e s) (k : K) (part : AbiPart) :
    s.process.phase (setup.abi k part) = .idle ∨ (s.process.phase (setup.abi k part)).handle = some handle := by
  have hfinished {c : C} (hc : Finished s.process handle c) :
      s.process.phase c = .idle ∨ (s.process.phase c).handle = some handle := hc.imp_right (·.1)
  have hplace := h.place k
  generalize s.owner.phase k = phase at hplace
  cases phase with
  | outside => exact .inl (hplace part)
  | inside =>
    obtain ⟨-, hbody, hshut, hd⟩ := hplace
    cases part with
    | body => exact .inr hbody
    | shut => exact .inl hshut
    | destroy => exact .inl hd
  | shutting =>
    obtain ⟨-, -, -, hbody, hshut, hd⟩ := hplace
    cases part with
    | body => exact .inl hbody
    | shut => exact .inr hshut
    | destroy => exact .inl hd
  | destroying =>
    obtain ⟨-, hbody, ⟨-, hshut⟩, hd⟩ := hplace
    cases part with
    | body => exact .inl hbody
    | shut => exact hfinished hshut
    | destroy =>
      rcases hd with ⟨hcalled, -⟩ | hinside
      · exact .inr (by rw [hcalled]; rfl)
      · exact .inr (by rw [hinside]; rfl)
  | ended => exact hfinished (hplace.1 part)

theorem Owned.guarded (h : Owned setup handle e s) : Guarded setup e s.process where
  accepted k part code hrefused := by
    rcases h.made k part with hidle | hhandle
    · cases hidle.symm.trans hrefused
    · rw [hrefused] at hhandle
      cases hhandle
  engine k part handle' e' hengine := by
    have hcreated := h.registered.found _ handle' e' hengine
    have hsame : handle' = handle := by
      rcases h.made k part with hidle | hhandle
      · rw [hidle] at hengine
        cases hengine
      · generalize s.process.phase (setup.abi k part) = phase at hengine hhandle
        cases phase with
        | reading | inside =>
          cases hengine
          exact Option.some.inj hhandle
        | _ => cases hengine
    subst hsame
    exact h.registered.distinct e' e handle' (by rw [hcreated]; rfl) (by rw [h.created]; rfl)
  once k k' hk hk' := h.closer k k' (h.shut_of_destroy hk) (h.shut_of_destroy hk')
  alone k hk k' part hpart := by
    have hshut := h.shut_of_destroy hk
    have hfinished {c : C} (hc : Finished s.process handle c) :
        s.process.phase c = .idle ∨ (s.process.result c).isSome := hc.imp_right (·.2)
    have hplace := h.place k'
    generalize s.owner.phase k' = phase at hplace
    cases phase with
    | outside => exact .inl (hplace part)
    | inside => exact absurd ((h.held handle hplace.1).2.2 k) hshut
    | shutting =>
      -- only the call that destroys has shut the engine down
      obtain ⟨-, -, -, -, hshut', hd⟩ := hplace
      have hsame : k' = k := h.closer k' k (fun hidle => by rw [hidle] at hshut'; cases hshut') hshut
      exact absurd (hsame ▸ hd) hk
    | destroying =>
      obtain ⟨-, hbody, ⟨-, hreturned⟩, -⟩ := hplace
      cases part with
      | body => exact .inl hbody
      | shut => exact hfinished hreturned
      | destroy => exact absurd rfl hpart
    | ended => exact hfinished (hplace.1 part)

/-- The engine is destroyed for good when a call of `lm_engine_destroy` of the owner has returned. -/
theorem Owned.destroyed (h : Owned setup handle e s) {k : K}
    (hk : (s.process.result (setup.abi k .destroy)).isSome = true) :
    Destroyed setup.process (setup.abi k .destroy) e handle s.process := by
  obtain ⟨code, hcode⟩ := Option.isSome_iff_exists.mp hk
  have hhandle : (s.process.phase (setup.abi k .destroy)).handle = some handle := by
    refine (h.made k .destroy).resolve_left fun hidle => ?_
    unfold Process.result at hcode
    rw [hidle] at hcode
    cases hcode
  obtain ⟨e', hinside⟩ := inside_of_result hhandle hcode
  have hsame := h.guarded.engine k .destroy handle e' (by rw [hinside]; rfl)
  exact h.registered.destroyed_of_inside (setup.destroy k) (hsame ▸ hinside)

end Owner

/-! ## An owner with two calls -/

section Bytes

local instance ownerBoundary : Boundary := byteBoundary

/-- A call of the ABI by one of two calls of a wrapper; the engine was created before. -/
abbrev PairCall := Option (Fin 2 × AbiPart)

/-- The call that cancels, and the one that closes the wrapper. -/
def pairCancel : Fin 2 := 0
def pairClose : Fin 2 := 1

def pairSetup : OwnerSetup (Fin 2) PairCall where
  process := {
    calls
      | none => .create
      | some (_, .body) => .cancel
      | some (_, .shut) => .shutdown
      | some (_, .destroy) => .destroy
    requestId _ := []
    builds _ := true
    usizeBits := 64 }
  abi k part := some (k, part)
  injective h := by
    cases h
    exact ⟨rfl, rfl⟩
  body _ := ⟨nofun, nofun⟩
  shut _ := rfl
  destroy _ := rfl

def pairCreate : List (ProcessAction PairCall) := .call none 0 :: List.replicate 3 (.advance none)

theorem pair_holds : ∃ p, run (processStep pairSetup.process) (.initial PairCall) pairCreate = some p ∧
    Registered pairSetup.process p ∧ pairSetup.Holds 1 none p := by
  have h : (run (processStep pairSetup.process) (.initial PairCall) pairCreate).any (fun p =>
      p.registry 1 = some none ∧ p.phase none = .created 1 ∧ p.raised = 1 ∧
        (∀ k : Fin 2, p.phase (some (k, .body)) = .idle ∧ p.phase (some (k, .shut)) = .idle ∧
          p.phase (some (k, .destroy)) = .idle)) := by
    decide +kernel
  obtain ⟨p, hp, h⟩ := (Option.any_eq_true _ _).mp h
  obtain ⟨hregistered, hcreated, hraised, hidle⟩ := of_decide_eq_true h
  refine ⟨p, hp, registered_run hp (by rw [hraised]; decide), ⟨hregistered, fun k part => ?_, fun c hc => ?_⟩⟩
  · cases part with
    | body => exact (hidle k).1
    | shut => exact (hidle k).2.1
    | destroy => exact (hidle k).2.2
  · cases c with
    | none =>
      rw [hcreated]
      nofun
    | some c => exact absurd rfl (hc c.1 c.2)

end Bytes

end LinguaMesh.Ffi
