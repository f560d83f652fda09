import LinguaMesh.Ffi.Slot

/-!
# Cancellation

A host-secret operation resolves its secret under one token and translates under
another. Between the last look at the first token and the step that puts the
second one into the slot a cancel reaches only the first (`cancel_lost`). A cancel
at any other time is kept: from then on the token that governs the work of the
operation is cancelled (`cancel_kept`).
-/

namespace LinguaMesh.Ffi

open Runs

/-- The token that governs the remaining work of an operation: the one in the slot, or from its
start the translation's own. -/
def TaskPhase.governing : TaskPhase → Option Token
  | .handing _ operation => some operation
  | task => task.slotToken

/-- The secret is there, and the slot does not hold the token of the translation yet. -/
def TaskPhase.isHandingOver : TaskPhase → Bool
  | .resolved _ _ | .handing _ _ => true
  | _ => false

/-- What is left of a task runs under a cancelled token. -/
structure TaskPhase.Stopped (cancelled : List Token) (task : TaskPhase) : Prop where
  begun : task ≠ .idle
  settled : task.isHandingOver = false
  governed : ∀ token, task.governing = some token → token ∈ cancelled

section Stopped

variable {C : Type}

/-- A cancellation is for good. -/
theorem TaskPhase.Stopped.mono {task : TaskPhase} {cancelled cancelled' : List Token}
    (h : task.Stopped cancelled) (hc : cancelled ⊆ cancelled') : task.Stopped cancelled' :=
  ⟨h.begun, h.settled, fun token ht => hc (h.governed token ht)⟩

/-- A task that has left the slot. -/
theorem stopped_of_none {task : TaskPhase} {cancelled : List Token} (hne : task ≠ .idle)
    (hslot : task.slotToken = none) : task.Stopped cancelled := by
  cases task with
  | idle => exact absurd rfl hne
  | draining => exact ⟨hne, rfl, nofun⟩
  | done => exact ⟨hne, rfl, nofun⟩
  | _ => cases hslot

theorem stopped_of_slot {task : TaskPhase} {cancelled : List Token} {token : Token}
    (hslot : task.slotToken = some token) (hs : task.isHandingOver = false)
    (hc : token ∈ cancelled) : task.Stopped cancelled := by
  cases task <;> cases hslot <;> cases hs <;> refine ⟨TaskPhase.noConfusion, rfl, fun _ hg => ?_⟩ <;>
    cases hg <;> exact hc

end Stopped

section Runs

variable [Boundary] {C : Type} [DecidableEq C] {setup : Setup C} {s s' t : State C} {c : C}

/-- An operation whose governing token is cancelled stays so. -/
theorem stopped_step {a : Action C} (hs : SlotHeld s) (h : (s.op c).task.Stopped s.cancelled)
    (hstep : Step setup s a s') : (s'.op c).task.Stopped s'.cancelled := by
  apply TaskPhase.Stopped.mono _ (step_cancelled hstep)
  obtain ⟨events, hm, -⟩ := step_moves hstep c
  -- a call that opens an operation has none yet
  have hbefore : ¬ (s.host c).isBefore := fun hb => h.begun (hs.idle_of_before hb)
  have hmove : ∀ {task task' : TaskPhase} {token : Token}, (s.op c).task = task →
      task.governing = some token → task' ≠ .idle → task'.isHandingOver = false →
      task'.governing = some token → task'.Stopped s.cancelled := by
    intro task task' token ht hg hne hsettled hg'
    refine ⟨hne, hsettled, fun token' ht' => ?_⟩
    cases hg'.symm.trans ht'
    exact h.governed token (ht ▸ hg)
  generalize s'.op c = o at hm ⊢
  cases hm with
  | stay => exact h
  | spawn hb => exact absurd hb hbefore
  | openDirect hb => exact absurd hb hbefore
  | openSecret hhost => exact absurd (by rw [hhost]; rfl) hbefore
  | askCancelled ht => rcases ht with ht | ht <;> exact hmove ht rfl nofun rfl rfl
  | ask ht hrunning => exact absurd (h.governed _ (by rw [ht]; rfl)) hrunning
  | refused ht => exact hmove ht rfl nofun rfl rfl
  | resolve ht hrunning => exact absurd (h.governed _ (by rw [ht]; rfl)) hrunning
  | hand ht =>
    have hsettled := h.settled
    rw [ht] at hsettled
    cases hsettled
  | reject ht => exact hmove ht rfl nofun rfl rfl
  | repoint ht =>
    have hsettled := h.settled
    rw [ht] at hsettled
    cases hsettled
  | receive ht => exact hmove ht rfl nofun rfl rfl
  | @close hostSecret =>
    cases hostSecret <;> exact stopped_of_none nofun rfl
  | forward ht => exact hmove ht rfl nofun rfl rfl
  | fail ht => exact hmove ht rfl nofun rfl rfl
  | clear _ ht => exact hmove ht rfl nofun rfl rfl
  | release => exact stopped_of_none nofun rfl
  | drain => exact stopped_of_none nofun rfl
  | takeLease => exact h
  | skipLease => exact h
  | endRequests => exact h
  | insert => exact h
  | require => exact h
  | work => exact h

/-- A cancel that runs while an operation is in the slot, and not in the hand-over from the
resolution of its secret to the slot's new token, is kept: in every state from then on the token
that governs the operation's work is cancelled. -/
theorem cancel_kept {k : C} {active : ActiveOperation C}
    (h : Reach (step setup) (fun _ _ => True) (initial C) s)
    (hk : setup.calls k = .cancel) (hphase : s.host k = .admitted) (hactive : s.active = some active)
    (hsettled : (s.op active.owner).task.isHandingOver = false)
    (hs : step setup s (.host k) = some s')
    (ht : Reach (step setup) (fun _ _ => True) s' t) :
    ∀ token, (t.op active.owner).task.governing = some token → token ∈ t.cancelled := by
  have hslot := slotHeld_reach h
  -- the slot has the governing token, and the cancel reaches it
  have hstopped : (s'.op active.owner).task.Stopped s'.cancelled := by
    unfold step hostStep at hs
    simp only [hk, hphase] at hs
    cases hs
    rw [State.cancelActive_eq, hactive]
    exact stopped_of_slot (hslot.holder active hactive) hsettled (List.mem_cons_self ..)
  have hinv : SlotHeld t ∧ (t.op active.owner).task.Stopped t.cancelled := by
    refine ht.invariant (I := fun t => SlotHeld t ∧ (t.op active.owner).task.Stopped t.cancelled)
      ⟨slotHeld_step hslot (step_cases hs), hstopped⟩ ?_
    intro u a u' hu _ hstep
    have hcase := step_cases hstep
    exact ⟨slotHeld_step hu.1 hcase, stopped_step hu.1 hu.2 hcase⟩
  exact hinv.2.governed

end Runs

/-! ## A cancel on either side of the hand-over -/

section Bytes

local instance cancelBoundary : Boundary := byteBoundary

/-- A submit with a secret, its answer, and a cancel. -/
def secretCalls : Setup (Fin 3) where
  calls
    | 0 => .submit [1, 65]
    | 1 => .sendHostResponse [2, 65, 65]
    | 2 => .cancel
  requestId _ := ['A']

/-- The secret is asked for, and the host's answer is there. -/
def answered : List (Action (Fin 3)) :=
  List.replicate 5 (.host 0) ++ [.task 0] ++ List.replicate 3 (.request 0) ++
    List.replicate 4 (.host 1)

theorem cancel_kept_waiting :
    ∃ s s', run (step secretCalls) (initial _) (answered ++ [.host 2]) = some s ∧
      step secretCalls s (.host 2) = some s' ∧ (s'.op 0).task.governing = some 0 ∧
      ∀ token, (s'.op 0).task.governing = some token → token ∈ s'.cancelled := by
  have h : (run (step secretCalls) (initial _) (answered ++ [.host 2])).any (fun s =>
      s.host 2 = .admitted ∧ s.active = some ⟨['A'], 0, 0⟩ ∧ (s.op 0).task = .waiting 0 ∧
        (step secretCalls s (.host 2)).any fun s' => (s'.op 0).task.governing = some 0) := by
    decide +kernel
  obtain ⟨s, hs, h⟩ := (Option.any_eq_true _ _).mp h
  obtain ⟨hphase, hactive, htask, hnext⟩ := of_decide_eq_true h
  obtain ⟨s', hs', hgoverning⟩ := (Option.any_eq_true _ _).mp hnext
  refine ⟨s, s', hs, hs', of_decide_eq_true hgoverning, ?_⟩
  exact cancel_kept (.of_run hs (meets_of_forall (fun _ _ => trivial) _)) rfl hphase hactive (by rw [htask]; rfl) hs' .refl

/-- A cancel after the resolution of the secret, before the slot has the new token: the
translation goes on under a token that is not cancelled. -/
theorem cancel_lost :
    ∃ s s' t, Reach (step secretCalls) (fun _ _ => True) (initial _) s ∧
      s.host 2 = .admitted ∧ s.active.map (·.owner) = some 0 ∧
      step secretCalls s (.host 2) = some s' ∧ s'.host 2 = .returned .ok ∧
      Reach (step secretCalls) (fun _ _ => True) s' t ∧
      ∃ token, (t.op 0).task.governing = some token ∧ token ∉ t.cancelled := by
  have h : (run (step secretCalls) (initial _) (answered ++ [.task 0, .host 2])).any (fun s =>
      s.host 2 = .admitted ∧ s.active.map (·.owner) = some 0 ∧
        (step secretCalls s (.host 2)).any fun s' => s'.host 2 = .returned .ok ∧
          (run (step secretCalls) s' [.task 0, .task 0]).any fun t =>
            (t.op 0).task.governing = some 1 ∧ 1 ∉ t.cancelled) := by
    decide +kernel
  obtain ⟨s, hs, h⟩ := (Option.any_eq_true _ _).mp h
  obtain ⟨hphase, hactive, hnext⟩ := of_decide_eq_true h
  obtain ⟨s', hs', h'⟩ := (Option.any_eq_true _ _).mp hnext
  obtain ⟨hreturned, hlast⟩ := of_decide_eq_true h'
  obtain ⟨t, ht, hend⟩ := (Option.any_eq_true _ _).mp hlast
  exact ⟨s, s', t, .of_run hs (meets_of_forall (fun _ _ => trivial) _), hphase, hactive, hs', hreturned,
    .of_run ht (meets_of_forall (fun _ _ => trivial) _), 1, of_decide_eq_true hend⟩

end Bytes

end LinguaMesh.Ffi
