import LinguaMesh.Ffi.Cancel

/-!
# Shutdown

`lm_engine_shutdown` sets the flag and cancels the token in the slot.
`submit_with_host_secret` takes the lock a second time without a look at the flag,
and the hand-over gives the slot a fresh token: work that is at one of these two
places goes on after the shutdown (`shutdown_missed_submit`). A shutdown that finds no
call and no operation there stops all work (`shutdown_stops`).
-/

namespace LinguaMesh.Ffi

open Runs

/-- `submit_with_host_secret` is between the two sections under the lock. -/
def HostPhase.isOpening {C : Type} : HostPhase C → Bool
  | .unlocked _ _ _ | .spawned _ => true
  | _ => false

/-- No phase of a shutdown. -/
def HostPhase.isUnderway {C : Type} : HostPhase C → Bool
  | .called | .flagged | .returned _ => false
  | _ => true

section Shutdown

variable {C : Type}

/-- A shutdown cancels the token in the slot only while no call is about to open an operation
with a secret and no operation is handed over. -/
def Orderly (setup : Setup C) (s : State C) : Action C → Prop
  | .host k => setup.calls k = .shutdown → s.host k = .flagged →
      (∀ k, (s.host k).isOpening = false) ∧ ∀ c, (s.op c).task.isHandingOver = false
  | _ => True

/-- All work is stopped, and none can begin. -/
structure ShutDown (s : State C) : Prop where
  flag : s.shutdown = true
  opening : ∀ k, (s.host k).isOpening = false
  stopped : ∀ c, (s.op c).task ≠ .idle → (s.op c).task.Stopped s.cancelled

/-- The invariant of an orderly run. -/
structure ShutdownHeld (setup : Setup C) (s : State C) : Prop where
  slot : SlotHeld s
  /-- A shutdown has set the flag before anything else. -/
  flag : ∀ k, setup.calls k = .shutdown → s.host k ≠ .called → s.shutdown = true
  phase : ∀ k, setup.calls k = .shutdown → (s.host k).isUnderway = false
  down : ∀ k code, setup.calls k = .shutdown → s.host k = .returned code → ShutDown s

variable [Boundary] [DecidableEq C] {setup : Setup C} {s s' : State C}

/-- A task begins only in a step that opens an operation. -/
theorem idle_step {a : Action C} {c : C} (hs : Step setup s a s') (hc : (s.op c).task = .idle) :
    (s'.op c).task = .idle ∨ s.shutdown = false ∨ (s.host c).isOpening := by
  obtain ⟨events, hm, -⟩ := step_moves hs c
  generalize s'.op c = o at hm ⊢
  cases hm with
  | stay => exact .inl hc
  | spawn => exact .inl rfl
  | openDirect _ hrunning => exact .inr (.inl hrunning)
  | openSecret hhost => exact .inr (.inr (by rw [hhost]; rfl))
  | askCancelled ht => rcases ht with ht | ht <;> exact nomatch ht.symm.trans hc
  | takeLease => exact .inl hc
  | skipLease => exact .inl hc
  | endRequests => exact .inl hc
  | insert => exact .inl hc
  | require => exact .inl hc
  | work => exact .inl hc
  | ask ht => exact nomatch ht.symm.trans hc
  | refused ht => exact nomatch ht.symm.trans hc
  | resolve ht => exact nomatch ht.symm.trans hc
  | hand ht => exact nomatch ht.symm.trans hc
  | reject ht => exact nomatch ht.symm.trans hc
  | repoint ht => exact nomatch ht.symm.trans hc
  | receive ht => exact nomatch ht.symm.trans hc
  | close ht => exact nomatch ht.symm.trans hc
  | forward ht => exact nomatch ht.symm.trans hc
  | fail ht => exact nomatch ht.symm.trans hc
  | clear _ ht => exact nomatch ht.symm.trans hc
  | release ht => exact nomatch ht.symm.trans hc
  | drain _ ht => exact nomatch ht.symm.trans hc

/-- The flag is never taken back. -/
theorem step_shutdown {a : Action C} (hs : Step setup s a s') (h : s.shutdown = true) :
    s'.shutdown = true := by
  cases hs with
  | flag => rfl
  | cancel =>
    rw [State.cancelActive_eq]
    exact h
  | shutdown =>
    rw [State.cancelActive_eq]
    exact h
  | _ => exact h

/-- What a step makes of a call of the host. Only while the flag is not set does a call come
between the sections of `submit_with_host_secret`. -/
inductive HostMoves (setup : Setup C) (s : State C) (a : Action C) (s' : State C) (k : C) :
    HostPhase C → Prop where
  | stay : HostMoves setup s a s' k (s.host k)
  | other {p : HostPhase C} : setup.calls k ≠ .shutdown ∨ (s.host k).isUnderway →
    (p.isOpening → s.shutdown = false ∨ (s.host k).isOpening) → HostMoves setup s a s' k p
  | flag : s'.shutdown = true → HostMoves setup s a s' k .flagged
  | shutdown : a = .host k → s.host k = .flagged → s' = s.cancelActive.finish k .ok →
    HostMoves setup s a s' k (.returned .ok)

omit [Boundary] in
theorem hostMoves_update {a : Action C} {k k' : C} {p : HostPhase C}
    (hm : HostMoves setup s a s' k p) (hh : s'.host = Function.update s.host k p) :
    HostMoves setup s a s' k' (s'.host k') := by
  rw [hh]
  by_cases he : k' = k
  · subst he
    rw [Function.update_self]
    exact hm
  · rw [Function.update_of_ne he]
    exact .stay

theorem step_host {a : Action C} (hs : Step setup s a s') (k : C) :
    HostMoves setup s a s' k (s'.host k) := by
  have hother : ∀ {s' : State C} {k : C} {p q : HostPhase C}, s.host k = p → p.isUnderway →
      (q.isOpening → s.shutdown = false ∨ p.isOpening) → HostMoves setup s a s' k q := by
    rintro s' k _ q rfl hunderway hopening
    exact .other (.inr hunderway) hopening
  cases hs with
  | @advance k p hcall _ hplain =>
    refine hostMoves_update (.other (.inl hcall) fun hopening => ?_) rfl
    cases p <;> cases hplain <;> cases hopening
  | unlock hhost hrunning => exact hostMoves_update (hother hhost rfl fun _ => .inl hrunning) rfl
  | spawn hhost => exact hostMoves_update (hother hhost rfl fun _ => .inr rfl) rfl
  | openDirect hhost => exact hostMoves_update (hother hhost rfl (by nofun)) rfl
  | openSecret hhost => exact hostMoves_update (hother hhost rfl (by nofun)) rfl
  | cancel _ hhost =>
    rw [State.cancelActive_eq]
    exact hostMoves_update (hother hhost rfl (by nofun)) rfl
  | poll _ hhost => exact hostMoves_update (hother hhost rfl (by nofun)) rfl
  | flag => exact hostMoves_update (.flag rfl) rfl
  | shutdown _ hhost =>
    apply hostMoves_update (.shutdown rfl hhost rfl)
    rw [State.cancelActive_eq]
    rfl
  | take _ hhost => exact hostMoves_update (hother hhost rfl (by nofun)) rfl
  | answer hhost => exact hostMoves_update (hother hhost rfl (by nofun)) rfl
  | refuse hhost => exact hostMoves_update (hother hhost rfl (by nofun)) rfl
  | _ => exact .stay

/-- Once all work is stopped it stays so. -/
theorem shutDown_step {a : Action C} (hslot : SlotHeld s) (h : ShutDown s) (hs : Step setup s a s') :
    ShutDown s' := by
  refine ⟨step_shutdown hs h.flag, fun k => ?_, fun c hc => ?_⟩
  · have hm := step_host hs k
    generalize s'.host k = p at hm ⊢
    cases hm with
    | stay => exact h.opening k
    | other _ hopening =>
      by_contra hp
      rcases hopening (by simpa using hp) with hrunning | hk
      · rw [h.flag] at hrunning
        cases hrunning
      · rw [h.opening k] at hk
        cases hk
    | flag => rfl
    | shutdown => rfl
  · by_cases hidle : (s.op c).task = .idle
    · rcases idle_step hs hidle with hc' | hrunning | hopening
      · exact absurd hc' hc
      · rw [h.flag] at hrunning
        cases hrunning
      · rw [h.opening c] at hopening
        cases hopening
    · exact stopped_step hslot (h.stopped c hidle) hs

omit [Boundary] in
/-- A shutdown that finds no call between the sections and no operation in the hand-over. -/
theorem shutDown_begin {k : C} (hslot : SlotHeld s) (hflag : s.shutdown = true)
    (hopening : ∀ k, (s.host k).isOpening = false)
    (hsettled : ∀ c, (s.op c).task.isHandingOver = false) :
    ShutDown (s.cancelActive.finish k .ok) := by
  rw [State.cancelActive_eq]
  refine ⟨hflag, fun k' => ?_, fun c hc => ?_⟩
  · show HostPhase.isOpening (Function.update s.host k (.returned .ok) k') = false
    by_cases he : k' = k
    · rw [he, Function.update_self]
      rfl
    · rw [Function.update_of_ne he]
      exact hopening k'
  · show (s.op c).task.Stopped ((s.active.map (·.cancellation)).toList ++ s.cancelled)
    cases htoken : (s.op c).task.slotToken with
    | none => exact stopped_of_none hc htoken
    | some token =>
      apply stopped_of_slot htoken (hsettled c)
      rw [hslot.held c token htoken]
      exact List.mem_cons_self ..

theorem shutdownHeld_step {a : Action C} (h : ShutdownHeld setup s) (hok : Orderly setup s a)
    (hs : Step setup s a s') : ShutdownHeld setup s' := by
  refine ⟨slotHeld_step h.slot hs, fun k hk => ?_, fun k hk => ?_, fun k code hk => ?_⟩
  · have hm := step_host hs k
    generalize s'.host k = p at hm ⊢
    cases hm with
    | stay => exact fun hne => step_shutdown hs (h.flag k hk hne)
    | other hcall =>
      intro _
      rcases hcall with hcall | hcall
      · exact absurd hk hcall
      · rw [h.phase k hk] at hcall
        cases hcall
    | flag hset => exact fun _ => hset
    | shutdown _ hhost =>
      apply fun _ => step_shutdown hs (h.flag k hk _)
      rw [hhost]
      exact nofun
  · have hm := step_host hs k
    generalize s'.host k = p at hm ⊢
    cases hm with
    | stay => exact h.phase k hk
    | other hcall =>
      rcases hcall with hcall | hcall
      · exact absurd hk hcall
      · rw [h.phase k hk] at hcall
        cases hcall
    | flag => rfl
    | shutdown => rfl
  · have hm := step_host hs k
    generalize s'.host k = p at hm ⊢
    cases hm with
    | stay => exact fun hreturned => shutDown_step h.slot (h.down k code hk hreturned) hs
    | other hcall =>
      rcases hcall with hcall | hcall
      · exact absurd hk hcall
      · rw [h.phase k hk] at hcall
        cases hcall
    | flag => exact nofun
    | shutdown hact hhost hs' =>
      intro _
      subst hact hs'
      obtain ⟨hopening, hsettled⟩ := hok hk hhost
      apply shutDown_begin h.slot (h.flag k hk _) hopening hsettled
      rw [hhost]
      exact nofun

/-- After an orderly shutdown the operation in the slot, then or later, has a cancelled token. -/
theorem shutdown_stops {k : C} {code : LmResultCode} {active : ActiveOperation C}
    (h : Reach (step setup) (Orderly setup) (initial C) s) (hk : setup.calls k = .shutdown)
    (hreturned : s.host k = .returned code) (ha : s.active = some active) :
    active.cancellation ∈ s.cancelled := by
  have hinv : ShutdownHeld setup s := by
    refine h.invariant ⟨slotHeld_initial, ?_, fun _ _ => rfl, ?_⟩ fun _ _ _ ht hok hs =>
      shutdownHeld_step ht hok (step_cases hs)
    · exact fun _ _ hne => absurd rfl hne
    · exact fun _ _ _ hr => nomatch hr
  have hheld := hinv.slot.holder active ha
  have hne : (s.op active.owner).task ≠ .idle := by
    intro hidle
    rw [hidle] at hheld
    cases hheld
  have hstopped := (hinv.down k code hk hreturned).stopped active.owner hne
  apply hstopped.governed
  have hsettled := hstopped.settled
  generalize (s.op active.owner).task = task at hheld hsettled
  cases task <;> first | exact hheld | cases hsettled

end Shutdown

/-! ## A shutdown at the two places -/

instance {n : Nat} (setup : Setup (Fin n)) (s : State (Fin n)) :
    (a : Action (Fin n)) → Decidable (Orderly setup s a)
  | .host k => inferInstanceAs (Decidable (setup.calls k = .shutdown → s.host k = .flagged →
      (∀ k, (s.host k).isOpening = false) ∧ ∀ c, (s.op c).task.isHandingOver = false))
  | .task _ | .request _ | .work _ _ => isTrue trivial

section Bytes

local instance shutdownBoundary : Boundary := byteBoundary

/-- A submit with a secret, its answer, and a shutdown. -/
def shutdownCalls : Setup (Fin 3) where
  calls
    | 0 => .submit [1, 65]
    | 1 => .sendHostResponse [2, 65, 65]
    | 2 => .shutdown
  requestId _ := ['A']

/-- The shutdown runs while the host is asked for the secret. -/
theorem shutdown_stops_waiting :
    ∃ s active, run (step shutdownCalls) (initial _)
        (List.replicate 5 (.host 0) ++ [.task 0, .host 2, .host 2]) = some s ∧
      s.active = some active ∧ active.cancellation ∈ s.cancelled := by
  have h : (run (step shutdownCalls) (initial _)
      (List.replicate 5 (.host 0) ++ [.task 0, .host 2, .host 2])).any (fun s =>
        s.host 2 = .returned .ok ∧ s.active = some ⟨['A'], 0, 0⟩) := by
    decide +kernel
  obtain ⟨s, hs, h⟩ := (Option.any_eq_true _ _).mp h
  obtain ⟨hreturned, hactive⟩ := of_decide_eq_true h
  exact ⟨s, _, hs, hactive, shutdown_stops (.of_run hs (by decide +kernel)) rfl hreturned hactive⟩

/-- A shutdown between the two sections of the submit, and one in the hand-over: the slot is
given a token that is not cancelled. -/
theorem shutdown_missed :
    (∃ s active, Reach (step shutdownCalls) (fun _ _ => True) (initial _) s ∧
      s.host 2 = .returned .ok ∧ s.active = some active ∧ active.cancellation ∉ s.cancelled ∧
      (s.op 0).task = .resolving 0) ∧
    ∃ s active, Reach (step shutdownCalls) (fun _ _ => True) (initial _) s ∧
      s.host 2 = .returned .ok ∧ s.active = some active ∧ active.cancellation ∉ s.cancelled ∧
      (s.op 0).task = .forwarding true 1 := by
  have hrun : ∀ (as : List (Action (Fin 3))) (token : Token) {task : TaskPhase},
      (run (step shutdownCalls) (initial _) as).any (fun s => s.host 2 = .returned .ok ∧
        s.active = some ⟨['A'], token, 0⟩ ∧ token ∉ s.cancelled ∧ (s.op 0).task = task) →
      ∃ s active, Reach (step shutdownCalls) (fun _ _ => True) (initial _) s ∧
        s.host 2 = .returned .ok ∧ s.active = some active ∧ active.cancellation ∉ s.cancelled ∧
        (s.op 0).task = task := by
    intro as token task h
    obtain ⟨s, hs, h⟩ := (Option.any_eq_true _ _).mp h
    obtain ⟨hreturned, hactive, hfresh, htask⟩ := of_decide_eq_true h
    exact ⟨s, _, .of_run hs (meets_of_forall (fun _ _ => trivial) _), hreturned, hactive, hfresh,
      htask⟩
  constructor
  · apply hrun (List.replicate 4 (.host 0) ++ [.host 2, .host 2, .host 0]) 0
    decide +kernel
  · apply hrun (List.replicate 5 (.host 0) ++ [.task 0] ++ List.replicate 3 (.request 0) ++
      List.replicate 4 (.host 1) ++ [.task 0, .host 2, .host 2, .task 0, .task 0]) 1
    decide +kernel

end Bytes

end LinguaMesh.Ffi
