import LinguaMesh.Ffi.Steps

/-!
# The active slot

The slot holds exactly the operation whose task is between its submit and its
release of the slot, with the token that this task has put there (`SlotHeld`).
So at most one task is there at a time, although operation identifiers may
repeat.
-/

namespace LinguaMesh.Ffi

open Runs

/-- The token that the slot holds while a task is in this phase. -/
def TaskPhase.slotToken : TaskPhase → Option Token
  | .resolving cancellation | .waiting cancellation | .resolved cancellation _
  | .handing cancellation _ | .failing cancellation _ | .clearing cancellation
  | .releasing cancellation => some cancellation
  | .forwarding _ operation | .sending _ operation _ => some operation
  | .idle | .draining | .done => none

/-- The secret was not asked for. -/
def TaskPhase.isUnasked : TaskPhase → Bool
  | .idle | .resolving _ => true
  | _ => false

section Slot

variable {C : Type}

structure SlotHeld (s : State C) : Prop where
  held : ∀ c token, (s.op c).task.slotToken = some token →
    s.active = some ⟨(s.op c).context.operationId, token, c⟩
  holder : ∀ a, s.active = some a → (s.op a.owner).task.slotToken = some a.cancellation
  /-- Only a call that has returned has a task. -/
  settled : ∀ c, (s.op c).task ≠ .idle → (s.host c).isBefore = false

theorem slotHeld_initial : SlotHeld (initial C) where
  held _ _ h := nomatch h
  holder _ h := nomatch h
  settled _ h := absurd rfl h

variable {s s' : State C} {c : C}

/-- Two operations that hold the slot are the same. -/
theorem SlotHeld.unique (h : SlotHeld s) {c' : C} {token token' : Token}
    (hc : (s.op c).task.slotToken = some token) (hc' : (s.op c').task.slotToken = some token') :
    c = c' := by
  have he := (h.held c token hc).symm.trans (h.held c' token' hc')
  exact congrArg ActiveOperation.owner (Option.some.inj he)

theorem SlotHeld.free (h : SlotHeld s) (ha : s.active = none) (c : C) :
    (s.op c).task.slotToken = none := by
  cases ht : (s.op c).task.slotToken with
  | none => rfl
  | some token =>
    have := h.held c token ht
    rw [ha] at this
    cases this

/-- A change that no task and no slot takes part in. -/
theorem SlotHeld.same (h : SlotHeld s) (ha : s'.active = s.active)
    (hop : ∀ c, (s'.op c).task = (s.op c).task ∧ (s'.op c).context = (s.op c).context)
    (hhost : s'.host = s.host) : SlotHeld s' := by
  refine ⟨fun c token hc => ?_, fun a hs => ?_, fun c hc => ?_⟩
  · rw [(hop c).1] at hc
    rw [ha, (hop c).2]
    exact h.held c token hc
  · rw [(hop a.owner).1]
    exact h.holder a (ha ▸ hs)
  · rw [(hop c).1] at hc
    rw [hhost]
    exact h.settled c hc

theorem SlotHeld.idle_of_before (h : SlotHeld s) (hb : (s.host c).isBefore) :
    (s.op c).task = .idle := by
  by_contra hne
  rw [h.settled c hne] at hb
  cases hb

/-- The slot that a task gives the new token of its operation. -/
theorem repoint_active (h : SlotHeld s) {token operation : Token}
    (hc : (s.op c).task.slotToken = some token) :
    (s.repoint c operation).active = some ⟨(s.op c).context.operationId, operation, c⟩ := by
  unfold State.repoint
  simp [h.held c token hc]

/-- The slot that a task releases. -/
theorem clearActive_active (h : SlotHeld s) {token : Token}
    (hc : (s.op c).task.slotToken = some token) : (s.clearActive c).active = none := by
  unfold State.clearActive
  simp [h.held c token hc]

/-- A change elsewhere. -/
theorem SlotHeld.of_eq (h : SlotHeld s) (ha : s'.active = s.active) (hop : s'.op = s.op)
    (hhost : s'.host = s.host) : SlotHeld s' :=
  h.same ha (fun _ => by rw [hop]; exact ⟨rfl, rfl⟩) hhost

variable [DecidableEq C]

theorem SlotHeld.dropLeases (h : SlotHeld s) (requests : List (Str × PendingHostRequest C)) :
    SlotHeld (s.dropLeases requests) := by
  refine h.same rfl (fun c => ?_) rfl
  obtain ⟨oneShot, ho⟩ := s.dropLeases_op c requests
  rw [ho]
  exact ⟨rfl, rfl⟩

theorem SlotHeld.clearPending (h : SlotHeld s) : SlotHeld s.clearPending :=
  (h.dropLeases s.pending).same rfl (fun _ => ⟨rfl, rfl⟩) rfl

theorem SlotHeld.insertPending (h : SlotHeld s) (requestId : Str) (request : PendingHostRequest C) :
    SlotHeld (s.insertPending requestId request) :=
  (h.dropLeases (s.pending.filter (·.1 = requestId))).same rfl (fun _ => ⟨rfl, rfl⟩) rfl

/-- A task goes on and leaves the slot as it is. -/
theorem SlotHeld.setOp (h : SlotHeld s) {o : Operation}
    (hslot : o.task.slotToken = (s.op c).task.slotToken) (hctx : o.context = (s.op c).context)
    (hidle : o.task ≠ .idle → (s.op c).task ≠ .idle) : SlotHeld (s.setOp c o) := by
  refine ⟨fun c' token hc => ?_, fun a hs => ?_, fun c' hc => ?_⟩
  · rw [State.setOp_op] at hc ⊢
    by_cases he : c' = c
    · subst he
      rw [Function.update_self] at hc ⊢
      rw [hctx]
      exact h.held c' token (hslot ▸ hc)
    · rw [Function.update_of_ne he] at hc ⊢
      exact h.held c' token hc
  · have := h.holder a hs
    rw [State.setOp_op]
    by_cases he : a.owner = c
    · rw [he, Function.update_self, hslot, ← he]
      exact this
    · rw [Function.update_of_ne he]
      exact this
  · rw [State.setOp_op] at hc
    by_cases he : c' = c
    · subst he
      rw [Function.update_self] at hc
      exact h.settled c' (hidle hc)
    · rw [Function.update_of_ne he] at hc
      exact h.settled c' hc

/-- A call without a task is given a new operation. -/
theorem SlotHeld.respawn (h : SlotHeld s) {o : Operation} (hc : (s.op c).task = .idle)
    (ho : o.task = .idle) : SlotHeld (s.setOp c o) := by
  refine ⟨fun c' token hc' => ?_, fun a hs => ?_, fun c' hc' => ?_⟩
  · rw [State.setOp_op] at hc' ⊢
    by_cases he : c' = c
    · subst he
      rw [Function.update_self, ho] at hc'
      cases hc'
    · rw [Function.update_of_ne he] at hc' ⊢
      exact h.held c' token hc'
  · have hheld := h.holder a hs
    rw [State.setOp_op]
    by_cases he : a.owner = c
    · rw [he, hc] at hheld
      cases hheld
    · rw [Function.update_of_ne he]
      exact hheld
  · rw [State.setOp_op] at hc'
    by_cases he : c' = c
    · subst he
      rw [Function.update_self] at hc'
      exact absurd ho hc'
    · rw [Function.update_of_ne he] at hc'
      exact h.settled c' hc'

/-- A task that holds the slot goes on with the same token. -/
theorem SlotHeld.move (h : SlotHeld s) {o : Operation} {token : Token}
    (hc : (s.op c).task.slotToken = some token) (hslot : o.task.slotToken = some token)
    (hctx : o.context = (s.op c).context) : SlotHeld (s.setOp c o) := by
  refine h.setOp (hslot.trans hc.symm) hctx fun _ hidle => ?_
  rw [hidle] at hc
  cases hc

/-- A call of the host that has no task yet goes on. -/
theorem SlotHeld.setHost (h : SlotHeld s) {p : HostPhase C}
    (hk : (s.op c).task ≠ .idle → p.isBefore = false) : SlotHeld (s.setHost c p) := by
  refine ⟨h.held, h.holder, fun c' hc => ?_⟩
  rw [State.setHost_host]
  by_cases he : c' = c
  · subst he
    rw [Function.update_self]
    exact hk hc
  · rw [Function.update_of_ne he]
    exact h.settled c' hc

/-- A call that opens its operation takes the empty slot. -/
theorem SlotHeld.open (h : SlotHeld s) (ha : s.active = none) (hb : (s.host c).isBefore)
    {o : Operation} {token : Token} {t : State C} (hslot : o.task.slotToken = some token)
    (hactive : t.active = some ⟨o.context.operationId, token, c⟩)
    (hop : t.op = Function.update s.op c o) {code : LmResultCode}
    (hhost : t.host = Function.update s.host c (.returned code)) : SlotHeld t := by
  refine ⟨fun c' token' hc => ?_, fun a hs => ?_, fun c' hc => ?_⟩
  · rw [hop] at hc ⊢
    by_cases he : c' = c
    · subst he
      rw [Function.update_self] at hc ⊢
      rw [hslot] at hc
      cases hc
      exact hactive
    · rw [Function.update_of_ne he, h.free ha c'] at hc
      cases hc
  · rw [hactive] at hs
    cases hs
    rw [hop, Function.update_self]
    exact hslot
  · rw [hop] at hc
    rw [hhost]
    by_cases he : c' = c
    · subst he
      rw [Function.update_self]
      rfl
    · rw [Function.update_of_ne he] at hc ⊢
      exact h.settled c' hc

theorem SlotHeld.repoint (h : SlotHeld s) {token operation : Token} {o : Operation}
    (hc : (s.op c).task.slotToken = some token) (hslot : o.task.slotToken = some operation)
    (hctx : o.context = (s.op c).context) : SlotHeld ((s.repoint c operation).setOp c o) := by
  have hactive : (s.repoint c operation).active = some ⟨(s.op c).context.operationId, operation, c⟩ :=
    repoint_active h hc
  refine ⟨fun c' token' hc' => ?_, fun a hs => ?_, fun c' hc' => ?_⟩
  · rw [State.setOp_op] at hc' ⊢
    rw [State.setOp_active, hactive]
    by_cases he : c' = c
    · subst he
      rw [Function.update_self] at hc' ⊢
      rw [hslot] at hc'
      cases hc'
      rw [hctx]
    · rw [Function.update_of_ne he] at hc'
      exact absurd (h.unique hc' hc) he
  · rw [State.setOp_active, hactive] at hs
    cases hs
    rw [State.setOp_op, Function.update_self]
    exact hslot
  · rw [State.setOp_op] at hc'
    by_cases he : c' = c
    · subst he
      refine h.settled c' fun hidle => ?_
      rw [hidle] at hc
      cases hc
    · rw [Function.update_of_ne he] at hc'
      exact h.settled c' hc'

/-- The task leaves the slot. -/
theorem SlotHeld.leave (h : SlotHeld s) {token : Token} {o : Operation}
    (hc : (s.op c).task.slotToken = some token) (hslot : o.task.slotToken = none) :
    SlotHeld ((s.clearActive c).setOp c o) := by
  have hactive := clearActive_active h hc
  refine ⟨fun c' token' hc' => ?_, fun a hs => ?_, fun c' hc' => ?_⟩
  · rw [State.setOp_op] at hc'
    by_cases he : c' = c
    · subst he
      rw [Function.update_self, hslot] at hc'
      cases hc'
    · rw [Function.update_of_ne he] at hc'
      exact absurd (h.unique hc' hc) he
  · rw [State.setOp_active, hactive] at hs
    cases hs
  · rw [State.setOp_op] at hc'
    by_cases he : c' = c
    · subst he
      refine h.settled c' fun hidle => ?_
      rw [hidle] at hc
      cases hc
    · rw [Function.update_of_ne he] at hc'
      exact h.settled c' hc'

end Slot

section Runs

variable [Boundary] {C : Type} [DecidableEq C] {setup : Setup C} {s s' : State C}

/-- Every step keeps the slot with the task it belongs to. -/
theorem slotHeld_step {a : Action C} (h : SlotHeld s) (hs : Step setup s a s') : SlotHeld s' := by
  cases hs with
  | advance _ hb => exact h.setHost fun hne => absurd (h.idle_of_before hb) hne
  | unlock hhost => exact h.setHost fun hne => absurd (h.idle_of_before (by rw [hhost]; rfl)) hne
  | spawn hhost =>
    have hidle := h.idle_of_before (by rw [hhost]; rfl)
    apply SlotHeld.setHost
    · apply SlotHeld.respawn
      · exact h.of_eq rfl rfl rfl
      · exact hidle
      · rfl
    · intro hne
      rw [State.setOp_op, Function.update_self] at hne
      exact absurd rfl hne
  | openDirect hhost _ ha => exact h.open ha (by rw [hhost]; rfl) rfl rfl rfl rfl
  | @openSecret k cancellation hhost ha =>
    have hb : (s.host k).isBefore := by
      rw [hhost]
      rfl
    exact h.open (o := { s.op k with task := .resolving cancellation }) ha hb rfl rfl rfl rfl
  | cancel =>
    rw [State.cancelActive_eq]
    apply SlotHeld.setHost
    · exact h.of_eq rfl rfl rfl
    · exact fun _ => rfl
  | poll =>
    apply SlotHeld.setHost
    · exact h.of_eq rfl rfl rfl
    · exact fun _ => rfl
  | flag _ hhost =>
    apply SlotHeld.setHost
    · exact h.of_eq rfl rfl rfl
    · exact fun hne => absurd (h.idle_of_before (by rw [hhost]; rfl)) hne
  | shutdown =>
    rw [State.cancelActive_eq]
    apply SlotHeld.setHost
    · exact h.of_eq rfl rfl rfl
    · exact fun _ => rfl
  | take _ hhost =>
    apply SlotHeld.setHost
    · exact h.of_eq rfl rfl rfl
    · exact fun hne => absurd (h.idle_of_before (by rw [hhost]; rfl)) hne
  | answer =>
    apply SlotHeld.setHost
    · exact h.setOp rfl rfl id
    · exact fun _ => rfl
  | refuse => exact h.setHost fun _ => rfl
  | askCancelled ht => rcases ht with ht | ht <;> exact h.move (by rw [ht]; rfl) rfl rfl
  | ask ht => exact h.move (by rw [ht]; rfl) rfl rfl
  | refused ht => exact h.move (by rw [ht]; rfl) rfl rfl
  | resolve ht => exact h.move (by rw [ht]; rfl) rfl rfl
  | hand ht =>
    apply SlotHeld.move
    · exact h.of_eq rfl rfl rfl
    · exact congrArg TaskPhase.slotToken ht
    · rfl
    · rfl
  | reject ht => exact h.move (by rw [ht]; rfl) rfl rfl
  | repoint ht => exact h.repoint (by rw [ht]; rfl) rfl rfl
  | receive ht => exact h.move (by rw [ht]; rfl) rfl rfl
  | @close c hostSecret _ ht =>
    apply h.leave
    · rw [ht]
      rfl
    · cases hostSecret <;> rfl
  | forward ht =>
    apply SlotHeld.move
    · exact h.of_eq rfl rfl rfl
    · exact congrArg TaskPhase.slotToken ht
    · rfl
    · rfl
  | fail ht =>
    apply SlotHeld.move
    · exact h.of_eq rfl rfl rfl
    · exact congrArg TaskPhase.slotToken ht
    · rfl
    · rfl
  | @clear c _ ht =>
    apply h.clearPending.move
    · rw [State.clearPending_task, ht]
      rfl
    · rfl
    · rfl
  | release ht => exact h.leave (by rw [ht]; rfl) rfl
  | @drain c ht =>
    apply h.clearPending.setOp
    · rw [State.clearPending_task, ht]
      rfl
    · rfl
    · rw [State.clearPending_task, ht]
      exact fun _ => TaskPhase.noConfusion
  | takeLease => exact h.setOp rfl rfl id
  | skipLease => exact h.setOp rfl rfl id
  | endRequests => exact h.setOp rfl rfl id
  | insert => exact (h.insertPending _ _).setOp rfl rfl id
  | require =>
    apply SlotHeld.setOp
    · exact h.of_eq rfl rfl rfl
    · rfl
    · rfl
    · exact id
  | work => exact h.setOp rfl rfl id

theorem slotHeld_reach {ok : State C → Action C → Prop}
    (h : Reach (step setup) ok (initial C) s) : SlotHeld s :=
  h.invariant slotHeld_initial fun _ _ _ ht _ hs => slotHeld_step ht (step_cases hs)

end Runs

/-- The numbers of three calls. -/
instance threeCalls : NeZero 3 := ⟨by decide⟩

end LinguaMesh.Ffi
