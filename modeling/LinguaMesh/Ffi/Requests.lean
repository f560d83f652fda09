import LinguaMesh.Ffi.Slot

/-!
# Pending secret requests

All operations share the map of pending requests, and the end of each clears it.
`forward_events` gives the slot back before the map is cleared, so the next
operation can lose its request to the last one (`request_lost`). In a run where a
request is inserted only while its operation waits and no other operation is
between the two, a request leaves the map only by its answer or by the end of its
own operation, and the answer of the active operation is found (`requests_kept`).
-/

namespace LinguaMesh.Ffi

open Runs

/-- The request may still be in the map. -/
def TaskPhase.hasRequest : TaskPhase → Bool
  | .waiting _ | .failing _ _ | .clearing _ => true
  | _ => false

theorem asked_of_waiting {task : TaskPhase} (h : task.isWaiting) :
    task.isUnasked = false := by
  cases task <;> first | rfl | cases h

/-- The request of the operation has not been inserted. -/
def Operation.Uninserted (o : Operation) : Prop :=
  o.task.isUnasked ∨ o.leaseQueued ∨ o.request = .inserting

section Requests

variable {C : Type}

/-- The entry of an operation. -/
def entryOf (setup : Setup C) (s : State C) (c : C) : Str × PendingHostRequest C :=
  (setup.requestId c, ⟨c, (s.op c).context.operationId, (s.op c).context.correlationId⟩)

/-- An answer for the operation is on its way to `resolve`. -/
def State.isAnswering (s : State C) (c : C) : Prop := ∃ k r, s.host k = .answering c r

/-- What holds of the request of one operation. -/
structure RequestHeld (setup : Setup C) (s : State C) (c : C) : Prop where
  taken : (s.op c).request = .inserting →
    (s.op c).leaseQueued = false ∧ (s.op c).task.isUnasked = false
  entry : ∀ e ∈ s.pending, e.2.lease = c → e = entryOf setup s c ∧ (s.op c).oneShot = .unused ∧
    (s.op c).task.hasRequest ∧ ¬ s.isAnswering c ∧ ¬ (s.op c).Uninserted
  uninserted : (s.op c).Uninserted → (s.op c).oneShot = .unused ∧ ¬ s.isAnswering c
  waiting : (s.op c).task.isWaiting → ¬ (s.op c).Uninserted →
    entryOf setup s c ∈ s.pending ∨ s.isAnswering c ∨ (s.op c).oneShot ≠ .unused

/-- The invariant of a run. -/
structure RequestsHeld (setup : Setup C) (s : State C) : Prop where
  slot : SlotHeld s
  held : ∀ c, RequestHeld setup s c
  /-- No operation is about to clear the requests of another. -/
  quiet : s.pending ≠ [] → ∀ c, (s.op c).task ≠ .draining

theorem requestsHeld_initial (setup : Setup C) : RequestsHeld setup (initial C) where
  slot := slotHeld_initial
  held _ := ⟨nofun, nofun, fun _ => ⟨rfl, fun ⟨_, _, h⟩ => nomatch h⟩, nofun⟩
  quiet h := absurd rfl h

variable {setup : Setup C} {s s' : State C} {c : C}

/-- Steps of other operations and calls. -/
theorem RequestHeld.frame (h : RequestHeld setup s c) (hp : s'.pending = s.pending)
    (ha : s'.isAnswering c ↔ s.isAnswering c) (ho : s'.op c = s.op c) : RequestHeld setup s' c := by
  have he : entryOf setup s' c = entryOf setup s c := by
    unfold entryOf
    rw [ho]
  obtain ⟨htaken, hentry, hout, hwaiting⟩ := h
  refine ⟨?_, ?_, ?_, ?_⟩
  · rw [ho]
    exact htaken
  · rw [hp, he, ho, ha]
    exact hentry
  · rw [ho, ha]
    exact hout
  · rw [hp, he, ho, ha]
    exact hwaiting

/-- The task of the operation goes on. -/
theorem RequestHeld.move (h : RequestHeld setup s c) (hp : s'.pending = s.pending)
    (ha : s'.isAnswering c ↔ s.isAnswering c) (hcontext : (s'.op c).context = (s.op c).context)
    (hshot : (s'.op c).oneShot = (s.op c).oneShot)
    (htaken : (s'.op c).request = .inserting →
      (s'.op c).leaseQueued = false ∧ (s'.op c).task.isUnasked = false)
    (hout : (s'.op c).Uninserted → (s.op c).Uninserted)
    (hrequest : (s.op c).task.hasRequest → (s.op c).oneShot = .unused → (s'.op c).task.hasRequest)
    (hwaiting : (s'.op c).task.isWaiting → (s.op c).Uninserted → (s'.op c).Uninserted)
    (hw : (s'.op c).task.isWaiting → ¬ (s'.op c).Uninserted → (s.op c).task.isWaiting) :
    RequestHeld setup s' c := by
  have he : entryOf setup s' c = entryOf setup s c := by
    unfold entryOf
    rw [hcontext]
  refine ⟨htaken, fun e hmem hc => ?_, fun ho => ?_, fun hw' ho => ?_⟩
  · rw [hp] at hmem
    obtain ⟨heq, hunused, hreq, hanswer, hin⟩ := h.entry e hmem hc
    rw [he, hshot, ha]
    exact ⟨heq, hunused, hrequest hreq hunused, hanswer, fun h' => hin (hout h')⟩
  · rw [hshot, ha]
    exact h.uninserted (hout ho)
  · rw [hp, he, hshot, ha]
    exact h.waiting (hw hw' ho) fun h' => ho (hwaiting hw' h')

/-- A step of the operation `c'` that does not touch the map. -/
theorem held_update [DecidableEq C] {c' : C} {o : Operation} (h : ∀ c, RequestHeld setup s c)
    (hp : s'.pending = s.pending) (ha : ∀ c, s'.isAnswering c ↔ s.isAnswering c)
    (hop : s'.op = Function.update s.op c' o)
    (hself : s'.op c' = o → RequestHeld setup s' c') (c : C) : RequestHeld setup s' c := by
  by_cases he : c = c'
  · subst he
    exact hself (by rw [hop, Function.update_self])
  · exact (h c).frame hp (ha c) (by rw [hop, Function.update_of_ne he])

theorem held_task [DecidableEq C] {c' : C} {o : Operation} (h : ∀ c, RequestHeld setup s c)
    (hp : s'.pending = s.pending) (ha : ∀ c, s'.isAnswering c ↔ s.isAnswering c)
    (hop : s'.op = Function.update s.op c' o)
    (hsame : o.context = (s.op c').context ∧ o.oneShot = (s.op c').oneShot ∧
      o.request = (s.op c').request ∧ o.leaseQueued = (s.op c').leaseQueued)
    (hu : o.task.isUnasked → (s.op c').task.isUnasked)
    (hrequest : (s.op c').task.hasRequest → (s.op c').oneShot = .unused → o.task.hasRequest)
    (hw : o.task.isWaiting → (s.op c').task.isWaiting) : ∀ c, RequestHeld setup s' c := by
  apply held_update h hp ha hop
  rintro rfl
  obtain ⟨hcontext, hshot, hreq, hqueued⟩ := hsame
  apply (h c').move hp (ha c') hcontext hshot
  · rw [hreq, hqueued]
    intro hr
    obtain ⟨hfree, hasked⟩ := (h c').taken hr
    refine ⟨hfree, Bool.eq_false_iff.mpr fun hu' => ?_⟩
    rw [hu hu'] at hasked
    cases hasked
  · rintro (h' | h' | h')
    · exact .inl (hu h')
    · exact .inr (.inl (hqueued ▸ h'))
    · exact .inr (.inr (hreq ▸ h'))
  · exact hrequest
  · rintro hw' (h' | h' | h')
    · rw [asked_of_waiting (hw hw')] at h'
      cases h'
    · exact .inr (.inl (hqueued ▸ h'))
    · exact .inr (.inr (hreq ▸ h'))
  · exact fun hw' _ => hw hw'

theorem held_request [DecidableEq C] {c' : C} {o : Operation} (h : ∀ c, RequestHeld setup s c)
    (hp : s'.pending = s.pending) (ha : ∀ c, s'.isAnswering c ↔ s.isAnswering c)
    (hop : s'.op = Function.update s.op c' o)
    (hsame : o.context = (s.op c').context ∧ o.oneShot = (s.op c').oneShot ∧
      o.task = (s.op c').task)
    (htaken : o.request = .inserting → o.leaseQueued = false ∧ o.task.isUnasked = false)
    (hu : o.Uninserted → (s.op c').Uninserted)
    (hw : (s.op c').task.isWaiting → (s.op c').Uninserted → o.Uninserted) :
    ∀ c, RequestHeld setup s' c := by
  apply held_update h hp ha hop
  rintro rfl
  obtain ⟨hcontext, hshot, htask⟩ := hsame
  apply (h c').move hp (ha c') hcontext hshot htaken hu
  · rw [htask]
    exact fun hr _ => hr
  · rw [htask]
    exact hw
  · rw [htask]
    exact fun hw' _ => hw'

theorem isAnswering_setHost [DecidableEq C] {k : C} {p : HostPhase C}
    (hk : ∀ r, s.host k ≠ .answering c r) (hp : ∀ r, p ≠ .answering c r) :
    (s.setHost k p).isAnswering c ↔ s.isAnswering c := by
  unfold State.isAnswering
  rw [State.setHost_host]
  constructor
  · rintro ⟨k', r, h⟩
    by_cases he : k' = k
    · rw [he, Function.update_self] at h
      exact absurd h (hp r)
    · rw [Function.update_of_ne he] at h
      exact ⟨k', r, h⟩
  · rintro ⟨k', r, h⟩
    have he : k' ≠ k := by
      rintro rfl
      exact hk r h
    exact ⟨k', r, by rw [Function.update_of_ne he]; exact h⟩

theorem RequestHeld.no_entry (h : RequestHeld setup s c) (hu : (s.op c).Uninserted) :
    ∀ e ∈ s.pending, e.2.lease ≠ c :=
  fun e he hc => (h.entry e he hc).2.2.2.2 hu

theorem dropLeases_other [DecidableEq C] {requests : List (Str × PendingHostRequest C)}
    (h : ∀ e ∈ requests, e.2.lease ≠ c) : (s.dropLeases requests).op c = s.op c := by
  unfold State.dropLeases
  simp only
  rw [if_neg]
  simpa using h

/-- The operation begins anew, and nothing was inserted for it. -/
theorem RequestHeld.reset (h : RequestHeld setup s c) (hu : (s.op c).Uninserted)
    (hp : s'.pending = s.pending) (ha : s'.isAnswering c ↔ s.isAnswering c)
    (hrequest : (s'.op c).request ≠ .inserting) (hshot : (s'.op c).oneShot = .unused)
    (hw : (s'.op c).task.isWaiting = false) : RequestHeld setup s' c := by
  refine ⟨fun hr => absurd hr hrequest, fun e he hc => ?_, fun _ => ?_, fun hw' => ?_⟩
  · rw [hp] at he
    exact absurd hc (h.no_entry hu e he)
  · rw [ha]
    exact ⟨hshot, (h.uninserted hu).2⟩
  · rw [hw] at hw'
    cases hw'

/-! ## The steps that touch the map -/

section Map

variable [DecidableEq C]

theorem held_take (hid : Function.Injective setup.requestId) (h : ∀ c, RequestHeld setup s c) {k : C}
    {envelope : Envelope} {requestId key : Str} {resolution : SecretResolution}
    {pending : PendingHostRequest C} (hhost : s.host k = .matched envelope)
    (hfound : s.pending.find? (·.1 = requestId) = some (key, pending)) (c : C) :
    RequestHeld setup ({ s with pending := s.pending.filter (·.1 ≠ requestId) }.setHost k
      (.answering pending.lease resolution)) c := by
  have hmem := List.mem_of_find?_eq_some hfound
  have hkey : key = requestId := by simpa using List.find?_some hfound
  obtain ⟨heq, hunused, -, -, hin⟩ := (h pending.lease).entry _ hmem rfl
  have hrequest : requestId = setup.requestId pending.lease := hkey ▸ congrArg Prod.fst heq
  by_cases hc : c = pending.lease
  · subst hc
    refine ⟨(h _).taken, fun e he hlease => ?_, fun hu => absurd hu hin, fun _ _ => ?_⟩
    · -- the entries of the operation have its key
      obtain ⟨he, hne⟩ := List.mem_filter.mp he
      have := ((h _).entry e he hlease).1
      rw [hrequest, this] at hne
      simp [entryOf] at hne
    · refine .inr (.inl ⟨k, resolution, ?_⟩)
      rw [State.setHost_host, Function.update_self]
  · have hanswering : (({ s with pending := s.pending.filter (·.1 ≠ requestId) } : State C).setHost k
        (.answering pending.lease resolution)).isAnswering c ↔ s.isAnswering c := by
      apply isAnswering_setHost
      · intro r
        show s.host k ≠ _
        rw [hhost]
        exact nofun
      · rintro r ⟨⟩
        exact hc rfl
    refine ⟨(h c).taken, fun e he hlease => ?_, fun hu => ?_, fun hw hu => ?_⟩
    · rw [hanswering]
      exact (h c).entry e (List.mem_filter.mp he).1 hlease
    · rw [hanswering]
      exact (h c).uninserted hu
    · rw [hanswering]
      refine ((h c).waiting hw hu).imp_left fun he => List.mem_filter.mpr ⟨he, ?_⟩
      have : setup.requestId c ≠ requestId := by
        rw [hrequest]
        exact fun he => hc (hid he)
      simpa [entryOf] using this

omit [DecidableEq C] in
theorem not_answering {k lease : C} {resolution : SecretResolution}
    (hk : s.host k = .answering lease resolution) (hc : c ≠ lease) (r : SecretResolution) :
    s.host k ≠ .answering c r := by
  rw [hk]
  rintro ⟨⟩
  exact hc rfl

theorem held_answer (h : ∀ c, RequestHeld setup s c) {k lease : C} {resolution : SecretResolution}
    (hk : s.host k = .answering lease resolution) (c : C) :
    RequestHeld setup ((s.setOp lease { s.op lease with oneShot := .answered resolution }).finish k .ok)
      c := by
  have hanswering : s.isAnswering lease := ⟨k, resolution, hk⟩
  by_cases hc : c = lease
  · subst hc
    have ho : ((s.setOp c { s.op c with oneShot := .answered resolution }).finish k .ok).op c =
        { s.op c with oneShot := .answered resolution } := Function.update_self ..
    refine ⟨?_, fun e he hlease => ?_, fun hu => ?_, fun _ _ => .inr (.inr ?_)⟩
    · rw [ho]
      exact (h c).taken
    · exact absurd hanswering ((h c).entry e he hlease).2.2.2.1
    · rw [ho] at hu
      exact absurd hanswering ((h c).uninserted hu).2
    · rw [ho]
      exact nofun
  · refine (h c).frame rfl ?_ (Function.update_of_ne hc ..)
    exact isAnswering_setHost (not_answering hk hc) nofun

theorem held_refuse (h : ∀ c, RequestHeld setup s c) {k lease : C} {resolution : SecretResolution}
    (hk : s.host k = .answering lease resolution) (hw : (s.op lease).task.isWaiting = false) (c : C) :
    RequestHeld setup (s.finish k .invalidArgument) c := by
  have hanswering : s.isAnswering lease := ⟨k, resolution, hk⟩
  by_cases hc : c = lease
  · subst hc
    refine ⟨(h c).taken, fun e he hlease => ?_, fun hu => ?_, fun hw' => ?_⟩
    · exact absurd hanswering ((h c).entry e he hlease).2.2.2.1
    · exact absurd hanswering ((h c).uninserted hu).2
    · have hw' : (s.op c).task.isWaiting = true := hw'
      rw [hw] at hw'
      cases hw'
  · refine (h c).frame rfl ?_ rfl
    exact isAnswering_setHost (not_answering hk hc) nofun

theorem RequestHeld.cleared (h : RequestHeld setup s c) (task : TaskPhase) (hp : s'.pending = [])
    (ha : s'.isAnswering c ↔ s.isAnswering c)
    (hop : s'.op c = { s.clearPending.op c with task })
    (hu : task.isUnasked → (s.op c).task.isUnasked) (hw : task.isWaiting = false) :
    RequestHeld setup s' c := by
  obtain ⟨oneShot, ho⟩ := s.clearPending_op c
  refine ⟨?_, ?_, fun hun => ?_, fun hwaiting => ?_⟩
  · rw [hop, ho]
    intro hr
    obtain ⟨hfree, hasked⟩ := h.taken hr
    refine ⟨hfree, Bool.eq_false_iff.mpr fun hu' => ?_⟩
    rw [hu hu'] at hasked
    cases hasked
  · rw [hp]
    exact nofun
  · have hun' : (s.op c).Uninserted := by
      rw [hop, ho] at hun
      exact hun.imp_left hu
    have hkeep : s.clearPending.op c = s.op c := dropLeases_other (h.no_entry hun')
    rw [hop, hkeep, ha]
    exact h.uninserted hun'
  · rw [hop] at hwaiting
    rw [show task.isWaiting = true from hwaiting] at hw
    cases hw

theorem held_clear (hslot : SlotHeld s) (h : ∀ c, RequestHeld setup s c) {c' : C}
    {cancellation : Token} (ht : (s.op c').task = .clearing cancellation) (c : C) :
    RequestHeld setup (s.clearPending.setTask c' (.releasing cancellation)) c := by
  have hanswer : (s.clearPending.setTask c' (.releasing cancellation)).isAnswering c ↔
      s.isAnswering c := Iff.rfl
  by_cases hc : c = c'
  · subst hc
    apply (h c).cleared (.releasing cancellation) rfl hanswer _ nofun rfl
    exact Function.update_self ..
  · apply (h c).cleared (s.op c).task rfl hanswer _ id
    · -- an operation that waits has the slot, and so has the one that clears
      cases htask : (s.op c).task with
      | waiting token =>
        have hheld : (s.op c).task.slotToken = some token := by
          rw [htask]
          rfl
        exact absurd (hslot.unique hheld (by rw [ht]; rfl)) hc
      | _ => rfl
    · rw [← s.clearPending_task c]
      exact Function.update_of_ne hc ..

theorem held_insert (hid : Function.Injective setup.requestId) (h : ∀ c, RequestHeld setup s c)
    {c' : C} (hr : (s.op c').request = .inserting) (hwaiting : (s.op c').task.isWaiting)
    {t : State C} (ht : t = s.insertPending (setup.requestId c')
      ⟨c', (s.op c').context.operationId, (s.op c').context.correlationId⟩) (c : C) :
    RequestHeld setup (t.setOp c' { t.op c' with request := .sending }) c := by
  have hun : (s.op c').Uninserted := .inr (.inr hr)
  have hfresh : ∀ e ∈ s.pending, e.1 ≠ setup.requestId c' := by
    intro e he hkey
    have heq := ((h e.2.lease).entry e he rfl).1
    have : setup.requestId e.2.lease = setup.requestId c' := (congrArg Prod.fst heq).symm.trans hkey
    exact (h c').no_entry hun e he (hid this)
  have hnone : s.pending.filter (·.1 = setup.requestId c') = [] := by
    rw [List.filter_eq_nil_iff]
    simpa using hfresh
  have hall : s.pending.filter (·.1 ≠ setup.requestId c') = s.pending := by
    rw [List.filter_eq_self]
    simpa using hfresh
  have hop : t.op = s.op := by
    rw [ht]
    funext c
    show (s.dropLeases (s.pending.filter (·.1 = setup.requestId c'))).op c = s.op c
    rw [hnone]
    exact dropLeases_other (by simp)
  have hpending : t.pending = s.pending ++ [entryOf setup s c'] := by
    rw [ht]
    show s.pending.filter (·.1 ≠ setup.requestId c') ++ _ = _
    rw [hall]
    rfl
  have hanswer : ∀ c, t.isAnswering c ↔ s.isAnswering c := by
    intro c
    rw [ht]
    exact Iff.rfl
  obtain ⟨hunused, hquiet⟩ := (h c').uninserted hun
  by_cases hc : c = c'
  · subst hc
    have ho : (t.setOp c { t.op c with request := .sending }).op c =
        { s.op c with request := .sending } := by
      rw [State.setOp_op, Function.update_self, hop]
    have hin : ¬ Operation.Uninserted { s.op c with request := .sending } := by
      rintro (hu | hq | hs)
      · have hu : (s.op c).task.isUnasked = true := hu
        rw [asked_of_waiting hwaiting] at hu
        cases hu
      · rw [((h c).taken hr).1] at hq
        cases hq
      · cases hs
    have hentry : entryOf setup (t.setOp c { t.op c with request := .sending }) c = entryOf setup s c := by
      unfold entryOf
      rw [ho]
    refine ⟨?_, fun e he hlease => ?_, ?_, fun _ _ => .inl ?_⟩
    · rw [ho]
      exact nofun
    · rw [State.setOp_pending, hpending] at he
      rcases List.mem_append.mp he with he | he
      · exact absurd hlease ((h c).no_entry hun e he)
      · rw [hentry, ho]
        refine ⟨List.mem_singleton.mp he, hunused, ?_, ?_, hin⟩
        · show (s.op c).task.hasRequest
          generalize (s.op c).task = task at hwaiting
          cases task <;> first | rfl | cases hwaiting
        · exact fun ha => hquiet ((hanswer c).mp ha)
    · rw [ho]
      exact fun hu => absurd hu hin
    · rw [hentry, State.setOp_pending, hpending]
      exact List.mem_append_right _ (List.mem_singleton_self _)
  · have ho : (t.setOp c' { t.op c' with request := .sending }).op c = s.op c := by
      rw [State.setOp_op, Function.update_of_ne hc, hop]
    have hentry : entryOf setup (t.setOp c' { t.op c' with request := .sending }) c =
        entryOf setup s c := by
      unfold entryOf
      rw [ho]
    have hanswer' : (t.setOp c' { t.op c' with request := .sending }).isAnswering c ↔
        s.isAnswering c := hanswer c
    refine ⟨?_, fun e he hlease => ?_, ?_, fun hw hu => ?_⟩
    · rw [ho]
      exact (h c).taken
    · rw [State.setOp_pending, hpending] at he
      rw [hentry, ho, hanswer']
      rcases List.mem_append.mp he with he | he
      · exact (h c).entry e he hlease
      · rw [List.mem_singleton.mp he] at hlease
        exact absurd hlease.symm hc
    · rw [ho, hanswer']
      exact (h c).uninserted
    · rw [ho] at hw hu ⊢
      rw [hentry, hanswer', State.setOp_pending, hpending]
      exact ((h c).waiting hw hu).imp_left (List.mem_append_left _)

end Map

/-- An operation that holds its request has the slot. -/
theorem slotToken_of_request {task : TaskPhase} (h : task.hasRequest) :
    ∃ token, task.slotToken = some token := by
  cases task <;> first | exact ⟨_, rfl⟩ | cases h

/-- The operation that gives the slot back has no request, and so has no other. -/
theorem quiet_close (h : RequestsHeld setup s) {hostSecret : Bool} {operation : Token}
    (ht : (s.op c).task = .forwarding hostSecret operation) : s.pending = [] := by
  rw [List.eq_nil_iff_forall_not_mem]
  intro e he
  have hrequest := ((h.held e.2.lease).entry e he rfl).2.2.1
  obtain ⟨token, htoken⟩ := slotToken_of_request hrequest
  have hc : e.2.lease = c := h.slot.unique htoken (by rw [ht]; rfl)
  rw [hc, ht] at hrequest
  cases hrequest

theorem draining_move {o' : Operation} {events : List EventEnvelope} (hm : Moves s c o' events)
    (hd : o'.task = .draining) :
    (s.op c).task = .draining ∨ ∃ hostSecret operation, (s.op c).task = .forwarding hostSecret operation := by
  cases hm with
  | stay | takeLease | skipLease | endRequests | insert | require | work => exact .inl hd
  | close ht => exact .inr ⟨_, _, ht⟩
  | _ => cases hd

/-- The key of an entry tells the operation. -/
theorem entry_of_key (hid : Function.Injective setup.requestId) (h : RequestsHeld setup s)
    {e : Str × PendingHostRequest C} (he : e ∈ s.pending) (hkey : e.1 = setup.requestId c) :
    e = entryOf setup s c := by
  have heq := ((h.held e.2.lease).entry e he rfl).1
  have hlease : e.2.lease = c := hid ((congrArg Prod.fst heq).symm.trans hkey)
  rw [hlease] at heq
  exact heq

/-! ## Steps -/

/-- A request is inserted only while its operation waits, and not while another one has given the
slot back and is about to clear the map. -/
def Undisturbed (s : State C) : Action C → Prop
  | .request c => (s.op c).request = .inserting →
      (s.op c).task.isWaiting ∧ ∀ d, (s.op d).task ≠ .draining
  | _ => True

variable [Boundary] [DecidableEq C]

theorem requestHeld_step (hid : Function.Injective setup.requestId) {a : Action C}
    (h : RequestsHeld setup s) (hok : Undisturbed s a) (hs : Step setup s a s') :
    ∀ c, RequestHeld setup s' c := by
  have hhost : ∀ {s' : State C} {k : C} {p : HostPhase C}, (s.host k).isBefore →
      s'.host = Function.update s.host k p → (∀ c r, p ≠ .answering c r) →
      ∀ c, s'.isAnswering c ↔ s.isAnswering c := by
    intro s' k p hb hh hp c
    have hk : ∀ r, s.host k ≠ .answering c r := by
      intro r he
      rw [he] at hb
      cases hb
    have := isAnswering_setHost (p := p) hk (hp c)
    unfold State.isAnswering at this ⊢
    rw [hh]
    exact this
  have hsame : ∀ c, s.isAnswering c ↔ s.isAnswering c := fun _ => Iff.rfl
  cases hs with
  | @advance k p _ hb hp =>
    have hp' : ∀ c r, p ≠ .answering c r := by
      rintro c r rfl
      cases hp
    exact fun c => (h.held c).frame rfl (hhost hb rfl hp' c) rfl
  | unlock hk => exact fun c => (h.held c).frame rfl (hhost (by rw [hk]; rfl) rfl (by nofun) c) rfl
  | @spawn k _ _ _ hk =>
    have hb : (s.host k).isBefore := by
      rw [hk]
      rfl
    have hidle : (s.op k).Uninserted := .inl (by rw [h.slot.idle_of_before hb]; rfl)
    refine held_update h.held rfl (hhost hb rfl (by nofun)) rfl fun ho => ?_
    refine (h.held k).reset hidle rfl (hhost hb rfl (by nofun) k) ?_ ?_ ?_
    · rw [ho]
      exact nofun
    · rw [ho]
      rfl
    · rw [ho]
      rfl
  | @openDirect k _ _ hk =>
    have hb : (s.host k).isBefore := by
      rw [hk]
      rfl
    have hidle : (s.op k).Uninserted := .inl (by rw [h.slot.idle_of_before hb]; rfl)
    refine held_update h.held rfl (hhost hb rfl (by nofun)) rfl fun ho => ?_
    refine (h.held k).reset hidle rfl (hhost hb rfl (by nofun) k) ?_ ?_ ?_
    · rw [ho]
      exact nofun
    · rw [ho]
      rfl
    · rw [ho]
      rfl
  | openSecret hk =>
    have hidle := h.slot.idle_of_before (by rw [hk]; rfl)
    exact held_task h.held rfl (hhost (by rw [hk]; rfl) rfl (by nofun)) rfl ⟨rfl, rfl, rfl, rfl⟩
      (fun _ => by rw [hidle]; rfl) (by rw [hidle]; nofun) nofun
  | cancel _ hk =>
    rw [State.cancelActive_eq]
    exact fun c => (h.held c).frame rfl (hhost (by rw [hk]; rfl) rfl (by nofun) c) rfl
  | poll _ hk => exact fun c => (h.held c).frame rfl (hhost (by rw [hk]; rfl) rfl (by nofun) c) rfl
  | flag _ hk => exact fun c => (h.held c).frame rfl (hhost (by rw [hk]; rfl) rfl (by nofun) c) rfl
  | shutdown _ hk =>
    rw [State.cancelActive_eq]
    exact fun c => (h.held c).frame rfl (hhost (by rw [hk]; rfl) rfl (by nofun) c) rfl
  | take _ hk _ hfound => exact held_take hid h.held hk hfound
  | answer hk => exact held_answer h.held hk
  | refuse hk hw => exact held_refuse h.held hk hw
  | askCancelled =>
    exact held_task h.held rfl hsame rfl ⟨rfl, rfl, rfl, rfl⟩ nofun (fun _ _ => rfl) nofun
  | @ask c _ ht =>
    have hu : (s.op c).Uninserted := .inl (by rw [ht]; rfl)
    refine held_update h.held rfl hsame rfl fun ho => ?_
    refine (h.held c).move rfl (hsame c) ?_ ?_ ?_ (fun _ => hu) (by rw [ht]; nofun) ?_ ?_
    · rw [ho]
    · rw [ho]
    · rw [ho]
      intro hr
      have hasked := ((h.held c).taken hr).2
      rw [ht] at hasked
      cases hasked
    · rw [ho]
      exact fun _ _ => .inr (.inl rfl)
    · rw [ho]
      exact fun _ hin => absurd (.inr (.inl rfl)) hin
  | refused =>
    exact held_task h.held rfl hsame rfl ⟨rfl, rfl, rfl, rfl⟩ nofun (fun _ _ => rfl) nofun
  | resolve _ _ hshot =>
    exact held_task h.held rfl hsame rfl ⟨rfl, rfl, rfl, rfl⟩ nofun (by rw [hshot]; nofun) nofun
  | hand ht =>
    exact held_task h.held rfl hsame rfl ⟨rfl, rfl, rfl, rfl⟩ nofun (by rw [ht]; nofun) nofun
  | reject ht =>
    exact held_task h.held rfl hsame rfl ⟨rfl, rfl, rfl, rfl⟩ nofun (fun _ _ => rfl) nofun
  | repoint ht =>
    exact held_task h.held rfl hsame rfl ⟨rfl, rfl, rfl, rfl⟩ nofun (by rw [ht]; nofun) nofun
  | receive ht =>
    exact held_task h.held rfl hsame rfl ⟨rfl, rfl, rfl, rfl⟩ nofun (by rw [ht]; nofun) nofun
  | @close c hostSecret _ ht =>
    cases hostSecret <;>
      exact held_task h.held rfl hsame rfl ⟨rfl, rfl, rfl, rfl⟩ nofun (by rw [ht]; nofun) nofun
  | forward ht =>
    exact held_task h.held rfl hsame rfl ⟨rfl, rfl, rfl, rfl⟩ nofun (by rw [ht]; nofun) nofun
  | fail ht =>
    exact held_task h.held rfl hsame rfl ⟨rfl, rfl, rfl, rfl⟩ nofun (fun _ _ => rfl) nofun
  | clear ht => exact held_clear h.slot h.held ht
  | release ht =>
    exact held_task h.held rfl hsame rfl ⟨rfl, rfl, rfl, rfl⟩ nofun (by rw [ht]; nofun) nofun
  | @drain c ht =>
    have hempty : s.pending = [] := by
      by_contra hne
      exact h.quiet hne c ht
    have hop : s.clearPending.op = s.op := by
      funext c
      show (s.dropLeases s.pending).op c = s.op c
      rw [hempty]
      exact dropLeases_other (by simp)
    refine held_task (o := { s.op c with task := .done }) h.held hempty.symm hsame ?_
      ⟨rfl, rfl, rfl, rfl⟩ nofun (by rw [ht]; nofun) nofun
    rw [State.setTask_eq, hop, State.setOp_op, hop]
  | takeLease hr hq hw =>
    exact held_request h.held rfl hsame rfl ⟨rfl, rfl, rfl⟩ (fun _ => ⟨rfl, asked_of_waiting hw⟩)
      (fun _ => .inr (.inl hq)) fun _ _ => .inr (.inr rfl)
  | skipLease _ _ hw =>
    refine held_request h.held rfl hsame rfl ⟨rfl, rfl, rfl⟩ nofun ?_ (by rw [hw]; nofun)
    rintro (hu | hq | hr)
    · exact .inl hu
    · cases hq
    · cases hr
  | endRequests hr =>
    refine held_request h.held rfl hsame rfl ⟨rfl, rfl, rfl⟩ nofun ?_ fun _ => ?_
    · rintro (hu | hq | hr)
      · exact .inl hu
      · exact .inr (.inl hq)
      · cases hr
    · rintro (hu | hq | hr')
      · exact .inl hu
      · exact .inr (.inl hq)
      · rw [hr] at hr'
        cases hr'
  | @insert c hr =>
    obtain ⟨hwaiting, -⟩ := hok hr
    exact held_insert hid h.held hr hwaiting rfl
  | require hr =>
    refine held_request h.held rfl hsame rfl ⟨rfl, rfl, rfl⟩ nofun ?_ fun _ => ?_
    · rintro (hu | hq | hr)
      · exact .inl hu
      · exact .inr (.inl hq)
      · cases hr
    · rintro (hu | hq | hr')
      · exact .inl hu
      · exact .inr (.inl hq)
      · rw [hr] at hr'
        cases hr'
  | work =>
    exact held_request h.held rfl hsame rfl ⟨rfl, rfl, rfl⟩ (h.held _).taken id fun _ => id

/-- The map is no longer empty after an insertion only. -/
theorem pending_new {a : Action C} (hs : Step setup s a s') (hne : s'.pending ≠ []) :
    s.pending ≠ [] ∨ ∃ d, a = .request d ∧ (s.op d).request = .inserting ∧
      ∀ c, (s'.op c).task = (s.op c).task := by
  cases hs with
  | cancel | shutdown =>
    rw [State.cancelActive_eq] at hne
    exact .inl hne
  | take =>
    refine .inl fun hempty => hne ?_
    rw [State.setHost_pending]
    show s.pending.filter _ = []
    rw [hempty]
    rfl
  | clear | drain => exact absurd rfl hne
  | @insert d hr =>
    refine .inr ⟨d, rfl, hr, fun c => ?_⟩
    simp only [State.setOp_op]
    by_cases hc : c = d
    · rw [hc, Function.update_self]
      exact s.insertPending_task ..
    · rw [Function.update_of_ne hc]
      exact s.insertPending_task ..
  | _ => exact .inl hne

theorem requestsHeld_step (hid : Function.Injective setup.requestId) {a : Action C}
    (h : RequestsHeld setup s) (hok : Undisturbed s a) (hs : Step setup s a s') :
    RequestsHeld setup s' := by
  refine ⟨slotHeld_step h.slot hs, requestHeld_step hid h hok hs, fun hne c hc => ?_⟩
  rcases pending_new hs hne with hpending | ⟨d, rfl, hr, htask⟩
  · obtain ⟨events, hm, -⟩ := step_moves hs c
    rcases draining_move hm hc with hd | ⟨hostSecret, operation, ht⟩
    · exact h.quiet hpending c hd
    · exact hpending (quiet_close h ht)
  · exact (hok hr).2 c (htask c ▸ hc)

/-! ## Runs -/

/-- What becomes of the requests in a state. -/
structure Kept (setup : Setup C) (s : State C) : Prop where
  /-- A request leaves the map by an answer for it, or by the end of its operation. -/
  leaves : ∀ a s' entry, step setup s a = some s' → entry ∈ s.pending → entry ∉ s'.pending →
    (∃ k message envelope resolution, a = .host k ∧ setup.calls k = .sendHostResponse message ∧
      s.host k = .matched envelope ∧ checkResponse envelope = .ok (entry.1, resolution) ∧
      entry.2.operationId = envelope.operationId ∧
      entry.2.correlationId = envelope.correlationId) ∨
    ∃ cancellation, a = .task entry.2.lease ∧ (s.op entry.2.lease).task = .clearing cancellation
  /-- An answer for an operation that waits is admitted. -/
  admitted : ∀ k message envelope c, setup.calls k = .sendHostResponse message →
    s.host k = .decoded envelope → envelope.messageType = "host_secret_response" →
    envelope.sequence = 0 → envelope.correlationId ≠ [] →
    (s.op c).context.operationId = envelope.operationId → (s.op c).task.isWaiting →
    ∃ s', step setup s (.host k) = some s' ∧ s'.host k = .matched envelope
  /-- The first answer for an operation that waits finds its request. -/
  found : ∀ k message envelope c resolution, setup.calls k = .sendHostResponse message →
    s.host k = .matched envelope → checkResponse envelope = .ok (setup.requestId c, resolution) →
    (s.op c).context.operationId = envelope.operationId →
    (s.op c).context.correlationId = envelope.correlationId →
    (s.op c).task.isWaiting → ¬ (s.op c).Uninserted → (s.op c).oneShot = .unused →
    ¬ s.isAnswering c →
    ∃ s', step setup s (.host k) = some s' ∧ s'.host k = .answering c resolution

theorem leaves_of_held (hid : Function.Injective setup.requestId) (h : RequestsHeld setup s)
    {a : Action C} {entry : Str × PendingHostRequest C} (hs : Step setup s a s')
    (he : entry ∈ s.pending) (hgone : entry ∉ s'.pending) :
    (∃ k message envelope resolution, a = .host k ∧ setup.calls k = .sendHostResponse message ∧
      s.host k = .matched envelope ∧ checkResponse envelope = .ok (entry.1, resolution) ∧
      entry.2.operationId = envelope.operationId ∧
      entry.2.correlationId = envelope.correlationId) ∨
    ∃ cancellation, a = .task entry.2.lease ∧
      (s.op entry.2.lease).task = .clearing cancellation := by
  obtain ⟨heq, -, hrequest, -, -⟩ := (h.held entry.2.lease).entry entry he rfl
  cases hs with
  | cancel | shutdown =>
    rw [State.cancelActive_eq] at hgone
    exact absurd he hgone
  | @take k envelope requestId key resolution pending message hk hhost hcheck hfound hop hcorrelation =>
    have hrequestId : entry.1 = requestId := by
      by_contra hne
      exact hgone (List.mem_filter.mpr ⟨he, by simpa using hne⟩)
    have hkey : key = requestId := by simpa using List.find?_some hfound
    -- the key has one entry
    have hsame : (key, pending) = entry := by
      have hentry : entry.1 = setup.requestId entry.2.lease := congrArg Prod.fst heq
      rw [heq]
      apply entry_of_key hid h (List.mem_of_find?_eq_some hfound)
      exact hkey.trans (hrequestId.symm.trans hentry)
    subst hsame
    exact .inl ⟨k, message, envelope, resolution, rfl, hk, hhost, hrequestId ▸ hcheck, hop, hcorrelation⟩
  | @clear c cancellation ht =>
    obtain ⟨token, htoken⟩ := slotToken_of_request hrequest
    have hc : entry.2.lease = c := h.slot.unique htoken (by rw [ht]; rfl)
    exact .inr ⟨cancellation, by rw [hc], by rw [hc]; exact ht⟩
  | @drain c ht =>
    have hne : s.pending ≠ [] := List.ne_nil_of_mem he
    exact absurd ht (h.quiet hne c)
  | @insert c hr =>
    have hkey : entry.1 = setup.requestId c := by
      by_contra hne
      exact hgone (List.mem_append_left _ (List.mem_filter.mpr ⟨he, by simpa using hne⟩))
    have hlease := congrArg (·.2.lease) (entry_of_key hid h he hkey)
    exact absurd hlease ((h.held c).no_entry (.inr (.inr hr)) entry he)
  | _ => exact absurd he hgone

theorem admitted_of_held (h : RequestsHeld setup s) {k : C} {message : Message}
    {envelope : Envelope} (hk : setup.calls k = .sendHostResponse message)
    (hhost : s.host k = .decoded envelope) (htype : envelope.messageType = "host_secret_response")
    (hsequence : envelope.sequence = 0) (hcorrelation : envelope.correlationId ≠ [])
    (hop : (s.op c).context.operationId = envelope.operationId) (hw : (s.op c).task.isWaiting) :
    ∃ s', step setup s (.host k) = some s' ∧ s'.host k = .matched envelope := by
  have hrequest : (s.op c).task.hasRequest := by
    generalize (s.op c).task = task at hw
    cases task <;> first | rfl | cases hw
  obtain ⟨token, htoken⟩ := slotToken_of_request hrequest
  refine ⟨s.setHost k (.matched envelope), ?_, Function.update_self ..⟩
  unfold step hostStep responseStep
  simp [hk, hhost, htype, hsequence, hcorrelation, h.slot.held c token htoken, hop]

theorem found_of_held (hid : Function.Injective setup.requestId) (h : RequestsHeld setup s) {k : C}
    {message : Message} {envelope : Envelope} {resolution : SecretResolution}
    (hk : setup.calls k = .sendHostResponse message) (hhost : s.host k = .matched envelope)
    (hcheck : checkResponse envelope = .ok (setup.requestId c, resolution))
    (hop : (s.op c).context.operationId = envelope.operationId)
    (hcorrelation : (s.op c).context.correlationId = envelope.correlationId)
    (hw : (s.op c).task.isWaiting) (hin : ¬ (s.op c).Uninserted) (hunused : (s.op c).oneShot = .unused)
    (hquiet : ¬ s.isAnswering c) :
    ∃ s', step setup s (.host k) = some s' ∧ s'.host k = .answering c resolution := by
  have hentry : entryOf setup s c ∈ s.pending := by
    rcases (h.held c).waiting hw hin with he | ha | hne
    · exact he
    · exact absurd ha hquiet
    · exact absurd hunused hne
  have hfound : s.pending.find? (·.1 = setup.requestId c) = some (entryOf setup s c) := by
    cases hfind : s.pending.find? (·.1 = setup.requestId c) with
    | none =>
      have := List.find?_eq_none.mp hfind _ hentry
      simp [entryOf] at this
    | some e =>
      have hkey : e.1 = setup.requestId c := by simpa using List.find?_some hfind
      rw [entry_of_key hid h (List.mem_of_find?_eq_some hfind) hkey]
  refine ⟨({ s with pending := s.pending.filter (·.1 ≠ setup.requestId c) } : State C).setHost k
    (.answering c resolution), ?_, Function.update_self ..⟩
  unfold step hostStep responseStep
  simp only [hk, hhost, hcheck, hfound]
  rw [if_pos ⟨hop, hcorrelation⟩]
  rfl

/-- In every state of a run without disturbance. -/
theorem requests_kept (hid : Function.Injective setup.requestId)
    (h : Reach (step setup) Undisturbed (initial C) s) : Kept setup s := by
  have hheld : RequestsHeld setup s :=
    h.invariant (requestsHeld_initial setup) fun _ _ _ ht hok hs =>
      requestsHeld_step hid ht hok (step_cases hs)
  refine ⟨fun a s' entry hs => leaves_of_held hid hheld (step_cases hs), ?_, ?_⟩
  · intro k message envelope c
    exact admitted_of_held hheld
  · intro k message envelope c resolution
    exact found_of_held hid hheld

end Requests

/-! ## Two operations, one after the other -/

instance {n : Nat} (s : State (Fin n)) : (a : Action (Fin n)) → Decidable (Undisturbed s a)
  | .request c => inferInstanceAs (Decidable ((s.op c).request = .inserting →
      (s.op c).task.isWaiting ∧ ∀ d, (s.op d).task ≠ .draining))
  | .host _ | .task _ | .work _ _ => isTrue trivial

section Bytes

local instance requestsBoundary : Boundary := byteBoundary

/-- Two submits with a secret, and an answer for each. -/
def successiveCalls : Setup (Fin 4) where
  calls
    | 0 => .submit [1, 65]
    | 1 => .sendHostResponse [2, 65, 65]
    | 2 => .submit [1, 66]
    | 3 => .sendHostResponse [2, 66, 66]
  requestId
    | 0 => ['A']
    | 1 => ['C']
    | 2 => ['B']
    | 3 => ['D']

/-- The first operation is translated, and its slot is free again. -/
def firstRun : List (Action (Fin 4)) :=
  List.replicate 5 (.host 0) ++ [.task 0] ++ List.replicate 3 (.request 0) ++
    List.replicate 4 (.host 1) ++ List.replicate 3 (.task 0) ++
    [.work 0 (.started 1), .work 0 (.completed 2)] ++ List.replicate 5 (.task 0)

/-- The second one asks for its secret. -/
def secondRun : List (Action (Fin 4)) :=
  List.replicate 5 (.host 2) ++ [.task 2] ++ List.replicate 3 (.request 2)

theorem requests_kept_successive :
    ∃ s, run (step successiveCalls) (initial _) (firstRun ++ [.task 0] ++ secondRun) = some s ∧
      s.pending.map (·.1) = [['B']] ∧ Kept successiveCalls s := by
  have h : (run (step successiveCalls) (initial _) (firstRun ++ [.task 0] ++ secondRun)).any
      (fun s => s.pending.map (·.1) = [['B']]) := by
    decide +kernel
  obtain ⟨s, hs, h⟩ := (Option.any_eq_true _ _).mp h
  exact ⟨s, hs, of_decide_eq_true h,
    requests_kept (fun a b => by revert a b; decide) (.of_run hs (by decide +kernel))⟩

/-- The first operation clears the map after the second one has asked: the request that leaves is
neither answered nor of an operation that ends, and its answer is refused. -/
theorem request_lost :
    ∃ s s' t, Reach (step successiveCalls) (fun _ _ => True) (initial _) s ∧
      s.pending.map (fun entry => (entry.1, entry.2.lease)) = [(['B'], 2)] ∧
      (s.op 2).task.isWaiting ∧ step successiveCalls s (.task 0) = some s' ∧ s'.pending = [] ∧
      Reach (step successiveCalls) (fun _ _ => True) s' t ∧ (t.op 2).task.isWaiting ∧
      t.active.map (·.owner) = some 2 ∧ t.host 3 = .returned .invalidArgument := by
  have h : (run (step successiveCalls) (initial _) (firstRun ++ secondRun)).any (fun s =>
      s.pending.map (fun entry => (entry.1, entry.2.lease)) = [(['B'], 2)] ∧
        (s.op 2).task.isWaiting ∧ (step successiveCalls s (.task 0)).any fun s' =>
          s'.pending.length = 0 ∧ (run (step successiveCalls) s' (List.replicate 3 (.host 3))).any
            fun t => (t.op 2).task.isWaiting ∧ t.active.map (·.owner) = some 2 ∧
              t.host 3 = .returned .invalidArgument) := by
    decide +kernel
  obtain ⟨s, hs, h⟩ := (Option.any_eq_true _ _).mp h
  obtain ⟨hpending, hwaiting, hnext⟩ := of_decide_eq_true h
  obtain ⟨s', hs', h'⟩ := (Option.any_eq_true _ _).mp hnext
  obtain ⟨hcleared, hlast⟩ := of_decide_eq_true h'
  obtain ⟨t, ht, hend⟩ := (Option.any_eq_true _ _).mp hlast
  exact ⟨s, s', t, .of_run hs (meets_of_forall (fun _ _ => trivial) _), hpending, hwaiting, hs',
    List.eq_nil_of_length_eq_zero hcleared, .of_run ht (meets_of_forall (fun _ _ => trivial) _),
    of_decide_eq_true hend⟩

end Bytes

end LinguaMesh.Ffi
