import LinguaMesh.Ffi.Events

/-!
# The one active operation

A submit with a secret looks at the slot twice and spawns its request task in
between; identifiers may repeat, and the slot is emptied by identifier. Still it is
filled only by a submit that returns `Ok`, and emptied only by the task of the
operation in it, which has queued its terminal event. A submit that returns `Busy`
leaves no trace (`single_active`).
-/

namespace LinguaMesh.Ffi

open Runs

/-! ## One operation -/

/-- A terminal event of the operation is in the queue. -/
def Operation.Ended (o : Operation) (log : List EventEnvelope) : Prop :=
  ∃ event ∈ log, event.isTerminal ∧ event.operationId = o.context.operationId

/-- An operation without a task has queued nothing and has asked for nothing. -/
def Operation.Untouched (o : Operation) (log : List EventEnvelope) : Prop :=
  o.task = .idle → log = [] ∧ o.leaseQueued = false ∧ o.request.isAsking = false

/-- The event that ends the operation without a translation was sent. -/
def TaskPhase.hasFailed : TaskPhase → Bool
  | .clearing _ | .releasing _ => true
  | _ => false

/-- On its way to the end, an operation has its terminal event in hand or in the queue. -/
structure Ending (o : Operation) (log : List EventEnvelope) : Prop where
  failing : ∀ cancellation event, o.task = .failing cancellation event → event.isTerminal
  failed : o.task.hasFailed → o.Ended log
  finished : o.worker = .finished →
    (∃ event ∈ o.task.inHand ++ o.channel, event.isTerminal) ∨ o.Ended log

section Moves

variable {C : Type} [DecidableEq C] {s : State C} {c : C} {o o' : Operation}
  {log : List EventEnvelope} {events : List EventEnvelope}

omit [DecidableEq C] in
/-- A task that has begun does not become idle. -/
theorem idle_move (hm : Moves s c o' events)
    (hbefore : (s.host c).isBefore → (s.op c).task = .idle) (h : o'.task = .idle) :
    (s.op c).task = .idle := by
  cases hm with
  | spawn hb => exact hbefore hb
  | stay | takeLease | skipLease | endRequests | insert | require | work => exact h
  | @close hostSecret => cases hostSecret <;> cases h
  | _ => cases h

theorem untouched_move (h : (s.op c).Untouched (s.log c)) (hm : Moves s c o' events)
    (hbefore : (s.host c).isBefore → (s.op c).task = .idle) :
    o'.Untouched (s.log c ++ events) := by
  cases hm with
  | stay =>
    rw [List.append_nil]
    exact h
  | spawn hb => exact fun _ => ⟨by rw [(h (hbefore hb)).1]; rfl, rfl, rfl⟩
  | close =>
    rename_i hostSecret _ _ _ _
    cases hostSecret <;> exact nofun
  | takeLease _ _ hw =>
    intro ht
    rw [show (s.op c).task = .idle from ht] at hw
    cases hw
  | skipLease => exact fun ht => ⟨by rw [(h ht).1]; rfl, rfl, rfl⟩
  | endRequests => exact fun ht => ⟨by rw [(h ht).1]; rfl, (h ht).2.1, rfl⟩
  | insert _ hr =>
    intro ht
    have hasking := (h ht).2.2
    rw [hr] at hasking
    cases hasking
  | require hr =>
    intro ht
    have hasking := (h ht).2.2
    rw [hr] at hasking
    cases hasking
  | work =>
    rw [List.append_nil]
    exact h
  | _ => exact nofun

/-- No translation has run. -/
theorem ending_begin (hw : o.worker ≠ .finished) (ht : o.task.hasFailed = false)
    (hf : ∀ cancellation event, o.task ≠ .failing cancellation event) : Ending o log where
  failing cancellation event h := absurd h (hf cancellation event)
  failed h := by
    rw [ht] at h
    cases h
  finished h := absurd h hw

/-- A move that queues nothing and keeps the events in hand. -/
theorem Ending.along (h : Ending o log) (hctx : o'.context = o.context)
    (hw : o'.worker = .finished → o.worker = .finished)
    (hhand : o.task.inHand ++ o.channel ⊆ o'.task.inHand ++ o'.channel)
    (hfailing : ∀ cancellation event, o'.task = .failing cancellation event → event.isTerminal)
    (hfailed : o'.task.hasFailed → o.task.hasFailed) : Ending o' log := by
  have hended : o.Ended log → o'.Ended log := by
    unfold Operation.Ended
    rw [hctx]
    exact id
  refine ⟨hfailing, fun ht => hended (h.failed (hfailed ht)), fun hf => ?_⟩
  rcases h.finished (hw hf) with ⟨event, he, hlast⟩ | he
  · exact .inl ⟨event, hhand he, hlast⟩
  · exact .inr (hended he)

theorem encodeEvent_terminal {operationId correlationId : Str} {event : TranslationEvent}
    (h : event.isTerminal) : (encodeEvent operationId correlationId event).isTerminal :=
  (congrArg Prod.snd (encodeEvent_mark operationId correlationId event)).trans h

theorem errorTerminal_terminal (n : Nat) (e : TranslationError) : (errorTerminal n e).isTerminal :=
  congrArg Prod.snd (errorTerminal_mark n e)

/-- The terminal event goes into the queue. -/
theorem ended_queue {correlationId : Str} {event : TranslationEvent} (h : event.isTerminal) :
    o.Ended (log ++ [encodeEvent o.context.operationId correlationId event]) :=
  ⟨_, List.mem_append_right _ (List.mem_singleton_self _), encodeEvent_terminal h, rfl⟩

theorem Operation.Ended.append (h : o.Ended log) : o.Ended (log ++ events) := by
  obtain ⟨event, he, h⟩ := h
  exact ⟨event, List.mem_append_left _ he, h⟩

theorem Ending.work (h : Ending o log) {event : TranslationEvent} {worker : WorkerPhase}
    (he : Emits o.worker event worker) :
    Ending { o with worker, channel := o.channel ++ [event] } log := by
  refine ⟨h.failing, h.failed, fun hw => .inl ⟨event, ?_, ?_⟩⟩
  · exact List.mem_append_right _ (List.mem_append_right _ (List.mem_singleton_self _))
  · generalize o.worker = w at he
    cases he with
    | started => cases hw
    | textDelta => cases hw
    | terminal _ hlast => exact hlast

theorem ending_move (h : Ending (s.op c) (s.log c)) (hm : Moves s c o' events)
    (hbefore : (s.host c).isBefore → (s.op c).task = .idle) :
    Ending o' (s.log c ++ events) := by
  have hquiet : ∀ {task task' : TaskPhase} {oneShot : OneShot}, (s.op c).task = task →
      task.inHand ⊆ task'.inHand →
      (∀ cancellation event, task' = .failing cancellation event → event.isTerminal) →
      (task'.hasFailed → task.hasFailed) →
      Ending { s.op c with oneShot, task := task' } (s.log c ++ []) := by
    rintro task task' oneShot rfl hhand hfailing hfailed
    rw [List.append_nil]
    refine h.along rfl id ?_ hfailing hfailed
    exact List.append_subset.mpr ⟨fun _ he => List.mem_append_left _ (hhand he),
      List.subset_append_right _ _⟩
  cases hm with
  | stay =>
    rw [List.append_nil]
    exact ⟨h.failing, h.failed, h.finished⟩
  | spawn => exact ending_begin nofun rfl nofun
  | openDirect => exact ending_begin nofun rfl nofun
  | openSecret hhost => exact hquiet (hbefore (by rw [hhost]; rfl)) nofun nofun nofun
  | askCancelled ht =>
    rcases ht with ht | ht
    all_goals
      refine hquiet ht nofun ?_ nofun
      rintro _ _ ⟨⟩
      rfl
  | ask ht =>
    rw [List.append_nil]
    refine h.along rfl id ?_ nofun nofun
    rw [ht]
    exact fun _ he => he
  | refused ht =>
    refine hquiet ht nofun ?_ nofun
    rintro _ _ ⟨⟩
    exact errorTerminal_terminal 1 _
  | resolve ht => exact hquiet ht nofun nofun nofun
  | hand ht => exact ending_begin nofun rfl nofun
  | reject ht =>
    refine hquiet ht nofun ?_ nofun
    rintro _ _ ⟨⟩
    rfl
  | repoint ht => exact hquiet ht nofun nofun nofun
  | receive ht hc =>
    rw [List.append_nil]
    refine h.along rfl id ?_ nofun nofun
    rw [ht, hc]
    exact fun _ he => he
  | @close hostSecret _ ht =>
    cases hostSecret
    · exact hquiet ht nofun nofun nofun
    · exact hquiet ht nofun nofun nofun
  | @forward _ _ event ht =>
    refine ⟨nofun, nofun, fun hw => ?_⟩
    rcases h.finished hw with ⟨last, he, hlast⟩ | he
    · rw [ht] at he
      rcases List.mem_cons.mp he with rfl | he
      · exact .inr (ended_queue (o := s.op c) hlast)
      · exact .inl ⟨last, he, hlast⟩
    · exact .inr (Operation.Ended.append (o := s.op c) he)
  | fail ht =>
    have hended : (s.op c).Ended (s.log c ++ [encodeEvent (s.op c).context.operationId
        (s.op c).context.correlationId _]) := ended_queue (h.failing _ _ ht)
    exact ⟨nofun, fun _ => hended, fun _ => .inr hended⟩
  | clear _ ht => exact hquiet ht nofun nofun fun _ => rfl
  | release ht => exact hquiet ht nofun nofun nofun
  | drain _ ht => exact hquiet ht nofun nofun nofun
  | takeLease =>
    rw [List.append_nil]
    exact ⟨h.failing, h.failed, h.finished⟩
  | skipLease =>
    rw [List.append_nil]
    exact ⟨h.failing, h.failed, h.finished⟩
  | endRequests =>
    rw [List.append_nil]
    exact ⟨h.failing, h.failed, h.finished⟩
  | insert =>
    rw [List.append_nil]
    exact ⟨h.failing, h.failed, h.finished⟩
  | require =>
    refine ⟨h.failing, fun ht => (h.failed ht).append, fun hw => ?_⟩
    exact (h.finished hw).imp id (·.append)
  | work he =>
    rw [List.append_nil]
    exact h.work he

/-- A task that empties the slot has queued the terminal event. -/
theorem Ending.ended_close (h : Ending o log) {hostSecret : Bool} {operation : Token}
    (ht : o.task = .forwarding hostSecret operation) (hc : o.channel = [])
    (hw : o.worker = .finished) : o.Ended log := by
  rcases h.finished hw with ⟨event, he, -⟩ | hended
  · rw [ht, hc] at he
    cases he
  · exact hended

end Moves

/-! ## Steps -/

/-- The call that an action belongs to. -/
def Action.call {C : Type} : Action C → C
  | .host k => k
  | .task c | .request c | .work c _ => c

section Steps

variable [Boundary] {C : Type} [DecidableEq C] {setup : Setup C} {s s' : State C} {a : Action C}

/-- What a step makes of the slot. -/
inductive Turn (s : State C) (a : Action C) (s' : State C) : Prop where
  | stay : s'.active = s.active → Turn s a s'
  | opens {k : C} (token : Token) : a = .host k →
    (∃ envelope submission, s.host k = .checked envelope submission) ∨
      (∃ cancellation, s.host k = .spawned cancellation) →
    s.active = none → s'.active = some ⟨(s'.op k).context.operationId, token, k⟩ →
    s'.host k = .returned .ok → Turn s a s'
  | renews {active : ActiveOperation C} {token : Token} : s.active = some active →
    a = .task active.owner → s'.active = some { active with cancellation := token } → Turn s a s'
  | empties {active : ActiveOperation C} : s.active = some active → a = .task active.owner →
    s'.active = none → (∀ log, Ending (s.op active.owner) log → (s.op active.owner).Ended log) →
    Turn s a s'

theorem active_step (h : SlotHeld s) (hs : Step setup s a s') : Turn s a s' := by
  cases hs with
  | cancel =>
    rw [State.cancelActive_eq]
    exact .stay rfl
  | shutdown =>
    rw [State.cancelActive_eq]
    exact .stay rfl
  | @openDirect k envelope submission hhost _ ha =>
    refine .opens s.nextToken rfl (.inl ⟨_, _, hhost⟩) ha ?_ (Function.update_self ..)
    show some _ = some _
    rw [State.finish_eq, State.setHost_op, State.setOp_op, Function.update_self]
  | @openSecret k cancellation hhost ha =>
    refine .opens cancellation rfl (.inr ⟨_, hhost⟩) ha ?_ (Function.update_self ..)
    show some _ = some _
    rw [State.finish_eq, State.setHost_op, State.setTask_eq, State.setOp_op, Function.update_self]
  | repoint ht =>
    have hc := congrArg TaskPhase.slotToken ht
    exact .renews (h.held _ _ hc) rfl (repoint_active h hc)
  | @close c hostSecret operation ht hchannel hw =>
    have hc := congrArg TaskPhase.slotToken ht
    exact .empties (h.held _ _ hc) rfl (clearActive_active h hc) fun _ he =>
      he.ended_close ht hchannel hw
  | @release c cancellation ht =>
    have hc := congrArg TaskPhase.slotToken ht
    refine .empties (h.held _ _ hc) rfl (clearActive_active h hc) fun _ he => he.failed ?_
    rw [ht]
    rfl
  | _ => exact .stay rfl

/-- A task takes its steps after it has begun. -/
theorem begun_of_step {c : C} (hs : Step setup s (.task c) s') : (s.op c).task ≠ .idle := by
  cases hs with
  | askCancelled ht => rcases ht with ht | ht <;> exact ht ▸ nofun
  | _ ht => exact ht ▸ nofun

/-- A call that has returned takes no further step. -/
theorem returned_step {k : C} {code : LmResultCode} (hs : Step setup s a s')
    (h : s.host k = .returned code) : s'.host k = .returned code := by
  have hkeep : ∀ {k' : C} {p : HostPhase C}, s.host k' ≠ .returned code →
      Function.update s.host k' p k = .returned code := by
    intro k' p hne
    by_cases he : k = k'
    · exact absurd (he ▸ h) hne
    · rw [Function.update_of_ne he]
      exact h
  cases hs with
  | advance _ hb =>
    refine hkeep fun hr => ?_
    rw [hr] at hb
    cases hb
  | cancel _ hhost =>
    rw [State.cancelActive_eq]
    exact hkeep (hhost ▸ nofun)
  | shutdown _ hhost =>
    rw [State.cancelActive_eq]
    exact hkeep (hhost ▸ nofun)
  | unlock hhost | spawn hhost | openDirect hhost | openSecret hhost => exact hkeep (hhost ▸ nofun)
  | poll _ hhost | flag _ hhost | take _ hhost => exact hkeep (hhost ▸ nofun)
  | answer hhost | refuse hhost => exact hkeep (hhost ▸ nofun)
  | _ => exact h

/-- A pending request is put there by the request task of its operation. -/
theorem pending_step {entry : Str × PendingHostRequest C} (hs : Step setup s a s')
    (h : entry ∈ s'.pending) :
    entry ∈ s.pending ∨ (s.op entry.2.lease).request = .inserting := by
  cases hs with
  | cancel | shutdown =>
    rw [State.cancelActive_eq] at h
    exact .inl h
  | take => exact .inl (List.mem_of_mem_filter h)
  | clear | drain => cases h
  | @insert c hr =>
    rcases List.mem_append.mp h with h | h
    · exact .inl (List.mem_of_mem_filter h)
    · cases List.mem_singleton.mp h
      exact .inr hr
  | _ => exact .inl h

/-- A submit that opens an operation, and none but a submit. -/
theorem submit_of_opening {k : C} (hs : step setup s (.host k) = some s')
    (h : (∃ envelope submission, s.host k = .checked envelope submission) ∨
      ∃ cancellation, s.host k = .spawned cancellation) :
    ∃ message, setup.calls k = .submit message := by
  have hs : hostStep setup s k = some s' := hs
  unfold hostStep responseStep at hs
  cases hcall : setup.calls k with
  | submit message => exact ⟨message, rfl⟩
  | _ => rcases h with ⟨_, _, h⟩ | ⟨_, h⟩ <;> simp [hcall, h] at hs

theorem decodeProtocolInput_error {shutdown : Bool} {message : Message} {code : LmResultCode}
    (h : decodeProtocolInput shutdown message = .error code) : code ≠ .ok := by
  unfold decodeProtocolInput at h
  repeat' split at h
  all_goals cases h <;> exact nofun

theorem checkSubmit_error {envelope : Envelope} {code : LmResultCode}
    (h : checkSubmit envelope = .error code) : code ≠ .ok := by
  unfold checkSubmit at h
  repeat' split at h
  all_goals cases h <;> exact nofun

/-- A submit returns `Ok` only where it finds the slot empty. -/
theorem free_of_ok {k : C} {message : Message} (hcall : setup.calls k = .submit message)
    (hs : step setup s (.host k) = some s') (hok : s'.host k = .returned .ok) : s.active = none := by
  have hs : submitStep s k message = some s' := by
    have hs : hostStep setup s k = some s' := hs
    unfold hostStep at hs
    rw [hcall] at hs
    exact hs
  have hcode : ∀ {code : LmResultCode}, code ≠ .ok → s' ≠ s.finish k code := by
    rintro code hne rfl
    rw [State.finish_eq, State.setHost_host, Function.update_self] at hok
    exact hne (HostPhase.returned.inj hok)
  have hphase : ∀ {t : State C} {p : HostPhase C}, p ≠ .returned .ok → s' ≠ t.setHost k p := by
    rintro t p hne rfl
    rw [State.setHost_host, Function.update_self] at hok
    exact hne hok
  unfold submitStep at hs
  cases hhost : s.host k with
  | called =>
    simp only [hhost] at hs
    split at hs <;> cases hs
    · rename_i hcheck
      exact absurd rfl (hcode (decodeProtocolInput_error hcheck))
    · exact absurd rfl (hphase nofun)
  | decoded envelope =>
    simp only [hhost] at hs
    split at hs
    · cases hs
      exact absurd rfl (hcode nofun)
    · split at hs <;> cases hs
      · rename_i hcheck
        exact absurd rfl (hcode (checkSubmit_error hcheck))
      · exact absurd rfl (hphase nofun)
  | checked envelope submission =>
    simp only [hhost] at hs
    split at hs
    · cases hs
      exact absurd rfl (hcode nofun)
    · split at hs
      · cases hs
        exact absurd rfl (hcode nofun)
      · rename_i hfree
        simpa using hfree
  | unlocked envelope submission secretRef =>
    simp only [hhost] at hs
    split at hs <;> cases hs
    · exact absurd rfl (hphase nofun)
    · exact absurd rfl (hcode nofun)
  | spawned cancellation =>
    simp only [hhost] at hs
    split at hs
    · cases hs
      exact absurd rfl (hcode nofun)
    · rename_i hfree
      simpa using hfree
  | _ =>
    simp only [hhost] at hs
    cases hs

end Steps

/-! ## Runs -/

section Runs

variable [Boundary] {C : Type} [DecidableEq C] {setup : Setup C} {s t : State C}

/-- The invariant of a run. -/
structure Occupied (s : State C) : Prop where
  slot : SlotHeld s
  /-- Only a call that returned `Ok` has a task. -/
  returned : ∀ c, (s.op c).task ≠ .idle → s.host c = .returned .ok
  untouched : ∀ c, (s.op c).Untouched (s.log c)
  ending : ∀ c, Ending (s.op c) (s.log c)
  /-- Only an operation with a task has a pending request. -/
  pending : ∀ entry ∈ s.pending, (s.op entry.2.lease).task ≠ .idle

omit [Boundary] in
theorem occupied_initial : Occupied (initial C) where
  slot := slotHeld_initial
  returned _ h := absurd rfl h
  untouched _ _ := ⟨rfl, rfl, rfl⟩
  ending _ := ending_begin nofun rfl nofun
  pending := nofun

theorem occupied_step {s' : State C} {a : Action C} (h : Occupied s) (hs : Step setup s a s') :
    Occupied s' := by
  have hbegun : ∀ c, (s.op c).task ≠ .idle → (s'.op c).task ≠ .idle := by
    intro c hne hidle
    obtain ⟨events, hm, -⟩ := step_moves hs c
    exact hne (idle_move hm h.slot.idle_of_before hidle)
  refine ⟨slotHeld_step h.slot hs, fun c hne => ?_, fun c => ?_, fun c => ?_, fun entry he => ?_⟩
  · by_cases hidle : (s.op c).task = .idle
    · have ha : a ≠ .task c := by
        rintro rfl
        exact begun_of_step hs hidle
      rcases task_step_cases hs ha with ht | ⟨-, ht | hr⟩
      · exact absurd (ht.trans hidle) hne
      · exact absurd ht hne
      · exact hr
    · exact returned_step hs (h.returned c hidle)
  · obtain ⟨events, hm, hlog⟩ := step_moves hs c
    rw [hlog]
    exact untouched_move (h.untouched c) hm h.slot.idle_of_before
  · obtain ⟨events, hm, hlog⟩ := step_moves hs c
    rw [hlog]
    exact ending_move (h.ending c) hm h.slot.idle_of_before
  · apply hbegun
    rcases pending_step hs he with he | hr
    · exact h.pending entry he
    · intro hidle
      have hasking := (h.untouched _ hidle).2.2
      rw [hr] at hasking
      cases hasking

theorem occupied_reach {ok : State C → Action C → Prop} (h : Reach (step setup) ok (initial C) s) :
    Occupied s :=
  h.invariant occupied_initial fun _ _ _ ht _ hs => occupied_step ht (step_cases hs)

theorem returned_reach {ok : State C → Action C → Prop} {k : C} {code : LmResultCode}
    (h : Reach (step setup) ok s t) (hk : s.host k = .returned code) : t.host k = .returned code :=
  h.invariant hk fun _ _ _ ht _ hs => returned_step (step_cases hs) ht

/-- What becomes of the slot in a state. -/
structure SingleActive (setup : Setup C) (s : State C) : Prop where
  /-- The slot is filled by a submit that returns `Ok`. -/
  opens : ∀ a s' active, step setup s a = some s' → s.active = none → s'.active = some active →
    ∃ message, setup.calls active.owner = .submit message ∧ a = .host active.owner ∧
      s'.host active.owner = .returned .ok ∧
      active.operationId = (s'.op active.owner).context.operationId
  /-- It stays with its operation until the task of that operation empties it, after the terminal
  event. -/
  closes : ∀ a s' active, step setup s a = some s' → s.active = some active →
    (∃ token, s'.active = some { active with cancellation := token }) ∨
    s'.active = none ∧ a = .task active.owner ∧
      ∃ event ∈ s.log active.owner, event.isTerminal ∧ event.operationId = active.operationId
  /-- No submit returns `Ok` while the slot is taken. -/
  excludes : ∀ k message s', setup.calls k = .submit message → step setup s (.host k) = some s' →
    s'.host k = .returned .ok → s.active = none
  /-- A submit that returns `Busy` has queued no event, registered no request, and left the slot. -/
  busy : ∀ k message, setup.calls k = .submit message → s.host k = .returned .busy →
    s.log k = [] ∧ ∀ t, Reach (step setup) (fun _ _ => True) (initial C) t →
      Reach (step setup) (fun _ _ => True) t s →
      (∀ entry ∈ t.pending, entry.2.lease ≠ k) ∧
      ∀ a t', step setup t a = some t' → Reach (step setup) (fun _ _ => True) t' s → a.call = k →
        t'.active = t.active

/-- In every state of every run the slot has one operation, which no other call touches. -/
theorem single_active (h : Reach (step setup) (fun _ _ => True) (initial C) s) :
    SingleActive setup s := by
  have hinv := occupied_reach h
  refine ⟨fun a s' active hs ha ha' => ?_, fun a s' active hs ha => ?_,
    fun k message s' hcall hs hok => free_of_ok hcall hs hok, fun k message _ hk => ?_⟩
  · rcases active_step hinv.slot (step_cases hs) with hstay | ⟨token, rfl, hhost, -, hopen, hok⟩ |
      ⟨hfull, -, -⟩ | ⟨hfull, -, -, -⟩
    · rw [hstay, ha] at ha'
      cases ha'
    · obtain ⟨message, hcall⟩ := submit_of_opening hs hhost
      rw [hopen] at ha'
      cases ha'
      exact ⟨message, hcall, rfl, hok, rfl⟩
    · rw [ha] at hfull
      cases hfull
    · rw [ha] at hfull
      cases hfull
  · rcases active_step hinv.slot (step_cases hs) with hstay | ⟨token, rfl, -, hempty, -, -⟩ |
      ⟨hfull, -, hrenewed⟩ | ⟨hfull, rfl, hleft, hended⟩
    · exact .inl ⟨active.cancellation, hstay.trans ha⟩
    · rw [ha] at hempty
      cases hempty
    · rw [ha] at hfull
      cases hfull
      exact .inl ⟨_, hrenewed⟩
    · rw [ha] at hfull
      cases hfull
      refine .inr ⟨hleft, rfl, ?_⟩
      have hholder := hinv.slot.holder active ha
      rw [congrArg ActiveOperation.operationId
        (Option.some.inj (ha.symm.trans (hinv.slot.held _ _ hholder)))]
      exact hended _ (hinv.ending active.owner)
  · -- an operation of the call, at any time, would have made it return `Ok`
    have hidle : ∀ t, Reach (step setup) (fun _ _ => True) (initial C) t →
        Reach (step setup) (fun _ _ => True) t s → (t.op k).task = .idle := by
      intro t ht hts
      by_contra hne
      have hok := returned_reach hts ((occupied_reach ht).returned k hne)
      rw [hk] at hok
      cases hok
    refine ⟨(hinv.untouched k (hidle s h .refl)).1, fun t ht hts => ⟨?_, ?_⟩⟩
    · rintro entry he rfl
      exact (occupied_reach ht).pending entry he (hidle t ht hts)
    · rintro a t' hs hts' rfl
      have hslot := (occupied_reach ht).slot
      have hother : ∀ {active : ActiveOperation C}, t.active = some active →
          a ≠ .task active.owner := by
        rintro active ha rfl
        have hholder := hslot.holder active ha
        rw [show (t.op active.owner).task = .idle from hidle t ht hts] at hholder
        cases hholder
      rcases active_step hslot (step_cases hs) with hstay | ⟨_, rfl, -, -, -, hok⟩ | ⟨ha, he, -⟩ |
        ⟨ha, he, -, -⟩
      · exact hstay
      · exact nomatch hk.symm.trans (returned_reach hts' hok)
      · exact absurd he (hother ha)
      · exact absurd he (hother ha)

end Runs

section Bytes

local instance occupancyBoundary : Boundary := byteBoundary

/-- Two submits of one identifier that need a secret. -/
def twinCalls : Setup (Fin 2) where
  calls _ := .submit [1, 65]
  requestId _ := ['A']

/-- Both submits find the slot empty at first; the second one returns `Busy`. -/
theorem single_active_twins :
    ∃ s, run (step twinCalls) (initial _)
        (List.replicate 4 (.host 0) ++ List.replicate 4 (.host 1) ++ [.host 0, .host 1]) = some s ∧
      s.host 0 = .returned .ok ∧ s.host 1 = .returned .busy ∧ SingleActive twinCalls s := by
  have h : (run (step twinCalls) (initial _) (List.replicate 4 (.host 0) ++
      List.replicate 4 (.host 1) ++ [.host 0, .host 1])).any (fun s =>
        s.host 0 = .returned .ok ∧ s.host 1 = .returned .busy) := by
    decide +kernel
  obtain ⟨s, hs, h⟩ := (Option.any_eq_true _ _).mp h
  obtain ⟨hopened, hbusy⟩ := of_decide_eq_true h
  have hreach := Reach.of_run hs (meets_of_forall (fun _ _ => trivial) _)
  exact ⟨s, hs, hopened, hbusy, single_active hreach⟩

end Bytes

end LinguaMesh.Ffi
