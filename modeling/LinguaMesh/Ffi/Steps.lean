import LinguaMesh.Ffi.Engine

/-!
# What a step of the engine does

`Step` lists the transitions with their guards, one constructor for each; a step of
the engine is one of them (`step_cases`). Every invariant is proved along it.
-/

namespace LinguaMesh.Ffi

/-! ## Fields after an update -/

namespace State

variable {C : Type} (s : State C) (k c : C)

@[simp] theorem queue_active (e : EventEnvelope) : (s.queue c e).active = s.active := rfl
@[simp] theorem queue_op (e : EventEnvelope) : (s.queue c e).op = s.op := rfl
@[simp] theorem queue_host (e : EventEnvelope) : (s.queue c e).host = s.host := rfl

@[simp] theorem clearActive_op : (s.clearActive c).op = s.op := rfl
@[simp] theorem repoint_op (token : Token) : (s.repoint c token).op = s.op := rfl

theorem cancelActive_eq : s.cancelActive =
    { s with cancelled := (s.active.map (·.cancellation)).toList ++ s.cancelled } := by
  obtain ⟨shutdown, active, _⟩ := s
  cases active <;> rfl

variable [DecidableEq C]

@[simp] theorem setHost_active (p : HostPhase C) : (s.setHost k p).active = s.active := rfl
@[simp] theorem setHost_op (p : HostPhase C) : (s.setHost k p).op = s.op := rfl
@[simp] theorem setHost_cancelled (p : HostPhase C) : (s.setHost k p).cancelled = s.cancelled := rfl
@[simp] theorem setHost_host (p : HostPhase C) :
    (s.setHost k p).host = Function.update s.host k p := rfl
@[simp] theorem setHost_shutdown (p : HostPhase C) : (s.setHost k p).shutdown = s.shutdown := rfl
@[simp] theorem setHost_pending (p : HostPhase C) : (s.setHost k p).pending = s.pending := rfl
@[simp] theorem setHost_events (p : HostPhase C) : (s.setHost k p).events = s.events := rfl

@[simp] theorem setOp_active (o : Operation) : (s.setOp c o).active = s.active := rfl
@[simp] theorem setOp_op (o : Operation) : (s.setOp c o).op = Function.update s.op c o := rfl
@[simp] theorem setOp_cancelled (o : Operation) : (s.setOp c o).cancelled = s.cancelled := rfl
@[simp] theorem setOp_host (o : Operation) : (s.setOp c o).host = s.host := rfl
@[simp] theorem setOp_shutdown (o : Operation) : (s.setOp c o).shutdown = s.shutdown := rfl
@[simp] theorem setOp_pending (o : Operation) : (s.setOp c o).pending = s.pending := rfl
@[simp] theorem setOp_events (o : Operation) : (s.setOp c o).events = s.events := rfl

theorem setTask_eq (task : TaskPhase) : s.setTask c task = s.setOp c { s.op c with task } := rfl

theorem finish_eq (code : LmResultCode) : s.finish k code = s.setHost k (.returned code) := rfl

/-- Dropped leases change answer channels only. -/
theorem dropLeases_op (requests : List (Str × PendingHostRequest C)) :
    ∃ oneShot, (s.dropLeases requests).op c = { s.op c with oneShot } := by
  unfold dropLeases dropLease
  simp only
  split
  · split <;> exact ⟨_, rfl⟩
  · exact ⟨_, rfl⟩

@[simp] theorem clearPending_active : s.clearPending.active = s.active := rfl
theorem clearPending_op : ∃ oneShot, s.clearPending.op c = { s.op c with oneShot } :=
  s.dropLeases_op c s.pending

theorem clearPending_task : (s.clearPending.op c).task = (s.op c).task := by
  obtain ⟨oneShot, ho⟩ := s.clearPending_op c
  rw [ho]

theorem insertPending_op (requestId : Str) (request : PendingHostRequest C) :
    ∃ oneShot, (s.insertPending requestId request).op c = { s.op c with oneShot } :=
  s.dropLeases_op c _

theorem insertPending_task (requestId : Str) (request : PendingHostRequest C) :
    ((s.insertPending requestId request).op c).task = (s.op c).task := by
  obtain ⟨oneShot, ho⟩ := s.insertPending_op c requestId request
  rw [ho]

@[simp] theorem clearPending_host : s.clearPending.host = s.host := rfl

end State

/-! ## Transitions -/

/-- The worker goes on to `next` with the event. -/
inductive Emits : WorkerPhase → TranslationEvent → WorkerPhase → Prop where
  | started (n : Nat) : Emits (.starting n) (.started n) (.streaming (n + 1))
  | textDelta (n : Nat) (text : Str) : Emits (.streaming n) (.textDelta n text) (.streaming (n + 1))
  | terminal (n : Nat) {event : TranslationEvent} : event.isTerminal → event.sequence = n →
    Emits (.streaming n) event .finished

/-- Phases of a call that has not begun to change the engine. -/
def HostPhase.isPlain {C : Type} : HostPhase C → Bool
  | .decoded _ | .checked _ _ | .matched _ | .admitted | .returned _ => true
  | _ => false

/-- Phases of a call before its operation, if it opens one. -/
def HostPhase.isBefore {C : Type} : HostPhase C → Bool
  | .answering _ _ | .returned _ => false
  | _ => true

section Step

variable [Boundary] {C : Type} [DecidableEq C] (setup : Setup C)

inductive Step (s : State C) : Action C → State C → Prop where
  /-- Checks and plain returns of a call. -/
  | advance {k : C} {p : HostPhase C} : setup.calls k ≠ .shutdown → (s.host k).isBefore →
    p.isPlain → Step s (.host k) (s.setHost k p)
  | unlock {k : C} {envelope : Envelope} {submission : Submission} {secretRef : Str} :
    s.host k = .checked envelope submission → s.shutdown = false → s.active = none →
    submission.secretRef = some secretRef →
    Step s (.host k) (s.setHost k (.unlocked envelope submission secretRef))
  | spawn {k : C} {envelope : Envelope} {submission : Submission} {secretRef : Str} :
    s.host k = .unlocked envelope submission secretRef → checkHostSecret submission →
    Step s (.host k) ({ s with nextToken := s.nextToken + 1 }.setOp k
      { noOperation with
        context := ⟨envelope.operationId, envelope.correlationId, submission.command, secretRef⟩,
        request := .receiving } |>.setHost k (.spawned s.nextToken))
  | openDirect {k : C} {envelope : Envelope} {submission : Submission} :
    s.host k = .checked envelope submission → s.shutdown = false → s.active = none →
    Step s (.host k) ({ s with
      active := some ⟨envelope.operationId, s.nextToken, k⟩,
      nextToken := s.nextToken + 1 }.setOp k
        { noOperation with
          context := ⟨envelope.operationId, envelope.correlationId, submission.command, []⟩,
          task := .forwarding false s.nextToken, worker := .starting 0 } |>.finish k .ok)
  | openSecret {k : C} {cancellation : Token} :
    s.host k = .spawned cancellation → s.active = none →
    Step s (.host k) ({ s with active := some ⟨(s.op k).context.operationId, cancellation, k⟩ }.setTask
      k (.resolving cancellation) |>.finish k .ok)
  | cancel {k : C} : setup.calls k = .cancel → s.host k = .admitted →
    Step s (.host k) (s.cancelActive.finish k .ok)
  | poll {k : C} : setup.calls k = .poll → s.host k = .admitted →
    Step s (.host k) ({ s with polled := min (s.polled + 1) s.events.length }.finish k .ok)
  | flag {k : C} : setup.calls k = .shutdown → s.host k = .called →
    Step s (.host k) ({ s with shutdown := true }.setHost k .flagged)
  | shutdown {k : C} : setup.calls k = .shutdown → s.host k = .flagged →
    Step s (.host k) (s.cancelActive.finish k .ok)
  | take {k : C} {envelope : Envelope} {requestId key : Str} {resolution : SecretResolution}
    {pending : PendingHostRequest C} {message : Message} :
    setup.calls k = .sendHostResponse message → s.host k = .matched envelope →
    checkResponse envelope = .ok (requestId, resolution) →
    s.pending.find? (·.1 = requestId) = some (key, pending) →
    pending.operationId = envelope.operationId → pending.correlationId = envelope.correlationId →
    Step s (.host k) ({ s with pending := s.pending.filter (·.1 ≠ requestId) }.setHost k
      (.answering pending.lease resolution))
  | answer {k lease : C} {resolution : SecretResolution} :
    s.host k = .answering lease resolution → (s.op lease).task.isWaiting →
    Step s (.host k)
      (s.setOp lease { s.op lease with oneShot := .answered resolution } |>.finish k .ok)
  | refuse {k lease : C} {resolution : SecretResolution} :
    s.host k = .answering lease resolution → (s.op lease).task.isWaiting = false →
    Step s (.host k) (s.finish k .invalidArgument)
  | askCancelled {c : C} {cancellation : Token} :
    (s.op c).task = .resolving cancellation ∨ (s.op c).task = .waiting cancellation →
    cancellation ∈ s.cancelled →
    Step s (.task c) (s.setTask c (.failing cancellation (.cancelled 1)))
  | ask {c : C} {cancellation : Token} :
    (s.op c).task = .resolving cancellation → cancellation ∉ s.cancelled →
    Step s (.task c)
      (s.setOp c { s.op c with task := .waiting cancellation, leaseQueued := true })
  | refused {c : C} {cancellation : Token} {e : TranslationError} :
    (s.op c).task = .waiting cancellation → cancellation ∉ s.cancelled →
    (s.op c).oneShot ≠ .unused →
    Step s (.task c) (s.setTask c (.failing cancellation (errorTerminal 1 e)))
  | resolve {c : C} {cancellation : Token} {secret : Str} :
    (s.op c).task = .waiting cancellation → cancellation ∉ s.cancelled →
    (s.op c).oneShot = .answered (.provided secret) →
    Step s (.task c) (s.setTask c (.resolved cancellation secret))
  | hand {c : C} {cancellation : Token} {secret : Str} :
    (s.op c).task = .resolved cancellation secret →
    providerForSecret (s.op c).context.command secret →
    Step s (.task c) ({ s with nextToken := s.nextToken + 1 }.setOp c
      { s.op c with task := .handing cancellation s.nextToken, worker := .starting 1 })
  | reject {c : C} {cancellation : Token} {secret : Str} :
    (s.op c).task = .resolved cancellation secret →
    Step s (.task c) (s.setTask c (.failing cancellation (.failed 1 endpointError)))
  | repoint {c : C} {cancellation operation : Token} :
    (s.op c).task = .handing cancellation operation →
    Step s (.task c) ((s.repoint c operation).setTask c (.forwarding true operation))
  | receive {c : C} {hostSecret : Bool} {operation : Token} {event : TranslationEvent}
    {channel : List TranslationEvent} :
    (s.op c).task = .forwarding hostSecret operation → (s.op c).channel = event :: channel →
    Step s (.task c) (s.setOp c { s.op c with
      task := .sending hostSecret operation event, channel })
  | close {c : C} {hostSecret : Bool} {operation : Token} :
    (s.op c).task = .forwarding hostSecret operation → (s.op c).channel = [] →
    (s.op c).worker = .finished →
    Step s (.task c) ((s.clearActive c).setTask c (if hostSecret then .draining else .done))
  | forward {c : C} {hostSecret : Bool} {operation : Token} {event : TranslationEvent} :
    (s.op c).task = .sending hostSecret operation event → s.hasRoom →
    Step s (.task c) ((s.queue c
      (encodeEvent (s.op c).context.operationId (s.op c).context.correlationId event)).setTask c
        (.forwarding hostSecret operation))
  | fail {c : C} {cancellation : Token} {event : TranslationEvent} :
    (s.op c).task = .failing cancellation event → s.hasRoom →
    Step s (.task c) ((s.queue c
      (encodeEvent (s.op c).context.operationId (s.op c).context.correlationId event)).setTask c
        (.clearing cancellation))
  | clear {c : C} {cancellation : Token} : (s.op c).task = .clearing cancellation →
    Step s (.task c) (s.clearPending.setTask c (.releasing cancellation))
  | release {c : C} {cancellation : Token} : (s.op c).task = .releasing cancellation →
    Step s (.task c) ((s.clearActive c).setTask c .done)
  | drain {c : C} : (s.op c).task = .draining → Step s (.task c) (s.clearPending.setTask c .done)
  | takeLease {c : C} : (s.op c).request = .receiving → (s.op c).leaseQueued →
    (s.op c).task.isWaiting →
    Step s (.request c)
      (s.setOp c { s.op c with leaseQueued := false, request := .inserting })
  | skipLease {c : C} : (s.op c).request = .receiving → (s.op c).leaseQueued →
    (s.op c).task.isWaiting = false →
    Step s (.request c)
      (s.setOp c { s.op c with leaseQueued := false, request := .receiving })
  | endRequests {c : C} : (s.op c).request = .receiving → s.brokerDropped c →
    Step s (.request c) (s.setOp c { s.op c with request := .finished })
  | insert {c : C} : (s.op c).request = .inserting →
    Step s (.request c)
      (let t := s.insertPending (setup.requestId c)
          ⟨c, (s.op c).context.operationId, (s.op c).context.correlationId⟩
       t.setOp c { t.op c with request := .sending })
  | require {c : C} : (s.op c).request = .sending → s.hasRoom →
    Step s (.request c) ((s.queue c (secretRequiredEvent (s.op c).context.operationId
      (s.op c).context.correlationId (setup.requestId c) (s.op c).context.secretRef)).setOp c
        { s.op c with request := .receiving })
  | work {c : C} {event : TranslationEvent} {worker : WorkerPhase} :
    Emits (s.op c).worker event worker → (s.op c).channel.length < eventCapacity →
    Step s (.work c event)
      (s.setOp c { s.op c with worker, channel := (s.op c).channel ++ [event] })

/-! ## Inversion -/

variable {setup} {s s' : State C}

theorem submitStep_cases {k : C} {message : Message} (hk : setup.calls k = .submit message)
    (h : submitStep s k message = some s') : Step setup s (.host k) s' := by
  have hcall : setup.calls k ≠ .shutdown := by
    rw [hk]
    exact HostCall.noConfusion
  unfold submitStep at h
  cases hhost : s.host k with
  | called =>
    simp only [hhost] at h
    split at h <;> cases h <;> exact .advance hcall (by rw [hhost]; rfl) rfl
  | decoded envelope =>
    simp only [hhost] at h
    split at h
    · cases h
      exact .advance hcall (by rw [hhost]; rfl) rfl
    · split at h <;> cases h <;> exact .advance hcall (by rw [hhost]; rfl) rfl
  | checked envelope submission =>
    simp only [hhost] at h
    split at h
    · cases h
      exact .advance hcall (by rw [hhost]; rfl) rfl
    · rename_i hrunning
      split at h
      · cases h
        exact .advance hcall (by rw [hhost]; rfl) rfl
      · rename_i hfree
        have hactive : s.active = none := by simpa using hfree
        have hshutdown : s.shutdown = false := by simpa using hrunning
        split at h
        · rename_i hsecret
          cases h
          exact .unlock hhost hshutdown hactive hsecret
        · split at h <;> cases h
          · exact .openDirect hhost hshutdown hactive
          · exact .advance hcall (by rw [hhost]; rfl) rfl
  | unlocked envelope submission secretRef =>
    simp only [hhost] at h
    split at h <;> cases h
    · rename_i hok
      exact .spawn hhost hok
    · exact .advance hcall (by rw [hhost]; rfl) rfl
  | spawned cancellation =>
    simp only [hhost] at h
    split at h <;> cases h
    · exact .advance hcall (by rw [hhost]; rfl) rfl
    · rename_i hfree
      exact .openSecret hhost (by simpa using hfree)
  | _ =>
    simp only [hhost] at h
    cases h

theorem responseStep_cases {k : C} {message : Message}
    (hk : setup.calls k = .sendHostResponse message)
    (h : responseStep s k message = some s') : Step setup s (.host k) s' := by
  have hcall : setup.calls k ≠ .shutdown := by
    rw [hk]
    exact HostCall.noConfusion
  unfold responseStep at h
  cases hhost : s.host k with
  | called =>
    simp only [hhost] at h
    split at h <;> cases h <;> exact .advance hcall (by rw [hhost]; rfl) rfl
  | decoded envelope =>
    simp only [hhost] at h
    repeat' split at h
    all_goals cases h; exact .advance hcall (by rw [hhost]; rfl) rfl
  | matched envelope =>
    simp only [hhost] at h
    split at h
    · cases h
      exact .advance hcall (by rw [hhost]; rfl) rfl
    · rename_i hcheck
      split at h
      · cases h
        exact .advance hcall (by rw [hhost]; rfl) rfl
      · rename_i hfound
        split at h <;> cases h
        · rename_i hids
          exact .take hk hhost hcheck hfound hids.1 hids.2
        · exact .advance hcall (by rw [hhost]; rfl) rfl
  | answering lease resolution =>
    simp only [hhost] at h
    split at h <;> cases h
    · rename_i htask
      exact .answer hhost htask
    · rename_i hgone
      exact .refuse hhost (by simpa using hgone)
  | _ =>
    simp only [hhost] at h
    cases h

theorem hostStep_cases {k : C} (h : hostStep setup s k = some s') : Step setup s (.host k) s' := by
  unfold hostStep at h
  cases hk : setup.calls k with
  | submit message =>
    simp only [hk] at h
    exact submitStep_cases hk h
  | sendHostResponse message =>
    simp only [hk] at h
    exact responseStep_cases hk h
  | cancel =>
    simp only [hk] at h
    split at h <;> cases h
    · rename_i hhost
      split <;> exact .advance (by rw [hk]; exact HostCall.noConfusion) (by rw [hhost]; rfl) rfl
    · rename_i hhost
      exact .cancel hk hhost
  | poll =>
    simp only [hk] at h
    split at h <;> cases h
    · rename_i hhost
      split <;> exact .advance (by rw [hk]; exact HostCall.noConfusion) (by rw [hhost]; rfl) rfl
    · rename_i hhost
      exact .poll hk hhost
  | shutdown =>
    simp only [hk] at h
    split at h <;> cases h
    · rename_i hhost
      exact .flag hk hhost
    · rename_i hhost
      exact .shutdown hk hhost

theorem taskStep_cases {c : C} (h : taskStep s c = some s') : Step setup s (.task c) s' := by
  unfold taskStep at h
  simp only at h
  cases htask : (s.op c).task with
  | resolving cancellation =>
    simp only [htask] at h
    split at h <;> cases h
    · rename_i hcancelled
      exact .askCancelled (.inl htask) hcancelled
    · rename_i hrunning
      exact .ask htask hrunning
  | waiting cancellation =>
    simp only [htask] at h
    split at h
    · rename_i hcancelled
      cases h
      exact .askCancelled (.inr htask) hcancelled
    · rename_i hrunning
      obtain ⟨answer, hanswer, rfl⟩ := Option.map_eq_some_iff.mp h
      cases hshot : (s.op c).oneShot with
      | unused => simp [hshot] at hanswer
      | dropped =>
        simp only [hshot] at hanswer
        cases hanswer
        exact .refused htask hrunning (by rw [hshot]; exact OneShot.noConfusion)
      | answered resolution =>
        simp only [hshot] at hanswer
        cases hanswer
        have hused : (s.op c).oneShot ≠ .unused := by
          rw [hshot]
          exact OneShot.noConfusion
        cases resolution with
        | provided secret => exact .resolve htask hrunning hshot
        | unavailable => exact .refused htask hrunning hused
        | secureStorageUnavailable => exact .refused htask hrunning hused
  | resolved cancellation secret =>
    simp only [htask] at h
    split at h <;> cases h
    · rename_i hprovider
      exact .hand htask hprovider
    · exact .reject htask
  | handing cancellation operation =>
    simp only [htask] at h
    cases h
    exact .repoint htask
  | forwarding hostSecret operation =>
    simp only [htask] at h
    split at h <;> cases h
    · rename_i hchannel
      exact .receive htask hchannel
    · rename_i hchannel hworker
      exact .close htask hchannel hworker
  | sending hostSecret operation event =>
    simp only [htask] at h
    split at h <;> cases h
    rename_i hroom
    exact .forward htask hroom
  | failing cancellation event =>
    simp only [htask] at h
    split at h <;> cases h
    rename_i hroom
    exact .fail htask hroom
  | clearing cancellation =>
    simp only [htask] at h
    cases h
    exact .clear htask
  | releasing cancellation =>
    simp only [htask] at h
    cases h
    exact .release htask
  | draining =>
    simp only [htask] at h
    cases h
    exact .drain htask
  | idle =>
    simp only [htask] at h
    cases h
  | done =>
    simp only [htask] at h
    cases h

theorem requestStep_cases {c : C} (h : requestStep setup s c = some s') :
    Step setup s (.request c) s' := by
  unfold requestStep at h
  simp only at h
  cases hrequest : (s.op c).request with
  | receiving =>
    simp only [hrequest] at h
    split at h
    · rename_i hqueued
      split at h <;> cases h
      · rename_i hwaiting
        exact .takeLease hrequest hqueued hwaiting
      · rename_i hgone
        exact .skipLease hrequest hqueued (by simpa using hgone)
    · split at h <;> cases h
      rename_i hdropped
      exact .endRequests hrequest hdropped
  | inserting =>
    simp only [hrequest] at h
    cases h
    exact .insert hrequest
  | sending =>
    simp only [hrequest] at h
    split at h <;> cases h
    rename_i hroom
    exact .require hrequest hroom
  | idle =>
    simp only [hrequest] at h
    cases h
  | finished =>
    simp only [hrequest] at h
    cases h

theorem workStep_cases {c : C} {event : TranslationEvent} (h : workStep s c event = some s') :
    Step setup s (.work c event) s' := by
  unfold workStep at h
  simp only at h
  split at h
  · cases h
  · rename_i hroom
    have hlt := not_le.mp hroom
    split at h
    all_goals first | (split at h <;> cases h) | cases h
    all_goals
      rename_i hworker hsequence
      subst hsequence
    · exact .work (by rw [hworker]; exact .started _) hlt
    · exact .work (by rw [hworker]; exact .textDelta _ _) hlt
    all_goals exact .work (by rw [hworker]; exact .terminal _ rfl rfl) hlt

theorem step_cases {a : Action C} (h : step setup s a = some s') : Step setup s a s' := by
  cases a with
  | host k => exact hostStep_cases h
  | task c => exact taskStep_cases h
  | request c => exact requestStep_cases h
  | work c event => exact workStep_cases h

end Step

/-! ## One operation -/

section Moves

variable {C : Type}

/-- What a step makes of one operation, and the events of the operation that it queues. -/
inductive Moves (s : State C) (c : C) : Operation → List EventEnvelope → Prop where
  /-- Other operations move, or the lease is answered or dropped. -/
  | stay (oneShot : OneShot) : Moves s c { s.op c with oneShot } []
  | spawn {context : HostSecretTranslation} : (s.host c).isBefore →
    Moves s c { noOperation with context, request := .receiving } []
  | openDirect {context : HostSecretTranslation} : (s.host c).isBefore → s.shutdown = false →
    Moves s c { noOperation with
      context, task := .forwarding false s.nextToken, worker := .starting 0 } []
  | openSecret {cancellation : Token} : s.host c = .spawned cancellation →
    Moves s c { s.op c with task := .resolving cancellation } []
  | askCancelled {cancellation : Token} :
    (s.op c).task = .resolving cancellation ∨ (s.op c).task = .waiting cancellation →
    cancellation ∈ s.cancelled →
    Moves s c { s.op c with task := .failing cancellation (.cancelled 1) } []
  | ask {cancellation : Token} :
    (s.op c).task = .resolving cancellation → cancellation ∉ s.cancelled →
    Moves s c { s.op c with task := .waiting cancellation, leaseQueued := true } []
  | refused {cancellation : Token} {e : TranslationError} :
    (s.op c).task = .waiting cancellation → cancellation ∉ s.cancelled →
    Moves s c { s.op c with task := .failing cancellation (errorTerminal 1 e) } []
  | resolve {cancellation : Token} {secret : Str} :
    (s.op c).task = .waiting cancellation → cancellation ∉ s.cancelled →
    Moves s c { s.op c with task := .resolved cancellation secret } []
  | hand {cancellation : Token} {secret : Str} : (s.op c).task = .resolved cancellation secret →
    Moves s c { s.op c with
      task := .handing cancellation s.nextToken, worker := .starting 1 } []
  | reject {cancellation : Token} {secret : Str} : (s.op c).task = .resolved cancellation secret →
    Moves s c { s.op c with task := .failing cancellation (.failed 1 endpointError) } []
  | repoint {cancellation operation : Token} : (s.op c).task = .handing cancellation operation →
    Moves s c { s.op c with task := .forwarding true operation } []
  | receive {hostSecret : Bool} {operation : Token} {event : TranslationEvent}
    {channel : List TranslationEvent} :
    (s.op c).task = .forwarding hostSecret operation → (s.op c).channel = event :: channel →
    Moves s c { s.op c with task := .sending hostSecret operation event, channel } []
  | close {hostSecret : Bool} {operation : Token} :
    (s.op c).task = .forwarding hostSecret operation → (s.op c).channel = [] →
    (s.op c).worker = .finished →
    Moves s c { s.op c with task := if hostSecret then .draining else .done } []
  | forward {hostSecret : Bool} {operation : Token} {event : TranslationEvent} :
    (s.op c).task = .sending hostSecret operation event →
    Moves s c { s.op c with task := .forwarding hostSecret operation }
      [encodeEvent (s.op c).context.operationId (s.op c).context.correlationId event]
  | fail {cancellation : Token} {event : TranslationEvent} :
    (s.op c).task = .failing cancellation event →
    Moves s c { s.op c with task := .clearing cancellation }
      [encodeEvent (s.op c).context.operationId (s.op c).context.correlationId event]
  | clear {cancellation : Token} (oneShot : OneShot) : (s.op c).task = .clearing cancellation →
    Moves s c { s.op c with oneShot, task := .releasing cancellation } []
  | release {cancellation : Token} : (s.op c).task = .releasing cancellation →
    Moves s c { s.op c with task := .done } []
  | drain (oneShot : OneShot) : (s.op c).task = .draining →
    Moves s c { s.op c with oneShot, task := .done } []
  | takeLease : (s.op c).request = .receiving → (s.op c).leaseQueued → (s.op c).task.isWaiting →
    Moves s c { s.op c with leaseQueued := false, request := .inserting } []
  | skipLease : (s.op c).request = .receiving → (s.op c).task.isWaiting = false →
    Moves s c { s.op c with leaseQueued := false, request := .receiving } []
  | endRequests : (s.op c).request = .receiving → s.brokerDropped c →
    Moves s c { s.op c with request := .finished } []
  | insert (oneShot : OneShot) : (s.op c).request = .inserting →
    Moves s c { s.op c with oneShot, request := .sending } []
  | require {requestId : Str} : (s.op c).request = .sending →
    Moves s c { s.op c with request := .receiving }
      [secretRequiredEvent (s.op c).context.operationId (s.op c).context.correlationId requestId
        (s.op c).context.secretRef]
  | work {event : TranslationEvent} {worker : WorkerPhase} : Emits (s.op c).worker event worker →
    Moves s c { s.op c with worker, channel := (s.op c).channel ++ [event] } []

variable [DecidableEq C]

/-- The events that an operation has queued. -/
def State.log (s : State C) (c : C) : List EventEnvelope :=
  (s.events.filter (·.1 = c)).map Prod.snd

theorem moves_stay {s s' : State C} {c : C} (ho : s'.op c = s.op c) (he : s'.events = s.events) :
    ∃ events, Moves s c (s'.op c) events ∧ s'.log c = s.log c ++ events := by
  refine ⟨[], ?_, ?_⟩
  · rw [ho]
    exact .stay (s.op c).oneShot
  · unfold State.log
    rw [he, List.append_nil]

/-- A step of the operation `c'`, seen from the operation `c`. -/
theorem moves_update {s s' : State C} {c c' : C} {o : Operation} {op : C → Operation}
    {events : List EventEnvelope} (hm : Moves s c' o events) (ho : s'.op = Function.update op c' o)
    (hop : ∃ oneShot, op c = { s.op c with oneShot })
    (he : s'.events = s.events ++ events.map (c', ·)) :
    ∃ events, Moves s c (s'.op c) events ∧ s'.log c = s.log c ++ events := by
  unfold State.log
  rw [he, ho]
  by_cases hc : c = c'
  · subst hc
    refine ⟨events, ?_, ?_⟩
    · rw [Function.update_self]
      exact hm
    · simp [List.filter_map, Function.comp_def]
  · refine ⟨[], ?_, ?_⟩
    · rw [Function.update_of_ne hc]
      obtain ⟨oneShot, hop⟩ := hop
      rw [hop]
      exact .stay oneShot
    · simp [List.filter_map, Function.comp_def, Ne.symm hc]

/-- Every step moves every operation in one of these ways. -/
theorem step_moves [Boundary] {setup : Setup C} {s s' : State C} {a : Action C} (hs : Step setup s a s')
    (c : C) : ∃ events, Moves s c (s'.op c) events ∧ s'.log c = s.log c ++ events := by
  have hself : ∃ oneShot, s.op c = { s.op c with oneShot } := ⟨(s.op c).oneShot, rfl⟩
  cases hs with
  | advance => exact moves_stay rfl rfl
  | unlock => exact moves_stay rfl rfl
  | spawn hhost => 
    exact moves_update (.spawn (by rw [hhost]; rfl)) rfl hself (List.append_nil _).symm
  | openDirect hhost hrunning =>
    exact moves_update (.openDirect (by rw [hhost]; rfl) hrunning) rfl hself (List.append_nil _).symm
  | openSecret hhost => exact moves_update (.openSecret hhost) rfl hself (List.append_nil _).symm
  | cancel =>
    rw [State.cancelActive_eq]
    exact moves_stay rfl rfl
  | poll => exact moves_stay rfl rfl
  | flag => exact moves_stay rfl rfl
  | shutdown =>
    rw [State.cancelActive_eq]
    exact moves_stay rfl rfl
  | take => exact moves_stay rfl rfl
  | answer => exact moves_update (.stay _) rfl hself (List.append_nil _).symm
  | refuse => exact moves_stay rfl rfl
  | askCancelled ht hc => exact moves_update (.askCancelled ht hc) rfl hself (List.append_nil _).symm
  | ask ht hc => exact moves_update (.ask ht hc) rfl hself (List.append_nil _).symm
  | refused ht hc => exact moves_update (.refused ht hc) rfl hself (List.append_nil _).symm
  | resolve ht hc => exact moves_update (.resolve ht hc) rfl hself (List.append_nil _).symm
  | hand ht => exact moves_update (.hand ht) rfl hself (List.append_nil _).symm
  | reject ht => exact moves_update (.reject ht) rfl hself (List.append_nil _).symm
  | repoint ht => exact moves_update (.repoint ht) rfl hself (List.append_nil _).symm
  | receive ht hc => exact moves_update (.receive ht hc) rfl hself (List.append_nil _).symm
  | close ht hc hw => exact moves_update (.close ht hc hw) rfl hself (List.append_nil _).symm
  | forward ht => exact moves_update (.forward ht) rfl hself rfl
  | fail ht => exact moves_update (.fail ht) rfl hself rfl
  | @clear c' cancellation ht =>
    have hm : Moves s c' { s.clearPending.op c' with task := .releasing cancellation } [] := by
      obtain ⟨oneShot, ho⟩ := s.clearPending_op c'
      rw [ho]
      exact .clear oneShot ht
    exact moves_update hm rfl (s.clearPending_op c) (List.append_nil _).symm
  | release ht => exact moves_update (.release ht) rfl hself (List.append_nil _).symm
  | @drain c' ht =>
    have hm : Moves s c' { s.clearPending.op c' with task := .done } [] := by
      obtain ⟨oneShot, ho⟩ := s.clearPending_op c'
      rw [ho]
      exact .drain oneShot ht
    exact moves_update hm rfl (s.clearPending_op c) (List.append_nil _).symm
  | takeLease hr hq hw => exact moves_update (.takeLease hr hq hw) rfl hself (List.append_nil _).symm
  | skipLease hr _ hw => exact moves_update (.skipLease hr hw) rfl hself (List.append_nil _).symm
  | endRequests hr hb => exact moves_update (.endRequests hr hb) rfl hself (List.append_nil _).symm
  | @insert c' hr =>
    have hm : ∀ requestId request,
        Moves s c' { (s.insertPending requestId request).op c' with request := .sending } [] := by
      intro requestId request
      obtain ⟨oneShot, ho⟩ := s.insertPending_op c' requestId request
      rw [ho]
      exact .insert oneShot hr
    exact moves_update (hm _ _) rfl (s.insertPending_op c _ _) (List.append_nil _).symm
  | require hr => exact moves_update (.require hr) rfl hself rfl
  | work he => exact moves_update (.work he) rfl hself (List.append_nil _).symm

/-- A cancelled token stays cancelled. -/
theorem step_cancelled [Boundary] {setup : Setup C} {s s' : State C} {a : Action C} (hs : Step setup s a s') :
    s.cancelled ⊆ s'.cancelled := by
  cases hs with
  | cancel =>
    rw [State.cancelActive_eq]
    exact List.subset_append_right _ _
  | shutdown =>
    rw [State.cancelActive_eq]
    exact List.subset_append_right _ _
  | _ => exact fun _ h => h

end Moves

end LinguaMesh.Ffi
