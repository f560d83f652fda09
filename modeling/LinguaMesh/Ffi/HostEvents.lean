import LinguaMesh.Ffi.Binding
import LinguaMesh.Ffi.Events

/-!
# What the host reads of a translation

The worker of an operation sends its events into a channel, the task of the operation moves them
to the queue of the engine, and the host polls the queue and decodes what it gets. Beside
them stand the requests for a secret, and a terminal event that the task makes itself when
no translation begins.

Whatever the interleaving, the events of the translation that are in the queue, in the hand of the
task and in the channel are those that the worker sent, in order (`Conveyed`). So the text that the
host reads is the beginning of the text that was translated, and all of it when the host has read
that it is complete (`host_text`).
-/

namespace LinguaMesh.Ffi

open Runs

/-! ## Events on their way -/

/-- The events that the worker of an operation sends in a run. -/
def sentBy {C : Type} [DecidableEq C] (c : C) (actions : List (Action C)) : List TranslationEvent :=
  actions.filterMap fun
    | .work c' event => if c' = c then some event else none
    | _ => none

def EventEnvelope.isTranslated (event : EventEnvelope) : Bool := event.messageType != "secret_required"

/-- The events of the translation in the queue. -/
def translated (log : List EventEnvelope) : List EventEnvelope := log.filter EventEnvelope.isTranslated

def Operation.encoded (o : Operation) (events : List TranslationEvent) : List EventEnvelope :=
  events.map (encodeEvent o.context.operationId o.context.correlationId)

/-- The events of the translation in the queue, in the hand of the task and in the channel. -/
def Operation.pipe (o : Operation) (log : List EventEnvelope) : List EventEnvelope :=
  translated log ++ o.encoded (o.task.inHand ++ o.channel)

/-- A translation may begin. -/
def TaskPhase.isOpen : TaskPhase → Bool
  | .idle | .resolving _ | .waiting _ | .resolved _ _ => true
  | _ => false

/-- What a worker in this phase has sent. -/
def WorkerPhase.Sent : WorkerPhase → List TranslationEvent → Prop
  | .idle, sent | .starting _, sent => sent = []
  | .streaming _, sent => ∀ event ∈ sent, event.isTerminal = false
  | .finished, sent => ∃ front last, sent = front ++ [last] ∧ last.isTerminal = true ∧
      ∀ event ∈ front, event.isTerminal = false

/-- An event that the task makes itself. -/
def TranslationEvent.IsOwn : TranslationEvent → Prop
  | .cancelled _ | .failed _ _ => True
  | _ => False

/-- The invariant of an operation, of what it has queued and of what its worker has sent. -/
structure Conveyed (o : Operation) (log : List EventEnvelope) (sent : List TranslationEvent) : Prop where
  pipe : ∃ own, o.pipe log = o.encoded (own ++ sent) ∧ (∀ event ∈ own, event.IsOwn) ∧
    (own = [] ∨ o.worker = .idle ∧ o.task.isOpen = false)
  sent : o.worker.Sent sent
  fits : o.task.Fits o.worker
  idle : o.worker = .idle → o.channel = []
  unasked : o.task.isUnasked → log = [] ∧ o.leaseQueued = false ∧ o.request.isAsking = false
  asked : ∀ event ∈ log, event.isTranslated = false → ∃ requestId secretRef,
    event = secretRequiredEvent o.context.operationId o.context.correlationId requestId secretRef

theorem conveyed_noOperation : Conveyed noOperation [] [] where
  pipe := ⟨[], rfl, nofun, .inl rfl⟩
  sent := rfl
  fits := rfl
  idle _ := rfl
  unasked _ := ⟨rfl, rfl, rfl⟩
  asked := nofun

theorem encodeEvent_isTranslated (operationId correlationId : Str) (event : TranslationEvent) :
    (encodeEvent operationId correlationId event).isTranslated = true := by
  cases event <;> rfl

theorem translated_append (log events : List EventEnvelope) :
    translated (log ++ events) = translated log ++ translated events := List.filter_append ..

section Moves

variable {o o' : Operation} {log : List EventEnvelope} {sent : List TranslationEvent}

theorem Operation.encoded_append (o : Operation) (a b : List TranslationEvent) :
    o.encoded (a ++ b) = o.encoded a ++ o.encoded b := List.map_append

theorem Operation.encoded_congr (h : o'.context = o.context) (events : List TranslationEvent) :
    o'.encoded events = o.encoded events := by
  unfold Operation.encoded
  rw [h]

/-- Nothing is queued, and no event is made. -/
theorem Conveyed.along (h : Conveyed o log sent) (hcontext : o'.context = o.context) (hworker : o'.worker = o.worker)
    (hhand : o'.task.inHand ++ o'.channel = o.task.inHand ++ o.channel)
    (hopen : o.task.isOpen = false → o'.task.isOpen = false) (hfits : o'.task.Fits o.worker)
    (hidle : o.worker = .idle → o'.channel = [])
    (hunasked : o'.task.isUnasked → log = [] ∧ o'.leaseQueued = false ∧ o'.request.isAsking = false) :
    Conveyed o' log sent := by
  obtain ⟨own, hpipe, hown, hnone⟩ := h.pipe
  refine ⟨⟨own, ?_, hown, ?_⟩, hworker ▸ h.sent, hworker ▸ hfits, hworker ▸ hidle, hunasked, hcontext ▸ h.asked⟩
  · rw [Operation.encoded_congr hcontext, ← hpipe]
    unfold Operation.pipe
    rw [hhand, Operation.encoded_congr hcontext]
  · exact hnone.imp_right fun ⟨hw, ht⟩ => ⟨hworker.trans hw, hopen ht⟩

/-- The task ends the operation before there is a translation. -/
theorem Conveyed.failing (h : Conveyed o log sent) (hopen : o.task.isOpen = true) (hworker : o.worker = .idle)
    {cancellation : Token} {event : TranslationEvent} (hown : event.IsOwn) :
    Conveyed { o with task := .failing cancellation event } log sent := by
  have hhand : o.task.inHand = [] := by
    generalize o.task = task at hopen
    cases task <;> first | rfl | cases hopen
  obtain ⟨own, hpipe, -, hnone⟩ := h.pipe
  obtain rfl : own = [] := hnone.resolve_right fun ⟨_, ht⟩ => by rw [hopen] at ht; cases ht
  obtain rfl : sent = [] := by
    have hsent := h.sent
    rw [hworker] at hsent
    exact hsent
  refine ⟨⟨[event], ?_, fun e he => ?_, .inr ⟨hworker, rfl⟩⟩, h.sent, hworker, h.idle, nofun, h.asked⟩
  · unfold Operation.pipe at hpipe ⊢
    rw [hhand, h.idle hworker] at hpipe
    have hlog : translated log = [] := by simpa [Operation.encoded] using hpipe
    rw [hlog, h.idle hworker]
    rfl
  · rw [List.mem_singleton.mp he]
    exact hown

/-- The event in the hand of the task goes into the queue. -/
theorem Conveyed.queued (h : Conveyed o log sent) {event : TranslationEvent} (hhand : o.task.inHand = [event])
    {task : TaskPhase} (hhand' : task.inHand = []) (hopen : task.isOpen = false) (hfits : task.Fits o.worker)
    (hunasked : task.isUnasked = false) :
    Conveyed { o with task } (log ++ [encodeEvent o.context.operationId o.context.correlationId event]) sent := by
  obtain ⟨own, hpipe, hown, hnone⟩ := h.pipe
  have hone := encodeEvent_isTranslated o.context.operationId o.context.correlationId event
  refine ⟨⟨own, ?_, hown, hnone.imp_right fun ⟨hw, _⟩ => ⟨hw, hopen⟩⟩, h.sent, hfits, h.idle, fun hu => ?_,
    fun e he hasked => ?_⟩
  · refine Eq.trans ?_ hpipe
    unfold Operation.pipe translated Operation.encoded
    rw [hhand, List.filter_append, List.filter_singleton, hone]
    simp [hhand']
  · rw [hunasked] at hu
    cases hu
  · rcases List.mem_append.mp he with he | he
    · exact h.asked e he hasked
    · rw [List.mem_singleton.mp he, hone] at hasked
      cases hasked

theorem Emits.sends {worker worker' : WorkerPhase} {event : TranslationEvent} (he : Emits worker event worker')
    (h : worker.Sent sent) : worker'.Sent (sent ++ [event]) := by
  have hopen {event : TranslationEvent} (hlast : event.isTerminal = false) (hsent : ∀ e ∈ sent, e.isTerminal = false) :
      ∀ e ∈ sent ++ [event], e.isTerminal = false := by
    intro e hmem
    rcases List.mem_append.mp hmem with hmem | hmem
    · exact hsent e hmem
    · rw [List.mem_singleton.mp hmem]
      exact hlast
  cases he with
  | started n =>
    obtain rfl : sent = [] := h
    exact hopen rfl nofun
  | textDelta n text => exact hopen rfl h
  | terminal n hlast => exact ⟨sent, event, rfl, hlast, h⟩

theorem Conveyed.work (h : Conveyed o log sent) {event : TranslationEvent} {worker : WorkerPhase}
    (he : Emits o.worker event worker) :
    Conveyed { o with worker, channel := o.channel ++ [event] } log (sent ++ [event]) := by
  have hworker : o.worker ≠ .idle ∧ o.worker ≠ .finished ∧ worker ≠ .idle := by
    generalize o.worker = w at he
    cases he <;> exact ⟨nofun, nofun, nofun⟩
  obtain ⟨hidle, hfinished, hne⟩ := hworker
  have hphase : o.task.isUnasked = false ∧ o.task.Fits worker := by
    have hfits := h.fits
    generalize o.task = task at hfits
    cases task with
    | handing | forwarding | sending => exact ⟨rfl, hne⟩
    | draining | done => rcases hfits with hw | hw <;> contradiction
    | _ => exact absurd hfits hidle
  obtain ⟨own, hpipe, hown, hnone⟩ := h.pipe
  obtain rfl : own = [] := hnone.resolve_right fun ⟨hw, _⟩ => hidle hw
  have hgrows : Operation.pipe { o with worker, channel := o.channel ++ [event] } log =
      o.pipe log ++ o.encoded [event] := by
    unfold Operation.pipe Operation.encoded
    simp
  refine ⟨⟨[], ?_, nofun, .inl rfl⟩, he.sends h.sent, hphase.2, fun hw => absurd hw hne, fun hu => ?_, h.asked⟩
  · rw [hgrows, hpipe, ← Operation.encoded_append]
    rfl
  · rw [hphase.1] at hu
    cases hu

/-- The context of an operation is set before it has queued anything. -/
theorem Conveyed.opened (h : Conveyed o log sent) (ht : o.task = .idle) {context : HostSecretTranslation}
    {task : TaskPhase} {request : RequestPhase} {worker : WorkerPhase} (hworker : worker.Sent [])
    (hfits : task.Fits worker) (hhand : task.inHand = []) (hasking : request.isAsking = false) :
    Conveyed { noOperation with context, task, request, worker } log sent := by
  have hidle : o.worker = .idle := by
    have hfits := h.fits
    rw [ht] at hfits
    exact hfits
  obtain ⟨rfl, -⟩ := h.unasked (by rw [ht]; rfl)
  obtain rfl : sent = [] := by
    have hsent := h.sent
    rw [hidle] at hsent
    exact hsent
  refine ⟨⟨[], ?_, nofun, .inl rfl⟩, hworker, hfits, fun _ => rfl, fun _ => ⟨rfl, rfl, hasking⟩, nofun⟩
  unfold Operation.pipe
  rw [hhand]
  rfl

variable {C : Type} [DecidableEq C] {s : State C} {c : C} {events : List EventEnvelope}

/-- A move of an operation by which its worker sends nothing. -/
theorem conveyed_move (h : Conveyed (s.op c) (s.log c) sent) (hm : Moves s c o' events)
    (hbefore : (s.host c).isBefore → (s.op c).task = .idle)
    (hquiet : o'.channel.length ≤ (s.op c).channel.length) : Conveyed o' (s.log c ++ events) sent := by
  have hfits : ∀ {task : TaskPhase}, (s.op c).task = task → task.Fits (s.op c).worker := fun ht => ht ▸ h.fits
  cases hm with
  | stay =>
    rw [List.append_nil]
    exact h.along rfl rfl rfl id h.fits h.idle h.unasked
  | spawn hb =>
    rw [List.append_nil]
    exact h.opened (hbefore hb) rfl rfl rfl rfl
  | openDirect hb =>
    rw [List.append_nil]
    exact h.opened (hbefore hb) rfl nofun rfl rfl
  | openSecret hhost =>
    have ht := hbefore (by rw [hhost]; rfl)
    have hw : (s.op c).worker = .idle := hfits ht
    rw [List.append_nil]
    exact h.along rfl rfl (by rw [ht]; rfl) (by rw [ht]; nofun) hw h.idle fun _ => h.unasked (by rw [ht]; rfl)
  | askCancelled ht =>
    rw [List.append_nil]
    rcases ht with ht | ht <;> exact h.failing (by rw [ht]; rfl) (hfits ht) trivial
  | ask ht =>
    have hw : (s.op c).worker = .idle := hfits ht
    rw [List.append_nil]
    exact h.along rfl rfl (by rw [ht]; rfl) (by rw [ht]; nofun) hw h.idle nofun
  | refused ht =>
    rw [List.append_nil]
    refine h.failing (by rw [ht]; rfl) (hfits ht) ?_
    unfold errorTerminal
    split <;> trivial
  | resolve ht =>
    have hw : (s.op c).worker = .idle := hfits ht
    rw [List.append_nil]
    exact h.along rfl rfl (by rw [ht]; rfl) (by rw [ht]; nofun) hw h.idle nofun
  | hand ht =>
    have hw : (s.op c).worker = .idle := hfits ht
    obtain ⟨own, hpipe, -, hnone⟩ := h.pipe
    obtain rfl : own = [] := hnone.resolve_right fun ⟨_, hclosed⟩ => by rw [ht] at hclosed; cases hclosed
    have hsent := h.sent
    rw [hw] at hsent
    rw [List.append_nil]
    refine ⟨⟨[], ?_, nofun, .inl rfl⟩, hsent, nofun, nofun, nofun, h.asked⟩
    unfold Operation.pipe at hpipe ⊢
    rw [ht] at hpipe
    exact hpipe
  | reject ht =>
    rw [List.append_nil]
    exact h.failing (by rw [ht]; rfl) (hfits ht) trivial
  | repoint ht =>
    have hne : (s.op c).worker ≠ .idle := hfits ht
    rw [List.append_nil]
    exact h.along rfl rfl (by rw [ht]; rfl) (fun _ => rfl) hne h.idle nofun
  | receive ht hc =>
    have hne : (s.op c).worker ≠ .idle := hfits ht
    rw [List.append_nil]
    exact h.along rfl rfl (by rw [ht, hc]; rfl) (fun _ => rfl) hne (fun hw => absurd hw hne) nofun
  | @close hostSecret _ ht hc hw =>
    rw [List.append_nil]
    refine h.along rfl rfl ?_ (fun _ => ?_) ?_ h.idle ?_
    · rw [ht]
      cases hostSecret <;> rfl
    · cases hostSecret <;> rfl
    · cases hostSecret <;> exact .inr hw
    · cases hostSecret <;> nofun
  | forward ht =>
    have hne : (s.op c).worker ≠ .idle := hfits ht
    exact h.queued (by rw [ht]; rfl) rfl rfl hne rfl
  | fail ht =>
    have hw : (s.op c).worker = .idle := hfits ht
    exact h.queued (by rw [ht]; rfl) rfl rfl hw rfl
  | clear _ ht =>
    have hw : (s.op c).worker = .idle := hfits ht
    rw [List.append_nil]
    exact h.along rfl rfl (by rw [ht]; rfl) (fun _ => rfl) hw h.idle nofun
  | release ht =>
    have hw : (s.op c).worker = .idle := hfits ht
    rw [List.append_nil]
    exact h.along rfl rfl (by rw [ht]; rfl) (fun _ => rfl) (.inl hw) h.idle nofun
  | drain _ ht =>
    have hw : (s.op c).worker = .idle ∨ (s.op c).worker = .finished := hfits ht
    rw [List.append_nil]
    exact h.along rfl rfl (by rw [ht]; rfl) (fun _ => rfl) hw h.idle nofun
  | takeLease _ hq =>
    rw [List.append_nil]
    refine h.along rfl rfl rfl id h.fits h.idle fun hu => ?_
    rw [(h.unasked hu).2.1] at hq
    cases hq
  | skipLease =>
    rw [List.append_nil]
    exact h.along rfl rfl rfl id h.fits h.idle fun hu => ⟨(h.unasked hu).1, rfl, rfl⟩
  | endRequests =>
    rw [List.append_nil]
    exact h.along rfl rfl rfl id h.fits h.idle fun hu => ⟨(h.unasked hu).1, (h.unasked hu).2.1, rfl⟩
  | insert _ hr =>
    rw [List.append_nil]
    refine h.along rfl rfl rfl id h.fits h.idle fun hu => ?_
    have hasking := (h.unasked hu).2.2
    rw [hr] at hasking
    cases hasking
  | @require requestId hr =>
    refine ⟨?_, h.sent, h.fits, h.idle, fun hu => ?_, fun e he hasked => ?_⟩
    · obtain ⟨own, hpipe, hown, hnone⟩ := h.pipe
      refine ⟨own, ?_, hown, hnone⟩
      refine Eq.trans ?_ hpipe
      unfold Operation.pipe
      rw [translated_append]
      exact congrArg (· ++ _) (List.append_nil _)
    · have hasking := (h.unasked hu).2.2
      rw [hr] at hasking
      cases hasking
    · rcases List.mem_append.mp he with he | he
      · exact h.asked e he hasked
      · rw [List.mem_singleton.mp he]
        exact ⟨requestId, _, rfl⟩
  | work he =>
    rw [List.length_append] at hquiet
    exact absurd hquiet (by simp)

end Moves

/-! ## Runs -/

section Runs

variable [Boundary] {C : Type} [DecidableEq C] {setup : Setup C} {s s' : State C}

/-- Only the worker puts events into its channel. -/
theorem channel_step {a : Action C} {c : C} (hs : Step setup s a s') (ha : ∀ event, a ≠ .work c event) :
    (s'.op c).channel.length ≤ (s.op c).channel.length := by
  have hop : ∀ {t : State C} {c' : C} {o : Operation}, (t.op c).channel.length ≤ (s.op c).channel.length →
      (c = c' → o.channel.length ≤ (s.op c).channel.length) →
      ((t.setOp c' o).op c).channel.length ≤ (s.op c).channel.length := by
    intro t c' o ht hle
    rw [State.setOp_op]
    by_cases he : c = c'
    · subst he
      rw [Function.update_self]
      exact hle rfl
    · rw [Function.update_of_ne he]
      exact ht
  have hsame {t : State C} {c' : C} (h : ∃ oneShot, t.op c' = { s.op c' with oneShot }) :
      (t.op c').channel.length ≤ (s.op c').channel.length := by
    obtain ⟨oneShot, ho⟩ := h
    rw [ho]
  have hself : (s.op c).channel.length ≤ (s.op c).channel.length := Nat.le_refl _
  cases hs with
  | advance | unlock | poll | flag | take | refuse => exact hself
  | cancel | shutdown =>
    rw [State.cancelActive_eq]
    exact hself
  | spawn | openDirect => exact hop hself fun _ => Nat.zero_le _
  | @receive c' hostSecret operation event channel _ hc =>
    refine hop hself fun he => ?_
    subst he
    rw [hc]
    exact Nat.le_succ _
  | clear | drain => exact hop (hsame (s.clearPending_op _)) fun he => he ▸ hsame (s.clearPending_op _)
  | insert => exact hop (hsame (s.insertPending_op ..)) fun he => he ▸ hsame (s.insertPending_op ..)
  | @work c' event =>
    refine hop hself fun he => ?_
    subst he
    exact absurd rfl (ha event)
  | _ => exact hop hself fun he => he ▸ hself

/-- What a step adds to the events that the worker has sent. -/
theorem conveyed_step {a : Action C} {c : C} {sent : List TranslationEvent} (hslot : SlotHeld s)
    (h : Conveyed (s.op c) (s.log c) sent) (hs : Step setup s a s') :
    Conveyed (s'.op c) (s'.log c) (sent ++ sentBy c [a]) := by
  have hquiet (ha : ∀ event, a ≠ .work c event) : Conveyed (s'.op c) (s'.log c) (sent ++ []) := by
    obtain ⟨events, hm, hlog⟩ := step_moves hs c
    rw [hlog, List.append_nil]
    exact conveyed_move h hm hslot.idle_of_before (channel_step hs ha)
  by_cases ha : ∃ event, a = .work c event
  · obtain ⟨event, rfl⟩ := ha
    have hsent : sentBy c [.work c event] = [event] := by simp [sentBy]
    rw [hsent]
    cases hs with
    | @work _ _ worker he =>
      have hop : ((s.setOp c { s.op c with worker, channel := (s.op c).channel ++ [event] }).op c) =
          { s.op c with worker, channel := (s.op c).channel ++ [event] } := by
        rw [State.setOp_op, Function.update_self]
      rw [hop]
      exact h.work he
  · have hnone : sentBy c [a] = [] := by
      unfold sentBy
      cases a with
      | work c' event =>
        have hne : c' ≠ c := fun he => ha ⟨event, he ▸ rfl⟩
        simp [hne]
      | _ => rfl
    rw [hnone]
    exact hquiet fun event he => ha ⟨event, he⟩

omit [Boundary] in
theorem sentBy_append (c : C) (a b : List (Action C)) : sentBy c (a ++ b) = sentBy c a ++ sentBy c b :=
  List.filterMap_append

theorem conveyed_run {actions : List (Action C)} {sent : C → List TranslationEvent} (hslot : SlotHeld s)
    (h : ∀ c, Conveyed (s.op c) (s.log c) (sent c)) (hrun : run (step setup) s actions = some s') (c : C) :
    Conveyed (s'.op c) (s'.log c) (sent c ++ sentBy c actions) := by
  induction actions generalizing s sent with
  | nil =>
    cases hrun
    have hsent : sentBy c ([] : List (Action C)) = [] := rfl
    rw [hsent, List.append_nil]
    exact h c
  | cons a actions ih =>
    obtain ⟨t, ht, hrun⟩ := Option.bind_eq_some_iff.mp hrun
    have hstep := step_cases ht
    have hrest := ih (slotHeld_step hslot hstep) (fun c => conveyed_step hslot (h c) hstep) hrun
    rw [← List.singleton_append, sentBy_append, ← List.append_assoc]
    exact hrest

theorem conveyed_of_run {actions : List (Action C)} (hrun : run (step setup) (initial C) actions = some s) (c : C) :
    Conveyed (s.op c) (s.log c) (sentBy c actions) :=
  conveyed_run slotHeld_initial (fun _ => conveyed_noOperation) hrun c

end Runs

/-! ## What the host reads -/

def CoreEvent.delta (event : CoreEvent) : Option Str :=
  match event.detail with
  | .textDelta text => some text
  | _ => none

def TranslationEvent.delta : TranslationEvent → Option Str
  | textDelta _ text => some text
  | _ => none

/-- What an event of the engine is for the host. -/
def EventEnvelope.detail (event : EventEnvelope) : CoreEventDetail :=
  match event.payload with
  | .textDelta text => .textDelta text
  | .failure errorKind message => .failed errorKind message
  | .secretRequired requestId secretRef => .secretRequired requestId secretRef
  | .empty =>
    if event.messageType = "started" then .started
    else if event.messageType = "completed" then .completed
    else .cancelled

def EventEnvelope.coreEvent (event : EventEnvelope) : CoreEvent :=
  ⟨event.operationId, event.correlationId, event.sequence, event.detail⟩

/-- An event that an operation queues. -/
def EventEnvelope.Genuine (event : EventEnvelope) : Prop :=
  (∃ operationId correlationId made, event = encodeEvent operationId correlationId made) ∨
    ∃ operationId correlationId requestId secretRef,
      event = secretRequiredEvent operationId correlationId requestId secretRef

theorem encodeEvent_detail (operationId correlationId : Str) (event : TranslationEvent) :
    (encodeEvent operationId correlationId event).detail = event.detail := by
  cases event <;> rfl

theorem Conveyed.genuine {o : Operation} {log : List EventEnvelope} {sent : List TranslationEvent}
    (h : Conveyed o log sent) : ∀ event ∈ log, event.Genuine := by
  intro event hevent
  cases htranslated : event.isTranslated with
  | false =>
    obtain ⟨requestId, secretRef, rfl⟩ := h.asked event hevent htranslated
    exact .inr ⟨_, _, _, _, rfl⟩
  | true =>
    obtain ⟨own, hpipe, -⟩ := h.pipe
    have hmem : event ∈ o.pipe log := List.mem_append_left _ (List.mem_filter.mpr ⟨hevent, htranslated⟩)
    rw [hpipe] at hmem
    obtain ⟨made, -, rfl⟩ := List.mem_map.mp hmem
    exact .inl ⟨_, _, _, rfl⟩

/-- The deltas of a log are those of its translation. -/
theorem deltas_translated {log : List EventEnvelope} (hgenuine : ∀ event ∈ log, event.Genuine) :
    log.filterMap (·.coreEvent.delta) = (translated log).filterMap (·.coreEvent.delta) := by
  induction log with
  | nil => rfl
  | cons event log ih =>
    obtain ⟨hevent, hlog⟩ := List.forall_mem_cons.mp hgenuine
    unfold translated at ih ⊢
    rcases hevent with ⟨operationId, correlationId, made, rfl⟩ | ⟨operationId, correlationId, requestId, secretRef, rfl⟩
    · rw [List.filter_cons_of_pos (encodeEvent_isTranslated ..), List.filterMap_cons, List.filterMap_cons, ih hlog]
    · have hsecret : (secretRequiredEvent operationId correlationId requestId secretRef).isTranslated = false := rfl
      rw [List.filter_cons_of_neg (by rw [hsecret]; decide), List.filterMap_cons, ih hlog]
      rfl

theorem deltas_encoded (o : Operation) (events : List TranslationEvent) :
    (o.encoded events).filterMap (·.coreEvent.delta) = events.filterMap TranslationEvent.delta := by
  unfold Operation.encoded
  rw [List.filterMap_map]
  refine List.filterMap_congr fun event _ => ?_
  cases event <;> rfl

section Host

variable [Boundary] [Wire] {C : Type} [DecidableEq C] {setup : Setup C} {s : State C}
  {compatibility : CoreCompatibility} {o : Operation} {log front : List EventEnvelope} {sent : List TranslationEvent}

/-- What the binding makes of the events of an operation that the host has polled. -/
def received (compatibility : CoreCompatibility) (s : State C) (c : C) : List (Except HostError (Option CoreEvent)) :=
  ((s.events.take s.polled).filter (·.1 = c)).map fun event => pollDecodedEvent compatibility event.2.encode

omit [Boundary] in
theorem pollDecodedEvent_genuine (laws : Wire.Lawful) (hversion : compatibility.protocolVersion = protocolVersion)
    {event : EventEnvelope} (hgenuine : event.Genuine) (hfits : event.Fits) :
    pollDecodedEvent compatibility event.encode = .ok (some event.coreEvent) := by
  rcases hgenuine with ⟨operationId, correlationId, made, rfl⟩ | ⟨operationId, correlationId, requestId, secretRef, rfl⟩
  · rw [pollDecodedEvent_encode laws hversion hfits, ← encodeEvent_detail operationId correlationId]
    rfl
  · exact pollDecodedEvent_secretRequired laws hversion hfits

omit [Boundary] [Wire] in
/-- The text of what is in front of a queue is the beginning of the text that was sent. -/
theorem Conveyed.deltas (h : Conveyed o log sent) (hfront : front <+: log) :
    front.filterMap (·.coreEvent.delta) <+: sent.filterMap TranslationEvent.delta := by
  obtain ⟨own, hpipe, hown, -⟩ := h.pipe
  have hnone : own.filterMap TranslationEvent.delta = [] := by
    refine List.filterMap_eq_nil_iff.mpr fun event hevent => ?_
    have := hown event hevent
    cases event <;> first | rfl | exact this.elim
  have hpre : translated front <+: o.encoded (own ++ sent) := by
    rw [← hpipe]
    exact (hfront.filter _).trans (List.prefix_append _ _)
  have hdeltas := hpre.filterMap (·.coreEvent.delta)
  rw [deltas_encoded, List.filterMap_append, hnone, List.nil_append] at hdeltas
  rw [deltas_translated fun event hevent => h.genuine event (hfront.subset hevent)]
  exact hdeltas

omit [Boundary] [Wire] in
/-- Behind the event that completes the translation there is none. -/
theorem Conveyed.completed (h : Conveyed o log sent) (hfront : front <+: log) {event : EventEnvelope}
    (hevent : event ∈ front) (hcompleted : event.detail = .completed) :
    front.filterMap (·.coreEvent.delta) = sent.filterMap TranslationEvent.delta ∧ ∃ n, .completed n ∈ sent := by
  obtain ⟨own, hpipe, hown, hnone⟩ := h.pipe
  have hpre : translated front <+: o.encoded (own ++ sent) := by
    rw [← hpipe]
    exact (hfront.filter _).trans (List.prefix_append _ _)
  have hgenuine := h.genuine event (hfront.subset hevent)
  have htranslated : event ∈ translated front := by
    rcases hgenuine with ⟨operationId, correlationId, made, rfl⟩ | ⟨operationId, correlationId, requestId, secretRef, rfl⟩
    · exact List.mem_filter.mpr ⟨hevent, encodeEvent_isTranslated ..⟩
    · cases hcompleted
  obtain ⟨made, hmade, rfl⟩ := List.mem_map.mp (hpre.subset htranslated)
  rw [encodeEvent_detail] at hcompleted
  have hlast : made.isTerminal = true ∧ ¬ made.IsOwn ∧ ∃ n, made = .completed n := by
    cases made with
    | completed n => exact ⟨rfl, id, n, rfl⟩
    | _ => cases hcompleted
  obtain ⟨hterminal, hother, n, hn⟩ := hlast
  have hsent : made ∈ sent := (List.mem_append.mp hmade).resolve_left fun hmem => hother (hown made hmem)
  have hphase := h.sent
  obtain ⟨early, last, rfl, -, hearly⟩ : ∃ early last, sent = early ++ [last] ∧ last.isTerminal = true ∧
      ∀ event ∈ early, event.isTerminal = false := by
    cases hworker : o.worker with
    | idle | starting =>
      rw [hworker] at hphase
      rw [show sent = [] from hphase] at hsent
      cases hsent
    | streaming =>
      rw [hworker] at hphase
      rw [hphase made hsent] at hterminal
      cases hterminal
    | finished =>
      rw [hworker] at hphase
      exact hphase
  obtain rfl : own = [] := by
    refine hnone.resolve_right fun ⟨hidle, _⟩ => ?_
    rw [hidle] at hphase
    rw [show early ++ [last] = [] from hphase] at hsent
    cases hsent
  refine ⟨?_, n, hn ▸ hsent⟩
  rw [List.nil_append, Operation.encoded_append] at hpre
  have hwhole : translated front = o.encoded (early ++ [last]) := by
    rcases List.prefix_concat_iff.mp hpre with hall | hpart
    · rw [hall, Operation.encoded_append]
      rfl
    · -- all of these go on
      obtain ⟨other, hother, heq⟩ := List.mem_map.mp (hpart.subset htranslated)
      have hmark := congrArg EventEnvelope.mark heq
      rw [encodeEvent_mark, encodeEvent_mark] at hmark
      have hopen : other.isTerminal = made.isTerminal := congrArg Prod.snd hmark
      rw [hearly other hother, hterminal] at hopen
      cases hopen
  rw [deltas_translated fun event hevent => h.genuine event (hfront.subset hevent), hwhole, deltas_encoded]

/-- In any run, the host decodes each event of an operation that it polls, and none of them is unknown. The
text that it reads is the beginning of the text that the worker sent, and once it has read that the
operation is completed, all of it. -/
theorem host_text {actions : List (Action C)} (laws : Wire.Lawful)
    (hversion : compatibility.protocolVersion = protocolVersion)
    (hrun : run (step setup) (initial C) actions = some s) (hfits : ∀ event ∈ s.events, event.2.Fits) (c : C) :
    ∃ events : List CoreEvent, received compatibility s c = events.map (fun event => .ok (some event)) ∧
      (∀ event ∈ events, ∀ messageType payload, event.detail ≠ .unknown messageType payload) ∧
      events.filterMap CoreEvent.delta <+: (sentBy c actions).filterMap TranslationEvent.delta ∧
      ((∃ event ∈ events, event.detail = .completed) →
        events.filterMap CoreEvent.delta = (sentBy c actions).filterMap TranslationEvent.delta ∧
          ∃ n, .completed n ∈ sentBy c actions) := by
  have h := conveyed_of_run hrun c
  let polled : List (C × EventEnvelope) := (s.events.take s.polled).filter (·.1 = c)
  have hfront : polled.map Prod.snd <+: s.log c := ((List.take_prefix _ _).filter _).map _
  refine ⟨(polled.map Prod.snd).map EventEnvelope.coreEvent, ?_, ?_, ?_, ?_⟩
  · unfold received
    rw [List.map_map, List.map_map]
    refine List.map_congr_left fun event hevent => ?_
    have hmem : event ∈ s.events := List.mem_of_mem_take (List.mem_filter.mp hevent).1
    exact pollDecodedEvent_genuine laws hversion
      (h.genuine _ (hfront.subset (List.mem_map_of_mem (f := Prod.snd) hevent))) (hfits event hmem)
  · intro event hevent messageType payload
    obtain ⟨envelope, -, rfl⟩ := List.mem_map.mp hevent
    show envelope.detail ≠ _
    unfold EventEnvelope.detail
    cases envelope.payload with
    | empty =>
      dsimp only
      split
      · nofun
      · split <;> nofun
    | _ => nofun
  · rw [List.filterMap_map]
    exact h.deltas hfront
  · rintro ⟨event, hevent, hcompleted⟩
    obtain ⟨envelope, henvelope, rfl⟩ := List.mem_map.mp hevent
    rw [List.filterMap_map]
    exact h.completed hfront henvelope hcompleted

end Host

/-! ## A text that is read -/

/-- A submit with a secret, its answer, and four polls. -/
def readCalls : Setup (Fin 6) where
  calls
    | 0 => .submit [1, 65]
    | 1 => .sendHostResponse [2, 65, 65]
    | _ => .poll
  requestId _ := ['A']

/-- Two events are read before the translation is completed, and two after. -/
def readRun : List (Action (Fin 6)) :=
  List.replicate 5 (.host 0) ++ [.task 0] ++ List.replicate 3 (.request 0) ++
    [.host 2, .host 2] ++ List.replicate 4 (.host 1) ++ List.replicate 3 (.task 0) ++
    [.work 0 (.started 1), .work 0 (.textDelta 2 ['x'])] ++ List.replicate 2 (.task 0) ++
    [.host 3, .host 3, .work 0 (.completed 3)] ++ List.replicate 5 (.task 0) ++
    [.host 4, .host 4, .host 5, .host 5]

theorem host_text_readRun :
    letI := byteBoundary
    letI := PlainWire.plainWire
    ∃ (s : State (Fin 6)) (events : List CoreEvent), run (step readCalls) (initial _) readRun = some s ∧
      received ⟨1, 1⟩ s 0 = events.map (fun event => .ok (some event)) ∧
      events.map (·.detail) = [.secretRequired ['A'] ['r'], .started, .textDelta ['x'], .completed] ∧
      events.filterMap CoreEvent.delta = (sentBy 0 readRun).filterMap TranslationEvent.delta := by
  let _ : Boundary := byteBoundary
  let _ : Wire := PlainWire.plainWire
  have h : (run (step readCalls) (initial _) readRun).any (fun s =>
      (∀ event ∈ s.events, event.2.sequence < 2 ^ 64 ∧ event.2.encode.length ≤ maxWireBytes) ∧
        (received ⟨1, 1⟩ s 0).map (·.map (Option.map (·.detail))) =
          [.secretRequired ['A'] ['r'], .started, .textDelta ['x'], .completed].map (.ok ∘ some)) := by
    decide +kernel
  obtain ⟨s, hs, h⟩ := (Option.any_eq_true _ _).mp h
  obtain ⟨hfits, hdetails⟩ := of_decide_eq_true h
  have hversion : (⟨1, 1⟩ : CoreCompatibility).protocolVersion = protocolVersion := rfl
  obtain ⟨events, hreceived, -, -, hall⟩ := host_text PlainWire.lawful_plainWire hversion hs hfits 0
  have hread : events.map (·.detail) = [.secretRequired ['A'] ['r'], .started, .textDelta ['x'], .completed] := by
    rw [hreceived, List.map_map] at hdetails
    have hinj : Function.Injective (Except.ok (ε := HostError) ∘ some (α := CoreEventDetail)) :=
      fun _ _ he => Option.some.inj (Except.ok.inj he)
    refine hinj.list_map ?_
    rw [List.map_map]
    exact hdetails
  obtain ⟨event, hevent, hcompleted⟩ : ∃ event ∈ events, event.detail = .completed :=
    List.mem_map.mp (hread ▸ by decide)
  exact ⟨s, events, hs, hreceived, hread, (hall ⟨event, hevent, hcompleted⟩).1⟩

end LinguaMesh.Ffi
