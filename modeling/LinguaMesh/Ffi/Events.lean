import LinguaMesh.Ffi.Slot

/-!
# The events of one operation

Two tasks queue the events of an operation that needs a secret: the request task
numbers its event 0, the translation goes on from 1. The request task takes its
time between the lease and the queue, and when the resolution of the secret ends
in between, the terminal event comes first (`events_reordered`). In a run where no
resolution ends there, the events of every operation are numbered upwards and
end with their only terminal event (`events_ordered`).

`Numbered` is about any stream whose events carry a number and a mark of the end.
-/

namespace LinguaMesh.Ffi

open Runs

/-! ## Numbered streams -/

/-- The number of an event, and whether it is the last of its stream. -/
abbrev Mark := Nat × Bool

/-- A stream in order. While it is open, `next` is a number that none of it has reached. -/
structure Numbered (next : Option Nat) (stream : List Mark) : Prop where
  ordered : stream.Pairwise fun a b => a.1 < b.1 ∧ a.2 = false
  bounded : ∀ n, next = some n → ∀ m ∈ stream, m.1 < n ∧ m.2 = false
  closed : next = none → ∃ m ∈ stream, m.2 = true

namespace Numbered

variable {stream : List Mark} {n m : Nat}

theorem nil : Numbered (some n) [] := ⟨.nil, nofun, nofun⟩

theorem append_ordered (h : Numbered (some n) stream) (hm : n ≤ m) (last : Bool) :
    (stream ++ [(m, last)]).Pairwise fun a b => a.1 < b.1 ∧ a.2 = false := by
  rw [List.pairwise_append]
  refine ⟨h.ordered, List.pairwise_singleton .., fun a ha b hb => ?_⟩
  obtain ⟨hlt, hopen⟩ := h.bounded n rfl a ha
  rw [List.mem_singleton] at hb
  subst hb
  exact ⟨by show a.1 < m; omega, hopen⟩

theorem push (h : Numbered (some n) stream) :
    Numbered (some (n + 1)) (stream ++ [(n, false)]) := by
  refine ⟨h.append_ordered (Nat.le_refl n) false, fun next hnext a ha => ?_, nofun⟩
  cases hnext
  rcases List.mem_append.mp ha with ha | ha
  · obtain ⟨hlt, hopen⟩ := h.bounded n rfl a ha
    exact ⟨by omega, hopen⟩
  · rw [List.mem_singleton] at ha
    subst ha
    exact ⟨Nat.lt_succ_self n, rfl⟩

theorem close (h : Numbered (some n) stream) (hm : n ≤ m) :
    Numbered none (stream ++ [(m, true)]) := by
  refine ⟨h.append_ordered hm true, nofun, fun _ => ⟨(m, true), ?_, rfl⟩⟩
  exact List.mem_append_right _ (List.mem_singleton_self _)

/-- A closed stream has one mark of the end. -/
theorem count (h : Numbered none stream) : stream.countP (·.2) = 1 := by
  obtain ⟨a, ha, hlast⟩ := h.closed rfl
  have hordered := h.ordered
  clear h
  induction stream with
  | nil => cases ha
  | cons b stream ih =>
    obtain ⟨hb, hrest⟩ := List.pairwise_cons.mp hordered
    rcases List.mem_cons.mp ha with rfl | ha
    · -- nothing follows the end
      cases stream with
      | nil => simp [hlast]
      | cons c stream =>
        have := (hb c (List.mem_cons_self ..)).2
        rw [hlast] at this
        cases this
    · rw [List.countP_cons, ih ha hrest, (hb a ha).2]
      rfl

end Numbered

/-! ## The stream of an operation -/

def EventEnvelope.isTerminal (event : EventEnvelope) : Bool :=
  event.messageType ∈ ["completed", "cancelled", "failed"]

def EventEnvelope.mark (event : EventEnvelope) : Mark := (event.sequence, event.isTerminal)

def TranslationEvent.mark (event : TranslationEvent) : Mark := (event.sequence, event.isTerminal)

theorem encodeEvent_mark (operationId correlationId : Str) (event : TranslationEvent) :
    (encodeEvent operationId correlationId event).mark = event.mark := by
  cases event <;> rfl

/-- The event that the task holds. -/
def TaskPhase.inHand : TaskPhase → List TranslationEvent
  | .sending _ _ event | .failing _ event => [event]
  | _ => []

/-- What the operation has queued, and what is on the way to the queue. -/
def Operation.stream (o : Operation) (log : List EventEnvelope) : List Mark :=
  log.map EventEnvelope.mark ++ (o.task.inHand ++ o.channel).map TranslationEvent.mark

/-- The number of the event that ends a task without a translation, until there is one. -/
def TaskPhase.next : TaskPhase → Option Nat
  | .idle | .resolving _ | .waiting _ | .resolved _ _ => some 1
  | _ => none

/-- The number of the next event of the translation, until the terminal event is made. -/
def Operation.next (o : Operation) : Option Nat :=
  match o.worker with
  | .starting n | .streaming n => some n
  | .finished => none
  | .idle => o.task.next

/-- The slot was released. -/
def TaskPhase.hasEnded : TaskPhase → Bool
  | .draining | .done => true
  | _ => false

/-- The request task has taken the lease, and `secret_required` is not in the queue yet. -/
def RequestPhase.isAsking : RequestPhase → Bool
  | .inserting | .sending => true
  | _ => false

/-- How far the worker is for a task of this phase. -/
def TaskPhase.Fits : TaskPhase → WorkerPhase → Prop
  | .handing _ _, worker | .forwarding _ _, worker | .sending _ _ _, worker => worker ≠ .idle
  | .draining, worker | .done, worker => worker = .idle ∨ worker = .finished
  | _, worker => worker = .idle

/-- The invariant of an operation and of what it has queued. -/
structure Ordered (o : Operation) (log : List EventEnvelope) : Prop where
  numbered : Numbered o.next (o.stream log)
  fits : o.task.Fits o.worker
  idle : o.worker = .idle → o.channel = []
  emptied : o.task.hasEnded → o.channel = []
  unasked : o.task.isUnasked → log = [] ∧ o.leaseQueued = false
  queued : o.leaseQueued → o.task.isWaiting → log = []
  asking : o.request.isAsking → o.task.isWaiting ∧ o.leaseQueued = false ∧ log = []

theorem ordered_noOperation : Ordered noOperation [] where
  numbered := .nil
  fits := rfl
  idle _ := rfl
  emptied := nofun
  unasked _ := ⟨rfl, rfl⟩
  queued := nofun
  asking := nofun

section Moves

variable {o o' : Operation} {log log' : List EventEnvelope}

/-- Once the slot is released all events are in the queue, and the terminal one is among them. -/
theorem Ordered.ended (h : Ordered o log) (ho : o.task.hasEnded) :
    log.countP (·.isTerminal) = 1 := by
  have hhand : o.task.inHand = [] ∧ o.task.next = none ∧ (o.worker = .idle ∨ o.worker = .finished) := by
    have hfits := h.fits
    generalize o.task = task at ho hfits ⊢
    cases task <;> first | exact ⟨rfl, rfl, hfits⟩ | cases ho
  obtain ⟨hhand, htask, hw⟩ := hhand
  have hnext : o.next = none := by
    unfold Operation.next
    rcases hw with hw | hw <;> rw [hw]
    exact htask
  have hstream : o.stream log = log.map EventEnvelope.mark := by
    unfold Operation.stream
    rw [h.emptied ho, hhand]
    exact List.append_nil _
  have hcount := (hnext ▸ hstream ▸ h.numbered).count
  rw [List.countP_map] at hcount
  exact hcount

theorem next_of_worker (hw : o'.worker = o.worker) (hne : o.worker ≠ .idle) : o'.next = o.next := by
  unfold Operation.next
  rw [hw]
  cases h : o.worker with
  | idle => exact absurd h hne
  | _ => rfl

theorem next_of_task (hw : o'.worker = o.worker) (ht : o'.task.next = o.task.next) :
    o'.next = o.next := by
  unfold Operation.next
  rw [hw, ht]

/-- Nothing is made and nothing is queued. -/
theorem Ordered.numbered_of (h : Ordered o log)
    (hs : o'.task.inHand ++ o'.channel = o.task.inHand ++ o.channel) (hn : o'.next = o.next) :
    Numbered o'.next (o'.stream log) := by
  unfold Operation.stream
  rw [hs, hn]
  exact h.numbered

/-- The event in the hand of the task goes into the queue. -/
theorem Ordered.numbered_sent (h : Ordered o log) {operationId correlationId : Str}
    {event : TranslationEvent} (ho : o.task.inHand = [event]) (ho' : o'.task.inHand = [])
    (hc : o'.channel = o.channel) (hn : o'.next = o.next) :
    Numbered o'.next (o'.stream (log ++ [encodeEvent operationId correlationId event])) := by
  have hstream : o'.stream (log ++ [encodeEvent operationId correlationId event]) = o.stream log := by
    unfold Operation.stream
    rw [ho, ho', hc, List.map_append, List.append_assoc, List.map_singleton, encodeEvent_mark]
    rfl
  rw [hstream, hn]
  exact h.numbered

theorem Ordered.not_asking (h : Ordered o log) (ht : o.task.isWaiting = false) :
    o.request.isAsking = false := by
  by_contra ha
  have := (h.asking (by simpa using ha)).1
  rw [ht] at this
  cases this

/-- The task no longer waits, and the request task does not ask. -/
theorem Ordered.later (hphase : o'.task.isUnasked = false ∧ o'.task.isWaiting = false)
    (hasking : o'.request.isAsking = false) (hnumbered : Numbered o'.next (o'.stream log'))
    (hfits : o'.task.Fits o'.worker) (hidle : o'.worker = .idle → o'.channel = [])
    (hemptied : o'.task.hasEnded → o'.channel = []) : Ordered o' log' where
  numbered := hnumbered
  fits := hfits
  idle := hidle
  emptied := hemptied
  unasked h := by
    rw [hphase.1] at h
    cases h
  queued _ h := by
    rw [hphase.2] at h
    cases h
  asking h := by
    rw [hasking] at h
    cases h

/-- The task fails before there is a translation. -/
theorem Ordered.failing (h : Ordered o log) (hw : o.worker = .idle) (hn : o.task.next = some 1)
    (hhand : o.task.inHand = []) (hasking : o.request.isAsking = false) {cancellation : Token}
    {event : TranslationEvent} (hmark : event.mark = (1, true)) :
    Ordered { o with task := .failing cancellation event } log := by
  have hchannel := h.idle hw
  have hnext : o.next = some 1 := by
    unfold Operation.next
    rw [hw]
    exact hn
  refine .later ⟨rfl, rfl⟩ hasking ?_ hw (fun _ => hchannel) nofun
  have hnumbered := (hnext ▸ h.numbered).close (m := 1) (Nat.le_refl 1)
  show Numbered (Operation.next _) (Operation.stream _ _)
  unfold Operation.next Operation.stream at *
  rw [hhand, hchannel] at hnumbered
  simp only [hw, TaskPhase.inHand, hchannel]
  rw [List.append_nil, List.map_nil, List.append_nil] at hnumbered
  rw [List.append_nil, List.map_singleton, hmark]
  exact hnumbered

/-- The worker runs only while the task is about to forward, or forwards. -/
theorem Ordered.busy (h : Ordered o log) (hidle : o.worker ≠ .idle) (hfinished : o.worker ≠ .finished) :
    o.task.isUnasked = false ∧ o.task.isWaiting = false ∧ o.task.hasEnded = false ∧
      ∀ worker, worker ≠ .idle → o.task.Fits worker := by
  have hfits := h.fits
  generalize o.task = task at hfits
  cases task with
  | handing | forwarding | sending => exact ⟨rfl, rfl, rfl, fun _ hw => hw⟩
  | draining | done => rcases hfits with hw | hw <;> contradiction
  | _ => exact absurd hfits hidle

theorem Ordered.work (h : Ordered o log) {event : TranslationEvent} {worker : WorkerPhase}
    (he : Emits o.worker event worker) :
    Ordered { o with worker, channel := o.channel ++ [event] } log := by
  have hworker : o.worker ≠ .idle ∧ o.worker ≠ .finished ∧ worker ≠ .idle := by
    generalize o.worker = w at he
    cases he <;> exact ⟨nofun, nofun, nofun⟩
  obtain ⟨hidle, hfinished, hne⟩ := hworker
  obtain ⟨hunasked, hwaiting, hended, hfits⟩ := h.busy hidle hfinished
  refine .later ⟨hunasked, hwaiting⟩ (h.not_asking hwaiting) ?_ (hfits worker hne)
    (fun hw => absurd hw hne) (fun ht => by rw [hended] at ht; cases ht)
  have hstream : Operation.stream { o with worker, channel := o.channel ++ [event] } log =
      o.stream log ++ [event.mark] := by
    simp [Operation.stream]
  rw [hstream]
  have hnumbered := h.numbered
  unfold Operation.next at hnumbered ⊢
  generalize o.worker = w at he hnumbered
  cases he with
  | started n => exact hnumbered.push
  | textDelta n text => exact hnumbered.push
  | terminal n hlast hn =>
    unfold TranslationEvent.mark
    rw [hlast, hn]
    exact hnumbered.close (Nat.le_refl n)

variable {C : Type} [DecidableEq C] {s : State C} {c : C} {events : List EventEnvelope}

theorem errorTerminal_mark (n : Nat) (e : TranslationError) : (errorTerminal n e).mark = (n, true) := by
  unfold errorTerminal
  split <;> rfl

/-- A move of a task that no longer waits, which makes no event. -/
theorem Ordered.along (h : Ordered o log) (hphase : o'.task.isUnasked = false ∧ o'.task.isWaiting = false)
    (hasking : o.request.isAsking = false) (hrequest : o'.request = o.request)
    (hw : o'.worker = o.worker) (hs : o'.task.inHand ++ o'.channel = o.task.inHand ++ o.channel)
    (hn : o'.worker ≠ .idle ∨ o'.task.next = o.task.next) (hfits : o'.task.Fits o'.worker)
    (hidle : o'.worker = .idle → o'.channel = []) (hemptied : o'.task.hasEnded → o'.channel = []) :
    Ordered o' log := by
  apply Ordered.later hphase (hrequest ▸ hasking) _ hfits hidle hemptied
  rcases hn with hne | hn
  · exact h.numbered_of hs (next_of_worker hw (hw ▸ hne))
  · exact h.numbered_of hs (next_of_task hw hn)

/-- A move keeps the order, unless it ends the resolution while the secret is being asked for. -/
theorem ordered_move (h : Ordered (s.op c) (s.log c)) (hm : Moves s c o' events)
    (hbefore : (s.host c).isBefore → (s.op c).task = .idle)
    (hok : (s.op c).task.isWaiting → o'.task.isWaiting = false → (s.op c).request.isAsking = false) :
    Ordered o' (s.log c ++ events) := by
  have hfits : ∀ {task : TaskPhase}, (s.op c).task = task → task.Fits (s.op c).worker :=
    fun ht => ht ▸ h.fits
  have hquiet : ∀ {task : TaskPhase}, (s.op c).task = task → task.isWaiting = false →
      (s.op c).request.isAsking = false := fun ht hw => h.not_asking (ht ▸ hw)
  cases hm with
  | stay =>
    rw [List.append_nil]
    exact ⟨h.numbered, h.fits, h.idle, h.emptied, h.unasked, h.queued, h.asking⟩
  | spawn hb =>
    rw [(h.unasked (by rw [hbefore hb]; rfl)).1]
    exact ⟨.nil, rfl, fun _ => rfl, nofun, fun _ => ⟨rfl, rfl⟩, nofun, nofun⟩
  | openDirect hb =>
    rw [(h.unasked (by rw [hbefore hb]; rfl)).1]
    exact ⟨.nil, nofun, fun _ => rfl, nofun, nofun, nofun, nofun⟩
  | openSecret hhost =>
    have ht := hbefore (by rw [hhost]; rfl)
    have hw : (s.op c).worker = .idle := hfits ht
    rw [List.append_nil]
    refine ⟨?_, hw, h.idle, nofun, fun _ => h.unasked (by rw [ht]; rfl), nofun, fun ha => ?_⟩
    · exact h.numbered_of (by rw [ht]; rfl) (next_of_task rfl (by rw [ht]; rfl))
    · rw [hquiet ht rfl] at ha
      cases ha
  | askCancelled ht =>
    rw [List.append_nil]
    rcases ht with ht | ht
    · exact h.failing (hfits ht) (by rw [ht]; rfl) (by rw [ht]; rfl) (hquiet ht rfl) rfl
    · exact h.failing (hfits ht) (by rw [ht]; rfl) (by rw [ht]; rfl) (hok (by rw [ht]; rfl) rfl) rfl
  | ask ht =>
    obtain ⟨hlog, -⟩ := h.unasked (by rw [ht]; rfl)
    have hw : (s.op c).worker = .idle := hfits ht
    rw [List.append_nil]
    refine ⟨?_, hw, h.idle, nofun, nofun, fun _ _ => hlog, fun ha => ?_⟩
    · exact h.numbered_of (by rw [ht]; rfl) (next_of_task rfl (by rw [ht]; rfl))
    · rw [hquiet ht rfl] at ha
      cases ha
  | refused ht =>
    rw [List.append_nil]
    exact h.failing (hfits ht) (by rw [ht]; rfl) (by rw [ht]; rfl) (hok (by rw [ht]; rfl) rfl)
      (errorTerminal_mark 1 _)
  | resolve ht =>
    have hw : (s.op c).worker = .idle := hfits ht
    rw [List.append_nil]
    exact h.along ⟨rfl, rfl⟩ (hok (by rw [ht]; rfl) rfl) rfl rfl (by rw [ht]; rfl)
      (.inr (by rw [ht]; rfl)) hw h.idle nofun
  | hand ht =>
    rw [List.append_nil]
    have hw : (s.op c).worker = .idle := hfits ht
    have hnext : (s.op c).next = some 1 := by
      unfold Operation.next
      rw [hw, ht]
      rfl
    refine .later ⟨rfl, rfl⟩ (hquiet ht rfl) ?_ nofun nofun nofun
    exact h.numbered_of (by rw [ht]; rfl) hnext.symm
  | reject ht =>
    rw [List.append_nil]
    exact h.failing (hfits ht) (by rw [ht]; rfl) (by rw [ht]; rfl) (hquiet ht rfl) rfl
  | repoint ht =>
    have hne : (s.op c).worker ≠ .idle := hfits ht
    rw [List.append_nil]
    exact h.along ⟨rfl, rfl⟩ (hquiet ht rfl) rfl rfl (by rw [ht]; rfl) (.inl hne) hne
      h.idle nofun
  | receive ht hc =>
    have hne : (s.op c).worker ≠ .idle := hfits ht
    rw [List.append_nil]
    exact h.along ⟨rfl, rfl⟩ (hquiet ht rfl) rfl rfl (by rw [ht, hc]; rfl) (.inl hne) hne
      (fun hw => absurd hw hne) nofun
  | @close hostSecret _ ht hc hw =>
    rw [List.append_nil]
    refine h.along ?_ (hquiet ht rfl) rfl rfl ?_ (.inl (hfits ht)) ?_ h.idle (fun _ => hc)
    · cases hostSecret <;> exact ⟨rfl, rfl⟩
    · rw [ht]
      cases hostSecret <;> rfl
    · cases hostSecret <;> exact .inr hw
  | forward ht =>
    have hne : (s.op c).worker ≠ .idle := hfits ht
    refine .later ⟨rfl, rfl⟩ (hquiet ht rfl) ?_ hne h.idle nofun
    exact h.numbered_sent (by rw [ht]; rfl) rfl rfl (next_of_worker rfl hne)
  | fail ht =>
    have hw : (s.op c).worker = .idle := hfits ht
    refine .later ⟨rfl, rfl⟩ (hquiet ht rfl) ?_ hw h.idle nofun
    exact h.numbered_sent (by rw [ht]; rfl) rfl rfl (next_of_task rfl (by rw [ht]; rfl))
  | clear _ ht =>
    have hw : (s.op c).worker = .idle := hfits ht
    rw [List.append_nil]
    exact h.along ⟨rfl, rfl⟩ (hquiet ht rfl) rfl rfl (by rw [ht]; rfl) (.inr (by rw [ht]; rfl))
      hw h.idle nofun
  | release ht =>
    have hw : (s.op c).worker = .idle := hfits ht
    rw [List.append_nil]
    exact h.along ⟨rfl, rfl⟩ (hquiet ht rfl) rfl rfl (by rw [ht]; rfl) (.inr (by rw [ht]; rfl))
      (.inl hw) h.idle fun _ => h.idle hw
  | drain _ ht =>
    have hw : (s.op c).worker = .idle ∨ (s.op c).worker = .finished := hfits ht
    rw [List.append_nil]
    exact h.along ⟨rfl, rfl⟩ (hquiet ht rfl) rfl rfl (by rw [ht]; rfl) (.inr (by rw [ht]; rfl))
      hw h.idle fun _ => h.emptied (by rw [ht]; rfl)
  | takeLease _ hq hw =>
    rw [List.append_nil]
    exact ⟨h.numbered, h.fits, h.idle, h.emptied, fun hu => ⟨(h.unasked hu).1, rfl⟩, nofun,
      fun _ => ⟨hw, rfl, h.queued hq hw⟩⟩
  | skipLease =>
    rw [List.append_nil]
    exact ⟨h.numbered, h.fits, h.idle, h.emptied, fun hu => ⟨(h.unasked hu).1, rfl⟩, nofun, nofun⟩
  | endRequests =>
    rw [List.append_nil]
    exact ⟨h.numbered, h.fits, h.idle, h.emptied, h.unasked, h.queued, nofun⟩
  | insert _ hr =>
    rw [List.append_nil]
    exact ⟨h.numbered, h.fits, h.idle, h.emptied, h.unasked, h.queued,
      fun _ => h.asking (by rw [hr]; rfl)⟩
  | require hr =>
    obtain ⟨hwaiting, hqueued, hlog⟩ := h.asking (by rw [hr]; rfl)
    cases ht : (s.op c).task with
    | waiting cancellation =>
      have hw : (s.op c).worker = .idle := hfits ht
      refine ⟨?_, h.fits, h.idle, h.emptied, fun hu => ?_, fun hq => ?_, nofun⟩
      · unfold Operation.next Operation.stream
        simp only [hw, ht, hlog, h.idle hw]
        exact (Numbered.nil (n := 0)).push
      · rw [ht] at hu
        cases hu
      · rw [hqueued] at hq
        cases hq
    | _ =>
      rw [ht] at hwaiting
      cases hwaiting
  | work he =>
    rw [List.append_nil]
    exact h.work he

end Moves

/-! ## Runs -/

/-- A resolution does not end while the request task has the lease and has not asked yet. -/
def Announced {C : Type} (s : State C) : Action C → Prop
  | .task c => (s.op c).task.isWaiting → (s.op c).request.isAsking = false
  | _ => True

section Runs

variable [Boundary] {C : Type} [DecidableEq C] {setup : Setup C} {s s' : State C}

/-- Only its own steps move a task, but for the submit that opens its operation. -/
theorem task_step_cases {a : Action C} {c : C} (hs : Step setup s a s') (ha : a ≠ .task c) :
    (s'.op c).task = (s.op c).task ∨
      (s.host c).isBefore ∧ ((s'.op c).task = .idle ∨ s'.host c = .returned .ok) := by
  have hop : ∀ {t : State C} {c' : C} {o : Operation}, (t.op c).task = (s.op c).task →
      c ≠ c' ∨ o.task = (s.op c').task → ((t.setOp c' o).op c).task = (s.op c).task := by
    intro t c' o ht hne
    rw [State.setOp_op]
    by_cases he : c = c'
    · subst he
      rw [Function.update_self]
      exact hne.resolve_left fun h => h rfl
    · rw [Function.update_of_ne he]
      exact ht
  cases hs with
  | advance | unlock | poll | flag | take | refuse => exact .inl rfl
  | cancel | shutdown =>
    rw [State.cancelActive_eq]
    exact .inl rfl
  | @spawn k _ _ _ hk =>
    by_cases he : c = k
    · subst he
      refine .inr ⟨by rw [hk]; rfl, .inl ?_⟩
      simp only [State.setHost_op, State.setOp_op, Function.update_self]
      rfl
    · exact .inl (hop rfl (.inl he))
  | @openDirect k _ _ hk =>
    by_cases he : c = k
    · subst he
      exact .inr ⟨by rw [hk]; rfl, .inr (Function.update_self ..)⟩
    · exact .inl (hop rfl (.inl he))
  | @openSecret k _ hk =>
    by_cases he : c = k
    · subst he
      exact .inr ⟨by rw [hk]; rfl, .inr (Function.update_self ..)⟩
    · exact .inl (hop rfl (.inl he))
  | answer | takeLease | skipLease | endRequests | require | work => exact .inl (hop rfl (.inr rfl))
  | insert => exact .inl (hop (s.insertPending_task ..) (.inr (s.insertPending_task ..)))
  | clear | drain => exact .inl (hop (s.clearPending_task ..) (.inl fun he => ha (he ▸ rfl)))
  | _ => exact .inl (hop rfl (.inl fun he => ha (he ▸ rfl)))

/-- Only its own steps move a task that has begun. -/
theorem task_step {a : Action C} {c : C} (hs : Step setup s a s') (ha : a ≠ .task c)
    (hc : (s.host c).isBefore = false) : (s'.op c).task = (s.op c).task := by
  rcases task_step_cases hs ha with ht | ⟨hb, -⟩
  · exact ht
  · rw [hc] at hb
    cases hb

/-- In a run whose resolutions end only after the secret was asked for, the events that any
operation queues have increasing numbers, a terminal event is the last one, and an operation that
has left the slot has queued exactly one. -/
theorem events_ordered (h : Reach (step setup) Announced (initial C) s) (c : C) :
    ((s.log c).map (·.sequence)).Pairwise (· < ·) ∧
      (s.log c).Pairwise (fun event _ => event.isTerminal = false) ∧
      ((s.op c).task.hasEnded → (s.log c).countP (·.isTerminal) = 1) := by
  have hinv : SlotHeld s ∧ Ordered (s.op c) (s.log c) := by
    refine h.invariant (I := fun s => SlotHeld s ∧ Ordered (s.op c) (s.log c))
      ⟨slotHeld_initial, ordered_noOperation⟩ fun s a s' hs hok hstep => ?_
    have hcase := step_cases hstep
    obtain ⟨events, hm, hlog⟩ := step_moves hcase c
    refine ⟨slotHeld_step hs.1 hcase, ?_⟩
    rw [hlog]
    apply ordered_move hs.2 hm hs.1.idle_of_before
    intro hwaiting hnext
    by_cases ha : a = .task c
    · subst ha
      exact hok hwaiting
    · rw [task_step hcase ha, hwaiting] at hnext
      · cases hnext
      · apply hs.1.settled
        intro hidle
        rw [hidle] at hwaiting
        cases hwaiting
  have hordered := (List.pairwise_append.mp hinv.2.numbered.ordered).1
  rw [List.pairwise_map] at hordered ⊢
  exact ⟨hordered.imp fun h => h.1, hordered.imp fun h => h.2, hinv.2.ended⟩

end Runs

/-! ## A cancel on either side of the request -/

instance {C : Type} (s : State C) : (a : Action C) → Decidable (Announced s a)
  | .task _ => inferInstanceAs (Decidable (_ → _))
  | .host _ | .request _ | .work _ _ => isTrue trivial

section Bytes

local instance eventsBoundary : Boundary := byteBoundary

/-- A submit with a secret, its answer, and a cancel. -/
def requestCalls : Setup (Fin 3) where
  calls
    | 0 => .submit [1, 65]
    | 1 => .sendHostResponse [2, 65, 65]
    | 2 => .cancel
  requestId _ := ['A']

/-- The secret is asked for, the host answers, and the translation is completed. -/
def completedRun : List (Action (Fin 3)) :=
  List.replicate 5 (.host 0) ++ [.task 0] ++ List.replicate 3 (.request 0) ++
    List.replicate 4 (.host 1) ++ List.replicate 3 (.task 0) ++
    [.work 0 (.started 1), .work 0 (.textDelta 2 ['x']), .work 0 (.completed 3)] ++
    List.replicate 7 (.task 0)

theorem events_ordered_completed :
    ∃ s, run (step requestCalls) (initial _) completedRun = some s ∧
      (s.log 0).map (fun event => (event.messageType, event.sequence)) =
        [("secret_required", 0), ("started", 1), ("text_delta", 2), ("completed", 3)] ∧
      ((s.log 0).map (·.sequence)).Pairwise (· < ·) ∧
      (s.log 0).Pairwise (fun event _ => event.isTerminal = false) ∧
      ((s.op 0).task.hasEnded → (s.log 0).countP (·.isTerminal) = 1) := by
  have h : (run (step requestCalls) (initial _) completedRun).any (fun s =>
      (s.log 0).map (fun event => (event.messageType, event.sequence)) =
        [("secret_required", 0), ("started", 1), ("text_delta", 2), ("completed", 3)]) := by
    decide +kernel
  obtain ⟨s, hs, h⟩ := (Option.any_eq_true _ _).mp h
  exact ⟨s, hs, of_decide_eq_true h, events_ordered (.of_run hs (by decide +kernel)) 0⟩

/-- A cancel after the request task has taken the lease: the secret is asked for after the
terminal event. -/
theorem events_reordered :
    ∃ s, Reach (step requestCalls) (fun _ _ => True) (initial _) s ∧ (s.op 0).task.hasEnded ∧
      (s.log 0).map (fun event => (event.messageType, event.sequence)) =
        [("cancelled", 1), ("secret_required", 0)] ∧
      ¬ ((s.log 0).map (·.sequence)).Pairwise (· < ·) ∧
      ¬ (s.log 0).Pairwise (fun event _ => event.isTerminal = false) := by
  have h : (run (step requestCalls) (initial _) (List.replicate 5 (.host 0) ++
      [.task 0, .request 0, .host 2, .host 2] ++ List.replicate 4 (.task 0) ++
      List.replicate 2 (.request 0))).any (fun s => (s.op 0).task.hasEnded ∧
        (s.log 0).map (fun event => (event.messageType, event.sequence)) =
          [("cancelled", 1), ("secret_required", 0)] ∧
        ¬ ((s.log 0).map (·.sequence)).Pairwise (· < ·) ∧
        ¬ (s.log 0).Pairwise (fun event _ => event.isTerminal = false)) := by
    decide +kernel
  obtain ⟨s, hs, h⟩ := (Option.any_eq_true _ _).mp h
  exact ⟨s, .of_run hs (meets_of_forall (fun _ _ => trivial) _), of_decide_eq_true h⟩

end Bytes

end LinguaMesh.Ffi
