import LinguaMesh.Application.Broker
import LinguaMesh.Application.Connect

/-!
# Answers to secret requests

Whatever calls, cancellations and answers come between each other, each event of the
log is allowed by the events before it (`Allowed`): a call gets the secret that was
given for its request, a lease takes one answer and none after its call has ended, and
a request that has ended is not shown (`requests_answered`).

A request has ended when its call has returned or was dropped. A call whose token is
cancelled may take its time to notice, and its request is shown and answered until it
does (`cancelled_shown`).
-/

namespace LinguaMesh.Application.Broker

open Runs
open Ffi (SecretResolution resolutionResult cancelledError)

/-! ## Logs -/

section Logs

variable {C : Type}

/-- The call of the request has returned from `resolve`, or was dropped. -/
def Ended (log : List (Event C)) (id : C × Nat) : Prop :=
  (∃ result, .returned id result ∈ log) ∨ .abandoned id ∈ log

/-- A lease that was shown takes an answer. -/
def Unanswered (log : List (Event C)) (id : C × Nat) : Prop :=
  (∀ resolution accepted, .answered id resolution accepted ∉ log) ∧ .discarded id ∉ log ∧
    ¬ Ended log id

def Event.ends : Event C → C × Nat → Prop
  | .returned id' _, id | .abandoned id', id => id' = id
  | _, _ => False

def Event.answers : Event C → C × Nat → Prop
  | .answered id' _ _, id | .discarded id', id => id' = id
  | _, _ => False

theorem ended_append {log : List (Event C)} {event : Event C} {id : C × Nat} :
    Ended (log ++ [event]) id ↔ Ended log id ∨ event.ends id := by
  cases event <;> simp [Ended, Event.ends, exists_or, or_assoc, or_comm, or_left_comm, eq_comm]

theorem unanswered_append {log : List (Event C)} {event : Event C} {id : C × Nat} :
    Unanswered (log ++ [event]) id ↔ Unanswered log id ∧ ¬ event.ends id ∧ ¬ event.answers id := by
  unfold Unanswered
  rw [ended_append]
  cases event <;> simp [Event.ends, Event.answers] <;> grind

variable [Urls] [Uuids] [Providers]

/-- What an event says about the log before it. -/
def Allowed (setup : Setup C) (before : List (Event C)) : Event C → Prop
  | .validated c => ∀ profile cancellation, setup.calls c = .connect profile cancellation →
      ∃ checked, checkProfile profile = .ok checked
  | .requested id => .validated id.1 ∈ before
  | .shown id => .requested id ∈ before ∧ .shown id ∉ before ∧ ¬ Ended before id
  | .answered id _ accepted =>
      .shown id ∈ before ∧ (accepted = true ↔ Unanswered before id)
  | .returned id (.ok secret) => ¬ Ended before id ∧ .answered id (.provided secret) true ∈ before ∧
      .cancelled (setup.calls id.1).cancellation ∉ before
  | .returned id (.error _) | .abandoned id => ¬ Ended before id
  | _ => True

/-- Each event is allowed by those before it. -/
def Lawful (setup : Setup C) (log : List (Event C)) : Prop :=
  ∀ before event after, log = before ++ event :: after → Allowed setup before event

variable {setup : Setup C} {log : List (Event C)} {event : Event C}

theorem Lawful.append (h : Lawful setup log) (he : Allowed setup log event) :
    Lawful setup (log ++ [event]) := by
  intro before event' after heq
  rcases List.eq_nil_or_concat after with rfl | ⟨after, last, rfl⟩
  · obtain ⟨rfl, hlast⟩ := List.append_inj' heq rfl
    cases hlast
    exact he
  · rw [List.concat_eq_append, ← List.cons_append, ← List.append_assoc] at heq
    exact h before event' after (List.append_inj' heq rfl).1

end Logs

section Answers

variable [Urls] [Uuids] [Providers] {C : Type} [DecidableEq C]

/-! ## Transitions -/

/-- The request that a call is about, by its number. -/
def Phase.current : Phase → Option Nat
  | .sending secrets _ _ | .waiting secrets _ _ | .received secrets _ _ => some secrets.length
  | _ => none

/-- The requests from here on have not ended. -/
def Phase.unended : Phase → Option Nat
  | .called => some 0
  | .sending secrets _ _ | .waiting secrets _ _ | .received secrets _ _ => some secrets.length
  | _ => none

/-- The requests from here on were not sent. -/
def Phase.unsent : Phase → Option Nat
  | .called => some 0
  | .sending secrets _ _ => some secrets.length
  | .waiting secrets _ _ | .received secrets _ _ => some (secrets.length + 1)
  | _ => none

/-- The secrets that a call has got. -/
def Phase.secrets : Phase → List Str
  | .sending secrets _ _ | .waiting secrets _ _ | .received secrets _ _
  | .returned (.ok secrets) => secrets
  | _ => []

/-- What a step can do. -/
inductive Turn (setup : Setup C) (s : State C) : State C → Prop where
  | reject {c : C} {e : TranslationError} : s.phase c = .called →
    Turn setup s (s.setPhase c (.returned (.error e)))
  | validate {c : C} {refs : List SecretRef} : s.phase c = .called →
    (setup.calls c).plan = .ok refs →
    Turn setup s ((s.setPhase c (.next [] refs)).record (.validated c))
  | request {c : C} {secrets : List Str} {secretRef : SecretRef} {rest : List SecretRef} :
    s.phase c = .sending secrets secretRef rest →
    Turn setup s (({ s with requests := s.requests ++ [(c, secrets.length)] }.setPhase c
      (.waiting secrets secretRef rest)).record (.requested (c, secrets.length)))
  | receive {c : C} {secrets : List Str} {secretRef : SecretRef} {rest : List SecretRef}
    {answer : Option SecretResolution} : s.phase c = .waiting secrets secretRef rest →
    (∀ resolution, answer = some resolution → s.lease (c, secrets.length) = .answered resolution) →
    Turn setup s (s.setPhase c (.received secrets rest answer))
  | fail {c : C} {i : Nat} {e : TranslationError} : (s.phase c).current = some i →
    Turn setup s (s.fail (c, i) e)
  | succeed {c : C} {secrets : List Str} {rest : List SecretRef} {secret : Str} :
    s.phase c = .received secrets rest (some (.provided secret)) → ¬ isCancelled setup s c →
    Turn setup s (s.finish (c, secrets.length) (.ok secret) (.next (secrets ++ [secret]) rest))
  | leave {c : C} : s.phase c = .called → Turn setup s (s.setPhase c .abandoned)
  | abandon {c : C} {i : Nat} : (s.phase c).current = some i → Turn setup s (s.abandon (c, i))
  | cancel (cancellation : Nat) : Turn setup s
    ({ s with cancelled := cancellation :: s.cancelled }.record (.cancelled cancellation))
  | present {id : C × Nat} {requests : List (C × Nat)} : s.requests = id :: requests →
    s.lease id = .waiting →
    Turn setup s ({ s with requests, shown := id :: s.shown }.record (.shown id))
  | skip {id : C × Nat} {requests : List (C × Nat)} : s.requests = id :: requests →
    Turn setup s { s with requests }
  | answer {id : C × Nat} {resolution : SecretResolution} : id ∈ s.shown → s.lease id = .waiting →
    Turn setup s ((s.setLease id (.answered resolution)).record (.answered id resolution true))
  | refuse {id : C × Nat} {resolution : SecretResolution} : id ∈ s.shown → s.lease id ≠ .waiting →
    Turn setup s (s.record (.answered id resolution false))
  | discard {id : C × Nat} : id ∈ s.shown → s.lease id = .waiting →
    Turn setup s ((s.setLease id .dropped).record (.discarded id))
  | close : Turn setup s (closeStep s)

variable {setup : Setup C} {s t : State C}

omit [Urls] [Uuids] [Providers] in
theorem resolutionResult_ok {answer : Option SecretResolution} {secret : Str}
    (h : resolutionResult answer = .ok secret) : answer = some (.provided secret) := by
  unfold resolutionResult at h
  split at h <;> cases h
  rfl

theorem call_turn {c : C} (h : callStep setup s c = some t) : Turn setup s t := by
  unfold callStep at h
  split at h
  · rename_i hphase
    split at h <;> cases h
    · exact .reject hphase
    · rename_i hplan
      exact .validate hphase hplan
  · rename_i hphase
    have hcurrent := congrArg Phase.current hphase
    simp only at h
    split at h
    · cases h
      exact .fail hcurrent
    · split at h
      · cases h
        exact .fail hcurrent
      · split at h <;> cases h
        exact .request hphase
  · rename_i hphase
    simp only at h
    split at h
    · cases h
      exact .fail (congrArg Phase.current hphase)
    · split at h <;> cases h
      · rename_i hlease
        exact .receive hphase fun resolution hr => by cases hr; exact hlease
      · exact .receive hphase nofun
  · rename_i hphase
    simp only at h
    split at h
    · cases h
      exact .fail (congrArg Phase.current hphase)
    · rename_i hcancelled
      split at h <;> cases h
      · exact .fail (congrArg Phase.current hphase)
      · rename_i hanswer
        exact .succeed (resolutionResult_ok hanswer ▸ hphase) hcancelled
  · cases h
  · cases h

theorem step_turn {a : Action C} (h : step setup s a = some t) : Turn setup s t := by
  cases a with
  | call c => exact call_turn h
  | abandon c =>
    have h : abandonStep s c = some t := h
    unfold abandonStep at h
    split at h <;> cases h
    · rename_i hphase
      exact .leave hphase
    all_goals
      rename_i hphase
      exact .abandon (congrArg Phase.current hphase)
  | cancel cancellation =>
    cases h
    exact .cancel cancellation
  | recv =>
    have h : recvStep s = some t := h
    unfold recvStep at h
    split at h
    · cases h
    · rename_i hrequests
      split at h <;> cases h
      · rename_i hlease
        exact .present hrequests hlease
      · exact .skip hrequests
  | answer id resolution =>
    have h : answerStep s id resolution = some t := h
    unfold answerStep at h
    split at h
    · rename_i hshown
      split at h <;> cases h
      · rename_i hlease
        exact .answer hshown hlease
      · rename_i hlease
        exact .refuse hshown hlease
    · cases h
  | discard id =>
    have h : discardStep s id = some t := h
    unfold discardStep at h
    split at h <;> cases h
    rename_i hshown
    exact .discard hshown.1 hshown.2
  | close =>
    cases h
    exact .close

/-! ## The invariant -/

structure Linked (setup : Setup C) (s : State C) : Prop where
  tokens : ∀ cancellation, .cancelled cancellation ∈ s.log → cancellation ∈ s.cancelled
  validated : ∀ c i, (s.phase c).current = some i → .validated c ∈ s.log
  requested : ∀ id ∈ s.requests, .requested id ∈ s.log ∧ id ∉ s.shown
  nodup : s.requests.Nodup
  shown : ∀ id, id ∈ s.shown ↔ .shown id ∈ s.log
  waiting : ∀ id, s.lease id = .waiting → Unanswered s.log id
  unanswered : ∀ id ∈ s.shown, Unanswered s.log id → s.lease id = .waiting
  answered : ∀ id resolution, s.lease id = .answered resolution →
    .answered id resolution true ∈ s.log
  received : ∀ c secrets rest resolution, s.phase c = .received secrets rest (some resolution) →
    .answered (c, secrets.length) resolution true ∈ s.log
  ended : ∀ id, s.lease id = .closed ↔ Ended s.log id
  running : ∀ c n, (s.phase c).unended = some n → ∀ i, n ≤ i → s.lease (c, i) ≠ .closed
  unsent : ∀ c n, (s.phase c).unsent = some n → ∀ i, n ≤ i → (c, i) ∉ s.requests ∧ (c, i) ∉ s.shown
  got : ∀ c i secret, (s.phase c).secrets[i]? = some secret → .returned (c, i) (.ok secret) ∈ s.log

/-- An event stays in the log. -/
theorem log_turn (ht : Turn setup s t) : s.log ⊆ t.log := by
  cases ht with
  | reject | receive | leave | skip | close => exact fun _ he => he
  | _ => exact List.subset_append_left _ _

theorem tokens_turn (h : Linked setup s) (ht : Turn setup s t) :
    ∀ cancellation, .cancelled cancellation ∈ t.log → cancellation ∈ t.cancelled := by
  intro k hk
  cases ht with
  | reject | receive | leave | skip | close => exact h.tokens k hk
  | cancel cancellation =>
    rcases List.mem_append.mp hk with hk | hk
    · exact List.mem_cons_of_mem _ (h.tokens k hk)
    · cases List.mem_singleton.mp hk
      exact List.mem_cons_self ..
  | _ => exact h.tokens k ((List.mem_append.mp hk).resolve_right (by simp))

/-! ### The channel -/

theorem requested_turn (h : Linked setup s) (ht : Turn setup s t) :
    ∀ id ∈ t.requests, .requested id ∈ t.log ∧ id ∉ t.shown := by
  have hlog := log_turn ht
  cases ht with
  | request hphase =>
    obtain ⟨-, hunshown⟩ := h.unsent _ _ (congrArg Phase.unsent hphase) _ (Nat.le_refl _)
    intro id hid
    rcases List.mem_append.mp hid with hid | hid
    · exact ⟨hlog (h.requested id hid).1, (h.requested id hid).2⟩
    · rw [List.mem_singleton.mp hid]
      exact ⟨List.mem_append_right _ (List.mem_singleton_self _), hunshown⟩
  | @present first requests hrequests =>
    intro id hid
    have hold : id ∈ s.requests := hrequests ▸ List.mem_cons_of_mem first hid
    refine ⟨hlog (h.requested id hold).1, fun hshown => ?_⟩
    rcases List.mem_cons.mp hshown with rfl | hshown
    · exact (List.nodup_cons.mp (hrequests ▸ h.nodup)).1 hid
    · exact (h.requested id hold).2 hshown
  | @skip first requests hrequests =>
    exact fun id hid => h.requested id (hrequests ▸ List.mem_cons_of_mem first hid)
  | close => exact nofun
  | _ => exact fun id hid => ⟨hlog (h.requested id hid).1, (h.requested id hid).2⟩

theorem nodup_turn (h : Linked setup s) (ht : Turn setup s t) : t.requests.Nodup := by
  cases ht with
  | request hphase =>
    obtain ⟨hnew, -⟩ := h.unsent _ _ (congrArg Phase.unsent hphase) _ (Nat.le_refl _)
    refine List.nodup_append.mpr ⟨h.nodup, List.nodup_singleton _, fun a ha b hb => ?_⟩
    rw [List.mem_singleton.mp hb]
    rintro rfl
    exact hnew ha
  | present hrequests => exact (List.nodup_cons.mp (hrequests ▸ h.nodup)).2
  | skip hrequests => exact (List.nodup_cons.mp (hrequests ▸ h.nodup)).2
  | close => exact .nil
  | _ => exact h.nodup

theorem shown_turn (h : Linked setup s) (ht : Turn setup s t) :
    ∀ id, id ∈ t.shown ↔ .shown id ∈ t.log := by
  intro id
  have hrecord : ∀ {event : Event C}, event ≠ .shown id →
      (id ∈ s.shown ↔ .shown id ∈ s.log ++ [event]) := by
    intro event hne
    rw [List.mem_append, List.mem_singleton, or_iff_left hne.symm]
    exact h.shown id
  cases ht with
  | reject | receive | leave | skip | close => exact h.shown id
  | @present first =>
    show id ∈ first :: s.shown ↔ .shown id ∈ s.log ++ [.shown first]
    rw [List.mem_cons, List.mem_append, List.mem_singleton, h.shown id, or_comm]
    simp
  | _ => exact hrecord nofun

theorem requests_origin (ht : Turn setup s t) {id : C × Nat} (hid : id ∈ t.requests) :
    id ∈ s.requests ∨ (t.phase id.1).unsent = some (id.2 + 1) := by
  cases ht with
  | @request c secrets secretRef rest hphase =>
    rcases List.mem_append.mp hid with hid | hid
    · exact .inl hid
    · rw [List.mem_singleton.mp hid]
      refine .inr ?_
      show (Function.update s.phase c (.waiting secrets secretRef rest) c).unsent = _
      rw [Function.update_self]
      rfl
  | present hrequests => exact .inl (hrequests ▸ List.mem_cons_of_mem _ hid)
  | skip hrequests => exact .inl (hrequests ▸ List.mem_cons_of_mem _ hid)
  | close => cases hid
  | _ => exact .inl hid

theorem shown_origin (ht : Turn setup s t) {id : C × Nat} (hid : id ∈ t.shown) :
    id ∈ s.shown ∨ id ∈ s.requests ∧ s.lease id = .waiting := by
  cases ht with
  | present hrequests hwaiting =>
    rcases List.mem_cons.mp hid with rfl | hid
    · exact .inr ⟨hrequests ▸ List.mem_cons_self .., hwaiting⟩
    · exact .inl hid
  | _ => exact .inl hid

/-! ### The calls -/

/-- What a step makes of a call. -/
inductive Moves (s t : State C) (c : C) : Phase → Prop where
  | stay : Moves s t c (s.phase c)
  /-- The call ends without another secret. -/
  | stop {phase : Phase} : phase.secrets = [] →
    phase.current = none ∧ phase.unended = none ∧ phase.unsent = none → Moves s t c phase
  | validate {refs : List SecretRef} : s.phase c = .called → .validated c ∈ t.log →
    Moves s t c (.next [] refs)
  | request {secrets : List Str} {secretRef : SecretRef} {rest : List SecretRef} :
    s.phase c = .sending secrets secretRef rest → Moves s t c (.waiting secrets secretRef rest)
  | receive {secrets : List Str} {secretRef : SecretRef} {rest : List SecretRef}
    {answer : Option SecretResolution} : s.phase c = .waiting secrets secretRef rest →
    (∀ resolution, answer = some resolution → s.lease (c, secrets.length) = .answered resolution) →
    Moves s t c (.received secrets rest answer)
  | succeed {secrets : List Str} {rest : List SecretRef} {secret : Str} :
    s.phase c = .received secrets rest (some (.provided secret)) →
    .returned (c, secrets.length) (.ok secret) ∈ t.log →
    Moves s t c (.next (secrets ++ [secret]) rest)

omit [Urls] [Providers] in
theorem moves_update {c c' : C} {phase : Phase} (hm : Moves s t c phase)
    (hp : t.phase = Function.update s.phase c phase) : Moves s t c' (t.phase c') := by
  rw [hp]
  by_cases hc : c' = c
  · subst hc
    rw [Function.update_self]
    exact hm
  · rw [Function.update_of_ne hc]
    exact .stay

theorem phase_turn (ht : Turn setup s t) (c : C) : Moves s t c (t.phase c) := by
  cases ht with
  | reject => exact moves_update (.stop rfl ⟨rfl, rfl, rfl⟩) rfl
  | validate hphase =>
    refine moves_update (.validate hphase ?_) rfl
    exact List.mem_append_right _ (List.mem_singleton_self _)
  | request hphase => exact moves_update (.request hphase) rfl
  | receive hphase hlease => exact moves_update (.receive hphase hlease) rfl
  | fail => exact moves_update (.stop rfl ⟨rfl, rfl, rfl⟩) rfl
  | succeed hphase =>
    refine moves_update (.succeed hphase ?_) rfl
    exact List.mem_append_right _ (List.mem_singleton_self _)
  | leave => exact moves_update (.stop rfl ⟨rfl, rfl, rfl⟩) rfl
  | abandon => exact moves_update (.stop rfl ⟨rfl, rfl, rfl⟩) rfl
  | _ => exact .stay

theorem validated_turn (h : Linked setup s) (ht : Turn setup s t) :
    ∀ c i, (t.phase c).current = some i → .validated c ∈ t.log := by
  intro c i hc
  have hlog := log_turn ht
  have hm := phase_turn ht c
  generalize t.phase c = phase at hm hc
  cases hm with
  | stay => exact hlog (h.validated c i hc)
  | stop _ hnone => exact nomatch hnone.1.symm.trans hc
  | validate _ hvalidated => exact hvalidated
  | request hphase => exact hlog (h.validated c _ (congrArg Phase.current hphase))
  | receive hphase => exact hlog (h.validated c _ (congrArg Phase.current hphase))
  | succeed hphase => exact hlog (h.validated c _ (congrArg Phase.current hphase))

theorem received_turn (h : Linked setup s) (ht : Turn setup s t) :
    ∀ c secrets rest resolution, t.phase c = .received secrets rest (some resolution) →
      .answered (c, secrets.length) resolution true ∈ t.log := by
  intro c secrets rest resolution hc
  have hlog := log_turn ht
  have hm := phase_turn ht c
  rw [hc] at hm
  generalize hp : Phase.received secrets rest (some resolution) = phase at hm
  cases hm with
  | stay => exact hlog (h.received c secrets rest resolution hp.symm)
  | stop _ hnone =>
    subst hp
    cases hnone.1
  | @validate refs =>
    cases refs <;> cases hp
  | request => cases hp
  | receive _ hlease =>
    cases hp
    exact hlog (h.answered _ _ (hlease resolution rfl))
  | @succeed secrets rest =>
    cases rest <;> cases hp

theorem got_turn (h : Linked setup s) (ht : Turn setup s t) :
    ∀ c i secret, (t.phase c).secrets[i]? = some secret →
      .returned (c, i) (.ok secret) ∈ t.log := by
  intro c i secret hc
  have hlog := log_turn ht
  have hm := phase_turn ht c
  generalize t.phase c = phase at hm hc
  cases hm with
  | stay => exact hlog (h.got c i secret hc)
  | stop hnone =>
    rw [hnone] at hc
    cases hc
  | @validate refs =>
    cases refs <;> cases hc
  | request hphase =>
    refine hlog (h.got c i secret ?_)
    rw [hphase]
    exact hc
  | receive hphase =>
    refine hlog (h.got c i secret ?_)
    rw [hphase]
    exact hc
  | @succeed secrets rest new hphase hreturned =>
    have hsecrets : (Phase.next (secrets ++ [new]) rest).secrets = secrets ++ [new] := by
      cases rest <;> rfl
    rw [hsecrets, List.getElem?_append] at hc
    split at hc
    · refine hlog (h.got c i secret ?_)
      rw [hphase]
      exact hc
    · rename_i hi
      obtain ⟨hlast, rfl⟩ := List.getElem?_eq_some_iff.mp hc
      have : i = secrets.length := by
        simp only [List.length_singleton] at hlast
        omega
      subst this
      simpa using hreturned

omit [Urls] [Providers] in
theorem unended_current {phase : Phase} {i : Nat} (h : phase.current = some i) :
    phase.unended = some i := by
  cases phase <;> first | exact h | cases h

/-- The requests of a call end in their order. -/
theorem unended_turn (ht : Turn setup s t) {c : C} {n : Nat} (hn : (t.phase c).unended = some n) :
    ∃ m, (s.phase c).unended = some m ∧ m ≤ n := by
  have hm := phase_turn ht c
  generalize t.phase c = phase at hm hn
  cases hm with
  | stay => exact ⟨n, hn, Nat.le_refl n⟩
  | stop _ hnone => exact nomatch hnone.2.1.symm.trans hn
  | validate hphase => exact ⟨0, congrArg Phase.unended hphase, Nat.zero_le n⟩
  | request hphase => exact ⟨n, (congrArg Phase.unended hphase).trans hn, Nat.le_refl n⟩
  | receive hphase => exact ⟨n, (congrArg Phase.unended hphase).trans hn, Nat.le_refl n⟩
  | @succeed secrets rest secret hphase =>
    refine ⟨_, congrArg Phase.unended hphase, ?_⟩
    cases rest <;> cases hn
    simp

theorem unsent_phase (ht : Turn setup s t) {c : C} {n : Nat} (hn : (t.phase c).unsent = some n) :
    ∃ m, (s.phase c).unsent = some m ∧ m ≤ n := by
  have hm := phase_turn ht c
  generalize t.phase c = phase at hm hn
  cases hm with
  | stay => exact ⟨n, hn, Nat.le_refl n⟩
  | stop _ hnone => exact nomatch hnone.2.2.symm.trans hn
  | validate hphase => exact ⟨0, congrArg Phase.unsent hphase, Nat.zero_le n⟩
  | request hphase =>
    cases hn
    exact ⟨_, congrArg Phase.unsent hphase, Nat.le_succ _⟩
  | receive hphase => exact ⟨n, (congrArg Phase.unsent hphase).trans hn, Nat.le_refl n⟩
  | @succeed secrets rest secret hphase =>
    refine ⟨_, congrArg Phase.unsent hphase, ?_⟩
    cases rest <;> cases hn
    simp

/-! ### The leases -/

/-- What a step makes of a lease. -/
inductive Settles (s t : State C) (id : C × Nat) : Prop where
  /-- The lease stays, and refuses an answer that it gets. -/
  | stay : t.lease id = s.lease id → (Ended t.log id ↔ Ended s.log id) →
    (Unanswered t.log id → Unanswered s.log id) →
    (s.lease id = .waiting → Unanswered s.log id → Unanswered t.log id) → Settles s t id
  | answer (resolution : SecretResolution) : t.lease id = .answered resolution →
    .answered id resolution true ∈ t.log → s.lease id = .waiting →
    (Ended t.log id ↔ Ended s.log id) → Settles s t id
  | drop : t.lease id = .dropped → (id ∈ t.shown → .discarded id ∈ t.log) →
    s.lease id = .waiting → (Ended t.log id ↔ Ended s.log id) → Settles s t id
  | close : t.lease id = .closed → Ended t.log id →
    (∀ n, (t.phase id.1).unended = some n → id.2 < n) → Settles s t id

omit [Urls] [Providers] [DecidableEq C] in
theorem settles_record {event : Event C} {id : C × Nat} (hl : t.lease id = s.lease id)
    (hlog : t.log = s.log ++ [event]) (he : ¬ event.ends id) (ha : ¬ event.answers id) :
    Settles s t id := by
  have hunanswered : Unanswered t.log id ↔ Unanswered s.log id := by
    rw [hlog, unanswered_append]
    exact and_iff_left ⟨he, ha⟩
  refine .stay hl ?_ hunanswered.mp fun _ => hunanswered.mpr
  rw [hlog, ended_append, or_iff_left he]

omit [Urls] [Providers] in
theorem settles_update {event : Event C} {id id' : C × Nat} {oneShot : OneShot}
    (hl : t.lease = Function.update s.lease id' oneShot) (hlog : t.log = s.log ++ [event])
    (he : id' ≠ id → ¬ event.ends id ∧ ¬ event.answers id)
    (hself : t.lease id' = oneShot → Settles s t id') : Settles s t id := by
  by_cases hid : id' = id
  · subst hid
    exact hself (by rw [hl, Function.update_self])
  · obtain ⟨hends, hanswers⟩ := he hid
    refine settles_record ?_ hlog hends hanswers
    rw [hl, Function.update_of_ne (Ne.symm hid)]

omit [Urls] [Providers] in
/-- A request of a call ends. -/
theorem settles_end {event : Event C} {c : C} {i : Nat} {phase : Phase} {id : C × Nat}
    (hl : t.lease = Function.update s.lease (c, i) .closed) (hlog : t.log = s.log ++ [event])
    (hp : t.phase = Function.update s.phase c phase) (hends : ∀ id, event.ends id ↔ (c, i) = id)
    (hanswers : ∀ id, ¬ event.answers id) (hnext : ∀ n, phase.unended = some n → i < n) :
    Settles s t id := by
  refine settles_update hl hlog (fun hne => ⟨fun he => hne ((hends id).mp he), hanswers id⟩) ?_
  intro hclosed
  refine .close hclosed ?_ ?_
  · rw [hlog, ended_append]
    exact .inr ((hends _).mpr rfl)
  · rw [hp, Function.update_self]
    exact hnext

theorem lease_turn (h : Linked setup s) (ht : Turn setup s t) (id : C × Nat) : Settles s t id := by
  have hsame : t.lease = s.lease → t.log = s.log → Settles s t id := by
    intro hl hlog
    refine .stay (congrFun hl id) ?_ ?_ ?_ <;> rw [hlog]
    · exact fun hu => hu
    · exact fun _ hu => hu
  cases ht with
  | reject | receive | leave | skip => exact hsame rfl rfl
  | validate | request | cancel | present => exact settles_record rfl rfl nofun nofun
  | fail => exact settles_end rfl rfl rfl (fun _ => .rfl) (fun _ => nofun) nofun
  | abandon => exact settles_end rfl rfl rfl (fun _ => .rfl) (fun _ => nofun) nofun
  | @succeed c secrets rest secret =>
    refine settles_end rfl rfl rfl (fun _ => .rfl) (fun _ => nofun) fun n hn => ?_
    cases rest <;> cases hn
    simp
  | @answer id' resolution hshown hwaiting =>
    refine settles_update rfl rfl (fun hne => ⟨nofun, hne⟩) fun hl => ?_
    refine .answer resolution hl (List.mem_append_right _ (List.mem_singleton_self _)) hwaiting ?_
    exact ended_append.trans (or_iff_left nofun)
  | @refuse id' resolution hshown hwaiting =>
    by_cases hid : id' = id
    · subst hid
      refine .stay rfl (ended_append.trans (or_iff_left nofun)) ?_ (fun hw => absurd hw hwaiting)
      exact fun hu => (unanswered_append.mp hu).1
    · exact settles_record rfl rfl nofun hid
  | @discard id' hshown hwaiting =>
    refine settles_update rfl rfl (fun hne => ⟨nofun, hne⟩) fun hl => ?_
    refine .drop hl (fun _ => List.mem_append_right _ (List.mem_singleton_self _)) hwaiting ?_
    exact ended_append.trans (or_iff_left nofun)
  | close =>
    by_cases hid : id ∈ s.requests ∧ s.lease id = .waiting
    · exact .drop (if_pos hid) (fun hshown => absurd hshown (h.requested id hid.1).2) hid.2 .rfl
    · exact .stay (if_neg hid) .rfl (fun hu => hu) fun _ hu => hu

theorem waiting_turn (h : Linked setup s) (ht : Turn setup s t) :
    ∀ id, t.lease id = .waiting → Unanswered t.log id := by
  intro id hw
  cases lease_turn h ht id with
  | stay hl _ _ hu =>
    have hw : s.lease id = .waiting := hl.symm.trans hw
    exact hu hw (h.waiting id hw)
  | answer _ hl => exact nomatch hl.symm.trans hw
  | drop hl => exact nomatch hl.symm.trans hw
  | close hl => exact nomatch hl.symm.trans hw

theorem unanswered_turn (h : Linked setup s) (ht : Turn setup s t) :
    ∀ id ∈ t.shown, Unanswered t.log id → t.lease id = .waiting := by
  intro id hshown hu
  cases lease_turn h ht id with
  | stay hl _ hold =>
    rw [hl]
    rcases shown_origin ht hshown with hshown | ⟨_, hwaiting⟩
    · exact h.unanswered id hshown (hold hu)
    · exact hwaiting
  | answer resolution _ hanswered => exact absurd hanswered (hu.1 resolution true)
  | drop _ hdiscarded => exact absurd (hdiscarded hshown) hu.2.1
  | close _ hended => exact absurd hended hu.2.2

theorem answered_turn (h : Linked setup s) (ht : Turn setup s t) :
    ∀ id resolution, t.lease id = .answered resolution →
      .answered id resolution true ∈ t.log := by
  intro id resolution hl
  have hlog := log_turn ht
  cases lease_turn h ht id with
  | stay hsame => exact hlog (h.answered id resolution (hsame.symm.trans hl))
  | answer _ hnew hanswered =>
    cases hnew.symm.trans hl
    exact hanswered
  | drop hnew => exact nomatch hnew.symm.trans hl
  | close hnew => exact nomatch hnew.symm.trans hl

theorem ended_turn (h : Linked setup s) (ht : Turn setup s t) :
    ∀ id, t.lease id = .closed ↔ Ended t.log id := by
  intro id
  have hwaiting : s.lease id = .waiting → (Ended t.log id ↔ Ended s.log id) → ¬ Ended t.log id :=
    fun hw hended he => (h.waiting id hw).2.2 (hended.mp he)
  cases lease_turn h ht id with
  | stay hl hended => rw [hl, hended, h.ended id]
  | answer _ hl _ hw hended =>
    rw [hl]
    exact iff_of_false nofun (hwaiting hw hended)
  | drop hl _ hw hended =>
    rw [hl]
    exact iff_of_false nofun (hwaiting hw hended)
  | close hl hended => exact iff_of_true hl hended

theorem running_turn (h : Linked setup s) (ht : Turn setup s t) :
    ∀ c n, (t.phase c).unended = some n → ∀ i, n ≤ i → t.lease (c, i) ≠ .closed := by
  intro c n hn i hi hclosed
  obtain ⟨m, hm, hle⟩ := unended_turn ht hn
  cases lease_turn h ht (c, i) with
  | stay hl => exact h.running c m hm i (hle.trans hi) (hl.symm.trans hclosed)
  | answer _ hl => exact nomatch hl.symm.trans hclosed
  | drop hl => exact nomatch hl.symm.trans hclosed
  | close _ _ hlt => exact absurd (hlt n hn) (Nat.not_lt.mpr hi)

theorem unsent_turn (h : Linked setup s) (ht : Turn setup s t) :
    ∀ c n, (t.phase c).unsent = some n → ∀ i, n ≤ i →
      (c, i) ∉ t.requests ∧ (c, i) ∉ t.shown := by
  intro c n hn i hi
  obtain ⟨m, hm, hle⟩ := unsent_phase ht hn
  obtain ⟨hrequests, hshown⟩ := h.unsent c m hm i (hle.trans hi)
  refine ⟨fun hnew => ?_, fun hnew => ?_⟩
  · rcases requests_origin ht hnew with hold | hsent
    · exact hrequests hold
    · rw [hn] at hsent
      cases hsent
      omega
  · rcases shown_origin ht hnew with hold | ⟨hold, _⟩
    · exact hshown hold
    · exact hrequests hold

omit [Providers] [DecidableEq C] in
theorem linked_initial : Linked setup (initial C) where
  tokens := nofun
  validated := nofun
  requested := nofun
  nodup := .nil
  shown _ := iff_of_false nofun nofun
  waiting _ _ := ⟨nofun, nofun, fun he => he.elim nofun nofun⟩
  unanswered := nofun
  answered := nofun
  received := nofun
  ended _ := iff_of_false nofun fun he => he.elim nofun nofun
  running := nofun
  unsent _ _ _ _ _ := ⟨nofun, nofun⟩
  got _ _ _ hi := by cases hi

theorem linked_turn (h : Linked setup s) (ht : Turn setup s t) : Linked setup t where
  tokens := tokens_turn h ht
  validated := validated_turn h ht
  requested := requested_turn h ht
  nodup := nodup_turn h ht
  shown := shown_turn h ht
  waiting := waiting_turn h ht
  unanswered := unanswered_turn h ht
  answered := answered_turn h ht
  received := received_turn h ht
  ended := ended_turn h ht
  running := running_turn h ht
  unsent := unsent_turn h ht
  got := got_turn h ht

/-! ## The log is lawful -/

omit [DecidableEq C] in
theorem plan_connect {profile : ProviderProfile} {cancellation : Nat} {refs : List SecretRef}
    (h : (Call.connect profile cancellation).plan = .ok refs) :
    ∃ checked, checkProfile profile = .ok checked := by
  have h : (checkProfile profile).map _ = .ok refs := h
  cases hchecked : checkProfile profile with
  | error e => simp [hchecked, Except.map] at h
  | ok checked => exact ⟨checked, rfl⟩

omit [Providers] [DecidableEq C] in
/-- The request that a call is about has not ended. -/
theorem current_unended (h : Linked setup s) {c : C} {i : Nat}
    (hc : (s.phase c).current = some i) : ¬ Ended s.log (c, i) := by
  rw [← h.ended]
  exact h.running c i (unended_current hc) i (Nat.le_refl i)

theorem lawful_turn (h : Linked setup s) (hlaw : Lawful setup s.log) (ht : Turn setup s t) :
    Lawful setup t.log := by
  cases ht with
  | reject | receive | leave | skip | close => exact hlaw
  | @validate c refs hphase hplan =>
    refine hlaw.append fun profile cancellation hcall => ?_
    rw [hcall] at hplan
    exact plan_connect hplan
  | request hphase => exact hlaw.append (h.validated _ _ (congrArg Phase.current hphase))
  | fail hcurrent => exact hlaw.append (current_unended h hcurrent)
  | abandon hcurrent => exact hlaw.append (current_unended h hcurrent)
  | @succeed c secrets rest secret hphase hcancelled =>
    refine hlaw.append ⟨current_unended h (congrArg Phase.current hphase), ?_, fun hlog => ?_⟩
    · exact h.received c secrets rest _ hphase
    · exact hcancelled (h.tokens _ hlog)
  | cancel => exact hlaw.append trivial
  | @present id requests hrequests hwaiting =>
    obtain ⟨hrequested, hunshown⟩ := h.requested id (hrequests ▸ List.mem_cons_self ..)
    refine hlaw.append ⟨hrequested, fun hshown => hunshown ((h.shown id).mpr hshown), ?_⟩
    exact (h.waiting id hwaiting).2.2
  | @answer id resolution hshown hwaiting =>
    exact hlaw.append ⟨(h.shown id).mp hshown, iff_of_true rfl (h.waiting id hwaiting)⟩
  | @refuse id resolution hshown hwaiting =>
    refine hlaw.append ⟨(h.shown id).mp hshown, iff_of_false nofun fun hu => ?_⟩
    exact hwaiting (h.unanswered id hshown hu)
  | discard => exact hlaw.append trivial

theorem lawful_reach (h : Reach (step setup) (fun _ _ => True) (initial C) s) :
    Linked setup s ∧ Lawful setup s.log := by
  refine h.invariant (I := fun s => Linked setup s ∧ Lawful setup s.log) ⟨linked_initial, ?_⟩ ?_
  · intro before event after hlog
    cases before <;> cases hlog
  · intro t a t' ⟨hlinked, hlaw⟩ _ hstep
    have ht := step_turn hstep
    exact ⟨linked_turn hlinked ht, lawful_turn hlinked hlaw ht⟩

/-- What holds whenever the calls, the host and the cancellations have taken some steps. -/
structure Answered (setup : Setup C) (s : State C) : Prop where
  lawful : Lawful setup s.log
  /-- The secrets that a call ends with are those of its requests. -/
  secrets : ∀ c secrets, s.phase c = .returned (.ok secrets) → ∀ i secret,
    secrets[i]? = some secret → .returned (c, i) (.ok secret) ∈ s.log
  /-- A late or second answer is refused, and nothing else happens. -/
  refused : ∀ id ∈ s.shown, ¬ Unanswered s.log id → ∀ resolution,
    step setup s (.answer id resolution) = some (s.record (.answered id resolution false))
  /-- A request that has ended is dropped when the host takes it. -/
  skipped : ∀ id requests, s.requests = id :: requests → Ended s.log id →
    step setup s .recv = some { s with requests }

/-- Along every run of the calls, the host and the cancellations. -/
theorem requests_answered (h : Reach (step setup) (fun _ _ => True) (initial C) s) :
    Answered setup s := by
  obtain ⟨hlinked, hlaw⟩ := lawful_reach h
  refine ⟨hlaw, fun c secrets hc i secret hi => ?_, fun id hshown hanswered resolution => ?_, ?_⟩
  · refine hlinked.got c i secret ?_
    rw [hc]
    exact hi
  · have hlease : s.lease id ≠ .waiting := fun hw => hanswered (hlinked.waiting id hw)
    show answerStep s id resolution = _
    rw [answerStep, if_pos hshown, if_neg hlease]
  · intro id requests hrequests hended
    have hlease : s.lease id ≠ .waiting := by
      rw [(hlinked.ended id).mpr hended]
      nofun
    show recvStep s = _
    unfold recvStep
    rw [hrequests]
    exact if_neg hlease

end Answers

/-! ## Two calls -/

section Calls

local instance answersUrls : Urls := connectUrls

local instance answersUuids : Uuids := connectUuids

local instance answersProviders : Providers := connectProviders

def keyRef : SecretRef := .new .secretService _ (by decide) (decide_eq_true rfl)

/-- A call of `connect` for a profile with a key, and one of `resolve`. -/
def keyCalls : Setup Bool where
  calls connect :=
    if connect then .connect { workProfile with secretRef := some keyRef } 1
    else .resolve keyRef 2
  capacity := 1

/-- The call of `connect` gets the key, and its lease a second answer; the other call is cancelled
while its request is queued. -/
def keyRun : List (Action Bool) :=
  let key : Action Bool := .answer (true, 0) (.provided "key".toList)
  [.call true, .call true, .recv, key, .call true, .call true, key, .call false, .call false,
    .cancel 2, .call false, .recv]

theorem requests_answered_twice :
    ∃ s, run (step keyCalls) (initial Bool) keyRun = some s ∧ s.shown = [(true, 0)] ∧
      s.requests = [] ∧ s.log.length = 10 ∧ Answered keyCalls s := by
  have h : (run (step keyCalls) (initial Bool) keyRun).any (fun s =>
      s.shown = [(true, 0)] ∧ s.requests = [] ∧ s.log.length = 10) := by
    decide +kernel
  obtain ⟨s, hs, h⟩ := (Option.any_eq_true _ _).mp h
  obtain ⟨hshown, hrequests, hlog⟩ := of_decide_eq_true h
  have hreach := Reach.of_run hs (meets_of_forall (fun _ _ => trivial) _)
  exact ⟨s, hs, hshown, hrequests, hlog, requests_answered hreach⟩

/-- A request is neither shown nor takes an answer once its token is cancelled. -/
def Silent {C : Type} (setup : Setup C) (log : List (Event C)) : Prop :=
  ∀ before event after, log = before ++ event :: after →
    (∀ id, event = .shown id → .cancelled (setup.calls id.1).cancellation ∉ before) ∧
      ∀ id resolution, event = .answered id resolution true →
        .cancelled (setup.calls id.1).cancellation ∉ before

/-- The host takes the request and answers it before the call has noticed that it is cancelled. -/
def lateRun : List (Action Bool) :=
  [.call false, .call false, .cancel 2, .recv, .answer (false, 0) (.provided "key".toList),
    .call false]

theorem cancelled_shown :
    ∃ s, run (step keyCalls) (initial Bool) lateRun = some s ∧
      s.log = [.validated false, .requested (false, 0), .cancelled 2, .shown (false, 0),
        .answered (false, 0) (.provided "key".toList) true,
        .returned (false, 0) (.error cancelledError)] ∧
      ¬ Silent keyCalls s.log := by
  refine ⟨_, rfl, rfl, fun hsilent => ?_⟩
  refine (hsilent [.validated false, .requested (false, 0), .cancelled 2] _ _ rfl).1 _ rfl ?_
  exact List.mem_cons_of_mem _ (List.mem_cons_of_mem _ (List.mem_cons_self ..))

end Calls

end LinguaMesh.Application.Broker
