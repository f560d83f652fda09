import LinguaMesh.Domain.Request
import LinguaMesh.Domain.Usage

/-!
# The translation engine

The task that `translate_with_sequence_offset` spawns: it sends `Started`, then
a `TextDelta` for each text of the provider's stream, then one terminal event.
The sequence number is a `u64` that is incremented after each event but the
last; `orderly_iff` says that the events follow the protocol exactly when no
increment overflows.
-/

namespace LinguaMesh.Engine

open Search

inductive TranslationStreamEvent where
  | text (text : Str)
  | usage (usage : UsageRecord)
  deriving DecidableEq, Repr

abbrev Item := Except TranslationError TranslationStreamEvent

inductive TranslationEvent where
  | started (sequence : UInt64)
  | textDelta (sequence : UInt64) (text : Str)
  | completed (sequence : UInt64) (usage : Option UsageRecord)
  | cancelled (sequence : UInt64)
  | failed (sequence : UInt64) (error : TranslationError)
  deriving DecidableEq, Repr

namespace TranslationEvent

def sequence : TranslationEvent → UInt64
  | started sequence | textDelta sequence _ | completed sequence _ | cancelled sequence
  | failed sequence _ => sequence

def isTerminal : TranslationEvent → Bool
  | completed _ _ | cancelled _ | failed _ _ => true
  | _ => false

def isCompleted : TranslationEvent → Bool
  | completed _ _ => true
  | _ => false

/-- The text of a `TextDelta`. -/
def deltaText : TranslationEvent → Str
  | textDelta _ text => text
  | _ => []

end TranslationEvent

/-! ## The task -/

def mergeUsageRecords (previous next : UsageRecord) : UsageRecord :=
  .providerReported (next.inputTokens.or previous.inputTokens)
    (next.outputTokens.or previous.outputTokens) (next.totalTokens.or previous.totalTokens)

/-- The usage so far with a further record. -/
def addUsage (providerUsage : Option UsageRecord) (usage : UsageRecord) : UsageRecord :=
  match providerUsage with
  | some previous => mergeUsageRecords previous usage
  | none => usage

def validateTranslationOutput (request : TranslationRequest) (output : Str) :
    Except TranslationError Unit :=
  if (trim request.sourceText).isEmpty then .ok ()
  else if (trim output).isEmpty then
    .error (.new .malformedResponse "Provider returned an empty translation.")
  else if output.contains '\uFFFD' then
    .error (.new .malformedResponse "Provider returned invalid UTF-8 replacement characters.")
  else .ok ()

/-- The event of `send_error_terminal`. -/
def errorTerminal (sequence : UInt64) (error : TranslationError) : TranslationEvent :=
  if error.kind = .cancelled then .cancelled sequence else .failed sequence error

/-- `sequence += 1`, `none` for the panic of a build that checks for overflow. -/
def increment (checked : Bool) (sequence : UInt64) : Option UInt64 :=
  if checked && sequence.toNat + 1 = 2 ^ 64 then none else some (sequence + 1)

/-- What the task has done when it ends. -/
structure Work where
  events : List TranslationEvent
  /-- The text passed to `validate_translation_output`, if it is called. -/
  validated : Option Str
  /-- The task cancels the provider's operation because the receiver is gone. -/
  cancelled : Bool
  panicked : Bool
  deriving DecidableEq, Repr

section

variable (checked : Bool) (receiving : Nat → Bool) (request : TranslationRequest)

/-- A last event, whose loss does not matter. `receiving k` says whether the receiver is there for
the `k`-th event. -/
def sendLast (sent : List TranslationEvent) (event : TranslationEvent) (validated : Option Str) :
    Work :=
  ⟨if receiving sent.length then sent ++ [event] else sent, validated, false, false⟩

def finish (sequence : UInt64) (output : Str) (providerUsage : Option UsageRecord)
    (sent : List TranslationEvent) : Work :=
  match validateTranslationOutput request output with
  | .error error => sendLast receiving sent (errorTerminal sequence error) (some output)
  | .ok () =>
    let usage := providerUsage.or (some (.locallyEstimated request.sourceText output))
    sendLast receiving sent (.completed sequence usage) (some output)

def streamLoop : List Item → UInt64 → Str → Option UsageRecord → List TranslationEvent → Work
  | [], sequence, output, providerUsage, sent =>
    finish receiving request sequence output providerUsage sent
  | .ok (.text text) :: items, sequence, output, providerUsage, sent =>
    let output := output ++ text
    if receiving sent.length then
      let sent := sent ++ [.textDelta sequence text]
      match increment checked sequence with
      | some sequence => streamLoop items sequence output providerUsage sent
      | none => ⟨sent, none, false, true⟩
    else ⟨sent, none, true, false⟩
  | .ok (.usage usage) :: items, sequence, output, providerUsage, sent =>
    streamLoop items sequence output (some (addUsage providerUsage usage)) sent
  | .error error :: _, sequence, _, _, sent =>
    sendLast receiving sent (errorTerminal sequence error) none

/-- The task, where the provider answers `outcome`: an error or the items of its stream. -/
def translate (offset : UInt64) (outcome : Except TranslationError (List Item)) : Work :=
  if receiving 0 then
    let sent := [.started offset]
    match increment checked offset with
    | none => ⟨sent, none, false, true⟩
    | some sequence =>
      match request.validate with
      | .error error => sendLast receiving sent (errorTerminal sequence error) none
      | .ok () =>
        match outcome with
        | .error error => sendLast receiving sent (errorTerminal sequence error) none
        | .ok items => streamLoop checked receiving request items sequence [] none sent
  else ⟨[], none, true, false⟩

end

/-! ## The protocol -/

/-- The texts before the first error of the stream. -/
def texts : List Item → List Str
  | [] => []
  | .ok (.text text) :: items => text :: texts items
  | .ok (.usage _) :: items => texts items
  | .error _ :: _ => []

/-- The first error of the stream. -/
def streamError : List Item → Option TranslationError
  | [] => none
  | .ok _ :: items => streamError items
  | .error error :: _ => some error

/-- The texts that are sent. -/
def sentTexts (request : TranslationRequest) : Except TranslationError (List Item) → List Str
  | .error _ => []
  | .ok items =>
    match request.validate with
    | .error _ => []
    | .ok () => texts items

/-- The error that ends the run. -/
def endingError (request : TranslationRequest) (outcome : Except TranslationError (List Item)) :
    Option TranslationError :=
  match request.validate with
  | .error error => some error
  | .ok () =>
    match outcome with
    | .error error => some error
    | .ok items =>
      match streamError items with
      | some error => some error
      | none =>
        match validateTranslationOutput request (texts items).flatten with
        | .error error => some error
        | .ok () => none

/-- The request is valid, the stream comes and ends without an error, and the output of a source
that is not blank is not blank and has no replacement character. -/
def Succeeds (request : TranslationRequest) (outcome : Except TranslationError (List Item)) : Prop :=
  request.validate = .ok () ∧ ∃ items, outcome = .ok items ∧
    (∀ item ∈ items, ∃ event, item = .ok event) ∧
    (trim request.sourceText ≠ [] →
      trim (texts items).flatten ≠ [] ∧ '\uFFFD' ∉ (texts items).flatten)

structure Orderly (request : TranslationRequest) (offset : UInt64)
    (outcome : Except TranslationError (List Item)) (work : Work) : Prop where
  started : work.events.head? = some (.started offset)
  consecutive : ∀ k event, work.events[k]? = some event →
    event.sequence.toNat = offset.toNat + k
  terminal : ∃ before last, work.events = before ++ [last] ∧ last.isTerminal = true ∧
    ∀ event ∈ before, event.isTerminal = false
  /-- The deltas are the text that is validated, which a completed run validates. -/
  deltas : (∀ text, work.validated = some text → work.events.flatMap (·.deltaText) = text) ∧
    (Succeeds request outcome → work.validated.isSome)
  completed : (∃ event ∈ work.events, event.isCompleted = true) ↔ Succeeds request outcome
  /-- Else the last event is that of the error that ends the run. -/
  failed : ¬ Succeeds request outcome → ∃ error sequence, endingError request outcome = some error ∧
    work.events.getLast? = some (if error.kind = .cancelled then .cancelled sequence
      else .failed sequence error)

/-! ## The events of a run -/

/-- The deltas of the texts, numbered from `sequence`. -/
def numbered : UInt64 → List Str → List TranslationEvent
  | _, [] => []
  | sequence, text :: texts => .textDelta sequence text :: numbered (sequence + 1) texts

/-- The event that ends a run after which `error`, if any, is left. -/
def Closes (error : Option TranslationError) (sequence : UInt64) (last : TranslationEvent) : Prop :=
  match error with
  | some error => last = errorTerminal sequence error
  | none => ∃ usage, last = .completed sequence usage

/-- The error of the stream, or of the output that it gives after `output`. -/
def streamEnd (request : TranslationRequest) (output : Str) (items : List Item) :
    Option TranslationError :=
  match streamError items with
  | some error => some error
  | none =>
    match validateTranslationOutput request (output ++ (texts items).flatten) with
    | .error error => some error
    | .ok () => none

theorem increment_ok {checked : Bool} {sequence : UInt64}
    (h : checked = false ∨ sequence.toNat + 1 < 2 ^ 64) :
    increment checked sequence = some (sequence + 1) := by
  unfold increment
  rw [if_neg]
  simp only [Bool.and_eq_true, decide_eq_true_eq, not_and]
  rintro rfl he
  rcases h with h | h
  · cases h
  · omega

theorem increment_panics {sequence : UInt64} (h : 2 ^ 64 ≤ sequence.toNat + 1) :
    increment true sequence = none := by
  have := sequence.toNat_lt
  rw [increment, if_pos (by simp; omega)]

theorem toNat_succ {sequence : UInt64} (h : sequence.toNat + 1 < 2 ^ 64) :
    (sequence + 1).toNat = sequence.toNat + 1 := by
  rw [UInt64.toNat_add, UInt64.toNat_one, Nat.mod_eq_of_lt h]

section

variable {checked : Bool} {request : TranslationRequest}

theorem finish_closes (request : TranslationRequest) (sequence : UInt64) (output : Str) (usage : Option UsageRecord)
    (sent : List TranslationEvent) : ∃ last,
      finish (fun _ => true) request sequence output usage sent =
        ⟨sent ++ [last], some output, false, false⟩ ∧
      Closes (streamEnd request output []) sequence last := by
  unfold finish
  simp only [streamEnd, streamError, texts, List.flatten_nil, List.append_nil, sendLast]
  cases validateTranslationOutput request output with
  | error error => exact ⟨_, rfl, rfl⟩
  | ok u => exact ⟨_, rfl, _, rfl⟩

/-- Without overflow the loop sends a delta for each text, and one event after them. -/
theorem streamLoop_sent (request : TranslationRequest) {items : List Item} {sequence : UInt64} (output : Str)
    (usage : Option UsageRecord) (sent : List TranslationEvent)
    (h : checked = false ∨ sequence.toNat + (texts items).length < 2 ^ 64) : ∃ last,
      streamLoop checked (fun _ => true) request items sequence output usage sent =
        ⟨sent ++ numbered sequence (texts items) ++ [last],
          (match streamError items with
            | some _ => none
            | none => some (output ++ (texts items).flatten)), false, false⟩ ∧
      Closes (streamEnd request output items)
        (sequence + UInt64.ofNat (texts items).length) last := by
  fun_induction texts items generalizing sequence output usage sent with
  | case1 =>
    obtain ⟨last, h1, h2⟩ := finish_closes request sequence output usage sent
    refine ⟨last, ?_, ?_⟩
    · simpa [streamLoop, numbered, streamError] using h1
    · simpa using h2
  | case2 text items ih =>
    have hinc : increment checked sequence = some (sequence + 1) := by
      refine increment_ok (h.imp_right fun h => ?_)
      rw [List.length_cons] at h
      omega
    have h' : checked = false ∨ (sequence + 1).toNat + (texts items).length < 2 ^ 64 := by
      refine h.imp_right fun h => ?_
      rw [List.length_cons] at h
      rw [toNat_succ (by omega)]
      omega
    obtain ⟨last, h1, h2⟩ := ih (output ++ text) usage (sent ++ [.textDelta sequence text]) h'
    refine ⟨last, ?_, ?_⟩
    · simp only [streamLoop, ↓reduceIte, hinc, h1, streamError, numbered, List.flatten_cons,
        List.append_assoc, List.cons_append, List.nil_append]
    · have hseq : sequence + 1 + UInt64.ofNat (texts items).length =
          sequence + UInt64.ofNat (text :: texts items).length := by
        rw [List.length_cons, UInt64.ofNat_add, UInt64.add_assoc,
          UInt64.add_comm (UInt64.ofNat (texts items).length)]
        rfl
      rw [hseq] at h2
      simpa only [streamEnd, streamError, texts, List.flatten_cons, List.append_assoc] using h2
  | case3 record items ih =>
    obtain ⟨last, h1, h2⟩ := ih output (some (addUsage usage record)) sent h
    exact ⟨last, by simpa only [streamLoop, streamError] using h1,
      by simpa only [streamEnd, streamError, texts] using h2⟩
  | case4 error items =>
    refine ⟨errorTerminal sequence error, ?_, ?_⟩
    · simp [streamLoop, sendLast, numbered, streamError]
    · simp [streamEnd, streamError, Closes]

/-- With an overflow that is checked no last event is sent. -/
theorem streamLoop_panics {items : List Item} {sequence : UInt64} (output : Str)
    (usage : Option UsageRecord) (sent : List TranslationEvent)
    (h : 2 ^ 64 ≤ sequence.toNat + (texts items).length)
    (hsent : ∀ event ∈ sent, event.isTerminal = false) :
    ∀ event ∈ (streamLoop true (fun _ => true) request items sequence output usage sent).events,
      event.isTerminal = false := by
  fun_induction texts items generalizing sequence output usage sent with
  | case1 =>
    have := sequence.toNat_lt
    rw [List.length_nil] at h
    omega
  | case2 text items ih =>
    have hsent' : ∀ event ∈ sent ++ [.textDelta sequence text], event.isTerminal = false := by
      intro event hevent
      rcases List.mem_append.mp hevent with hevent | hevent
      · exact hsent event hevent
      · rw [List.mem_singleton.mp hevent]
        rfl
    rw [List.length_cons] at h
    by_cases hlt : sequence.toNat + 1 < 2 ^ 64
    · simp only [streamLoop, ↓reduceIte, increment_ok (.inr hlt)]
      refine ih (output ++ text) usage _ ?_ hsent'
      rw [toNat_succ hlt]
      omega
    · simpa only [streamLoop, ↓reduceIte, increment_panics (Nat.le_of_not_lt hlt)] using hsent'
  | case3 record items ih => exact ih output (some (addUsage usage record)) sent h hsent
  | case4 error items =>
    have := sequence.toNat_lt
    rw [List.length_nil] at h
    omega

/-- What a run sends that does not panic. -/
structure Sends (request : TranslationRequest) (offset : UInt64)
    (outcome : Except TranslationError (List Item)) (work : Work) (last : TranslationEvent) :
    Prop where
  events : work.events =
    .started offset :: (numbered (offset + 1) (sentTexts request outcome) ++ [last])
  closes : Closes (endingError request outcome)
    (offset + 1 + UInt64.ofNat (sentTexts request outcome).length) last
  validated : ∀ text, work.validated = some text → text = (sentTexts request outcome).flatten
  succeeds : endingError request outcome = none → work.validated.isSome

theorem translate_sends {offset : UInt64} {outcome : Except TranslationError (List Item)}
    (h : checked = false ∨ offset.toNat + 1 + (sentTexts request outcome).length < 2 ^ 64) :
    ∃ last, Sends request offset outcome
      (translate checked (fun _ => true) request offset outcome) last := by
  have hinc : increment checked offset = some (offset + 1) :=
    increment_ok (h.imp_right fun h => by omega)
  unfold translate
  simp only [↓reduceIte, hinc]
  cases hv : request.validate with
  | error error =>
    have ht : sentTexts request outcome = [] := by
      cases outcome <;> simp [sentTexts, hv]
    have he : endingError request outcome = some error := by simp [endingError, hv]
    refine ⟨errorTerminal (offset + 1) error, ?_⟩
    constructor <;> simp [sendLast, ht, he, numbered, Closes]
  | ok u =>
    cases outcome with
    | error error =>
      have he : endingError request (.error error) = some error := by simp [endingError, hv]
      refine ⟨errorTerminal (offset + 1) error, ?_⟩
      constructor <;> simp [sendLast, sentTexts, he, numbered, Closes]
    | ok items =>
      have ht : sentTexts request (.ok items) = texts items := by simp [sentTexts, hv]
      have he : endingError request (.ok items) = streamEnd request [] items := by
        simp [endingError, hv, streamEnd]
      have h' : checked = false ∨ (offset + 1).toNat + (texts items).length < 2 ^ 64 := by
        refine h.imp_right fun h => ?_
        rw [ht] at h
        rw [toNat_succ (by omega)]
        exact h
      obtain ⟨last, h1, h2⟩ := streamLoop_sent request [] none [.started offset] h'
      refine ⟨last, ?_, ?_, ?_, ?_⟩
      · simp [h1, ht]
      · rw [he, ht]
        exact h2
      · intro text htext
        simp only [h1] at htext
        split at htext
        · cases htext
        · rw [ht, ← Option.some.inj htext, List.nil_append]
      · intro hnone
        rw [he, streamEnd] at hnone
        cases hs : streamError items with
        | some error => simp [hs] at hnone
        | none => simp [h1, hs]

theorem translate_panics {offset : UInt64} {outcome : Except TranslationError (List Item)}
    (h : 2 ^ 64 ≤ offset.toNat + 1 + (sentTexts request outcome).length) :
    ∀ event ∈ (translate true (fun _ => true) request offset outcome).events,
      event.isTerminal = false := by
  have hstarted : ∀ event ∈ [TranslationEvent.started offset], event.isTerminal = false := by
    simp [TranslationEvent.isTerminal]
  unfold translate
  simp only [↓reduceIte]
  by_cases hlt : offset.toNat + 1 < 2 ^ 64
  · rw [increment_ok (.inr hlt)]
    cases hv : request.validate with
    | error error =>
      have ht : sentTexts request outcome = [] := by cases outcome <;> simp [sentTexts, hv]
      rw [ht, List.length_nil] at h
      omega
    | ok u =>
      cases outcome with
      | error error =>
        simp only [sentTexts, List.length_nil] at h
        omega
      | ok items =>
        simp only [sentTexts, hv] at h
        refine streamLoop_panics [] none _ ?_ hstarted
        rw [toNat_succ hlt]
        exact h
  · rw [increment_panics (Nat.le_of_not_lt hlt)]
    exact hstarted

end

/-! ## The result -/

theorem numbered_at {sequence : UInt64} {texts : List Str} {k : Nat} {event : TranslationEvent}
    (h : (numbered sequence texts)[k]? = some event) :
    event.sequence = sequence + UInt64.ofNat k := by
  induction texts generalizing sequence k with
  | nil => cases h
  | cons text texts ih =>
    cases k with
    | zero =>
      cases h
      simp [TranslationEvent.sequence]
    | succ k =>
      rw [numbered, List.getElem?_cons_succ] at h
      rw [ih h, UInt64.ofNat_add, UInt64.add_assoc, UInt64.add_comm (UInt64.ofNat k)]
      rfl

theorem numbered_length (sequence : UInt64) (texts : List Str) :
    (numbered sequence texts).length = texts.length := by
  induction texts generalizing sequence with
  | nil => rfl
  | cons text texts ih => rw [numbered, List.length_cons, ih, List.length_cons]

theorem mem_numbered {sequence : UInt64} {texts : List Str} {event : TranslationEvent}
    (h : event ∈ numbered sequence texts) :
    event.isTerminal = false ∧ event.isCompleted = false := by
  induction texts generalizing sequence with
  | nil => cases h
  | cons text texts ih =>
    rcases List.mem_cons.mp h with rfl | h
    · exact ⟨rfl, rfl⟩
    · exact ih h

theorem numbered_texts (sequence : UInt64) (texts : List Str) :
    (numbered sequence texts).flatMap (·.deltaText) = texts.flatten := by
  induction texts generalizing sequence with
  | nil => rfl
  | cons text texts ih =>
    rw [numbered, List.flatMap_cons, ih, List.flatten_cons]
    rfl

theorem Closes.spec {error : Option TranslationError} {sequence : UInt64} {last : TranslationEvent}
    (h : Closes error sequence last) : last.sequence = sequence ∧ last.isTerminal = true ∧
      last.deltaText = [] ∧ (last.isCompleted = true ↔ error = none) := by
  cases error with
  | none =>
    obtain ⟨usage, rfl⟩ := h
    exact ⟨rfl, rfl, rfl, by simp [TranslationEvent.isCompleted]⟩
  | some error =>
    obtain rfl : last = errorTerminal sequence error := h
    unfold errorTerminal
    split <;> exact ⟨rfl, rfl, rfl, by simp [TranslationEvent.isCompleted]⟩

theorem streamError_none {items : List Item} :
    streamError items = none ↔ ∀ item ∈ items, ∃ event, item = .ok event := by
  fun_induction streamError items with
  | case1 => simp
  | case2 event items ih => simp [ih]
  | case3 error items => simp

theorem validateTranslationOutput_ok {request : TranslationRequest} {output : Str} :
    validateTranslationOutput request output = .ok () ↔
      (trim request.sourceText ≠ [] → trim output ≠ [] ∧ '�' ∉ output) := by
  unfold validateTranslationOutput
  split
  · simp_all
  · split
    · simp_all
    · split <;> simp_all

theorem succeeds_iff {request : TranslationRequest}
    {outcome : Except TranslationError (List Item)} :
    Succeeds request outcome ↔ endingError request outcome = none := by
  unfold Succeeds endingError
  cases request.validate with
  | error error => simp
  | ok u =>
    cases outcome with
    | error error => simp
    | ok items =>
      have hv := @validateTranslationOutput_ok request (texts items).flatten
      simp only [Except.ok.injEq, exists_eq_left', true_and, ← hv, ← streamError_none]
      cases streamError items with
      | some error => simp
      | none => cases validateTranslationOutput request (texts items).flatten <;> simp

theorem Sends.at {request : TranslationRequest} {offset : UInt64}
    {outcome : Except TranslationError (List Item)} {work : Work} {last : TranslationEvent}
    (h : Sends request offset outcome work last) {k : Nat} {event : TranslationEvent}
    (hk : work.events[k]? = some event) : event.sequence = offset + UInt64.ofNat k := by
  rw [h.events] at hk
  cases k with
  | zero =>
    cases hk
    simp [TranslationEvent.sequence]
  | succ k =>
    rw [List.getElem?_cons_succ] at hk
    have hsucc : offset + 1 + UInt64.ofNat k = offset + UInt64.ofNat (k + 1) := by
      rw [UInt64.ofNat_add, UInt64.add_assoc, UInt64.add_comm (UInt64.ofNat k)]
      rfl
    rw [← hsucc]
    by_cases hlt : k < (numbered (offset + 1) (sentTexts request outcome)).length
    · rw [List.getElem?_append_left hlt] at hk
      exact numbered_at hk
    · rw [List.getElem?_append_right (Nat.le_of_not_lt hlt)] at hk
      rw [List.getElem?_singleton] at hk
      split at hk
      · cases hk
        rw [h.closes.spec.1, show k = (sentTexts request outcome).length by
          rw [numbered_length] at *
          omega]
      · cases hk

theorem Sends.orderly {request : TranslationRequest} {offset : UInt64}
    {outcome : Except TranslationError (List Item)} {work : Work} {last : TranslationEvent}
    (h : Sends request offset outcome work last)
    (hlt : offset.toNat + 1 + (sentTexts request outcome).length < 2 ^ 64) :
    Orderly request offset outcome work := by
  obtain ⟨hseq, hterm, htext, hcomp⟩ := h.closes.spec
  have hconcat : work.events.flatMap (·.deltaText) = (sentTexts request outcome).flatten := by
    rw [h.events, List.flatMap_cons, List.flatMap_append, numbered_texts, List.flatMap_singleton,
      htext, List.append_nil]
    rfl
  have hlast : work.events.getLast? = some last := by
    rw [h.events, ← List.cons_append, List.getLast?_concat]
  refine ⟨by rw [h.events]; rfl, fun k event hk => ?_, ?_, ⟨fun text ht => ?_, fun hs => ?_⟩, ?_,
    fun hs => ?_⟩
  · -- an event's number is at most the last one, which does not wrap
    have hlen := (List.getElem?_eq_some_iff.mp hk).1
    rw [h.events, List.length_cons, List.length_append, numbered_length,
      List.length_singleton] at hlen
    rw [h.at hk, UInt64.toNat_add, UInt64.toNat_ofNat', Nat.mod_eq_of_lt (show k < 2 ^ 64 by omega),
      Nat.mod_eq_of_lt (by omega)]
  · refine ⟨_, last, by rw [h.events, ← List.cons_append], hterm, fun event hevent => ?_⟩
    rcases List.mem_cons.mp hevent with rfl | hevent
    · rfl
    · exact (mem_numbered hevent).1
  · rw [hconcat, h.validated text ht]
  · exact h.succeeds (succeeds_iff.mp hs)
  · rw [succeeds_iff, ← hcomp, h.events]
    constructor
    · rintro ⟨event, hevent, hc⟩
      simp only [List.mem_cons, List.mem_append, List.not_mem_nil, or_false] at hevent
      rcases hevent with rfl | hevent | rfl
      · cases hc
      · rw [(mem_numbered hevent).2] at hc
        cases hc
      · exact hc
    · exact fun hc => ⟨last, by simp, hc⟩
  · rw [succeeds_iff] at hs
    obtain ⟨error, he⟩ := Option.ne_none_iff_exists'.mp hs
    have hclose := h.closes
    rw [he] at hclose
    exact ⟨error, _, he, by rw [hlast, show last = errorTerminal _ error from hclose]; rfl⟩

/-- The events of a run follow the protocol exactly when the number of its last event is below
`2 ^ 64`, whether the build checks for overflow or not. -/
theorem orderly_iff (checked : Bool) (request : TranslationRequest) (offset : UInt64)
    (outcome : Except TranslationError (List Item)) :
    Orderly request offset outcome (translate checked (fun _ => true) request offset outcome) ↔
      offset.toNat + 1 + (sentTexts request outcome).length < 2 ^ 64 := by
  constructor
  · intro h
    by_contra hover
    rw [Nat.not_lt] at hover
    cases checked with
    | true =>
      obtain ⟨before, last, he, hterm, -⟩ := h.terminal
      have := translate_panics hover last (by rw [he]; simp)
      rw [this] at hterm
      cases hterm
    | false =>
      obtain ⟨last, hs⟩ : ∃ last, Sends request offset outcome
          (translate false (fun _ => true) request offset outcome) last := translate_sends (.inl rfl)
      have hk := h.consecutive ((sentTexts request outcome).length + 1) last (by
        rw [hs.events, List.getElem?_cons_succ, List.getElem?_append_right
          (Nat.le_of_eq (numbered_length ..)), numbered_length, Nat.sub_self]
        rfl)
      have := last.sequence.toNat_lt
      omega
  · intro hlt
    obtain ⟨last, hs⟩ : ∃ last, Sends request offset outcome
        (translate checked (fun _ => true) request offset outcome) last := translate_sends (.inr hlt)
    exact hs.orderly hlt

/-- A greeting and its translation in one text. -/
def greeting : TranslationRequest := ⟨"Hi".toList, .general⟩

def greetingStream : Except TranslationError (List Item) := .ok [.ok (.text "Hallo".toList)]

/-- The greeting from the greatest offset on: a build that checks for overflow ends after the first
event, and in one that does not the delta has the number zero. -/
theorem disorderly :
    ¬ Orderly greeting 18446744073709551615 greetingStream
      (translate true (fun _ => true) greeting 18446744073709551615 greetingStream) ∧
    ¬ Orderly greeting 18446744073709551615 greetingStream
      (translate false (fun _ => true) greeting 18446744073709551615 greetingStream) := by
  constructor
  · intro h
    have hone : (translate true (fun _ => true) greeting 18446744073709551615
        greetingStream).events = [.started 18446744073709551615] := by decide
    obtain ⟨before, last, he, hterm, -⟩ := h.terminal
    have hlast : last ∈ [TranslationEvent.started 18446744073709551615] := by
      rw [← hone, he]
      simp
    rw [List.mem_singleton.mp hlast] at hterm
    cases hterm
  · intro h
    have htwo : (translate false (fun _ => true) greeting 18446744073709551615
        greetingStream).events[1]? = some (.textDelta 0 "Hallo".toList) := by decide
    exact absurd (h.consecutive 1 _ htwo) (by decide)

end LinguaMesh.Engine
