import LinguaMesh.Provider.ChunkStream
import LinguaMesh.Provider.Text

/-!
# The Gemini stream

An event may have text in several parts of several candidates, usage and a finish reason.
`parseEvent` makes one of six messages of it, and `receiveLoop`, the loop of
`translate_protected_stream`, handles each kind by itself.

`event_handed` says what the loop hands on of an event, whatever its message. By it no text is
lost up to the first event that finishes, nor the usage of that event (`stream_kept`).
-/

namespace LinguaMesh.Gemini

open OpenAi (Forwarded endedEarly tooLarge restoredItems)
open Framing

def maxResponseBytes : Nat := 1024 * 1024

structure ResponsePart where
  text : Option Str
  deriving DecidableEq, Repr

structure ResponseContent where
  parts : List ResponsePart
  deriving DecidableEq, Repr

structure Candidate where
  content : Option ResponseContent
  finishReason : Option Str
  deriving DecidableEq, Repr

/-- `UsageMetadata` has the three fields of the other providers' usage, under other names. -/
structure StreamResponse where
  candidates : List Candidate
  usageMetadata : Option UsageResponse
  deriving DecidableEq, Repr

inductive SseMessage where
  | delta (text : Str)
  | deltaAndDone (text : Str)
  | deltaAndUsageAndDone (text : Str) (record : UsageRecord)
  | usage (record : UsageRecord)
  | usageAndDone (record : UsageRecord)
  | done
  deriving DecidableEq, Repr

/-- The parts of the candidates that have content. -/
def StreamResponse.parts (response : StreamResponse) : List ResponsePart :=
  (response.candidates.filterMap (·.content)).flatMap (·.parts)

/-- The loop over the parts. -/
def pushParts (output : Str) (parts : List ResponsePart) : Str :=
  parts.foldl (fun output part => match part.text with
    | some text => output ++ text
    | none => output) output

def StreamResponse.finished (response : StreamResponse) : Bool :=
  response.candidates.any (·.finishReason.isSome)

/-- How `parse_event` ends. Usage next to text that does not finish is dropped. -/
def messageOf (output : Str) (finished : Bool) (usageMetadata : Option UsageResponse) : SseMessage :=
  match usageMetadata with
  | some usage =>
    if finished then
      if output.isEmpty then .usageAndDone usage.intoRecord
      else .deltaAndUsageAndDone output usage.intoRecord
    else if output.isEmpty then .usage usage.intoRecord
    else .delta output
  | none =>
    if finished then if output.isEmpty then .done else .deltaAndDone output
    else .delta output

section Decoder

variable [FromJson StreamResponse]

def parseEvent (event : Bytes) : Except TranslationError (Option SseMessage) := do
  let data ← eventData event
  if data.isEmpty then return none
  match (FromJson.fromStr data : Option StreamResponse) with
  | none => .error (.new .malformedResponse "Provider stream contained malformed JSON.")
  | some response =>
    return some (messageOf (pushParts [] response.parts) response.finished response.usageMetadata)

structure SseDecoder where
  buffer : Bytes

def SseDecoder.push (d : SseDecoder) (chunk : Bytes) :
    Except TranslationError (List SseMessage × SseDecoder) := do
  let buffer := d.buffer ++ chunk
  let (output, buffer) ← drainEvents parseEvent buffer.length buffer []
  return (output, ⟨buffer⟩)

/-! ## The receive loop -/

/-- Text goes to the span restorer unless it is empty. -/
def textOf (text : Str) : List Forwarded := if text.isEmpty then [] else [.text text]

/-- The loop over the messages of a chunk; `true` when one of them completes the stream. -/
def forwardMessages : List SseMessage → List Forwarded × Bool
  | [] => ([], false)
  | .delta text :: messages =>
    let rest := forwardMessages messages
    (textOf text ++ rest.1, rest.2)
  | .deltaAndDone text :: _ => (textOf text, true)
  | .deltaAndUsageAndDone text record :: _ => (textOf text ++ [.usage record], true)
  | .usage record :: messages =>
    let rest := forwardMessages messages
    (.usage record :: rest.1, rest.2)
  | .usageAndDone record :: _ => ([.usage record], true)
  | .done :: _ => ([], true)

/-- The loop over the chunks of a body that comes in whole: what is handed on, and how it ends. -/
def receiveLoop : SseDecoder → Nat → List Bytes → List Forwarded × Except TranslationError Unit
  | _, _, [] => ([], .error endedEarly)
  | decoder, totalBytes, chunk :: chunks =>
    let totalBytes := totalBytes + chunk.length
    if maxResponseBytes < totalBytes then ([], .error tooLarge)
    else match decoder.push chunk with
    | .error e => ([], .error e)
    | .ok (messages, decoder) =>
      let forwarded := forwardMessages messages
      if forwarded.2 then (forwarded.1, .ok ())
      else
        let rest := receiveLoop decoder totalBytes chunks
        (forwarded.1 ++ rest.1, rest.2)

def receiveBody (chunks : List Bytes) : List Forwarded × Except TranslationError Unit :=
  receiveLoop ⟨[]⟩ 0 chunks

/-- The stream; an error of the restorer ends it. -/
def translateProtectedStream (restorer : ProtectedTextRestorer) (chunks : List Bytes) :
    List Engine.Item := restoredItems restorer (receiveBody chunks)

end Decoder

/-! ## The loop under the library's rules -/

/-- What one message hands on. -/
def forward : SseMessage → List Forwarded × Bool
  | .delta text => (textOf text, false)
  | .deltaAndDone text => (textOf text, true)
  | .deltaAndUsageAndDone text record => (textOf text ++ [.usage record], true)
  | .usage record => ([.usage record], false)
  | .usageAndDone record => ([.usage record], true)
  | .done => ([], true)

theorem forwardMessages_eq (messages : List SseMessage) :
    forwardMessages messages = deliver forward messages := by
  induction messages with
  | nil => rfl
  | cons m ms ih => cases m <;> simp [forwardMessages, ih, deliver, forward]

/-! ## What an event carries -/

theorem pushParts_eq (output : Str) (parts : List ResponsePart) :
    pushParts output parts = output ++ parts.flatMap fun part => part.text.getD [] := by
  unfold pushParts
  induction parts generalizing output with
  | nil => simp
  | cons part parts ih =>
    rw [List.foldl_cons, ih, List.flatMap_cons, ← List.append_assoc]
    cases part.text with
    | none => simp
    | some text => rfl

/-- The text of a candidate. -/
def Candidate.text (candidate : Candidate) : Str :=
  ((candidate.content.map (·.parts)).getD []).flatMap fun part => part.text.getD []

/-- The loop over the parts gets the text of the candidates, one after another. -/
theorem pushParts_text (response : StreamResponse) :
    pushParts [] response.parts = response.candidates.flatMap Candidate.text := by
  rw [pushParts_eq, List.nil_append, StreamResponse.parts]
  induction response.candidates with
  | nil => rfl
  | cons candidate candidates ih =>
    rw [List.flatMap_cons, ← ih]
    cases hcontent : candidate.content with
    | none => simp [hcontent, Candidate.text]
    | some content => simp [hcontent, Candidate.text]

/-- What the loop hands on of an event: its text, then its usage, unless there is text to which
more may come. -/
def handedOn (c : Carried) : List Forwarded × Bool :=
  (textOf c.text ++ if c.marker || c.text.isEmpty then c.usage.toList.map (.usage ·.intoRecord) else [],
    c.marker)

/-- The text that is pushed to the span restorer. -/
def pushedText (forwarded : List Forwarded) : Str :=
  forwarded.flatMap fun
    | .text text => text
    | .usage _ => []

theorem pushedText_append (front back : List Forwarded) :
    pushedText (front ++ back) = pushedText front ++ pushedText back := List.flatMap_append

theorem pushedText_handedOn (c : Carried) : pushedText (handedOn c).1 = c.text := by
  obtain ⟨text, finished, usage⟩ := c
  cases usage with
  | none => cases finished <;> cases text <;> simp [handedOn, pushedText, textOf]
  | some usage => cases finished <;> cases text <;> simp [handedOn, pushedText, textOf]

theorem messageOf_handed (text : Str) (finished : Bool) (usage : Option UsageResponse) :
    deliver forward [messageOf text finished usage] = handedOn ⟨text, finished, usage⟩ := by
  cases usage with
  | none => cases finished <;> cases text <;> rfl
  | some usage => cases finished <;> cases text <;> rfl

section Events

variable [FromJson StreamResponse]

/-- The text of all parts of all candidates, whether a candidate has a finish reason, and the usage. -/
def carried (event : Bytes) : Carried :=
  match eventData event with
  | .error _ => .nothing
  | .ok data =>
    if data.isEmpty then .nothing
    else match (FromJson.fromStr data : Option StreamResponse) with
    | none => .nothing
    | some response =>
      ⟨response.candidates.flatMap Candidate.text,
        response.candidates.any (·.finishReason.isSome), response.usageMetadata⟩

def handed (event : Bytes) : List Forwarded × Bool := handedOn (carried event)

/-- Whatever the message of an event is, it hands on what the event carries. -/
theorem event_handed {event : Bytes} {m : Option SseMessage} (h : parseEvent event = .ok m) :
    deliver forward m.toList = handed event := by
  obtain ⟨data, hdata, h⟩ := Except.bind_ok.mp h
  unfold handed carried
  rw [hdata]
  dsimp only
  split at h
  · rename_i hempty
    cases h
    rw [if_pos hempty]
    rfl
  · rename_i hdata
    rw [if_neg hdata]
    cases hresponse : (FromJson.fromStr data : Option StreamResponse) with
    | none =>
      rw [hresponse] at h
      cases h
    | some response =>
      rw [hresponse] at h
      dsimp only at h ⊢
      rw [pushParts_text] at h
      cases h
      exact messageOf_handed _ _ _

/-! ## Streams -/

theorem receiveLoop_eq (decoder : SseDecoder) {total : Nat} {chunks : List Bytes}
    (hl : total + chunks.flatten.length ≤ maxResponseBytes) :
    receiveLoop decoder total chunks =
      receive sseFraming parseEvent forward endedEarly decoder.buffer chunks := by
  induction chunks generalizing decoder total with
  | nil => rfl
  | cons chunk chunks ih =>
    rw [List.flatten_cons, List.length_append] at hl
    rw [receiveLoop, receive, if_neg (by omega), SseDecoder.push, drainEvents_eq]
    obtain ⟨ms, res⟩ := drain sseFraming parseEvent (decoder.buffer ++ chunk).length
      (decoder.buffer ++ chunk)
    cases res with
    | error e => rfl
    | ok rest =>
      dsimp only [bind, Except.bind, pure, Except.pure]
      rw [List.nil_append, forwardMessages_eq, ih ⟨rest⟩ (by omega)]

/-- The events through the first in which a candidate has a finish reason. -/
def throughFinish : List Bytes → List Bytes
  | [] => []
  | e :: events => if (carried e).marker then [e] else e :: throughFinish events

theorem deliver_handed (events : List Bytes) :
    deliver handed events =
      ((throughFinish events).flatMap fun e => (handedOn (carried e)).1,
        events.any fun e => (carried e).marker) := by
  induction events with
  | nil => rfl
  | cons e events ih =>
    rw [deliver_cons, throughFinish, List.any_cons, ih]
    show (if (carried e).marker then _ else _) = _
    cases (carried e).marker with
    | true => simp [handed]
    | false => rfl

theorem decoded_handed {events : List Bytes} {messages : List SseMessage}
    (h : decodeEvents parseEvent events = .ok messages) :
    forwardMessages messages = deliver handed events := by
  rw [forwardMessages_eq]
  induction events generalizing messages with
  | nil =>
    cases h
    rfl
  | cons e events ih =>
    obtain ⟨m, hm, h⟩ := Except.bind_ok.mp h
    obtain ⟨ms, hms, h⟩ := Except.bind_ok.mp h
    cases h
    rw [deliver_append, deliver_cons, event_handed hm, ih hms]
    cases hdone : (handed e).2 with
    | true => exact Prod.ext rfl hdone
    | false => rfl

theorem throughFinish_split {before after : List Bytes} {e : Bytes}
    (hbefore : ∀ b ∈ before, (carried b).marker = false) (he : (carried e).marker = true) :
    throughFinish (before ++ e :: after) = before ++ [e] := by
  induction before with
  | nil => rw [List.nil_append, throughFinish, if_pos he]; rfl
  | cons b before ih =>
    obtain ⟨hb, hbefore⟩ := List.forall_mem_cons.mp hbefore
    rw [List.cons_append, throughFinish, hb, ih hbefore]
    rfl

theorem accepted_of_decoded {events : List Bytes} {messages : List SseMessage}
    (h : decodeEvents parseEvent events = .ok messages) :
    AllAccepted parseEvent forward handed events := by
  induction events generalizing messages with
  | nil => exact fun e he => absurd he List.not_mem_nil
  | cons e events ih =>
    obtain ⟨m, hm, h⟩ := Except.bind_ok.mp h
    obtain ⟨ms, hms, -⟩ := Except.bind_ok.mp h
    exact List.forall_mem_cons.mpr ⟨⟨m, hm, event_handed hm⟩, ih hms⟩

/-- What the loop hands on, and how it ends. -/
def ended (forwarded : List Forwarded × Bool) : List Forwarded × Except TranslationError Unit :=
  (forwarded.1, if forwarded.2 then .ok () else .error endedEarly)

/-- For every sequence of accepted events: the span restorer is given the text of the events through
the first that finishes, the stream completes if and only if there is one, and the usage of that
event is handed on after its text. A body within the limit that is cut into these events gives
this, however it comes in. -/
theorem stream_kept {events : List Bytes} {messages : List SseMessage}
    (h : decodeEvents parseEvent events = .ok messages) :
    pushedText (forwardMessages messages).1 =
      (throughFinish events).flatMap (fun e => (carried e).text) ∧
    ((forwardMessages messages).2 = true ↔ ∃ e ∈ events, (carried e).marker = true) ∧
    (∀ before e after usage, events = before ++ e :: after →
      (∀ b ∈ before, (carried b).marker = false) → (carried e).marker = true →
      (carried e).usage = some usage →
        ∃ earlier, pushedText earlier = before.flatMap (fun b => (carried b).text) ∧
          (forwardMessages messages).1 =
            earlier ++ (textOf (carried e).text ++ [.usage usage.intoRecord])) ∧
    ∀ chunks, chunks.flatten.length ≤ maxResponseBytes → arrivals sseFraming [] chunks = events →
      receiveBody chunks = ended (forwardMessages messages) ∧
        ∀ restorer, translateProtectedStream restorer chunks =
          restoredItems restorer (ended (forwardMessages messages)) := by
  have htext (events : List Bytes) :
      pushedText (events.flatMap fun e => (handedOn (carried e)).1) =
        events.flatMap fun e => (carried e).text := by
    induction events with
    | nil => rfl
    | cons e events ih =>
      rw [List.flatMap_cons, pushedText_append, pushedText_handedOn, ih, List.flatMap_cons]
  have hhanded := (decoded_handed h).trans (deliver_handed events)
  refine ⟨?_, ?_, ?_, ?_⟩
  · rw [hhanded]
    exact htext _
  · rw [hhanded]
    exact List.any_eq_true
  · rintro before e after usage rfl hbefore he husage
    refine ⟨before.flatMap fun b => (handedOn (carried b)).1, htext before, ?_⟩
    rw [hhanded]
    dsimp only
    rw [throughFinish_split hbefore he, List.flatMap_append]
    simp [handedOn, he, husage]
  · intro chunks hsize hchunks
    have hreceive : receiveBody chunks = ended (forwardMessages messages) := by
      refine (receiveLoop_eq ⟨[]⟩ (by omega)).trans ?_
      rw [receive_accepted (by rw [hchunks]; exact accepted_of_decoded h), hchunks,
        ← decoded_handed h]
      rfl
    refine ⟨hreceive, fun restorer => ?_⟩
    unfold translateProtectedStream
    rw [hreceive]

end Events

/-! ### Two events -/

def helloData : Str :=
  "\x7b\"candidates\":[\x7b\"content\":\x7b\"parts\":[\x7b\"text\":\"Hal\"\x7d,\x7b\"text\":\"lo\"\x7d]\x7d\x7d]\x7d".toList

def stopData : Str :=
  "\x7b\"candidates\":[\x7b\"content\":\x7b\"parts\":[\x7b\"text\":\"!\"\x7d]\x7d,\"finishReason\":\"STOP\"\x7d],".toList ++
    "\"usageMetadata\":\x7b\"totalTokenCount\":7\x7d\x7d".toList

/-- `serde_json` of the two events. -/
local instance twoEvents : FromJson StreamResponse where
  fromStr data :=
    if data = helloData then
      some ⟨[⟨some ⟨[⟨some "Hal".toList⟩, ⟨some "lo".toList⟩]⟩, none⟩], none⟩
    else if data = stopData then
      some ⟨[⟨some ⟨[⟨some ['!']⟩]⟩, some "STOP".toList⟩], some ⟨none, none, some 7⟩⟩
    else none

def dataEvent (data : Str) : Bytes := asciiBytes "data: " ++ data.map fun c => c.toNat.toUInt8

def helloBody : Bytes := dataEvent helloData ++ lfDelimiter ++ (dataEvent stopData ++ crlfDelimiter)

theorem stream_kept_hello : receiveBody [helloBody.take 30, helloBody.drop 30] =
    ([.text "Hallo".toList, .text ['!'], .usage (.providerReported none none (some 7))], .ok ()) := by
  have hdecoded : decodeEvents parseEvent [dataEvent helloData, dataEvent stopData] =
      .ok [.delta "Hallo".toList,
        .deltaAndUsageAndDone ['!'] (.providerReported none none (some 7))] := by decide +kernel
  have hsize : [helloBody.take 30, helloBody.drop 30].flatten.length ≤ maxResponseBytes := by
    decide +kernel
  have hchunks : arrivals sseFraming [] [helloBody.take 30, helloBody.drop 30] =
      [dataEvent helloData, dataEvent stopData] := by decide +kernel
  exact ((stream_kept hdecoded).2.2.2 _ hsize hchunks).1

end LinguaMesh.Gemini
