import LinguaMesh.Provider.Sse

/-!
# The OpenAI stream

`SseDecoder` reads the chat protocol, `ResponsesSseDecoder` the Responses
protocol; `receiveLoop` is the loop of `translate_protected_stream` over the
chunks of the body. `receive_split_iff` says for which bodies the chunks do not
matter.
-/

namespace LinguaMesh.OpenAi

open Framing

def maxResponseBytes : Nat := 1024 * 1024

structure StreamDelta where
  content : Option Str
  deriving DecidableEq, Repr

structure StreamChoice where
  delta : StreamDelta
  deriving DecidableEq, Repr

structure StreamResponse where
  choices : List StreamChoice
  usage : Option UsageResponse
  deriving DecidableEq, Repr

structure ResponsesCompleted where
  usage : Option UsageResponse
  deriving DecidableEq, Repr

structure ResponsesStreamEvent where
  eventType : Str
  delta : Option Str
  response : Option ResponsesCompleted
  deriving DecidableEq, Repr

inductive SseMessage where
  | delta (text : Str)
  | usage (record : UsageRecord)
  | usageAndDone (record : UsageRecord)
  | done
  deriving DecidableEq, Repr

section Decoders

variable [FromJson StreamResponse] [FromJson ResponsesStreamEvent]

def parseEvent (event : Bytes) : Except TranslationError (Option SseMessage) := do
  let data ← eventData event
  if data.isEmpty then return none
  if data = "[DONE]".toList then return some .done
  match (FromJson.fromStr data : Option StreamResponse) with
  | none => .error (.new .malformedResponse "Provider stream contained malformed JSON.")
  | some response =>
    match response.usage with
    | some usage => return some (.usage usage.intoRecord)
    | none => return some (.delta ((response.choices.head?.bind (·.delta.content)).getD []))

def parseResponsesEvent (event : Bytes) : Except TranslationError (Option SseMessage) := do
  let data ← eventData event
  if data.isEmpty then return none
  match (FromJson.fromStr data : Option ResponsesStreamEvent) with
  | none => .error (.new .malformedResponse "Provider Responses stream contained malformed JSON.")
  | some response =>
    if response.eventType = "response.output_text.delta".toList then
      return some (.delta (response.delta.getD []))
    else if response.eventType = "response.completed".toList then
      match response.response.bind (·.usage) with
      | some usage => return some (.usageAndDone usage.intoRecord)
      | none => return some .done
    else if response.eventType = "error".toList || response.eventType = "response.failed".toList then
      .error (.new .network "Provider Responses stream reported an error.")
    else return none

structure SseDecoder where
  buffer : Bytes

def SseDecoder.push (d : SseDecoder) (chunk : Bytes) :
    Except TranslationError (List SseMessage × SseDecoder) := do
  let buffer := d.buffer ++ chunk
  let (output, buffer) ← drainEvents parseEvent buffer.length buffer []
  return (output, ⟨buffer⟩)

structure ResponsesSseDecoder where
  buffer : Bytes

def ResponsesSseDecoder.push (d : ResponsesSseDecoder) (chunk : Bytes) :
    Except TranslationError (List SseMessage × ResponsesSseDecoder) := do
  let buffer := d.buffer ++ chunk
  let (output, buffer) ← drainEvents parseResponsesEvent buffer.length buffer []
  return (output, ⟨buffer⟩)

end Decoders

/-! ## The receive loop -/

/-- What the loop hands on: text to the span restorer, usage to the caller. -/
inductive Forwarded where
  | text (text : Str)
  | usage (record : UsageRecord)
  deriving DecidableEq, Repr

/-- The loop over the messages of a chunk; `true` when one of them completes the stream. -/
def forwardMessages : List SseMessage → List Forwarded × Bool
  | [] => ([], false)
  | .delta text :: messages =>
    let rest := forwardMessages messages
    if text.isEmpty then rest else (.text text :: rest.1, rest.2)
  | .usage record :: messages =>
    let rest := forwardMessages messages
    (.usage record :: rest.1, rest.2)
  | .usageAndDone record :: _ => ([.usage record], true)
  | .done :: _ => ([], true)

def endedEarly : TranslationError :=
  .new .malformedResponse "Provider stream ended before the completion marker."

def tooLarge : TranslationError :=
  .new .malformedResponse "Provider stream exceeded the response-size limit."

section Loop

variable [FromJson StreamResponse] [FromJson ResponsesStreamEvent]

/-- The loop over the chunks: what is handed on, and how the stream ends. -/
def receiveLoop (responsesProtocol : Bool) :
    SseDecoder → ResponsesSseDecoder → Nat → List Bytes →
      List Forwarded × Except TranslationError Unit
  | _, _, _, [] => ([], .error endedEarly)
  | chatDecoder, responsesDecoder, totalBytes, chunk :: chunks =>
    let totalBytes := totalBytes + chunk.length
    if maxResponseBytes < totalBytes then ([], .error tooLarge)
    else
      let pushed := if responsesProtocol then
          (responsesDecoder.push chunk).map fun (messages, d) => (messages, chatDecoder, d)
        else (chatDecoder.push chunk).map fun (messages, d) => (messages, d, responsesDecoder)
      match pushed with
      | .error e => ([], .error e)
      | .ok (messages, chatDecoder, responsesDecoder) =>
        let forwarded := forwardMessages messages
        if forwarded.2 then (forwarded.1, .ok ())
        else
          let rest := receiveLoop responsesProtocol chatDecoder responsesDecoder totalBytes chunks
          (forwarded.1 ++ rest.1, rest.2)

def receiveBody (responsesProtocol : Bool) (chunks : List Bytes) :
    List Forwarded × Except TranslationError Unit :=
  receiveLoop responsesProtocol ⟨[]⟩ ⟨[]⟩ 0 chunks

end Loop

/-! ## The loop under the library's rules -/

/-- What one message hands on. -/
def forward : SseMessage → List Forwarded × Bool
  | .delta text => (if text.isEmpty then [] else [.text text], false)
  | .usage record => ([.usage record], false)
  | .usageAndDone record => ([.usage record], true)
  | .done => ([], true)

theorem forwardMessages_eq (messages : List SseMessage) :
    forwardMessages messages = deliver forward messages := by
  induction messages with
  | nil => rfl
  | cons m ms ih =>
    cases m with
    | delta text =>
      simp only [forwardMessages, ih, deliver, forward, Bool.false_eq_true, ↓reduceIte]
      split <;> simp
    | usage record =>
      simp only [forwardMessages, ih, deliver, forward, Bool.false_eq_true, ↓reduceIte,
        List.singleton_append]
    | usageAndDone record => rfl
    | done => rfl

section Split

variable [FromJson StreamResponse] [FromJson ResponsesStreamEvent]

/-- The event parser of the protocol. -/
def parseOf (responsesProtocol : Bool) : Bytes → Except TranslationError (Option SseMessage) :=
  if responsesProtocol then parseResponsesEvent else parseEvent

theorem receiveLoop_eq (responsesProtocol : Bool) (chat : SseDecoder)
    (responses : ResponsesSseDecoder) {total : Nat} {chunks : List Bytes}
    (hl : total + chunks.flatten.length ≤ maxResponseBytes) :
    receiveLoop responsesProtocol chat responses total chunks =
      receive sseFraming (parseOf responsesProtocol) forward endedEarly
        (if responsesProtocol then responses.buffer else chat.buffer) chunks := by
  induction chunks generalizing chat responses total with
  | nil => rfl
  | cons chunk chunks ih =>
    rw [List.flatten_cons, List.length_append] at hl
    have hsize : ¬ maxResponseBytes < total + chunk.length := by omega
    rw [receiveLoop, receive]
    simp only [hsize, ↓reduceIte]
    cases responsesProtocol with
    | true =>
      simp only [↓reduceIte, parseOf, ResponsesSseDecoder.push, drainEvents_eq]
      obtain ⟨ms, res⟩ := drain sseFraming parseResponsesEvent (responses.buffer ++ chunk).length
        (responses.buffer ++ chunk)
      cases res with
      | error e => rfl
      | ok rest =>
        simp only [bind, Except.bind, pure, Except.pure, Except.map, List.nil_append,
          forwardMessages_eq]
        rw [ih chat ⟨rest⟩ (by omega)]
        rfl
    | false =>
      simp only [Bool.false_eq_true, ↓reduceIte, parseOf, SseDecoder.push, drainEvents_eq]
      obtain ⟨ms, res⟩ := drain sseFraming parseEvent (chat.buffer ++ chunk).length
        (chat.buffer ++ chunk)
      cases res with
      | error e => rfl
      | ok rest =>
        simp only [bind, Except.bind, pure, Except.pure, Except.map, List.nil_append,
          forwardMessages_eq]
        rw [ih ⟨rest⟩ responses (by omega)]
        rfl

/-- The body can be cut into events in one way, as far as it is read. -/
def OneReading (responsesProtocol : Bool) (B : Bytes) : Prop :=
  Unambiguous sseFraming (parseOf responsesProtocol) forward endedEarly B

/-- No stretch of the body, from an event's start on, has an event that is rejected after one that
hands something on or completes the stream. -/
def NothingLost (responsesProtocol : Bool) (B : Bytes) : Prop :=
  NoLoss sseFraming (parseOf responsesProtocol) forward B

/-- A body with delimiters of one kind, or with the line-feed ones first, has one reading. -/
theorem oneReading_of_unmixed (responsesProtocol : Bool) {B : Bytes} (hB : Unmixed B) :
    OneReading responsesProtocol B :=
  unambiguous_of_cut boundary_mono hB.cut

end Split

/-- A completion marker that ends with carriage returns, and another one that does not. -/
def twoMarkers : Bytes := asciiBytes "data: [DONE]\r\n\r\ndata: [DONE]\n\n"

theorem twoMarkers_length : twoMarkers.length = 30 := by decide

theorem twoMarkers_le : twoMarkers.length ≤ maxResponseBytes := by
  rw [twoMarkers_length, maxResponseBytes]
  decide

end LinguaMesh.OpenAi
