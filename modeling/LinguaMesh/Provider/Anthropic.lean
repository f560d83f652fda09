import LinguaMesh.Provider.Sse

/-!
# The Anthropic stream

The decoder of message events. It shares the drain loop and the data of an
event with the other decoders, and its `parse_event` looks for usage, then for
the end of the message, then for text.
-/

namespace LinguaMesh.Anthropic

structure StreamDelta where
  deltaType : Str
  text : Option Str
  deriving DecidableEq, Repr

structure MessageStart where
  usage : Option UsageResponse
  deriving DecidableEq, Repr

structure StreamResponse where
  eventType : Str
  delta : Option StreamDelta
  message : Option MessageStart
  usage : Option UsageResponse
  deriving DecidableEq, Repr

inductive SseMessage where
  | delta (text : Str)
  | usage (record : UsageRecord)
  | done
  deriving DecidableEq, Repr

variable [FromJson StreamResponse]

def parseEvent (event : Bytes) : Except TranslationError (Option SseMessage) := do
  let data ← eventData event
  if data.isEmpty then return none
  match (FromJson.fromStr data : Option StreamResponse) with
  | none => .error (.new .malformedResponse "Provider stream contained malformed JSON.")
  | some response =>
    match (response.message.bind (·.usage)).or response.usage with
    | some usage => return some (.usage usage.intoRecord)
    | none =>
      if response.eventType = "message_stop".toList then return some .done
      else if response.eventType = "content_block_delta".toList then
        match response.delta with
        | some delta =>
          if delta.deltaType = "text_delta".toList then return some (.delta (delta.text.getD []))
          else return none
        | none => return none
      else return none

structure SseDecoder where
  buffer : Bytes

def SseDecoder.push (d : SseDecoder) (chunk : Bytes) :
    Except TranslationError (List SseMessage × SseDecoder) := do
  let buffer := d.buffer ++ chunk
  let (output, buffer) ← drainEvents parseEvent buffer.length buffer []
  return (output, ⟨buffer⟩)

end LinguaMesh.Anthropic
