import LinguaMesh.Domain.Chunks
import LinguaMesh.Engine.Translate
import LinguaMesh.Provider.OpenAi

/-!
# Streams of several chunks

`translate_stream` sends one request for each chunk of the protected source and makes
one stream of the answers. `translateStream_completes` takes a stream that ends without
an error apart into the streams of the chunks.
-/

namespace LinguaMesh.OpenAi

open Engine

def defaultTranslationChunkBytes : Nat := 16 * 1024

/-- What `translate_stream` reads of a request, beyond what the engine does. -/
structure StreamRequest extends TranslationRequest where
  sourceLocale : Option Str
  targetLocale : Str
  glossary : Option Glossary
  maxChunkBytes : Option Nat

/-- The parts of a body as they come in. A part may fail: cancelled, timed out or broken off. -/
abbrev Body := List (Except TranslationError Bytes)

/-- The answer to the request for a chunk. -/
abbrev Answer := Except TranslationError Body

def mapChunkingError (error : ChunkingError) : TranslationError :=
  .new .invalidConfiguration error.message

def mapProtectedError (error : ProtectedTextError) : TranslationError :=
  .new .malformedResponse error.message

/-- The parts before the first that fails, and its failure. -/
def arrived : Body → List Bytes × Option TranslationError
  | [] => ([], none)
  | .ok part :: body =>
    let rest := arrived body
    (part :: rest.1, rest.2)
  | .error e :: _ => ([], some e)

/-- The text is restored; an error of the restorer ends the stream. -/
def restoreForwarded : ProtectedTextRestorer → List Forwarded →
    List Item × Except TranslationError ProtectedTextRestorer
  | restorer, [] => ([], .ok restorer)
  | restorer, .text text :: forwarded =>
    match restorer.push text with
    | .error e => ([], .error (mapProtectedError e))
    | .ok (safeDelta, restorer) =>
      let rest := restoreForwarded restorer forwarded
      (if safeDelta.isEmpty then rest.1 else .ok (.text safeDelta) :: rest.1, rest.2)
  | restorer, .usage usage :: forwarded =>
    let rest := restoreForwarded restorer forwarded
    (.ok (.usage usage) :: rest.1, rest.2)

/-- What a stream gives of what its loop hands on: the restored text and the usage, then the text
that the restorer held back. -/
def restoredItems (restorer : ProtectedTextRestorer)
    (received : List Forwarded × Except TranslationError Unit) : List Item :=
  let restored := restoreForwarded restorer received.1
  match restored.2, received.2 with
  | .error e, _ => restored.1 ++ [.error e]
  | .ok _, .error e => restored.1 ++ [.error e]
  | .ok restorer, .ok () =>
    match restorer.finish with
    | .error e => restored.1 ++ [.error (mapProtectedError e)]
    | .ok (safeTail, _) =>
      restored.1 ++ if safeTail.isEmpty then [] else [.ok (.text safeTail)]

/-- `yield delta?` for each item, then the rest: an error ends the stream. -/
def yieldAll : List Item → List Item → List Item
  | [], rest => rest
  | .ok event :: items, rest => .ok event :: yieldAll items rest
  | .error e :: _, _ => [.error e]

section

variable [FromJson StreamResponse] [FromJson ResponsesStreamEvent] (responsesProtocol : Bool)

/-- The receive loop. Where it comes to the part that failed it ends with that failure. -/
def receiveParts (body : Body) : List Forwarded × Except TranslationError Unit :=
  let received := receiveBody responsesProtocol (arrived body).1
  match (arrived body).2 with
  | some e => if received.2 = .error endedEarly then (received.1, .error e) else received
  | none => received

def protectedItems (chunk : ProtectedSource) (body : Body) : List Item :=
  let received := receiveParts responsesProtocol body
  let restored := restoreForwarded chunk.restorer received.1
  match restored.2, received.2 with
  | .error e, _ => restored.1 ++ [.error e]
  | .ok _, .error e => restored.1 ++ [.error e]
  | .ok restorer, .ok () =>
    match restorer.finish with
    | .error e => restored.1 ++ [.error (mapProtectedError e)]
    | .ok (safeTail, _) =>
      restored.1 ++ if safeTail.isEmpty then [] else [.ok (.text safeTail)]

def translateProtectedStream (chunk : ProtectedSource) (answer : Answer) :
    Except TranslationError (List Item) :=
  answer.map (protectedItems responsesProtocol chunk)

/-- The requests for the chunks from the `k`-th on, each sent when the stream before it has ended. -/
def laterChunks (answers : Nat → Answer) : Nat → List ProtectedSource → List Item
  | _, [] => []
  | k, chunk :: chunks =>
    match translateProtectedStream responsesProtocol chunk (answers k) with
    | .error e => [.error e]
    | .ok items => yieldAll items (laterChunks answers (k + 1) chunks)

end

/-! ## Streams that end without an error -/

/-- The stream gives the events and ends without an error. -/
def Completes (items : List Item) (events : List TranslationStreamEvent) : Prop :=
  items = events.map .ok

theorem completes_yieldAll {items rest : List Item} {events : List TranslationStreamEvent}
    (h : Completes (yieldAll items rest) events) :
    ∃ before after, Completes items before ∧ Completes rest after ∧ events = before ++ after := by
  induction items generalizing events with
  | nil => exact ⟨[], events, rfl, h, rfl⟩
  | cons item items ih =>
    cases item with
    | error e =>
      unfold Completes yieldAll at h
      cases events <;> simp at h
    | ok event =>
      unfold Completes yieldAll at h
      cases events with
      | nil => cases h
      | cons event' events =>
        obtain ⟨heq, hrest⟩ := List.cons.inj h
        obtain rfl := Except.ok.inj heq
        obtain ⟨before, after, hbefore, hafter, rfl⟩ := ih hrest
        exact ⟨event :: before, after, congrArg _ hbefore, hafter, rfl⟩

section

variable [FromJson StreamResponse] [FromJson ResponsesStreamEvent]

/-- The chunks from the `k`-th on are answered by streams with these events. -/
def Answered (responsesProtocol : Bool) (answers : Nat → Answer) :
    Nat → List ProtectedSource → List (List TranslationStreamEvent) → Prop
  | _, [], [] => True
  | k, chunk :: chunks, events :: streams =>
    (∃ body, answers k = .ok body ∧
      Completes (protectedItems responsesProtocol chunk body) events) ∧
    Answered responsesProtocol answers (k + 1) chunks streams
  | _, _, _ => False

/-- The items after the answer to a request, if it comes. -/
theorem completes_answer {responsesProtocol : Bool} {chunk : ProtectedSource} {answer : Answer}
    {items : List Item} (h : translateProtectedStream responsesProtocol chunk answer = .ok items) :
    ∃ body, answer = .ok body ∧ items = protectedItems responsesProtocol chunk body := by
  cases answer with
  | error e => cases h
  | ok body => exact ⟨body, rfl, (Except.ok.inj h).symm⟩

theorem translateProtectedStream_ok (responsesProtocol : Bool) (chunk : ProtectedSource) (body : Body) :
    translateProtectedStream responsesProtocol chunk (.ok body) =
      .ok (protectedItems responsesProtocol chunk body) := rfl

theorem protectedItems_eq (responsesProtocol : Bool) (chunk : ProtectedSource) (body : Body) :
    protectedItems responsesProtocol chunk body =
      restoredItems chunk.restorer (receiveParts responsesProtocol body) := rfl

/-- The items of a body that completes, whose text is restored. -/
theorem protectedItems_completed {responsesProtocol : Bool} {chunk : ProtectedSource} {body : Body}
    {forwarded : List Forwarded} {items : List Item} {restorer restorer' : ProtectedTextRestorer}
    {safeTail : Str} (hreceived : receiveParts responsesProtocol body = (forwarded, .ok ()))
    (hrestored : restoreForwarded chunk.restorer forwarded = (items, .ok restorer))
    (hfinish : restorer.finish = .ok (safeTail, restorer')) :
    protectedItems responsesProtocol chunk body =
      items ++ if safeTail.isEmpty then [] else [.ok (.text safeTail)] := by
  rw [protectedItems_eq, hreceived]
  unfold restoredItems
  dsimp only
  rw [hrestored]
  dsimp only
  rw [hfinish]

theorem laterChunks_ok {responsesProtocol : Bool} {answers : Nat → Answer} {k : Nat}
    {chunk : ProtectedSource} {chunks : List ProtectedSource} {body : Body} (h : answers k = .ok body) :
    laterChunks responsesProtocol answers k (chunk :: chunks) =
      yieldAll (protectedItems responsesProtocol chunk body)
        (laterChunks responsesProtocol answers (k + 1) chunks) := by
  rw [laterChunks, h]
  rfl

theorem laterChunks_completes {responsesProtocol : Bool} {answers : Nat → Answer} {k : Nat}
    {chunks : List ProtectedSource} {events : List TranslationStreamEvent}
    (h : Completes (laterChunks responsesProtocol answers k chunks) events) :
    ∃ streams, Answered responsesProtocol answers k chunks streams ∧ events = streams.flatten := by
  induction chunks generalizing k events with
  | nil =>
    refine ⟨[], trivial, ?_⟩
    cases events with
    | nil => rfl
    | cons => cases h
  | cons chunk chunks ih =>
    cases hanswer : answers k with
    | error e =>
      rw [laterChunks, hanswer] at h
      cases events <;> cases h
    | ok body =>
      rw [laterChunks_ok hanswer] at h
      obtain ⟨before, after, hbefore, hafter, rfl⟩ := completes_yieldAll h
      obtain ⟨streams, hstreams, rfl⟩ := ih hafter
      exact ⟨before :: streams, ⟨⟨body, hanswer, hbefore⟩, hstreams⟩, rfl⟩

end

/-! ## Usage reports -/

/-- A report of the message is normalized. -/
def SseMessage.Normalized : SseMessage → Prop
  | .usage record | .usageAndDone record => record.Normalized
  | .delta _ | .done => True

theorem drainEvents_forall {μ : Type} {parse : Bytes → Except TranslationError (Option μ)}
    {P : μ → Prop} (hparse : ∀ event message, parse event = .ok (some message) → P message)
    {fuel : Nat} {buffer rest : Bytes} {output messages : List μ} (houtput : ∀ m ∈ output, P m)
    (h : drainEvents parse fuel buffer output = .ok (messages, rest)) : ∀ m ∈ messages, P m := by
  induction fuel generalizing buffer output with
  | zero =>
    obtain ⟨rfl, -⟩ := Prod.mk.inj (Except.ok.inj h)
    exact houtput
  | succ fuel ih =>
    rw [drainEvents] at h
    split at h
    · obtain ⟨rfl, -⟩ := Prod.mk.inj (Except.ok.inj h)
      exact houtput
    · obtain ⟨message, hmessage, h⟩ := Except.bind_ok.mp h
      refine ih (List.forall_mem_append.mpr ⟨houtput, fun m hm => ?_⟩) h
      rw [Option.mem_toList] at hm
      exact hparse _ m (hm ▸ hmessage)

theorem parseEvent_normalized [FromJson StreamResponse] {event : Bytes} {message : SseMessage}
    (h : parseEvent event = .ok (some message)) : message.Normalized := by
  obtain ⟨data, -, h⟩ := Except.bind_ok.mp h
  split at h
  · cases h
  split at h
  · cases h
    trivial
  cases hresponse : (FromJson.fromStr data : Option StreamResponse) with
  | none =>
    rw [hresponse] at h
    cases h
  | some response =>
    rw [hresponse] at h
    dsimp only at h
    split at h
    · cases h
      exact ⟨_, _, _, rfl⟩
    · cases h
      trivial

theorem parseResponsesEvent_normalized [FromJson ResponsesStreamEvent] {event : Bytes}
    {message : SseMessage}
    (h : parseResponsesEvent event = .ok (some message)) : message.Normalized := by
  obtain ⟨data, -, h⟩ := Except.bind_ok.mp h
  split at h
  · cases h
  cases hresponse : (FromJson.fromStr data : Option ResponsesStreamEvent) with
  | none =>
    rw [hresponse] at h
    cases h
  | some response =>
    rw [hresponse] at h
    dsimp only at h
    split at h
    · cases h
      trivial
    split at h
    · split at h
      · cases h
        exact ⟨_, _, _, rfl⟩
      · cases h
        trivial
    split at h <;> cases h

theorem forwardMessages_normalized {messages : List SseMessage}
    (h : ∀ message ∈ messages, message.Normalized) {record : UsageRecord}
    (hrecord : .usage record ∈ (forwardMessages messages).1) : record.Normalized := by
  induction messages with
  | nil => cases hrecord
  | cons message messages ih =>
    obtain ⟨hmessage, hmessages⟩ := List.forall_mem_cons.mp h
    cases message with
    | delta text =>
      rw [forwardMessages] at hrecord
      split at hrecord
      · exact ih hmessages hrecord
      · rcases List.mem_cons.mp hrecord with hrecord | hrecord
        · cases hrecord
        · exact ih hmessages hrecord
    | usage report =>
      rcases List.mem_cons.mp hrecord with hrecord | hrecord
      · cases hrecord
        exact hmessage
      · exact ih hmessages hrecord
    | usageAndDone report =>
      cases List.mem_singleton.mp hrecord
      exact hmessage
    | done => cases hrecord

theorem SseDecoder.push_normalized [FromJson StreamResponse] {d d' : SseDecoder} {chunk : Bytes}
    {messages : List SseMessage} (h : d.push chunk = .ok (messages, d')) :
    ∀ message ∈ messages, message.Normalized := by
  obtain ⟨drained, hdrained, h⟩ := Except.bind_ok.mp h
  cases h
  exact drainEvents_forall (fun _ _ => parseEvent_normalized) (List.forall_mem_nil _) hdrained

theorem ResponsesSseDecoder.push_normalized [FromJson ResponsesStreamEvent]
    {d d' : ResponsesSseDecoder} {chunk : Bytes} {messages : List SseMessage}
    (h : d.push chunk = .ok (messages, d')) : ∀ message ∈ messages, message.Normalized := by
  obtain ⟨drained, hdrained, h⟩ := Except.bind_ok.mp h
  cases h
  exact drainEvents_forall (fun _ _ => parseResponsesEvent_normalized) (List.forall_mem_nil _) hdrained

theorem restoreForwarded_usage {restorer : ProtectedTextRestorer} {forwarded : List Forwarded}
    {record : UsageRecord} (h : .ok (.usage record) ∈ (restoreForwarded restorer forwarded).1) :
    .usage record ∈ forwarded := by
  induction forwarded generalizing restorer with
  | nil => cases h
  | cons first forwarded ih =>
    cases first with
    | text text =>
      rw [restoreForwarded] at h
      split at h
      · cases h
      dsimp only at h
      split at h
      · exact List.mem_cons_of_mem _ (ih h)
      · rcases List.mem_cons.mp h with h | h
        · cases h
        · exact List.mem_cons_of_mem _ (ih h)
    | usage usage =>
      rcases List.mem_cons.mp h with h | h
      · cases h
        exact List.mem_cons_self
      · exact List.mem_cons_of_mem _ (ih h)

section

variable [FromJson StreamResponse] [FromJson ResponsesStreamEvent] {responsesProtocol : Bool}

theorem receiveLoop_normalized {chat : SseDecoder} {responses : ResponsesSseDecoder} {total : Nat}
    {chunks : List Bytes} {record : UsageRecord}
    (h : .usage record ∈ (receiveLoop responsesProtocol chat responses total chunks).1) :
    record.Normalized := by
  induction chunks generalizing chat responses total with
  | nil => cases h
  | cons chunk chunks ih =>
    rw [receiveLoop] at h
    split at h
    · cases h
    dsimp only at h
    split at h
    · cases h
    · rename_i messages chat' responses' hpushed
      have hmessages : ∀ message ∈ messages, message.Normalized := by
        split at hpushed
        · obtain ⟨pushed, hpush, hpushed⟩ := Except.map_eq_ok.mp hpushed
          cases hpushed
          exact ResponsesSseDecoder.push_normalized hpush
        · obtain ⟨pushed, hpush, hpushed⟩ := Except.map_eq_ok.mp hpushed
          cases hpushed
          exact SseDecoder.push_normalized hpush
      split at h
      · exact forwardMessages_normalized hmessages h
      · rcases List.mem_append.mp h with h | h
        · exact forwardMessages_normalized hmessages h
        · exact ih h

/-- The reports of a chunk's stream are normalized. -/
theorem protectedItems_normalized {chunk : ProtectedSource} {body : Body} {record : UsageRecord}
    (h : .ok (.usage record) ∈ protectedItems responsesProtocol chunk body) : record.Normalized := by
  have hreceived : .usage record ∈ (receiveParts responsesProtocol body).1 → record.Normalized := by
    intro h
    unfold receiveParts at h
    dsimp only at h
    split at h
    · split at h <;> exact receiveLoop_normalized h
    · exact receiveLoop_normalized h
  have hrestored {items : List Item} (hitems : .ok (.usage record) ∉ items)
      (h : .ok (.usage record) ∈
        (restoreForwarded chunk.restorer (receiveParts responsesProtocol body).1).1 ++ items) :
      record.Normalized :=
    hreceived (restoreForwarded_usage ((List.mem_append.mp h).resolve_right hitems))
  unfold protectedItems at h
  dsimp only at h
  split at h
  · exact hrestored (by simp) h
  · exact hrestored (by simp) h
  split at h
  · exact hrestored (by simp) h
  · refine hrestored ?_ h
    split <;> simp

end

/-! ## The stream of a request -/

variable [UnicodeTables]

def StreamRequest.chunks (request : StreamRequest) :
    Except TranslationError (List ProtectedSource) := do
  let source ← (protectSourceTextWithGlossary request.sourceText request.sourceLocale
    request.targetLocale request.glossary).mapError fun error =>
      .new .invalidConfiguration error.message
  (source.chunks (request.maxChunkBytes.getD defaultTranslationChunkBytes)).mapError mapChunkingError

theorem StreamRequest.chunks_ne_nil {request : StreamRequest} {chunks : List ProtectedSource}
    (h : request.chunks = .ok chunks) : chunks ≠ [] := by
  obtain ⟨source, -, h⟩ := Except.bind_ok.mp h
  cases hchunks : source.chunks (request.maxChunkBytes.getD defaultTranslationChunkBytes) with
  | error e =>
    rw [hchunks] at h
    cases h
  | ok chunks' =>
    rw [hchunks] at h
    obtain rfl := Except.ok.inj h
    exact ProtectedSource.chunks_ne_nil hchunks

variable [FromJson StreamResponse] [FromJson ResponsesStreamEvent]

/-- `answers k` is the answer to the `k`-th request. There is a first chunk
(`StreamRequest.chunks_ne_nil`). -/
def translateStream (responsesProtocol : Bool) (request : StreamRequest) (answers : Nat → Answer) :
    Except TranslationError (List Item) := do
  match ← request.chunks with
  | [] => .error (.new .invalidConfiguration "Translation source produced no chunks.")
  | firstChunk :: chunks =>
    let firstStream ← translateProtectedStream responsesProtocol firstChunk (answers 0)
    return yieldAll firstStream (laterChunks responsesProtocol answers 1 chunks)

/-- A stream that ends without an error is those of the chunks, one after the other. -/
theorem translateStream_completes {responsesProtocol : Bool} {request : StreamRequest}
    {answers : Nat → Answer} {items : List Item} {events : List TranslationStreamEvent}
    (h : translateStream responsesProtocol request answers = .ok items)
    (hitems : Completes items events) :
    ∃ chunks streams, request.chunks = .ok chunks ∧
      Answered responsesProtocol answers 0 chunks streams ∧ events = streams.flatten := by
  obtain ⟨chunks, hchunks, h⟩ := Except.bind_ok.mp h
  cases chunks with
  | nil => exact absurd rfl (StreamRequest.chunks_ne_nil hchunks)
  | cons firstChunk chunks =>
    obtain ⟨firstStream, hfirst, h⟩ := Except.bind_ok.mp h
    obtain rfl := Except.ok.inj h
    obtain ⟨body, hbody, rfl⟩ := completes_answer hfirst
    obtain ⟨before, after, hbefore, hafter, rfl⟩ := completes_yieldAll hitems
    obtain ⟨streams, hstreams, rfl⟩ := laterChunks_completes hafter
    exact ⟨_, before :: streams, hchunks, ⟨⟨body, hbody, hbefore⟩, hstreams⟩, rfl⟩

end LinguaMesh.OpenAi
