import LinguaMesh.Provider.ChunkStream

/-!
# The Ollama stream

The body is a JSON value a line. `NdjsonDecoder` keeps the bytes after the last line feed
until more come in; when the body ends, `finish` reads what is left as a line.
`receiveLoop` is the loop of `translate_protected_stream` over the parts of a body.

`receiveBody_lines`: whatever the parts, the loop gets the messages of the lines that
are not blank (`contentLines`), in order, through the first that says it is done.
-/

namespace LinguaMesh.Ollama

open OpenAi (Forwarded endedEarly tooLarge restoredItems)
open Framing (deliver deliver_append)

def maxResponseBytes : Nat := 1024 * 1024

structure MessageResponse where
  content : Option Str
  deriving DecidableEq, Repr

structure StreamResponse where
  message : Option MessageResponse
  done : Bool
  promptEvalCount : Option Nat
  evalCount : Option Nat
  deriving DecidableEq, Repr

structure StreamMessage where
  content : Option Str
  usage : Option UsageRecord
  done : Bool
  deriving DecidableEq, Repr

/-- `serde_json::from_slice` of a line, `none` for an error. -/
class FromSlice where
  fromSlice : Bytes → Option StreamResponse

/-- `u64::saturating_add`. -/
def saturatingAdd (a b : Nat) : Nat := min (2 ^ 64 - 1) (a + b)

def usageOf (response : StreamResponse) : UsageRecord :=
  .providerReported response.promptEvalCount response.evalCount
    (response.promptEvalCount.bind fun input => response.evalCount.map (saturatingAdd input))

/-! ## Lines -/

def lineFeed : UInt8 := 0x0A
def carriageReturn : UInt8 := 0x0D

/-- `u8::is_ascii_whitespace`. -/
def isAsciiWhitespace (b : UInt8) : Bool := [0x20, 0x09, 0x0A, 0x0C, 0x0D].contains b

/-- `line.pop()`, if the last byte is `b`. -/
def popLast (b : UInt8) (line : Bytes) : Bytes := if line.getLast? = some b then line.dropLast else line

def isBlank (line : Bytes) : Bool := line.all isAsciiWhitespace

section Decoder

variable [FromSlice]

def parseLine (line : Bytes) : Except TranslationError StreamMessage :=
  match FromSlice.fromSlice line with
  | none => .error (.new .malformedResponse "Provider stream contained malformed JSON.")
  | some response =>
    .ok ⟨response.message.bind (·.content), if response.done then some (usageOf response) else none,
      response.done⟩

/-- The loop of `drain_lines`; every round but the last takes bytes off the buffer. -/
def drainLines (finalLine : Bool) :
    Nat → Bytes → List StreamMessage → Except TranslationError (List StreamMessage × Bytes)
  | 0, buffer, output => .ok (output, buffer)
  | fuel + 1, buffer, output =>
    match buffer.findIdx? (· == lineFeed) with
    | none =>
      if !finalLine || buffer.isEmpty then .ok (output, buffer)
      else do
        let message ← parseLine buffer
        .ok (output ++ [message], [])
    | some position =>
      let line := popLast carriageReturn (popLast lineFeed (buffer.take (position + 1)))
      if isBlank line then drainLines finalLine fuel (buffer.drop (position + 1)) output
      else do
        let message ← parseLine line
        drainLines finalLine fuel (buffer.drop (position + 1)) (output ++ [message])

structure NdjsonDecoder where
  buffer : Bytes

def NdjsonDecoder.drain (d : NdjsonDecoder) (finalLine : Bool) :
    Except TranslationError (List StreamMessage × NdjsonDecoder) := do
  let (output, buffer) ← drainLines finalLine (d.buffer.length + 1) d.buffer []
  .ok (output, ⟨buffer⟩)

def NdjsonDecoder.push (d : NdjsonDecoder) (chunk : Bytes) :
    Except TranslationError (List StreamMessage × NdjsonDecoder) :=
  NdjsonDecoder.drain ⟨d.buffer ++ chunk⟩ false

def NdjsonDecoder.finish (d : NdjsonDecoder) :
    Except TranslationError (List StreamMessage × NdjsonDecoder) := d.drain true

/-! ## The receive loop -/

/-- A message is handled by itself; one that is done completes the stream. -/
def forward (message : StreamMessage) : List StreamMessage × Bool := ([message], message.done)

/-- The loop over the messages of a chunk, and whether one of them completes the stream. -/
def forwardMessages : List StreamMessage → List StreamMessage × Bool
  | [] => ([], false)
  | message :: messages =>
    if message.done then ([message], true)
    else (message :: (forwardMessages messages).1, (forwardMessages messages).2)

/-- The loop over the chunks of a body that comes in whole: the messages it gets, and how it ends. -/
def receiveLoop :
    NdjsonDecoder → Nat → List Bytes → List StreamMessage × Except TranslationError Unit
  | decoder, _, [] =>
    match decoder.finish with
    | .error e => ([], .error e)
    | .ok (messages, _) =>
      let forwarded := forwardMessages messages
      (forwarded.1, if forwarded.2 then .ok () else .error endedEarly)
  | decoder, totalBytes, chunk :: chunks =>
    let totalBytes := totalBytes + chunk.length
    if maxResponseBytes < totalBytes then ([], .error tooLarge)
    else match decoder.push chunk with
    | .error e => ([], .error e)
    | .ok (messages, decoder) =>
      let forwarded := forwardMessages messages
      if forwarded.2 then (forwarded.1, .ok ())
      else
        let rest := receiveLoop decoder totalBytes chunks
        (forwarded.1 ++ rest.1, rest.2)

def receiveBody (chunks : List Bytes) : List StreamMessage × Except TranslationError Unit :=
  receiveLoop ⟨[]⟩ 0 chunks

/-- What the loop does with a message: usage goes to the caller, then text to the span restorer. -/
def StreamMessage.forwarded (message : StreamMessage) : List Forwarded :=
  message.usage.toList.map .usage ++ message.content.toList.map .text

/-- The stream; an error of the restorer ends it. -/
def translateProtectedStream (restorer : ProtectedTextRestorer) (chunks : List Bytes) : List Engine.Item :=
  let received := receiveBody chunks
  restoredItems restorer (received.1.flatMap StreamMessage.forwarded, received.2)

end Decoder

/-! ## Lines of a body -/

def isLineFeed (b : UInt8) : Bool := b == lineFeed

/-- The lines that end with a line feed, without it. -/
def endedLines (body : Bytes) : List Bytes := (body.splitOnP isLineFeed).dropLast

/-- What comes after the last line feed. -/
def openLine (body : Bytes) : Bytes :=
  (body.splitOnP isLineFeed).getLast (List.splitOnP_ne_nil _ _)

/-- The lines with a terminator that are not blank, without it. -/
def terminatedLines (body : Bytes) : List Bytes :=
  ((endedLines body).map (popLast carriageReturn)).filter fun line => !isBlank line

/-- The lines that are not blank; the last one has no terminator. -/
def contentLines (body : Bytes) : List Bytes :=
  terminatedLines body ++ if isBlank (openLine body) then [] else [openLine body]

theorem lines_plain {body : Bytes} (h : ∀ b ∈ body, isLineFeed b = false) :
    endedLines body = [] ∧ openLine body = body := by
  simp only [endedLines, openLine, List.splitOnP_eq_singleton h]
  exact ⟨rfl, rfl⟩

theorem lines_first {line : Bytes} (h : ∀ b ∈ line, isLineFeed b = false) (rest : Bytes) :
    endedLines (line ++ lineFeed :: rest) = line :: endedLines rest ∧
      openLine (line ++ lineFeed :: rest) = openLine rest := by
  have hsplit : (line ++ lineFeed :: rest).splitOnP isLineFeed = line :: rest.splitOnP isLineFeed :=
    List.splitOnP_append_cons_of_forall_mem h lineFeed rfl rest
  simp only [endedLines, openLine, hsplit]
  exact ⟨List.dropLast_cons_of_ne_nil (List.splitOnP_ne_nil _ _), List.getLast_cons _⟩

/-- A body has no line feed, or begins with a line that has one. -/
theorem first_line (body : Bytes) : (∀ b ∈ body, isLineFeed b = false) ∨
    ∃ line rest, body = line ++ lineFeed :: rest ∧ ∀ b ∈ line, isLineFeed b = false := by
  by_cases h : lineFeed ∈ body
  · obtain ⟨line, rest, rfl, hline⟩ := List.eq_append_cons_of_mem h
    exact .inr ⟨line, rest, rfl, fun b hb => beq_eq_false_iff_ne.mpr fun heq => hline (heq ▸ hb)⟩
  · exact .inl fun b hb => beq_eq_false_iff_ne.mpr fun heq => h (heq ▸ hb)

/-- The lines of a body do not depend on where it is cut. -/
theorem lines_append (front back : Bytes) :
    endedLines (front ++ back) = endedLines front ++ endedLines (openLine front ++ back) ∧
      openLine (front ++ back) = openLine (openLine front ++ back) := by
  induction hn : front.length using Nat.strongRecOn generalizing front with
  | _ n ih =>
    rcases first_line front with h | ⟨line, rest, rfl, hline⟩
    · obtain ⟨hended, hopen⟩ := lines_plain h
      rw [hended, hopen]
      exact ⟨rfl, rfl⟩
    · have hlt : rest.length < n := by
        rw [← hn, List.length_append, List.length_cons]
        omega
      obtain ⟨hended, hopen⟩ := ih _ hlt rest rfl
      obtain ⟨hfirst, hlast⟩ := lines_first hline rest
      obtain ⟨hfirst', hlast'⟩ := lines_first hline (rest ++ back)
      rw [List.append_assoc, List.cons_append, hfirst', hlast', hfirst, hlast, hended, hopen]
      exact ⟨rfl, rfl⟩

theorem openLine_plain (body : Bytes) : ∀ b ∈ openLine body, isLineFeed b = false := by
  induction hn : body.length using Nat.strongRecOn generalizing body with
  | _ n ih =>
    rcases first_line body with h | ⟨line, rest, rfl, hline⟩
    · rwa [(lines_plain h).2]
    · rw [(lines_first hline rest).2]
      refine ih _ ?_ rest rfl
      rw [← hn, List.length_append, List.length_cons]
      omega

theorem terminatedLines_append (front back : Bytes) :
    terminatedLines (front ++ back) = terminatedLines front ++ terminatedLines (openLine front ++ back) := by
  unfold terminatedLines
  rw [(lines_append front back).1, List.map_append, List.filter_append]

theorem contentLines_append (front back : Bytes) :
    contentLines (front ++ back) = terminatedLines front ++ contentLines (openLine front ++ back) := by
  unfold contentLines
  rw [terminatedLines_append, (lines_append front back).2, List.append_assoc]

/-! ## Messages through the first that is done -/

/-- The messages through the first that is done. -/
def throughDone : List StreamMessage → List StreamMessage
  | [] => []
  | message :: messages => if message.done then [message] else message :: throughDone messages

theorem throughDone_append (front back : List StreamMessage) : throughDone (front ++ back) =
    if front.any (·.done) then throughDone front else front ++ throughDone back := by
  induction front with
  | nil => rfl
  | cons message front ih =>
    rw [List.cons_append, throughDone, throughDone, ih, List.any_cons]
    cases message.done with
    | true => rfl
    | false =>
      cases front.any (·.done) with
      | true => rfl
      | false => rfl

theorem throughDone_undone {messages : List StreamMessage} (h : messages.any (·.done) = false) :
    throughDone messages = messages := by
  induction messages with
  | nil => rfl
  | cons message messages ih =>
    rw [List.any_cons, Bool.or_eq_false_iff] at h
    rw [throughDone, h.1, ih h.2]
    rfl

theorem forwardMessages_eq (messages : List StreamMessage) :
    forwardMessages messages = (throughDone messages, messages.any (·.done)) := by
  induction messages with
  | nil => rfl
  | cons message messages ih =>
    rw [forwardMessages, throughDone, ih, List.any_cons]
    cases message.done with
    | true => rfl
    | false => rfl

/-- The messages of the lines of a body: what the loop gets of them, and how it ends. -/
def outcome (messages : List StreamMessage) : List StreamMessage × Except TranslationError Unit :=
  (throughDone messages, if messages.any (·.done) then .ok () else .error endedEarly)

/-! ## The decoder -/

theorem findIdx_plain {buffer : Bytes} (h : ∀ b ∈ buffer, isLineFeed b = false) :
    buffer.findIdx? (· == lineFeed) = none :=
  List.findIdx?_eq_none_iff.mpr h

theorem findIdx_line {line : Bytes} (h : ∀ b ∈ line, isLineFeed b = false) (rest : Bytes) :
    (line ++ lineFeed :: rest).findIdx? (· == lineFeed) = some line.length := by
  rw [List.findIdx?_append, findIdx_plain h, List.findIdx?_cons, if_pos (beq_self_eq_true _)]
  simp

section Receive

variable [FromSlice]

/-- A push takes the terminated lines off the buffer. -/
theorem drainLines_push {n : Nat} {buffer : Bytes} {output : List StreamMessage}
    (hn : buffer.length < n) :
    drainLines false n buffer output =
      ((terminatedLines buffer).mapM parseLine).map fun messages =>
        (output ++ messages, openLine buffer) := by
  induction n generalizing buffer output with
  | zero => exact absurd hn (Nat.not_lt_zero _)
  | succ n ih =>
    rw [drainLines]
    rcases first_line buffer with h | ⟨line, rest, rfl, hline⟩
    · obtain ⟨hended, hopen⟩ := lines_plain h
      rw [findIdx_plain h, terminatedLines, hended, hopen]
      simp [pure, Except.pure, Except.map]
    · have htake : popLast lineFeed ((line ++ lineFeed :: rest).take (line.length + 1)) = line := by
        simp [popLast, List.take_append]
      have hdrop : (line ++ lineFeed :: rest).drop (line.length + 1) = rest := by
        simp [List.drop_append]
      have hlt : rest.length < n := by
        rw [List.length_append, List.length_cons] at hn
        omega
      obtain ⟨hended, hopen⟩ := lines_first hline rest
      rw [findIdx_line hline, hopen, terminatedLines, hended, List.map_cons, List.filter_cons]
      dsimp only
      rw [htake, hdrop]
      cases hblank : isBlank (popLast carriageReturn line) with
      | true => exact ih hlt
      | false =>
        simp only [Bool.false_eq_true, ↓reduceIte, Bool.not_false, List.mapM_cons]
        cases parseLine (popLast carriageReturn line) with
        | error e => rfl
        | ok message =>
          rw [Except.ok_bind, Except.ok_bind, ih hlt]
          show ((terminatedLines rest).mapM parseLine).map _ =
            ((terminatedLines rest).mapM parseLine >>= fun messages =>
              pure (message :: messages)).map _
          cases (terminatedLines rest).mapM parseLine with
          | error e => rfl
          | ok messages => simp [Except.map, pure, Except.pure]

theorem push_eq (buffer chunk : Bytes) : NdjsonDecoder.push ⟨buffer⟩ chunk =
    ((terminatedLines (buffer ++ chunk)).mapM parseLine).map fun messages =>
      (messages, ⟨openLine (buffer ++ chunk)⟩) := by
  unfold NdjsonDecoder.push NdjsonDecoder.drain
  rw [drainLines_push (Nat.lt_succ_self _)]
  cases (terminatedLines (buffer ++ chunk)).mapM parseLine with
  | error e => rfl
  | ok messages => rfl

/-- At the end a buffer that is not empty is a line. -/
theorem finish_eq {buffer : Bytes} (h : ∀ b ∈ buffer, isLineFeed b = false) :
    NdjsonDecoder.finish ⟨buffer⟩ =
      if buffer.isEmpty then .ok ([], ⟨buffer⟩)
      else (parseLine buffer).map fun message => ([message], ⟨[]⟩) := by
  unfold NdjsonDecoder.finish NdjsonDecoder.drain
  rw [drainLines, findIdx_plain h]
  cases hempty : buffer.isEmpty with
  | true => rfl
  | false =>
    cases hparse : parseLine buffer with
    | error e => simp [Except.map]
    | ok message => simp [Except.map]

/-! ## The messages of a body -/

/-- The loop, from the end of some part on: the buffer has what came after the last line feed. -/
theorem receiveLoop_lines {buffer : Bytes} {total : Nat} {chunks : List Bytes}
    {messages : List StreamMessage} (hbuffer : ∀ b ∈ buffer, isLineFeed b = false)
    (hsize : total + chunks.flatten.length ≤ maxResponseBytes)
    (hparse : (contentLines (buffer ++ chunks.flatten)).mapM parseLine = .ok messages)
    (hlast : isBlank (openLine (buffer ++ chunks.flatten)) = true →
      openLine (buffer ++ chunks.flatten) = []) :
    receiveLoop ⟨buffer⟩ total chunks = outcome messages := by
  induction chunks generalizing buffer total messages with
  | nil =>
    rw [List.flatten_nil, List.append_nil] at hparse hlast
    obtain ⟨hended, hopen⟩ := lines_plain hbuffer
    rw [contentLines, terminatedLines, hended, hopen] at hparse
    rw [hopen] at hlast
    rw [receiveLoop, finish_eq hbuffer]
    cases hempty : buffer.isEmpty with
    | true =>
      obtain rfl := List.isEmpty_iff.mp hempty
      obtain rfl : [] = messages := Except.ok.inj hparse
      rfl
    | false =>
      have hblank : isBlank buffer = false := by
        cases hb : isBlank buffer with
        | true => rw [hlast hb] at hempty; cases hempty
        | false => rfl
      rw [hblank] at hparse
      obtain ⟨message, hmessage, hparse⟩ := Except.bind_ok.mp hparse
      obtain rfl : [message] = messages := Except.ok.inj hparse
      rw [hmessage]
      simp only [Bool.false_eq_true, ↓reduceIte, Except.map, forwardMessages_eq, outcome]
  | cons chunk chunks ih =>
    rw [List.flatten_cons, List.length_append] at hsize
    rw [List.flatten_cons, ← List.append_assoc] at hparse hlast
    rw [contentLines_append, List.mapM_append] at hparse
    obtain ⟨front, hfront, hparse⟩ := Except.bind_ok.mp hparse
    obtain ⟨back, hback, hparse⟩ := Except.bind_ok.mp hparse
    obtain rfl : front ++ back = messages := Except.ok.inj hparse
    rw [(lines_append _ _).2] at hlast
    have hroom : total + chunk.length + chunks.flatten.length ≤ maxResponseBytes := by omega
    have hrest := ih (openLine_plain (buffer ++ chunk)) hroom hback hlast
    rw [receiveLoop, if_neg (by omega), push_eq, hfront]
    dsimp only [Except.map]
    rw [forwardMessages_eq, hrest]
    simp only [outcome, throughDone_append, List.any_append]
    cases hdone : front.any (·.done) with
    | true => rfl
    | false =>
      rw [throughDone_undone hdone]
      rfl

/-- For every body within the limit whose lines that are not blank all parse, and every way to cut
it: the loop gets the messages of these lines, in order, through the first that is done, and the
stream completes if and only if there is one. -/
theorem receiveBody_lines {body : Bytes} {messages : List StreamMessage}
    (hsize : body.length ≤ maxResponseBytes)
    (hparse : (contentLines body).mapM parseLine = .ok messages)
    (hlast : isBlank (openLine body) = true → openLine body = []) {chunks : List Bytes}
    (hchunks : chunks.flatten = body) :
    (receiveBody chunks).1 = throughDone messages ∧
      ((receiveBody chunks).2 = .ok () ↔ ∃ message ∈ messages, message.done = true) ∧
      ∀ restorer, translateProtectedStream restorer chunks =
        restoredItems restorer
          ((throughDone messages).flatMap StreamMessage.forwarded, (outcome messages).2) := by
  subst hchunks
  have hreceive : receiveBody chunks = outcome messages :=
    receiveLoop_lines (fun b hb => absurd hb List.not_mem_nil) (by omega) hparse hlast
  refine ⟨congrArg Prod.fst hreceive, ?_, fun restorer => ?_⟩
  · rw [hreceive, ← List.any_eq_true]
    unfold outcome
    cases messages.any (·.done) with
    | true => simp
    | false => simp
  · unfold translateProtectedStream
    rw [hreceive]
    rfl

end Receive

/-! ### Two lines -/

def helloLine : Bytes :=
  asciiBytes "\x7b\"message\":\x7b\"content\":\"" ++ [0xE4, 0xBD, 0xA0, 0xE5, 0xA5, 0xBD] ++
    asciiBytes "\"\x7d,\"done\":false\x7d"

def doneLine : Bytes := asciiBytes "\x7b\"done\":true\x7d"

/-- `serde_json` of the two lines. -/
local instance twoLines : FromSlice where
  fromSlice line :=
    if line = helloLine then some ⟨some ⟨some "你好".toList⟩, false, none, none⟩
    else if line = doneLine then some ⟨none, true, none, none⟩
    else none

/-- The first part ends within a character, the second between a carriage return and a line feed. -/
theorem receiveBody_lines_hello :
    receiveBody [helloLine.take 28, helloLine.drop 28 ++ [0x0D], [0x0A, 0x0A] ++ doneLine] =
      ([⟨some "你好".toList, none, false⟩, ⟨none, some (.providerReported none none none), true⟩],
        .ok ()) := by
  let body := helloLine ++ [0x0D, 0x0A, 0x0A] ++ doneLine
  have hsize : body.length ≤ maxResponseBytes := by decide +kernel
  have hparse : (contentLines body).mapM parseLine =
      .ok [⟨some "你好".toList, none, false⟩,
        ⟨none, some (.providerReported none none none), true⟩] := by decide +kernel
  have hlast : isBlank (openLine body) = true → openLine body = [] := by decide +kernel
  have hchunks : [helloLine.take 28, helloLine.drop 28 ++ [0x0D], [0x0A, 0x0A] ++ doneLine].flatten =
      body := by decide +kernel
  obtain ⟨hmessages, hcompletes, -⟩ := receiveBody_lines hsize hparse hlast hchunks
  exact Prod.ext hmessages (hcompletes.mpr ⟨_, List.mem_cons_of_mem _ List.mem_cons_self, rfl⟩)

end LinguaMesh.Ollama
