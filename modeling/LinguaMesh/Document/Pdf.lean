import LinguaMesh.Lib.Loop
import LinguaMesh.Domain.Utf8
import LinguaMesh.Document.Job

/-!
# PDF packages

The restricted PDF reader and the rewriter of `pdf.rs`, over byte positions. A
slice is checked where the source takes one, so an index out of range is a
`panic` here too; a guarded access (`cursor < data.len()`, `data.get`) is
`data[cursor]?`.

Two things the reader uses are parameters: the arithmetic of `f32` (`F32`) and
the zlib codec (`Zlib`).
-/

namespace LinguaMesh.Pdf

open Search Run

def maxPdfPages : Nat := 256
def maxPdfObjects : Nat := 4096
def maxPdfOperators : Nat := 100000

/-- `f32`: its arithmetic and its `str::parse`. -/
class F32 (F : Type) extends Add F, Sub F where
  ofNat : Nat → F
  abs : F → F
  eq : F → F → Bool
  lt : F → F → Bool
  le : F → F → Bool
  /-- `fract() == 0.0`. -/
  isIntegral : F → Bool
  /-- `as u32`. -/
  toU32 : F → Nat
  parse : Bytes → Option F

/-- `flate2`: `inflate limit data` is what `read_to_end` reads of the first `limit` decoded
bytes, `none` for an error. -/
class Zlib where
  inflate : Nat → Bytes → Option Bytes
  deflate : Bytes → Option Bytes

structure PdfObject where
  id : Nat
  start : Nat
  stop : Nat
  bodyStart : Nat
  bodyEnd : Nat
  deriving DecidableEq, Repr

structure PdfTextSpan (F : Type) where
  objectId : Nat
  start : Nat
  stop : Nat
  page : Nat
  text : Str
  x : F
  y : F

structure PdfPage (F : Type) where
  width : F
  height : F

structure PdfDocument (F : Type) where
  objects : List PdfObject
  pages : List (PdfPage F)
  spans : List (PdfTextSpan F)

/-! ## Bytes -/

def byte (c : Char) : UInt8 := c.toNat.toUInt8

def isSpace (b : UInt8) : Bool := [0x20, 0x09, 0x0D, 0x0A, 0x0C, 0x00].contains b

def isDigit (b : UInt8) : Bool := 0x30 ≤ b && b ≤ 0x39

def hasToken (data : Bytes) (token : String) : Bool := contains data (asciiBytes token)

/-- `data.windows(token.len()).position(|window| window == token)`. -/
def position (data : Bytes) (token : String) : Option Nat := find (asciiBytes token) data

/-- `data.get(cursor..).is_some_and(|tail| tail.starts_with(token))`. -/
def startsAt (data : Bytes) (cursor : Nat) (token : String) : Bool :=
  (asciiBytes token).isPrefixOf (data.drop cursor)

/-- `while cursor < data.len() && p(data[cursor]) { cursor += 1 }`. -/
def skip (p : UInt8 → Bool) (data : Bytes) (cursor : Nat) : Nat :=
  cursor + ((data.drop cursor).takeWhile p).length

/-- The bytes from `start` up to `stop`, two positions a loop has passed. -/
def passed (data : Bytes) (start stop : Nat) : Bytes := (data.take stop).drop start

/-! ## Objects -/

structure ObjectScan where
  cursor : Nat
  objects : List PdfObject

/-- A `u32` from decimal digits, `none` on overflow. -/
def readU32 (digits : Bytes) : Option Nat :=
  digits.foldlM (fun id b =>
    let id := id * 10 + (b.toNat - 0x30)
    if id < 2 ^ 32 then some id else none) 0

def objectTurn (pdf : Bytes) (s : ObjectScan) :
    Run DocumentError (Turn ObjectScan (List PdfObject)) :=
  match pdf[s.cursor]? with
  | none => .ok (.done s.objects)
  | some b =>
    if !isDigit b || (0 < s.cursor && (pdf[s.cursor - 1]?).any isDigit) then
      .ok (.next { s with cursor := s.cursor + 1 })
    else do
      let idEnd := skip isDigit pdf s.cursor
      let id ← ofOption .invalidStructure (readU32 (passed pdf s.cursor idEnd))
      let cursor := skip isSpace pdf idEnd
      if startsAt pdf cursor "0 obj" then
        let bodyStart := cursor + 5
        let rest ← tailOf pdf bodyStart
        let relativeEnd ← ofOption .invalidStructure (position rest "endobj")
        let stop := bodyStart + relativeEnd + 6
        let object : PdfObject := ⟨id, s.cursor, stop, bodyStart, bodyStart + relativeEnd⟩
        if maxPdfObjects < (s.objects ++ [object]).length then fail .invalidStructure
        else .ok (.next ⟨stop, s.objects ++ [object]⟩)
      else .ok (.next { s with cursor })

def parseObjects (pdf : Bytes) : Run DocumentError (List PdfObject) := do
  let objects ← loop (objectTurn pdf) (pdf.length + 1) ⟨0, []⟩
  if objects.isEmpty then fail .invalidStructure else .ok objects

def objectBody (pdf : Bytes) (object : PdfObject) : Run DocumentError Bytes :=
  sliceOf pdf object.bodyStart object.bodyEnd

def objectById (objects : List PdfObject) (id : Nat) : Run DocumentError PdfObject :=
  ofOption .invalidStructure (objects.find? (·.id == id))

/-! ## Numbers -/

section Numbers

variable (F : Type) [F32 F]

def parseNumber (data : Bytes) (start : Nat) : Option (F × Nat) :=
  let stop := skip (fun b => isDigit b || b == byte '+' || b == byte '-' || b == byte '.') data start
  if start < stop then (F32.parse (passed data start stop)).map fun value => (value, stop) else none

/-- The next `n` numbers, with white space before each. -/
def readNumbers (data : Bytes) : Nat → Nat → Option (List F)
  | 0, _ => some []
  | n + 1, cursor => do
    let (number, next) ← parseNumber F data (skip isSpace data cursor)
    let numbers ← readNumbers data n next
    return number :: numbers

def mediaBox (data : Bytes) : PdfPage F :=
  let default : PdfPage F := ⟨F32.ofNat 612, F32.ofNat 792⟩
  match position data "/MediaBox" with
  | none => default
  | some start =>
    let cursor := skip isSpace data (start + 9)
    if data[cursor]? = some (byte '[') then
      match readNumbers F data 4 (cursor + 1) with
      | some [left, bottom, right, top] =>
        let width := F32.abs (right - left)
        let height := F32.abs (top - bottom)
        if F32.lt (F32.ofNat 0) width && F32.lt (F32.ofNat 0) height &&
            F32.le width (F32.ofNat 20000) && F32.le height (F32.ofNat 20000) then
          ⟨width, height⟩
        else default
      | _ => default
    else default

structure ReferenceScan where
  cursor : Nat
  ids : List Nat

def referenceTurn (data : Bytes) (array : Bool) (s : ReferenceScan) :
    Run DocumentError (Turn ReferenceScan (List Nat)) :=
  match parseNumber F data (skip isSpace data s.cursor) with
  | none => .ok (.done s.ids)
  | some (id, next) =>
    match parseNumber F data (skip isSpace data next) with
    | none => .ok (.done s.ids)
    | some (generation, next) =>
      let cursor := skip isSpace data next
      if startsAt data cursor "R" && F32.eq generation (F32.ofNat 0) &&
          (F32.le (F32.ofNat 1) id && F32.le id (F32.ofNat 4096)) && F32.isIntegral id then
        let ids := s.ids ++ [F32.toU32 id]
        if !array || data[cursor + 1]? == some (byte ']') then .ok (.done ids)
        else .ok (.next ⟨cursor + 1, ids⟩)
      else .ok (.done s.ids)

def referencedObjects (data : Bytes) (marker : String) : Run DocumentError (List Nat) :=
  match position data marker with
  | none => .ok []
  | some relative =>
    let cursor := skip isSpace data (relative + (asciiBytes marker).length)
    let array := data[cursor]? == some (byte '[')
    loop (referenceTurn F data array) (data.length + 1) ⟨if array then cursor + 1 else cursor, []⟩

end Numbers

/-! ## Streams -/

/-- The position after the line end that follows the `stream` keyword. -/
def streamStart (body : Bytes) (start : Nat) : Nat :=
  let start := if body[start]? = some (byte '\r') then start + 1 else start
  if body[start]? = some (byte '\n') then start + 1 else start

def streamData (pdf : Bytes) (object : PdfObject) : Run DocumentError (Bytes × Bool) := do
  let body ← objectBody pdf object
  let relativeStream ← ofOption .invalidStructure (position body "stream")
  let start := streamStart body (relativeStream + 6)
  let rest ← tailOf body start
  let offset ← ofOption .invalidStructure (position rest "endstream")
  let dictionary ← sliceOf body 0 relativeStream
  if hasToken dictionary "/FlateDecode" then
    let data ← sliceOf body start (start + offset)
    .ok (data, true)
  else if hasToken dictionary "/Filter" then fail .invalidStructure
  else
    let data ← sliceOf body start (start + offset)
    .ok (data, false)

def decodeStream [Zlib] (data : Bytes) (compressed : Bool) : Run DocumentError Bytes :=
  if maxDocumentBytes < data.length then fail .tooLarge
  else if !compressed then .ok data
  else match Zlib.inflate (maxDocumentBytes + 1) data with
    | none => fail .invalidStructure
    | some decoded => if maxDocumentBytes < decoded.length then fail .tooLarge else .ok decoded

/-! ## Text -/

def decodePdfText (bytes : Bytes) : Str :=
  (fromUtf8 bytes).getD (bytes.map fun b => Char.ofNat b.toNat)

structure LiteralScan where
  cursor : Nat
  depth : Nat
  output : Bytes

def isOctal (b : UInt8) : Bool := 0x30 ≤ b && b ≤ 0x37

/-- At most two more octal digits of an escape. -/
def octalDigits (data : Bytes) (cursor : Nat) : Bytes := ((data.drop cursor).take 2).takeWhile isOctal

/-- The escape whose byte after the backslash stands at `cursor`. -/
def escapeTurn (data : Bytes) (cursor : Nat) (escaped : UInt8) (s : LiteralScan) :
    Run DocumentError LiteralScan :=
  let push (b : UInt8) : Run DocumentError LiteralScan :=
    .ok { s with cursor := cursor + 1, output := s.output ++ [b] }
  if escaped = byte 'n' then push 0x0A
  else if escaped = byte 'r' then push 0x0D
  else if escaped = byte 't' then push 0x09
  else if escaped = byte 'b' then push 8
  else if escaped = byte 'f' then push 12
  else if escaped = byte '\n' then .ok { s with cursor := cursor + 1 }
  else if escaped = byte '\r' then
    .ok { s with
      cursor := if data[cursor + 1]? = some (byte '\n') then cursor + 2 else cursor + 1 }
  else if isOctal escaped then
    let digits := octalDigits data (cursor + 1)
    let value := digits.foldl (fun value b => value * 8 + (b.toNat - 0x30)) (escaped.toNat - 0x30)
    if value < 256 then
      .ok { s with
        cursor := cursor + digits.length + 1, output := s.output ++ [value.toUInt8] }
    else fail .invalidStructure
  else push escaped

def literalTurn (data : Bytes) (start : Nat) (s : LiteralScan) :
    Run DocumentError (Turn LiteralScan (Str × Nat × Nat)) :=
  match data[s.cursor]? with
  | none => fail .invalidStructure
  | some b =>
    if b = byte '(' then
      .ok (.next ⟨s.cursor + 1, s.depth + 1, s.output ++ [b]⟩)
    else if b = byte ')' then
      if s.depth - 1 = 0 then .ok (.done (decodePdfText s.output, start, s.cursor + 1))
      else .ok (.next ⟨s.cursor + 1, s.depth - 1, s.output ++ [b]⟩)
    else if b = byte '\\' then
      match data[s.cursor + 1]? with
      | none => fail .invalidStructure
      | some escaped => (escapeTurn data (s.cursor + 1) escaped s).map .next
    else .ok (.next { s with cursor := s.cursor + 1, output := s.output ++ [b] })

/-- The text of the literal at `start`, its position and the position after it. -/
def pdfLiteral (data : Bytes) (start : Nat) : Run DocumentError (Str × Nat × Nat) :=
  if data[start]? = some (byte '(') then
    loop (literalTurn data start) (data.length + 1) ⟨start + 1, 1, []⟩
  else fail .invalidStructure

def hexValue (b : UInt8) : Option UInt8 :=
  if 0x30 ≤ b && b ≤ 0x39 then some (b - 0x30)
  else if 0x61 ≤ b && b ≤ 0x66 then some (b - 0x61 + 10)
  else if 0x41 ≤ b && b ≤ 0x46 then some (b - 0x41 + 10)
  else none

/-- The bytes of hexadecimal digits, after the digit `high` that waits for its second half. -/
def hexBytes : Option UInt8 → Bytes → Option Bytes
  | none, [] => some []
  | some left, [] => some [left * 16]
  | high, b :: bs =>
    if isSpace b then hexBytes high bs
    else match hexValue b, high with
      | none, _ => none
      | some value, none => hexBytes (some value) bs
      | some value, some left => (hexBytes none bs).map fun rest => (left * 16 + value) :: rest

section Scan

variable {F : Type} [F32 F]

structure ScanState (F : Type) where
  cursor : Nat
  inText : Bool
  /-- The numbers since the last operator, the latest first. -/
  numbers : List F
  x : F
  y : F
  operators : Nat
  spans : List (PdfTextSpan F)

/-- The effect of an operator on the text state. -/
def ScanState.operator (s : ScanState F) (op : Bytes) : ScanState F :=
  let cleared : ScanState F := { s with numbers := [] }
  if op = asciiBytes "BT" then { s with inText := true }
  else if op = asciiBytes "ET" then { cleared with inText := false }
  else if op = asciiBytes "T*" then { cleared with y := s.y - F32.ofNat 12 }
  else match s.numbers with
    | dy :: dx :: rest =>
      if op = asciiBytes "Td" ∨ op = asciiBytes "TD" then
        { cleared with x := s.x + dx, y := s.y + dy }
      else if op = asciiBytes "Tm" ∧ 4 ≤ rest.length then { cleared with x := dx, y := dy }
      else if op.length ≤ 3 then cleared else s
    | _ => if op.length ≤ 3 then cleared else s

/-- A span of a text object; an empty text makes none. -/
def ScanState.pushSpan (s : ScanState F) (objectId page start stop : Nat) (text : Str) :
    ScanState F :=
  if s.inText && !text.isEmpty then
    { s with spans := s.spans ++ [⟨objectId, start, stop, page, text, s.x, s.y⟩] }
  else s

def isDelimiter (b : UInt8) : Bool :=
  [byte '[', byte ']', byte '(', byte ')', byte '<'].contains b

def hexTurn (data : Bytes) (objectId page : Nat) (s : ScanState F) :
    Run DocumentError (Turn (ScanState F) (List (PdfTextSpan F))) := do
  let rest ← tailOf data (s.cursor + 1)
  let relativeEnd ← ofOption .invalidStructure (rest.idxOf? (byte '>'))
  let stop := s.cursor + relativeEnd + 2
  if s.inText then
    let digits ← sliceOf data (s.cursor + 1) (stop - 1)
    let bytes ← ofOption .invalidStructure (hexBytes none digits)
    let s' := s.pushSpan objectId page s.cursor stop (decodePdfText bytes)
    .ok (.next { s' with cursor := stop })
  else .ok (.next { s with cursor := stop })

def operatorTurn (data : Bytes) (s : ScanState F) :
    Run DocumentError (Turn (ScanState F) (List (PdfTextSpan F))) :=
  let stop := skip (fun b => !isSpace b && !isDelimiter b) data s.cursor
  if stop = s.cursor then .ok (.next { s with cursor := s.cursor + 1 })
  else if maxPdfOperators < s.operators + 1 then fail .invalidStructure
  else
    .ok (.next { s.operator (passed data s.cursor stop) with
      cursor := stop, operators := s.operators + 1 })

def scanTurn (data : Bytes) (objectId page : Nat) (s : ScanState F) :
    Run DocumentError (Turn (ScanState F) (List (PdfTextSpan F))) :=
  match data[s.cursor]? with
  | none => .ok (.done s.spans)
  | some b =>
    if isSpace b then .ok (.next { s with cursor := s.cursor + 1 })
    else if b = byte '%' then
      .ok (.next { s with cursor :=
        ((data.drop s.cursor).idxOf? (byte '\n')).elim data.length (s.cursor + · + 1) })
    else if b = byte '(' then do
      let (text, start, stop) ← pdfLiteral data s.cursor
      -- the scan goes on one byte after the literal's end
      .ok (.next { s.pushSpan objectId page start stop text with cursor := stop + 1 })
    else if b = byte '<' ∧ data[s.cursor + 1]? ≠ some (byte '<') then hexTurn data objectId page s
    else match parseNumber F data s.cursor with
      | some (number, next) => .ok (.next { s with numbers := number :: s.numbers, cursor := next })
      | none => operatorTurn data s

def extractStreamSpans (data : Bytes) (objectId page : Nat) :
    Run DocumentError (List (PdfTextSpan F)) :=
  loop (scanTurn data objectId page) (data.length + 1)
    ⟨0, false, [], F32.ofNat 0, F32.ofNat 0, 0, []⟩

/-! ## Documents -/

/-- The spans of the stream object `id`, seen from `page`. -/
def streamSpans [Zlib] (pdf : Bytes) (objects : List PdfObject) (page id : Nat) :
    Run DocumentError (List (PdfTextSpan F)) := do
  let object ← objectById objects id
  let (stream, compressed) ← streamData pdf object
  let decoded ← decodeStream stream compressed
  extractStreamSpans decoded id page

def isPage (body : Bytes) : Bool :=
  hasToken body "/Type" && hasToken body "/Page" && !hasToken body "/Pages"

def scanObject [Zlib] (pdf : Bytes) (objects : List PdfObject)
    (acc : List (PdfPage F) × List (PdfTextSpan F)) (object : PdfObject) :
    Run DocumentError (List (PdfPage F) × List (PdfTextSpan F)) := do
  let body ← objectBody pdf object
  if !isPage body then .ok acc
  else if maxPdfPages ≤ acc.1.length then fail .invalidStructure
  else
    let ids ← referencedObjects F body "/Contents"
    let spans ← ids.foldlM (fun spans id => do
      let found ← streamSpans pdf objects acc.1.length id
      .ok (spans ++ found)) acc.2
    .ok (acc.1 ++ [mediaBox F body], spans)

def parsePdf [Zlib] (pdf : Bytes) : Run DocumentError (PdfDocument F) :=
  if maxDocumentBytes < pdf.length || !startsAt pdf 0 "%PDF-" || !hasToken pdf "%%EOF" then
    fail .invalidStructure
  else if hasToken pdf "/Encrypt" then fail .invalidStructure
  else do
    let objects ← parseObjects pdf
    let (pages, spans) ← objects.foldlM (scanObject pdf objects) ([], [])
    if pages.isEmpty then fail .invalidStructure else .ok ⟨objects, pages, spans⟩

/-- The line ending after a span: a break of the page, of the line or back in the line. -/
def lineEnding (span : PdfTextSpan F) : Option (PdfTextSpan F) → Str
  | none => []
  | some next =>
    if next.page ≠ span.page ∨ F32.lt (F32.ofNat 4) (F32.abs (span.y - next.y)) ∨
        F32.lt (next.x + F32.ofNat 1) span.x then ['\n']
    else []

def segmentOf (spans : List (PdfTextSpan F)) (index : Nat) (span : PdfTextSpan F) :
    DocumentSegment where
  index := index
  kind := if span.text.any (!isWhitespace ·) then .prose else .verbatim
  sourceText := span.text
  translatedText := none
  lineEnding := lineEnding span spans[index + 1]?

variable (F) in
def inspect [Zlib] (package : Bytes) : Run DocumentError (List DocumentSegment) := do
  let document : PdfDocument F ← parsePdf package
  .ok (document.spans.mapIdx (segmentOf document.spans))

variable (F) in
/-- `DocumentJob::from_pdf_bytes`. -/
def fromPdfBytes [Zlib] (sourceName : Str) (contents : Bytes) : Run DocumentError DocumentJob :=
  match DocumentFormat.fromName sourceName with
  | .error e => fail e
  | .ok format =>
    if format ≠ .pdf then fail .unsupportedFormat
    else if maxDocumentBytes < contents.length then fail .tooLarge
    else do
      let segments ← inspect F contents
      .ok ⟨.pdf, sourceName, segments, some contents⟩

/-! ## Rewriting -/

def pdfEscape (text : Str) : Run DocumentError Bytes :=
  if text.all (·.toNat < 128) then
    .ok (text.flatMap fun c =>
      if c = '(' ∨ c = ')' ∨ c = '\\' then [byte '\\', byte c]
      else if c = '\n' then [byte '\\', byte 'n']
      else if c = '\r' then [byte '\\', byte 'r']
      else [byte c])
  else fail .pdfTextEncodingUnsupported

/-- One span: the data before it, then its text. The state is the cursor and the output. -/
def rewriteSpan (data : Bytes) (acc : Nat × Bytes) (pair : PdfTextSpan F × DocumentSegment) :
    Run DocumentError (Nat × Bytes) := do
  let (span, segment) := pair
  let before ← sliceOf data acc.1 span.start
  if segment.sourceText ≠ span.text then fail .invalidStructure
  else match segment.kind with
    | .verbatim =>
      let source ← sliceOf data span.start span.stop
      .ok (span.stop, acc.2 ++ before ++ source)
    | .prose =>
      let translated ← ofOption (.segmentIncomplete segment.index) segment.translatedText
      let escaped ← pdfEscape translated
      .ok (span.stop, acc.2 ++ before ++ [byte '('] ++ escaped ++ [byte ')'])

def rewriteStream (data : Bytes) (spans : List (PdfTextSpan F × DocumentSegment)) :
    Run DocumentError Bytes := do
  let (cursor, output) ← spans.foldlM (rewriteSpan data) (0, [])
  let rest ← tailOf data cursor
  .ok (output ++ rest)

/-- The dictionary with its `/Length` set to `length`. -/
def setLength (dictionary : Bytes) (length : Nat) : Run DocumentError Bytes := do
  let lengthStart ← ofOption .invalidStructure (position dictionary "/Length")
  let lengthEnd := skip isDigit dictionary (skip isSpace dictionary (lengthStart + 7))
  splice dictionary (lengthStart + 7) lengthEnd (byte ' ' :: asciiBytes (toString length))

/-- `dictionary.drain(..)` of the filter entry of an uncompressed stream. -/
def dropFilter (dictionary : Bytes) (compressed : Bool) : Run DocumentError Bytes :=
  if compressed then .ok dictionary
  else match position dictionary "/Filter" with
    | none => .ok dictionary
    | some filterStart =>
      splice dictionary filterStart
        (skip (fun b => b != byte '/' && b != byte '>') dictionary (filterStart + 7)) []

def encodeStream [Zlib] (rewritten : Bytes) (compressed : Bool) : Run DocumentError Bytes :=
  if compressed then ofOption .invalidStructure (Zlib.deflate rewritten) else .ok rewritten

def rewriteObject [Zlib] (pdf : Bytes) (object : PdfObject)
    (replacements : List (PdfTextSpan F × DocumentSegment)) : Run DocumentError Bytes := do
  let body ← objectBody pdf object
  let relativeStream ← ofOption .invalidStructure (position body "stream")
  let (oldStream, compressed) ← streamData pdf object
  let decoded ← decodeStream oldStream compressed
  let rewritten ← rewriteStream decoded replacements
  let encoded ← encodeStream rewritten compressed
  let dictionary ← sliceOf body 0 relativeStream
  let dictionary ← setLength dictionary encoded.length
  let dictionary ← dropFilter dictionary compressed
  let head ← sliceOf pdf object.start object.bodyStart
  .ok (head ++ dictionary ++ asciiBytes "stream\n" ++ encoded ++ asciiBytes "\nendstream\nendobj")

/-- The order in which a `HashMap` gives its keys: any. -/
structure HashOrder where
  order : List Nat → List Nat
  perm : ∀ keys, (order keys).Perm keys

/-- `by_object`: the spans of each object, with their segments. -/
def byObject (pairs : List (PdfTextSpan F × DocumentSegment)) (id : Nat) :
    List (PdfTextSpan F × DocumentSegment) :=
  pairs.filter (·.1.objectId == id)

/-- A replacement of the bytes from `start` to `stop`. -/
structure Replacement where
  start : Nat
  stop : Nat
  bytes : Bytes

def replacement [Zlib] (package : Bytes) (objects : List PdfObject)
    (pairs : List (PdfTextSpan F × DocumentSegment)) (id : Nat) :
    Run DocumentError Replacement := do
  let object ← objectById objects id
  let bytes ← rewriteObject package object (byObject pairs id)
  .ok ⟨object.start, object.stop, bytes⟩

variable (F) in
def reconstruct [Zlib] (hash : HashOrder) (job : DocumentJob) (package : Bytes) :
    Run DocumentError Bytes := do
  let document : PdfDocument F ← parsePdf package
  if document.spans.length ≠ job.segments.length then fail .invalidStructure
  else if job.segments.isEmpty then .ok package
  else
    let pairs := document.spans.zip job.segments
    let keys := hash.order (pairs.map (·.1.objectId)).dedup
    let replacements ← keys.mapM (replacement package document.objects pairs)
    let sorted := replacements.mergeSort fun left right => right.start ≤ left.start
    let output ← sorted.foldlM (fun output r => splice output r.start r.stop r.bytes) package
    if maxDocumentBytes < output.length then fail .outputTooLarge
    else
      let _ : PdfDocument F ← parsePdf output
      .ok output

end Scan

end LinguaMesh.Pdf
