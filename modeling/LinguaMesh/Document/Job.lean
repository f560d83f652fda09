import LinguaMesh.Domain.Text

/-!
# Document jobs

The job that an importer makes of a document: its segments in order, each with
the translation it has by now, and the bytes of the package for the formats
that are rebuilt from it.

`applyTranslation` stores a translation in the form the format needs.
`serde_json::to_string` of a string is a parameter (`JsonStrings`).
-/

namespace LinguaMesh

inductive DocumentFormat where
  | txt | markdown | srt | webVtt | csv | html | json | docx | pptx | xlsx | epub | pdf
  deriving DecidableEq, Repr

inductive DocumentJobState where
  | pending | running | paused | completed | cancelled | failed
  deriving DecidableEq, Repr

inductive DocumentSegmentKind where
  | prose | verbatim
  deriving DecidableEq, Repr

inductive DocumentError where
  | tooLarge | invalidUtf8 | unsupportedFormat | invalidStructure | invalidXlsxSelection
  | outputTooLarge
  | unknownSegment (index : Nat)
  | verbatimSegment (index : Nat)
  | segmentIncomplete (index : Nat)
  | pdfTextEncodingUnsupported
  deriving DecidableEq, Repr

/-- The `Display` text. -/
def DocumentError.message : DocumentError → String
  | tooLarge => "The document exceeds the 4 MiB limit."
  | invalidUtf8 => "The document is not valid UTF-8 text."
  | unsupportedFormat => "The document format is not supported."
  | invalidStructure => "The document structure is invalid."
  | invalidXlsxSelection => "The XLSX sheet or cell range selection is invalid."
  | outputTooLarge => "The reconstructed document exceeds the 4 MiB limit."
  | unknownSegment _ => "The document segment is not present."
  | verbatimSegment _ => "The document structure segment must remain unchanged."
  | segmentIncomplete _ => "The document segment is not translated."
  | pdfTextEncodingUnsupported => "The PDF text requires an alternative structured export."

def maxDocumentBytes : Nat := 4 * 1024 * 1024

structure DocumentSegment where
  index : Nat
  kind : DocumentSegmentKind
  sourceText : Str
  translatedText : Option Str
  lineEnding : Str
  deriving DecidableEq, Repr

/-- A prose segment that has no translation. -/
def DocumentSegment.isPending (s : DocumentSegment) : Bool :=
  s.kind == .prose && s.translatedText.isNone

structure DocumentJob where
  format : DocumentFormat
  sourceName : Str
  segments : List DocumentSegment
  package : Option (List UInt8)
  deriving DecidableEq, Repr

/-- `serde_json::to_string` of a string, `none` for an error. -/
class JsonStrings where
  toString : Str → Option Str

/-- No string is encoded. -/
@[reducible] def noStrings : JsonStrings := ⟨fun _ => none⟩

namespace DocumentFormat

/-- The extension of a name, in lower case. -/
def extension (name : Str) : Str :=
  if '.' ∈ name then (name.reverse.takeWhile (· ≠ '.')).reverse.map Char.toLower else []

/-- `DocumentFormat::from_name`. -/
def fromName (name : Str) : Except DocumentError DocumentFormat :=
  match String.ofList (extension name) with
  | "txt" => .ok txt
  | "md" | "markdown" => .ok markdown
  | "srt" => .ok srt
  | "vtt" => .ok webVtt
  | "csv" => .ok csv
  | "html" | "htm" => .ok html
  | "json" => .ok json
  | "docx" => .ok docx
  | "pptx" => .ok pptx
  | "xlsx" => .ok xlsx
  | "epub" => .ok epub
  | "pdf" => .ok pdf
  | _ => .error .unsupportedFormat

end DocumentFormat

/-! ## Encodings of a translation -/

/-- `str::replace` of a character. -/
def replaceChar (c : Char) (new : String) (s : Str) : Str :=
  s.flatMap fun d => if d = c then new.toList else [d]

def encodeHtmlText (translated : Str) : Str :=
  replaceChar '>' "&gt;" (replaceChar '<' "&lt;" (replaceChar '&' "&amp;" translated))

def encodeJsonString [JsonStrings] (translated : Str) : Str :=
  (JsonStrings.toString translated).getD "\"\"".toList

def csvDelimiterCandidates : Str := [',', ';', '\t', '|']

/-- The counts of the candidates outside quotes in the first record. -/
def csvCounts : Bool → List Nat → Str → List Nat
  | _, counts, [] => counts
  | true, counts, '"' :: '"' :: cs => csvCounts true counts cs
  | inQuotes, counts, '"' :: cs => csvCounts (!inQuotes) counts cs
  | true, counts, _ :: cs => csvCounts true counts cs
  | false, counts, c :: cs =>
    if c = '\r' ∨ c = '\n' then counts
    else csvCounts false (counts.modify (csvDelimiterCandidates.idxOf c) (· + 1)) cs

/-- `detect_csv_delimiter`: the candidate with the largest count, the first of several. -/
def detectCsvDelimiter (text : Str) : Char :=
  let counts := csvCounts false [0, 0, 0, 0] text
  csvDelimiterCandidates.getD (counts.idxOf (counts.foldl max 0)) ','

def encodeCsvField (raw translated : Str) (delimiter : Char) : Str :=
  if raw.head? = some '"' ∨ delimiter ∈ translated ∨ '"' ∈ translated ∨ '\r' ∈ translated ∨
      '\n' ∈ translated then
    '"' :: replaceChar '"' "\"\"" translated ++ ['"']
  else translated

/-! ## Operations of a job -/

namespace DocumentJob

/-- `pending_count`. -/
def pendingCount (job : DocumentJob) : Nat := (job.segments.filter DocumentSegment.isPending).length

/-- `source_text`. -/
def sourceText (job : DocumentJob) : Str := job.segments.flatMap fun s => s.sourceText ++ s.lineEnding

/-- The form in which a translation of `raw` is stored. -/
def encodeTranslation [JsonStrings] (job : DocumentJob) (raw translated : Str) : Str :=
  match job.format with
  | .csv => encodeCsvField raw translated (detectCsvDelimiter job.sourceText)
  | .json => encodeJsonString translated
  | .html => encodeHtmlText translated
  | _ => translated

/-- `apply_translation`. -/
def applyTranslation [JsonStrings] (job : DocumentJob) (index : Nat) (translated : Str) :
    Except DocumentError DocumentJob :=
  match job.segments[index]? with
  | none => .error (.unknownSegment index)
  | some segment =>
    if segment.kind = .prose then
      .ok { job with
        segments := job.segments.set index { segment with
          translatedText := some (job.encodeTranslation segment.sourceText translated) } }
    else .error (.verbatimSegment index)

theorem applyTranslation_ok [JsonStrings] {job job' : DocumentJob} {index : Nat} {translated : Str}
    (h : job.applyTranslation index translated = .ok job') :
    ∃ s, job.segments[index]? = some s ∧ s.kind = .prose ∧
      job' = { job with segments := job.segments.set index { s with
        translatedText := some (job.encodeTranslation s.sourceText translated) } } := by
  unfold applyTranslation at h
  cases hs : job.segments[index]? with
  | none => simp [hs] at h
  | some s =>
    simp only [hs] at h
    split at h
    · rename_i hk
      exact ⟨s, rfl, hk, (Except.ok.inj h).symm⟩
    · cases h

end DocumentJob

end LinguaMesh
