import LinguaMesh.Domain.Utf8
import LinguaMesh.Document.Subtitles
import LinguaMesh.Document.Csv
import LinguaMesh.Document.Json
import LinguaMesh.Document.Html

/-!
# Importing and rebuilding a document

A document comes in as bytes: at most 4 MiB, a byte order mark dropped, decoded,
its structure checked, and cut into segments by the importer of its format. It
goes out as the translations in the place of the prose, checked once more.

An accepted text is laid out as it is: nothing of it is lost between the
segments (`Segmented`), whatever the format and the options. The readers of the
package formats are a parameter (`Packages`).
-/

namespace LinguaMesh

open Run

/-- `docx.rs`, `epub.rs` and `pdf.rs`: the segments of a package, and the preview of a job after
its package has been rebuilt. -/
class Packages where
  inspect : DocumentFormat → Bytes → Run DocumentError (List DocumentSegment)
  preview : DocumentJob → Bytes → Run DocumentError Str

def DocumentFormat.isPackage (format : DocumentFormat) : Bool :=
  [docx, pptx, xlsx, epub, pdf].contains format

section Validation

variable [JsonReader]

/-- `validate_structure_with_delimiter`; `validate_structure` is it without a delimiter. -/
def validateStructure (format : DocumentFormat) (text : Str) (delimiter : Option Char) :
    Run DocumentError Unit :=
  match format with
  | .html => (parseHtmlTokens text).map fun _ => ()
  | .json => (parseJsonTokens text).map fun _ => ()
  | .csv => (parseCsvRecords text (delimiter.getD (detectCsvDelimiter text))).map fun _ => ()
  | .srt | .webVtt => validateSubtitles format text
  | _ => .ok ()

theorem returns_validateStructure (format : DocumentFormat) (text : Str) (delimiter : Option Char) :
    Returns (validateStructure format text delimiter) := by
  unfold Returns validateStructure
  split
  · exact post_map.mpr (returns_parseHtmlTokens text)
  · exact post_map.mpr (post_parseJsonTokens text).returns
  · exact post_map.mpr (post_parseCsvRecords text _).returns
  · exact returns_validateSubtitles _ text
  · exact returns_validateSubtitles _ text
  · trivial

end Validation

/-! ## Import -/

/-- `contents.strip_prefix(b"\xef\xbb\xbf").unwrap_or(contents)`. -/
def stripByteOrderMark (contents : Bytes) : Bytes :=
  if [0xEF, 0xBB, 0xBF].isPrefixOf contents then contents.drop 3 else contents

namespace DocumentJob

section Import

variable [JsonReader]

def fromText (sourceName : Str) (format : DocumentFormat) (text : Str) : DocumentJob :=
  let imported : Option DocumentJob := match format with
    | .csv => (fromCsvText sourceName text none).toOption
    | .json => (fromJsonText sourceName text none none).toOption
    | .html => (fromHtmlText sourceName text).toOption
    | _ => none
  imported.getD ⟨format, sourceName, lineSegments format text, none⟩

/-- The checks before a text is cut: its format and the text. -/
def readText (sourceName : Str) (contents : Bytes) : Run DocumentError (DocumentFormat × Str) :=
  if maxDocumentBytes < contents.length then fail .tooLarge
  else match DocumentFormat.fromName sourceName with
    | .error e => fail e
    | .ok format => do
      let text ← ofOption .invalidUtf8 (LinguaMesh.fromUtf8 (stripByteOrderMark contents))
      validateStructure format text none
      .ok (format, text)

def fromUtf8WithCsvColumns (sourceName : Str) (contents : Bytes)
    (selectedColumns : Option (List Nat)) : Run DocumentError DocumentJob := do
  let (format, text) ← readText sourceName contents
  if format = .csv then fromCsvText sourceName text selectedColumns
  else .ok (fromText sourceName format text)

def fromUtf8WithJsonPaths (sourceName : Str) (contents : Bytes)
    (includePaths excludePaths : Option (List Str)) : Run DocumentError DocumentJob := do
  let (format, text) ← readText sourceName contents
  if format = .json then fromJsonText sourceName text includePaths excludePaths
  else if format = .csv then fromCsvText sourceName text none
  else .ok (fromText sourceName format text)

/-- `from_ooxml_bytes`, `from_epub_bytes` and `from_pdf_bytes`, for a name of their format. -/
def fromPackage [Packages] (sourceName : Str) (format : DocumentFormat) (contents : Bytes) :
    Run DocumentError DocumentJob :=
  if maxDocumentBytes < contents.length then fail .tooLarge
  else do
    let segments ← Packages.inspect format contents
    .ok ⟨format, sourceName, segments, some contents⟩

def fromUtf8 [Packages] (sourceName : Str) (contents : Bytes) : Run DocumentError DocumentJob :=
  match DocumentFormat.fromName sourceName with
  | .error e => fail e
  | .ok format =>
    if format.isPackage then fromPackage sourceName format contents
    else fromUtf8WithJsonPaths sourceName contents none none

end Import

end DocumentJob

/-- The options that an import is called with. -/
inductive ImportOptions where
  | plain
  | csvColumns (selectedColumns : Option (List Nat))
  | jsonPaths (includePaths excludePaths : Option (List Str))
  deriving Repr

/-- The import of a document: the function that takes the options. -/
def ImportOptions.run [JsonReader] [Packages] (options : ImportOptions) (sourceName : Str)
    (contents : Bytes) : Run DocumentError DocumentJob :=
  match options with
  | plain => DocumentJob.fromUtf8 sourceName contents
  | csvColumns selected => DocumentJob.fromUtf8WithCsvColumns sourceName contents selected
  | jsonPaths includePaths excludePaths =>
    DocumentJob.fromUtf8WithJsonPaths sourceName contents includePaths excludePaths

/-! ## Rebuilding -/

def DocumentSegment.outputText (s : DocumentSegment) : Run DocumentError Str :=
  match s.kind with
  | .verbatim => .ok s.sourceText
  | .prose => ofOption (.segmentIncomplete s.index) s.translatedText

namespace DocumentJob

/-- What is sent to be translated for a segment. -/
def translationSourceText [JsonReader] (job : DocumentJob) (index : Nat) : Run DocumentError Str :=
  match job.segments[index]? with
  | none => fail (.unknownSegment index)
  | some segment =>
    if segment.kind ≠ .prose then .ok segment.sourceText
    else match job.format with
    | .csv => decodeCsvField segment.sourceText (detectCsvDelimiter job.sourceText)
    | .json => ofOption .invalidStructure (JsonReader.parseString segment.sourceText)
    | _ => .ok segment.sourceText

/-- The output texts of segments with their line endings. -/
def outputOf (segments : List DocumentSegment) : Run DocumentError Str :=
  segments.foldlM (fun output s => do
    let text ← s.outputText
    .ok (output ++ text ++ s.lineEnding)) []

def reconstruct [JsonReader] [Packages] (job : DocumentJob) : Run DocumentError Str :=
  if job.format.isPackage then do
    let package ← ofOption .invalidStructure job.package
    Packages.preview job package
  else do
    let output ← outputOf job.segments
    if maxDocumentBytes < utf8Len output then fail .outputTooLarge
    else do
      validateStructure job.format output
        (if job.format = .csv then some (detectCsvDelimiter job.sourceText) else none)
      .ok output

end DocumentJob

/-! ## The segments of an accepted text -/

theorem fromUtf8_byteOrderMark (rest : Bytes) :
    fromUtf8 (0xEF :: 0xBB :: 0xBF :: rest) = (fromUtf8 rest).map ('\uFEFF' :: ·) := by
  conv_lhs => unfold fromUtf8
  rfl

/-- The decoded contents are the text, after a byte order mark or not. -/
theorem decoded_text {contents : Bytes} {text : Str}
    (h : fromUtf8 (stripByteOrderMark contents) = some text) :
    ∃ full, fromUtf8 contents = some full ∧ (text = full ∨ '\uFEFF' :: text = full) := by
  unfold stripByteOrderMark at h
  split at h
  · rename_i hp
    obtain ⟨rest, rfl⟩ := List.isPrefixOf_iff_prefix.mp hp
    have hrest : fromUtf8 rest = some text := h
    refine ⟨'\uFEFF' :: text, ?_, .inr rfl⟩
    exact (fromUtf8_byteOrderMark rest).trans (by rw [hrest]; rfl)
  · exact ⟨text, h, .inl rfl⟩

/-- A text that has passed the checks of an import. -/
structure Accepted [JsonReader] (contents : Bytes) (format : DocumentFormat) (text : Str) : Prop where
  size : contents.length ≤ maxDocumentBytes
  decoded : fromUtf8 (stripByteOrderMark contents) = some text
  valid : validateStructure format text none = .ok ()

theorem Accepted.utf8Len_le [JsonReader] {contents : Bytes} {format : DocumentFormat} {text : Str}
    (h : Accepted contents format text) : utf8Len text ≤ maxDocumentBytes := by
  have hstrip : (stripByteOrderMark contents).length ≤ contents.length := by
    unfold stripByteOrderMark
    split
    · exact (List.drop_sublist _ _).length_le
    · exact Nat.le_refl _
  exact ((utf8Len_fromUtf8 h.decoded).trans hstrip).trans h.size

/-- A job made of an accepted text. -/
structure Imported [JsonReader] (contents : Bytes) (text : Str) (job : DocumentJob) : Prop where
  accepted : Accepted contents job.format text
  segmented : Segmented text job.segments
  html : job.format = .html → ∃ sourceName, fromHtmlText sourceName text = .ok job

namespace DocumentJob

variable [JsonReader]

theorem fromText_spec (sourceName : Str) (format : DocumentFormat) (text : Str) :
    (fromText sourceName format text).format = format ∧
      Segmented text (fromText sourceName format text).segments := by
  have imported {x : Run DocumentError DocumentJob}
      (h : Post x fun job => job.format = format ∧ Segmented text job.segments) :
      let job := x.toOption.getD ⟨format, sourceName, lineSegments format text, none⟩
      job.format = format ∧ Segmented text job.segments := by
    cases x with
    | ok job => exact h
    | error e => exact ⟨rfl, segmented_lineSegments format text⟩
  unfold fromText
  split
  · exact imported (post_fromCsvText sourceName text none)
  · exact imported (post_fromJsonText sourceName text none none)
  · exact imported (post_fromHtmlText sourceName text)
  · exact ⟨rfl, segmented_lineSegments format text⟩

theorem post_readText (sourceName : Str) (contents : Bytes) :
    Post (readText sourceName contents) fun r => Accepted contents r.1 r.2 := by
  unfold readText
  split
  · exact post_fail
  rename_i hsize
  split
  · exact post_fail
  refine (post_ofOption fun _ h => h).bind fun text htext => ?_
  refine (returns_validateStructure _ text none).self.bind fun _ h => ?_
  exact ⟨Nat.le_of_not_lt hsize, htext, h.1⟩

/-- An accepted HTML text is not cut into lines. -/
theorem fromText_html {contents : Bytes} {sourceName text : Str}
    (h : Accepted contents .html text) :
    fromHtmlText sourceName text = .ok (fromText sourceName .html text) := by
  obtain ⟨tokens, htokens⟩ : ∃ tokens, parseHtmlTokens text = .ok tokens := by
    have hvalid := h.valid
    unfold validateStructure at hvalid
    cases hp : parseHtmlTokens text with
    | ok tokens => exact ⟨tokens, rfl⟩
    | error e =>
      rw [hp] at hvalid
      cases hvalid
  have himport : fromHtmlText sourceName text =
      .ok ⟨.html, sourceName, tokens.mapIdx (htmlSegment text), none⟩ := by
    unfold fromHtmlText
    rw [htokens]
    rfl
  rw [himport]
  unfold fromText
  rw [himport]
  rfl

theorem imported_fromText {contents : Bytes} {format : DocumentFormat} {text : Str}
    (h : Accepted contents format text) (sourceName : Str) :
    Imported contents text (fromText sourceName format text) := by
  obtain ⟨hformat, hsegmented⟩ := fromText_spec sourceName format text
  refine ⟨hformat.symm ▸ h, hsegmented, fun hhtml => ⟨sourceName, ?_⟩⟩
  rw [hformat] at hhtml
  subst hhtml
  exact fromText_html h

theorem imported_of {contents : Bytes} {format : DocumentFormat} {text : Str} {job : DocumentJob}
    (h : Accepted contents format text) (hformat : format ≠ .html)
    (hjob : job.format = format ∧ Segmented text job.segments) : Imported contents text job := by
  obtain ⟨rfl, hsegmented⟩ := hjob
  exact ⟨h, hsegmented, fun hhtml => absurd hhtml hformat⟩

theorem post_fromUtf8WithCsvColumns (sourceName : Str) (contents : Bytes)
    (selectedColumns : Option (List Nat)) :
    Post (fromUtf8WithCsvColumns sourceName contents selectedColumns) fun job =>
      ∃ text, Imported contents text job := by
  unfold fromUtf8WithCsvColumns
  refine (post_readText sourceName contents).bind fun r h => ?_
  obtain ⟨format, text⟩ := r
  dsimp only
  split
  · rename_i hcsv
    subst hcsv
    exact (post_fromCsvText sourceName text selectedColumns).mono fun job hjob =>
      ⟨text, imported_of h (fun e => nomatch e) hjob⟩
  · exact ⟨text, imported_fromText h sourceName⟩

theorem post_fromUtf8WithJsonPaths (sourceName : Str) (contents : Bytes)
    (includePaths excludePaths : Option (List Str)) :
    Post (fromUtf8WithJsonPaths sourceName contents includePaths excludePaths) fun job =>
      ∃ text, Imported contents text job := by
  unfold fromUtf8WithJsonPaths
  refine (post_readText sourceName contents).bind fun r h => ?_
  obtain ⟨format, text⟩ := r
  dsimp only
  split
  · rename_i hjson
    subst hjson
    exact (post_fromJsonText sourceName text _ _).mono fun job hjob =>
      ⟨text, imported_of h (fun e => nomatch e) hjob⟩
  split
  · rename_i hcsv
    subst hcsv
    exact (post_fromCsvText sourceName text none).mono fun job hjob =>
      ⟨text, imported_of h (fun e => nomatch e) hjob⟩
  · exact ⟨text, imported_fromText h sourceName⟩

end DocumentJob

/-- A job that an import returns is made of an accepted text, or of a package. -/
theorem imported_of_run [JsonReader] [Packages] {options : ImportOptions} {sourceName : Str}
    {contents : Bytes} {job : DocumentJob} (h : options.run sourceName contents = .ok job)
    (hformat : ¬ job.format.isPackage) : ∃ text, Imported contents text job := by
  cases options with
  | csvColumns selected => exact (DocumentJob.post_fromUtf8WithCsvColumns _ _ _).ok h
  | jsonPaths includePaths excludePaths => exact (DocumentJob.post_fromUtf8WithJsonPaths _ _ _ _).ok h
  | plain =>
    unfold ImportOptions.run DocumentJob.fromUtf8 at h
    dsimp only at h
    split at h
    · cases h
    split at h
    · rename_i hpackage
      unfold DocumentJob.fromPackage at h
      split at h
      · cases h
      · obtain ⟨segments, -, h⟩ := Except.bind_ok.mp h
        cases h
        exact absurd hpackage hformat
    · exact (DocumentJob.post_fromUtf8WithJsonPaths _ _ _ _).ok h

/-- The import of a text loses nothing: the segments count from zero, and their texts with the
line endings are the decoded contents, up to a byte order mark in front. -/
theorem import_lossless [JsonReader] [Packages] {options : ImportOptions} {sourceName : Str}
    {contents : Bytes} {job : DocumentJob} (h : options.run sourceName contents = .ok job)
    (hformat : ¬ job.format.isPackage) :
    job.segments.map (·.index) = List.range job.segments.length ∧
      ∃ full, fromUtf8 contents = some full ∧
        (job.sourceText = full ∨ '\uFEFF' :: job.sourceText = full) := by
  obtain ⟨text, hjob⟩ := imported_of_run h hformat
  obtain ⟨full, hfull, heq⟩ := decoded_text hjob.accepted.decoded
  have htext : job.sourceText = text := hjob.segmented.text
  exact ⟨hjob.segmented.indices, full, hfull, by rwa [htext]⟩

/-- A CSV file with a byte order mark, a quoted field and two kinds of line endings. -/
def sampleCsv : Bytes := [0xEF, 0xBB, 0xBF] ++ asciiBytes "id,name\r\n1,\"a\"\"b\"\n"

def sampleCsvJob : DocumentJob where
  format := .csv
  sourceName := "names.csv".toList
  segments := [
    ⟨0, .verbatim, "id".toList, none, []⟩,
    ⟨1, .verbatim, ",".toList, none, []⟩,
    ⟨2, .prose, "name".toList, none, "\r\n".toList⟩,
    ⟨3, .verbatim, "1".toList, none, []⟩,
    ⟨4, .verbatim, ",".toList, none, []⟩,
    ⟨5, .prose, "\"a\"\"b\"".toList, none, "\n".toList⟩]
  package := none

/-- No JSON and no package is read. -/
@[reducible] def noReader : JsonReader := ⟨fun _ => none, fun _ => false⟩

@[reducible] def noPackages : Packages := ⟨fun _ _ => fail .invalidStructure, fun _ _ => .ok []⟩

section Sample

local instance importReader : JsonReader := noReader
local instance importPackages : Packages := noPackages

theorem sampleCsv_import :
    (ImportOptions.csvColumns none).run "names.csv".toList sampleCsv = .ok sampleCsvJob := by
  decide +kernel

theorem import_lossless_sampleCsv :
    sampleCsvJob.segments.map (·.index) = List.range sampleCsvJob.segments.length ∧
      ∃ full, fromUtf8 sampleCsv = some full ∧
        (sampleCsvJob.sourceText = full ∨ '\uFEFF' :: sampleCsvJob.sourceText = full) :=
  import_lossless sampleCsv_import (by decide)

end Sample

end LinguaMesh
