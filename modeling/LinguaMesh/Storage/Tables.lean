import LinguaMesh.Document.Job
import LinguaMesh.Domain.Errors
import Mathlib.Data.List.Sort

/-!
# The document tables

The rows of `document_jobs`, `document_segments` and `document_job_options`, the
statements that read and write them, and `load_document_job`. Names that a
`CHECK` constraint admits are stored as text and parsed on load. `now` is the
clock reading of a statement that calls `unixepoch()`.

The options of a job are opaque here (`JobOptions`): what is validated and
serialised on save, and parsed and validated on load. A statement of SQLite is
taken to succeed unless a constraint fails.
-/

namespace LinguaMesh.Storage

/-- `DocumentJobOptions` and its row: `encode` validates and serialises,
`decode` parses and validates. -/
class JobOptions where
  Options : Type
  Row : Type
  encode : Options → Except TranslationError Row
  decode : Row → Except TranslationError Options

structure JobRow where
  jobId : Str
  state : String
  format : String
  sourceName : Str
  packageBlob : Option (List UInt8)
  createdAt : Int
  updatedAt : Int
  deriving DecidableEq, Repr

structure SegmentRow where
  jobId : Str
  segmentIndex : Nat
  kind : String
  sourceText : Str
  translatedText : Option Str
  lineEnding : Str
  deriving DecidableEq, Repr

structure Tables [JobOptions] where
  jobs : List JobRow
  segments : List SegmentRow
  options : List (Str × JobOptions.Row)

structure DocumentJobSnapshot [JobOptions] where
  jobId : Str
  state : DocumentJobState
  job : DocumentJob
  options : Option JobOptions.Options
  createdAt : Int
  updatedAt : Int

def maxDocumentJobs : Nat := 100
def maxDocumentSegments : Nat := 10000
def maxDocumentJobTextBytes : Nat := maxDocumentBytes

def documentConfigurationError (message : String) : TranslationError :=
  .new .invalidConfiguration message

/-- `map_error` of a database error with the text `error`. -/
def mapError (error : String) : TranslationError :=
  .new .persistence ("Local database operation failed: " ++ error)

def mapDocumentError (e : DocumentError) : TranslationError := .new .invalidConfiguration e.message

/-! ## Names -/

def documentFormatName : DocumentFormat → String
  | .txt => "txt"
  | .markdown => "markdown"
  | .srt => "srt"
  | .webVtt => "webvtt"
  | .csv => "csv"
  | .html => "html"
  | .json => "json"
  | .docx => "docx"
  | .pptx => "pptx"
  | .xlsx => "xlsx"
  | .epub => "epub"
  | .pdf => "pdf"

def parseDocumentFormat : String → Except TranslationError DocumentFormat
  | "txt" => .ok .txt
  | "markdown" => .ok .markdown
  | "srt" => .ok .srt
  | "webvtt" => .ok .webVtt
  | "csv" => .ok .csv
  | "html" => .ok .html
  | "json" => .ok .json
  | "docx" => .ok .docx
  | "pptx" => .ok .pptx
  | "xlsx" => .ok .xlsx
  | "epub" => .ok .epub
  | "pdf" => .ok .pdf
  | _ => .error (.new .persistence "The stored document format is invalid.")

def documentJobStateName : DocumentJobState → String
  | .pending => "pending"
  | .running => "running"
  | .paused => "paused"
  | .completed => "completed"
  | .cancelled => "cancelled"
  | .failed => "failed"

def parseDocumentJobState : String → Except TranslationError DocumentJobState
  | "pending" => .ok .pending
  | "running" => .ok .running
  | "paused" => .ok .paused
  | "completed" => .ok .completed
  | "cancelled" => .ok .cancelled
  | "failed" => .ok .failed
  | _ => .error (.new .persistence "The stored document job state is invalid.")

def documentSegmentKindName : DocumentSegmentKind → String
  | .prose => "prose"
  | .verbatim => "verbatim"

def parseDocumentSegmentKind : String → Except TranslationError DocumentSegmentKind
  | "prose" => .ok .prose
  | "verbatim" => .ok .verbatim
  | _ => .error (.new .persistence "The stored document segment kind is invalid.")

/-- Every name is parsed back. -/
@[simp] theorem parse_documentFormatName (format : DocumentFormat) :
    parseDocumentFormat (documentFormatName format) = .ok format := by
  cases format <;> rfl

@[simp] theorem parse_documentJobStateName (state : DocumentJobState) :
    parseDocumentJobState (documentJobStateName state) = .ok state := by
  cases state <;> rfl

@[simp] theorem parse_documentSegmentKindName (kind : DocumentSegmentKind) :
    parseDocumentSegmentKind (documentSegmentKindName kind) = .ok kind := by
  cases kind <;> rfl

theorem documentJobStateName_inj {a b : DocumentJobState}
    (h : documentJobStateName a = documentJobStateName b) : a = b := by
  have h1 := parse_documentJobStateName a
  rw [h, parse_documentJobStateName] at h1
  exact (Except.ok.inj h1).symm

/-! ## Validation -/

def lineEndings : List Str := [[], ['\n'], ['\r', '\n'], ['\r']]

def validateSegment (expectedIndex : Nat) (s : DocumentSegment) : Except TranslationError Unit :=
  if s.index ≠ expectedIndex ∨ s.lineEnding ∉ lineEndings then
    .error (documentConfigurationError "The document segment ordering or line ending is invalid.")
  else if s.kind = .verbatim ∧ s.translatedText.isSome then
    .error (documentConfigurationError "A document structure segment cannot contain a translation.")
  else .ok ()

/-- The segments one after the other, from `expectedIndex` on. -/
def validateSegments : Nat → List DocumentSegment → Except TranslationError Unit
  | _, [] => .ok ()
  | expectedIndex, s :: rest => do
    validateSegment expectedIndex s
    validateSegments (expectedIndex + 1) rest

def sourceBytes (segments : List DocumentSegment) : Nat :=
  (segments.map fun s => utf8Len s.sourceText).sum

def translatedBytes (segments : List DocumentSegment) : Nat :=
  (segments.map fun s => (s.translatedText.map utf8Len).getD 0).sum

def isPackageFormat (format : DocumentFormat) : Bool :=
  [.docx, .pptx, .xlsx, .epub, .pdf].contains format

def validateDocumentJobIdentity (jobId : Str) (job : DocumentJob) : Except TranslationError Unit :=
  if jobId.isEmpty || 128 < utf8Len jobId || jobId.any isControl then
    .error (documentConfigurationError "The document job ID is invalid.")
  else if job.sourceName.isEmpty || 255 < utf8Len job.sourceName ||
      job.sourceName.any (fun c => isControl c || c == '/' || c == '\\') then
    .error (documentConfigurationError "The document source name is invalid.")
  else if maxDocumentSegments < job.segments.length then
    .error (documentConfigurationError "The document contains too many segments.")
  else if isPackageFormat job.format != job.package.isSome then
    .error (documentConfigurationError
      "The package payload is missing or attached to another format.")
  else if job.package.any fun package => maxDocumentBytes < package.length then
    .error (documentConfigurationError "The package exceeds the local size limit.")
  else do
    validateSegments 0 job.segments
    if maxDocumentJobTextBytes < sourceBytes job.segments ∨
        maxDocumentJobTextBytes < translatedBytes job.segments then
      .error (documentConfigurationError "The document text exceeds the local size limit.")
    else .ok ()

/-! ## Reading -/

section Statements

variable [JobOptions]

def findJob (t : Tables) (jobId : Str) : Option JobRow := t.jobs.find? (·.jobId == jobId)

/-- The segment rows of a job, by index. -/
def selectSegments (t : Tables) (jobId : Str) : List SegmentRow :=
  (t.segments.filter (·.jobId == jobId)).insertionSort fun a b => a.segmentIndex ≤ b.segmentIndex

def SegmentRow.toSegment (row : SegmentRow) : Except TranslationError DocumentSegment := do
  let kind ← parseDocumentSegmentKind row.kind
  .ok ⟨row.segmentIndex, kind, row.sourceText, row.translatedText, row.lineEnding⟩

/-- The job of the rows that were read. -/
def jobOfRows (row : JobRow) (segments : List SegmentRow) : Except TranslationError DocumentJob := do
  let segments ← segments.mapM SegmentRow.toSegment
  let format ← parseDocumentFormat row.format
  let job : DocumentJob := ⟨format, row.sourceName, segments, row.packageBlob⟩
  validateDocumentJobIdentity row.jobId job
  .ok job

def loadDocumentJobOptions (t : Tables) (jobId : Str) :
    Except TranslationError (Option JobOptions.Options) :=
  match t.options.find? (·.1 == jobId) with
  | none => .ok none
  | some (_, row) => (JobOptions.decode row).map some

def snapshotOf (row : JobRow) (job : DocumentJob) (options : Option JobOptions.Options) :
    Except TranslationError DocumentJobSnapshot := do
  let state ← parseDocumentJobState row.state
  .ok ⟨row.jobId, state, job, options, row.createdAt, row.updatedAt⟩

/-- `load_document_job`: three statements, with the checks between them. -/
def loadDocumentJob (t : Tables) (jobId : Str) :
    Except TranslationError (Option DocumentJobSnapshot) :=
  match findJob t jobId with
  | none => .ok none
  | some row => do
    let job ← jobOfRows row (selectSegments t jobId)
    let options ← loadDocumentJobOptions t jobId
    let snapshot ← snapshotOf row job options
    .ok (some snapshot)

/-! ## Writing -/

/-- `INSERT .. ON CONFLICT(job_id) DO UPDATE`. -/
def upsertJob (now : Int) (jobId : Str) (job : DocumentJob) (state : DocumentJobState)
    (jobs : List JobRow) : List JobRow :=
  if jobs.any (·.jobId == jobId) then
    jobs.map fun row =>
      if row.jobId = jobId then
        { row with
          state := documentJobStateName state, format := documentFormatName job.format,
          sourceName := job.sourceName, packageBlob := job.package, updatedAt := now }
      else row
  else
    jobs ++ [⟨jobId, documentJobStateName state, documentFormatName job.format, job.sourceName,
      job.package, now, now⟩]

def segmentRow (jobId : Str) (s : DocumentSegment) : SegmentRow :=
  ⟨jobId, s.index, documentSegmentKindName s.kind, s.sourceText, s.translatedText, s.lineEnding⟩

/-- `INSERT INTO document_segments`, with its primary key and its `CHECK` on the line ending. -/
def insertSegment (jobId : Str) (rows : List SegmentRow) (s : DocumentSegment) :
    Except TranslationError (List SegmentRow) :=
  if s.lineEnding ∉ lineEndings then
    .error (mapError "CHECK constraint failed: line_ending IN ('', char(10), char(13) || char(10), char(13))")
  else if rows.any fun row => row.jobId == jobId && row.segmentIndex == s.index then
    .error (mapError "UNIQUE constraint failed: document_segments.job_id, document_segments.segment_index")
  else .ok (rows ++ [segmentRow jobId s])

/-- The transaction of `save_document_job`; an error rolls it back. -/
def saveTransaction (now : Int) (jobId : Str) (job : DocumentJob) (state : DocumentJobState)
    (t : Tables) : Except TranslationError Tables :=
  if (findJob t jobId).isNone && maxDocumentJobs ≤ t.jobs.length then
    .error (documentConfigurationError "The local document job limit has been reached.")
  else do
    let jobs := upsertJob now jobId job state t.jobs
    let segments ← job.segments.foldlM (insertSegment jobId)
      (t.segments.filter (·.jobId != jobId))
    .ok { t with jobs, segments }

/-- The checks of `save_document_job` before its transaction. -/
def checkSave (jobId : Str) (job : DocumentJob) (state : DocumentJobState) :
    Except TranslationError Unit := do
  validateDocumentJobIdentity jobId job
  if state = .completed ∧ job.pendingCount ≠ 0 then
    .error (documentConfigurationError "A completed document job still has untranslated segments.")
  else .ok ()

/-- The snapshot that an operation returns at its end. -/
def reload (t : Tables) (jobId : Str) (message : String) :
    Except TranslationError DocumentJobSnapshot := do
  match ← loadDocumentJob t jobId with
  | some snapshot => .ok snapshot
  | none => .error (.new .persistence message)

end Statements

end LinguaMesh.Storage
