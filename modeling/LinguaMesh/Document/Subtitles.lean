import LinguaMesh.Lib.Loop
import LinguaMesh.Document.Layout

/-!
# Lines of text documents

Plain text, Markdown and the two subtitle formats are cut into lines, each with
its line ending. What differs is which lines are structure: the blank lines and
the fenced code of Markdown; the headers, identifiers, timestamps and metadata
blocks of subtitles.
-/

namespace LinguaMesh

open Search Run

/-! ## Lines -/

/-- The lines of the rest of a text, `line` being the part of a line already read. -/
def splitLinesFrom (line : Str) : Str → List (Str × Str)
  | [] => if line = [] then [] else [(line, [])]
  | c :: cs =>
    if c = '\n' then
      (if line.getLast? = some '\r' then (line.dropLast, ['\r', '\n']) else (line, ['\n'])) ::
        splitLinesFrom [] cs
    else splitLinesFrom (line ++ [c]) cs

def splitLines (text : Str) : List (Str × Str) :=
  if text = [] then [([], [])] else splitLinesFrom [] text

theorem splitLinesFrom_spelled (line text : Str) :
    (splitLinesFrom line text).flatMap (fun l => l.1 ++ l.2) = line ++ text := by
  induction text generalizing line with
  | nil => by_cases h : line = [] <;> simp [splitLinesFrom, h]
  | cons c cs ih =>
    unfold splitLinesFrom
    split
    · rename_i hc
      rw [List.flatMap_cons, ih, hc, List.nil_append]
      split
      · rename_i h
        have hline : line.dropLast ++ ['\r'] = line := List.dropLast_append_getLast? _ h
        calc line.dropLast ++ ['\r', '\n'] ++ cs = line.dropLast ++ ['\r'] ++ '\n' :: cs := by simp
          _ = line ++ '\n' :: cs := by rw [hline]
      · simp
    · rw [ih, List.append_assoc]
      rfl

theorem splitLines_spelled (text : Str) :
    (splitLines text).flatMap (fun l => l.1 ++ l.2) = text := by
  unfold splitLines
  split
  · rename_i h
    rw [h]
    rfl
  · exact splitLinesFrom_spelled [] text

/-! ## Timestamps -/

/-- `str::rsplit_once`, for a character. -/
def rsplitOnce (c : Char) (s : Str) : Option (Str × Str) :=
  if c ∈ s then
    some ((s.reverse.dropWhile (· ≠ c)).tail.reverse, (s.reverse.takeWhile (· ≠ c)).reverse)
  else none

/-- `str::split_once`. -/
def splitOnce (pat : String) (s : Str) : Option (Str × Str) :=
  (find pat.toList s).map fun i => (s.take i, s.drop (i + pat.length))

/-- `str::parse::<u64>` of digits, `none` on overflow. -/
def parseU64 (digits : Str) : Option Nat :=
  digits.foldlM (fun n c =>
    let n := n * 10 + (c.toNat - '0'.toNat)
    if n < 2 ^ 64 then some n else none) 0

/-- Whether a field of a clock is digits, and not empty. -/
def isClockField (field : Str) : Bool := field ≠ [] && field.all Char.isDigit

def u64Max : Nat := 2 ^ 64 - 1

/-- `timestamp_millis`, with the saturating sum of its end. -/
def timestampMillis (value : Str) (format : DocumentFormat) : Option Nat := do
  let (clock, milliseconds) ← rsplitOnce (if format = .srt then ',' else '.') value
  if utf8Len milliseconds ≠ 3 ∨ ¬ milliseconds.all Char.isDigit then none
  let fields := clock.splitOn ':'
  if ¬ (fields.length = 2 ∨ fields.length = 3) ∨ ¬ fields.all isClockField then none
  let hour ← if fields.length = 3 then parseU64 (fields.getD 0 []) else some 0
  let minute ← parseU64 (fields.getD (fields.length - 2) [])
  let second ← parseU64 (fields.getD (fields.length - 1) [])
  if 60 ≤ minute ∨ 60 ≤ second then none
  let milliseconds ← parseU64 milliseconds
  some (min u64Max (min u64Max (hour * 3600000) + minute * 60000 + second * 1000 + milliseconds))

/-- `str::split_whitespace().next().unwrap_or("")`. -/
def firstWord (s : Str) : Str := (s.dropWhile isWhitespace).takeWhile (!isWhitespace ·)

def subtitleTimestampRange (line : Str) (format : DocumentFormat) : Option (Nat × Nat) := do
  let (start, stop) ← splitOnce "-->" line
  let start ← timestampMillis (trim start) format
  let stop ← timestampMillis (firstWord stop) format
  some (start, stop)

def validTimestampLine (line : Str) (format : DocumentFormat) : Bool :=
  (subtitleTimestampRange line format).isSome

def startsWith (s : Str) (pat : String) : Bool := pat.toList.isPrefixOf s

/-- The first line of a metadata block of WebVTT. -/
def isMetadataLine (format : DocumentFormat) (trimmed : Str) : Bool :=
  format == .webVtt && ["NOTE".toList, "STYLE".toList, "REGION".toList].contains trimmed

/-! ## Structure lines of subtitles -/

/-- The flags that `subtitle_line_kinds` carries from line to line. -/
structure LineKindScan where
  cueStart : Bool
  expectingTimestamp : Bool
  metadata : Bool

/-- Whether a line is structure. -/
def LineKindScan.structural (s : LineKindScan) (format : DocumentFormat) (index : Nat)
    (trimmed : Str) : Bool :=
  let isTimestamp := validTimestampLine trimmed format
  let isHeader := format == .webVtt && index == 0 && startsWith trimmed "WEBVTT"
  trimmed.isEmpty || isHeader || s.metadata || isMetadataLine format trimmed ||
    s.expectingTimestamp || (s.cueStart && isTimestamp) ||
    (format == .srt && s.cueStart && trimmed.all Char.isDigit && !trimmed.isEmpty) ||
    (format == .webVtt && s.cueStart && !isTimestamp && !isHeader)

/-- The flags after a line. -/
def LineKindScan.after (s : LineKindScan) (format : DocumentFormat) (trimmed : Str) :
    LineKindScan :=
  let isTimestamp := validTimestampLine trimmed format
  if trimmed = [] then ⟨true, false, false⟩
  else if isMetadataLine format trimmed then { s with metadata := true, cueStart := false }
  else if s.metadata then { s with cueStart := false }
  else if s.expectingTimestamp then { s with expectingTimestamp := false, cueStart := false }
  else if s.cueStart && !isTimestamp then { s with expectingTimestamp := true, cueStart := false }
  else if isTimestamp then { s with cueStart := false }
  else s

def lineKindsFrom (format : DocumentFormat) : LineKindScan → Nat → List (Str × Str) → List Bool
  | _, _, [] => []
  | s, index, (line, _) :: lines =>
    s.structural format index (trim line) ::
      lineKindsFrom format (s.after format (trim line)) (index + 1) lines

/-- `subtitle_line_kinds`. -/
def subtitleLineKinds (format : DocumentFormat) (text : Str) : List Bool :=
  if format = .srt ∨ format = .webVtt then
    lineKindsFrom format ⟨true, false, false⟩ 0 (splitLines text)
  else []

/-! ## Valid subtitles -/

/-- The state of the check of a subtitle file between two lines. -/
structure CueScan where
  cueStart : Bool
  expectingTimestamp : Bool
  cueCount : Nat
  cueHasText : Bool
  metadata : Bool
  deriving DecidableEq, Repr

/-- The check of one line. -/
def CueScan.line (format : DocumentFormat) (s : CueScan) (trimmed : Str) :
    Run DocumentError CueScan :=
  let timestamp : CueScan := { s with
    cueCount := s.cueCount + 1, expectingTimestamp := false, cueStart := false, cueHasText := false }
  if trimmed = [] then
    let blank : CueScan := { s with cueStart := true, expectingTimestamp := false, cueHasText := false }
    if s.metadata then .ok { blank with metadata := false }
    else if s.expectingTimestamp ∨ (0 < s.cueCount ∧ ¬ s.cueHasText) then fail .invalidStructure
    else .ok blank
  else if isMetadataLine format trimmed ∧ s.cueStart then
    .ok { s with metadata := true, cueStart := false }
  else if s.metadata then .ok s
  else if format = .webVtt ∧ s.cueCount = 0 ∧ startsWith trimmed "WEBVTT" then
    .ok { s with cueStart := false }
  else if s.expectingTimestamp then
    if validTimestampLine trimmed format then .ok timestamp else fail .invalidStructure
  else if s.cueStart ∧ validTimestampLine trimmed format then .ok timestamp
  else if s.cueStart then
    if format = .webVtt ∨ (format = .srt ∧ trimmed.all Char.isDigit) then
      .ok { s with expectingTimestamp := true }
    else fail .invalidStructure
  else .ok { s with cueHasText := true }

/-- The part of `validate_structure` for subtitles. -/
def validateSubtitles (format : DocumentFormat) (text : Str) : Run DocumentError Unit := do
  let lines := splitLines text
  let header := (lines.head?.map Prod.fst).any fun line => startsWith (trimStart line) "WEBVTT"
  if lines = [] ∨ (format = .webVtt ∧ ¬ header) then fail .invalidStructure
  else
    let s ← lines.foldlM (fun s l => s.line format (trim l.1)) (⟨true, false, 0, false, false⟩ : CueScan)
    if s.expectingTimestamp ∨ s.cueCount = 0 ∨ (¬ s.metadata ∧ ¬ s.cueStart ∧ ¬ s.cueHasText) then
      fail .invalidStructure
    else .ok ()

theorem returns_line (format : DocumentFormat) (s : CueScan) (trimmed : Str) :
    Returns (s.line format trimmed) := by
  unfold Returns CueScan.line
  dsimp only
  repeat' split
  all_goals trivial

theorem returns_validateSubtitles (format : DocumentFormat) (text : Str) :
    Returns (validateSubtitles format text) := by
  unfold Returns validateSubtitles
  dsimp only
  split
  · exact post_fail
  · refine Post.bind (Q := fun _ => True) ?_ fun s _ => ?_
    · exact Post.foldlM _ trivial fun s l _ _ => returns_line format s _
    · split
      · exact post_fail
      · trivial

/-! ## Segments -/

/-- A line that opens or closes a block of code. -/
def isFence (format : DocumentFormat) (line : Str) : Bool :=
  format == .markdown && (startsWith (trimStart line) "```" || startsWith (trimStart line) "~~~")

/-- Whether the line is kept as it is. -/
def verbatimLine (format : DocumentFormat) (structural inFencedCode : Bool) (line : Str) : Bool :=
  structural ||
    (format == .markdown && (inFencedCode || isFence format line || (trim line).isEmpty))

def lineSegmentsFrom (format : DocumentFormat) (kinds : List Bool) :
    Bool → List DocumentSegment → List (Str × Str) → List DocumentSegment
  | _, segments, [] => segments
  | inFencedCode, segments, (line, ending) :: lines =>
    let kind : DocumentSegmentKind :=
      if verbatimLine format (kinds.getD segments.length false) inFencedCode line then .verbatim
      else .prose
    lineSegmentsFrom format kinds (inFencedCode ^^ isFence format line)
      (segments ++ [.fresh segments.length kind line ending]) lines

/-- The segments that `from_text` makes of the lines of a text. -/
def lineSegments (format : DocumentFormat) (text : Str) : List DocumentSegment :=
  lineSegmentsFrom format (subtitleLineKinds format text) false [] (splitLines text)

theorem segmented_lineSegmentsFrom (format : DocumentFormat) (kinds : List Bool) (inFencedCode : Bool)
    {text : Str} {segments : List DocumentSegment} (h : Segmented text segments)
    (lines : List (Str × Str)) :
    Segmented (text ++ lines.flatMap fun l => l.1 ++ l.2)
      (lineSegmentsFrom format kinds inFencedCode segments lines) := by
  induction lines generalizing inFencedCode text segments with
  | nil => simpa [lineSegmentsFrom] using h
  | cons l lines ih =>
    unfold lineSegmentsFrom
    rw [List.flatMap_cons, ← List.append_assoc, ← List.append_assoc]
    exact ih _ (h.snoc _ _ _)

theorem segmented_lineSegments (format : DocumentFormat) (text : Str) :
    Segmented text (lineSegments format text) := by
  have h := segmented_lineSegmentsFrom format (subtitleLineKinds format text) false Segmented.nil
    (splitLines text)
  rwa [List.nil_append, splitLines_spelled] at h

end LinguaMesh
