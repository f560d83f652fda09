import LinguaMesh.Lib.Loop
import LinguaMesh.Document.Layout

/-!
# CSV documents

`parse_csv_records` cuts a text into records of fields, in one pass over its
characters; `from_csv_text` lays the fields out as segments with the delimiters
between them, and a record's line ending on its last field.

A text is spelled by the records that have been read, the fields of the record
that is open, and the field that is open (`CsvScan.spelled`): every step of the
pass moves one or two characters of the text into that.
-/

namespace LinguaMesh

open Search Run

def maxCsvRecords : Nat := 10000
def maxCsvFields : Nat := 1024
def maxCsvSegments : Nat := 10000

structure CsvRecord where
  fields : List Str
  lineEnding : Str
  deriving DecidableEq, Repr

/-! ## Reading records -/

/-- The pass between two characters: `field` is `text[field_start..index]`. -/
structure CsvScan where
  records : List CsvRecord
  fields : List Str
  field : Str
  inQuotes : Bool
  afterQuote : Bool
  deriving DecidableEq, Repr

namespace CsvScan

/-- The fields of the open record with the one that ends here. -/
def closed (s : CsvScan) : List Str :=
  s.fields ++ [if s.afterQuote ∨ s.fields ≠ [] ∨ s.field ≠ [] then s.field else []]

/-- `records.push(CsvRecord { .. })`, within the limits. -/
def pushRecord (s : CsvScan) (fields : List Str) (lineEnding : Str) :
    Run DocumentError CsvScan :=
  if maxCsvFields < fields.length ∨ maxCsvRecords ≤ s.records.length then fail .invalidStructure
  else .ok { s with
    records := s.records ++ [⟨fields, lineEnding⟩], fields := [], field := [], afterQuote := false }

end CsvScan

/-- One turn of the pass at the character `c` before `cs`: the state after it, and how many of
the characters of `cs` it has also read. -/
def csvStep (delimiter : Char) (s : CsvScan) (c : Char) (cs : Str) :
    Run DocumentError (CsvScan × Nat) :=
  if c = '"' then
    if s.inQuotes then
      if cs.head? = some '"' then .ok ({ s with field := s.field ++ ['"', '"'] }, 1)
      else .ok ({ s with field := s.field ++ ['"'], inQuotes := false, afterQuote := true }, 0)
    else if s.field = [] then .ok ({ s with field := ['"'], inQuotes := true }, 0)
    else fail .invalidStructure
  else if c = delimiter ∧ ¬ s.inQuotes then
    .ok ({ s with fields := s.closed, field := [], afterQuote := false }, 0)
  else if (c = '\r' ∨ c = '\n') ∧ ¬ s.inQuotes then
    if c = '\r' ∧ cs.head? = some '\n' then do
      let s ← s.pushRecord s.closed ['\r', '\n']
      .ok (s, 1)
    else do
      let s ← s.pushRecord s.closed [c]
      .ok (s, 0)
  else if s.afterQuote then fail .invalidStructure
  else .ok ({ s with field := s.field ++ [c] }, 0)

/-- The pass over a text, of which it has read `skip` characters already. -/
def csvScan (delimiter : Char) : Nat → CsvScan → Str → Run DocumentError CsvScan
  | _, s, [] => .ok s
  | skip + 1, s, _ :: cs => csvScan delimiter skip s cs
  | 0, s, c :: cs => do
    let (s, skip) ← csvStep delimiter s c cs
    csvScan delimiter skip s cs

def parseCsvRecords (text : Str) (delimiter : Char) : Run DocumentError (List CsvRecord) :=
  if text = [] ∨ 0x100 ≤ delimiter.toNat then fail .invalidStructure
  else do
    let s ← csvScan delimiter 0 ⟨[], [], [], false, false⟩ text
    -- `field_start` is never past the end, so that `after_quote` has no say here
    if s.inQuotes then fail .invalidStructure
    else if s.fields ≠ [] ∨ s.field ≠ [] ∨ s.records = [] then
      let s ← s.pushRecord (s.fields ++ [s.field]) []
      .ok s.records
    else .ok s.records

/-! ## The records spell the text -/

/-- The fields of a record with the delimiter between them. -/
def joined (delimiter : Char) : List Str → Str
  | [] => []
  | [field] => field
  | field :: fields => field ++ delimiter :: joined delimiter fields

def CsvRecord.spelled (delimiter : Char) (r : CsvRecord) : Str :=
  joined delimiter r.fields ++ r.lineEnding

theorem joined_snoc (delimiter : Char) (fields : List Str) (field : Str) :
    joined delimiter (fields ++ [field]) = fields.flatMap (· ++ [delimiter]) ++ field := by
  induction fields with
  | nil => rfl
  | cons f fields ih =>
    rw [List.cons_append, List.flatMap_cons, List.append_assoc, ← ih]
    cases fields <;> simp [joined]

namespace CsvScan

/-- The part of the text that the pass has read. -/
def spelled (delimiter : Char) (s : CsvScan) : Str :=
  s.records.flatMap (CsvRecord.spelled delimiter) ++ s.fields.flatMap (· ++ [delimiter]) ++ s.field

/-- No record is without a field. -/
def Filled (s : CsvScan) : Prop := ∀ r ∈ s.records, r.fields ≠ []

theorem closed_eq (s : CsvScan) : s.closed = s.fields ++ [s.field] := by
  unfold closed
  split
  · rfl
  · rename_i h
    simp only [not_or, ne_eq, not_not] at h
    rw [h.2.2]

theorem post_pushRecord {s : CsvScan} (hs : s.Filled) (delimiter : Char) (ending : Str) :
    Post (s.pushRecord (s.fields ++ [s.field]) ending) fun s' =>
      (s'.fields = [] ∧ s'.field = []) ∧ s'.spelled delimiter = s.spelled delimiter ++ ending ∧
        s'.Filled := by
  unfold pushRecord
  split
  · exact post_fail
  · refine ⟨⟨rfl, rfl⟩, ?_, ?_⟩
    · simp [spelled, CsvRecord.spelled, joined_snoc]
    · intro r hr
      rcases List.mem_append.mp hr with hr | hr
      · exact hs r hr
      · rw [List.mem_singleton.mp hr]
        exact List.append_ne_nil_of_right_ne_nil _ (List.cons_ne_nil _ _)

end CsvScan

theorem post_csvStep {delimiter : Char} {s : CsvScan} (hs : s.Filled) (c : Char) (cs : Str) :
    Post (csvStep delimiter s c cs) fun r =>
      r.1.spelled delimiter ++ cs.drop r.2 = s.spelled delimiter ++ c :: cs ∧ r.1.Filled := by
  have tail {d : Char} (h : cs.head? = some d) : cs = d :: cs.drop 1 := by
    cases cs with
    | nil => cases h
    | cons e cs =>
      cases h
      rfl
  have endRecord (ending : Str) (skip : Nat) (h : ending ++ cs.drop skip = c :: cs) :
      Post (s.pushRecord s.closed ending >>= fun t => .ok (t, skip)) fun r =>
        r.1.spelled delimiter ++ cs.drop r.2 = s.spelled delimiter ++ c :: cs ∧ r.1.Filled := by
    rw [CsvScan.closed_eq]
    refine (CsvScan.post_pushRecord hs delimiter ending).bind fun t ht => ?_
    exact ⟨by rw [ht.2.1, List.append_assoc, h], ht.2.2⟩
  unfold csvStep
  split
  · rename_i hc
    split
    · split
      · rename_i hd
        refine ⟨?_, hs⟩
        conv_rhs => rw [hc, tail hd]
        simp [CsvScan.spelled]
      · exact ⟨by simp [CsvScan.spelled, hc], hs⟩
    · split
      · rename_i hf
        exact ⟨by simp [CsvScan.spelled, hc, hf], hs⟩
      · exact post_fail
  · split
    · rename_i hc
      refine ⟨?_, hs⟩
      simp [CsvScan.spelled, CsvScan.closed_eq, hc.1]
    · split
      · split
        · rename_i hc
          exact endRecord _ 1 (by rw [hc.1, tail hc.2]; rfl)
        · exact endRecord _ 0 rfl
      · split
        · exact post_fail
        · exact ⟨by simp [CsvScan.spelled], hs⟩

theorem post_csvScan {delimiter : Char} {skip : Nat} {s : CsvScan} (hs : s.Filled) (text : Str) :
    Post (csvScan delimiter skip s text) fun s' =>
      s'.spelled delimiter = s.spelled delimiter ++ text.drop skip ∧ s'.Filled := by
  induction text generalizing skip s with
  | nil => exact ⟨by simp, hs⟩
  | cons c cs ih =>
    cases skip with
    | succ skip => exact ih hs
    | zero =>
      unfold csvScan
      refine (post_csvStep hs c cs).bind fun r hr => (ih hr.2).mono fun s' hs' => ?_
      exact ⟨hs'.1.trans hr.1, hs'.2⟩

theorem post_parseCsvRecords (text : Str) (delimiter : Char) :
    Post (parseCsvRecords text delimiter) fun records =>
      records.flatMap (CsvRecord.spelled delimiter) = text ∧ ∀ r ∈ records, r.fields ≠ [] := by
  have complete {s : CsvScan} (hf : s.fields = []) (h : s.field = []) :
      s.records.flatMap (CsvRecord.spelled delimiter) = s.spelled delimiter := by
    simp [CsvScan.spelled, hf, h]
  unfold parseCsvRecords
  split
  · exact post_fail
  refine (post_csvScan (fun r hr => absurd hr List.not_mem_nil) text).bind fun s hs => ?_
  have hs' : s.spelled delimiter = text := hs.1
  split
  · exact post_fail
  split
  · refine (CsvScan.post_pushRecord hs.2 delimiter []).bind fun t ht => ?_
    obtain ⟨⟨hfields, hfield⟩, hspelled, hfilled⟩ := ht
    exact ⟨by rw [complete hfields hfield, hspelled, hs', List.append_nil], hfilled⟩
  · rename_i h
    simp only [not_or, ne_eq, not_not] at h
    exact ⟨by rw [complete h.1 h.2.1, hs'], hs.2⟩

/-! ## Columns -/

/-- The field inside quotes, its quotes written twice. -/
def unquote : Str → Run DocumentError Str
  | [] => .ok []
  | '"' :: '"' :: cs => do
    let decoded ← unquote cs
    .ok ('"' :: decoded)
  | '"' :: _ => fail .invalidStructure
  | c :: cs => do
    let decoded ← unquote cs
    .ok (c :: decoded)

def decodeCsvField (raw : Str) (delimiter : Char) : Run DocumentError Str :=
  if raw.head? = some '"' then
    if raw.getLast? ≠ some '"' ∨ raw.length < 2 then fail .invalidStructure
    else unquote (slice raw 1 (raw.length - 1))
  else if '"' ∈ raw ∨ delimiter ∈ raw then fail .invalidStructure
  else .ok raw

/-- A field that cannot be decoded is read as empty. -/
def fieldValue (delimiter : Char) (field : Option Str) : Str :=
  (field.bind fun raw => (decodeCsvField raw delimiter).toOption).getD []

def looksLikeIdentifierHeader (header : Str) : Bool :=
  let normalized := asciiLower (trim header)
  ["id", "key", "code", "uuid", "identifier", "number", "no"].any (·.toList == normalized) ||
    ["_id", "-id", "_key", "-key"].any (·.toList.isSuffixOf normalized)

def unsigned (s : Str) : Str :=
  match s with
  | '+' :: cs => cs
  | '-' :: cs => cs
  | cs => cs

/-- The end of a decimal number, after its fraction. -/
def isExponent (s : Str) : Bool :=
  match s with
  | [] => true
  | c :: cs => (c == 'e' || c == 'E') && unsigned cs ≠ [] && (unsigned cs).all Char.isDigit

/-- Whether `str::parse::<f64>` accepts the text. -/
def isFloat (s : Str) : Bool :=
  let s := unsigned s
  let whole := s.takeWhile Char.isDigit
  let rest := s.dropWhile Char.isDigit
  ["inf", "infinity", "nan"].any (·.toList == asciiLower s) ||
    match rest with
    | '.' :: rest =>
      let fraction := rest.takeWhile Char.isDigit
      (whole ≠ [] || fraction ≠ []) && isExponent (rest.dropWhile Char.isDigit)
    | rest => whole ≠ [] && isExponent rest

def maxColumns (records : List CsvRecord) : Nat :=
  (records.map fun r => r.fields.length).foldl max 0

/-- Whether a column is translated when no columns are selected. -/
def isDefaultColumn (records : List CsvRecord) (delimiter : Char) (column : Nat) : Bool :=
  let header := fieldValue delimiter (records.head?.bind fun r => r.fields[column]?)
  let values := records.tail.map fun r => trim (fieldValue delimiter r.fields[column]?)
  let values := values.filter (· ≠ [])
  !looksLikeIdentifierHeader header && (values.isEmpty || !values.all isFloat)

def defaultCsvColumns (records : List CsvRecord) (delimiter : Char) : List Nat :=
  (List.range (maxColumns records)).filter (isDefaultColumn records delimiter)

/-- The columns to translate: those selected, in order, or the default ones. -/
def selectColumns (records : List CsvRecord) (delimiter : Char) :
    Option (List Nat) → Run DocumentError (List Nat)
  | none => .ok (defaultCsvColumns records delimiter)
  | some columns =>
    let sorted := columns.insertionSort (· ≤ ·)
    if (sorted.zip sorted.tail).any (fun w => w.1 == w.2) ∨
        sorted.any (maxColumns records ≤ ·) then fail .invalidStructure
    else .ok sorted

theorem returns_selectColumns (records : List CsvRecord) (delimiter : Char)
    (columns : Option (List Nat)) : Returns (selectColumns records delimiter columns) := by
  cases columns with
  | none => trivial
  | some columns =>
    unfold Returns selectColumns
    dsimp only
    split
    · exact post_fail
    · trivial

/-! ## Segments -/

/-- The fields of a record from `column` on, with the delimiters between them. -/
def pushFields (selected : List Nat) (delimiter : Char) :
    Nat → List DocumentSegment → List Str → List DocumentSegment
  | _, segments, [] => segments
  | column, segments, field :: fields =>
    let segments := pushSegment segments (if selected.contains column then .prose else .verbatim) field
    let segments := if fields = [] then segments else pushSegment segments .verbatim [delimiter]
    pushFields selected delimiter (column + 1) segments fields

/-- `if let Some(segment) = segments.last_mut() { segment.line_ending = .. }`. -/
def setLastEnding (segments : List DocumentSegment) (lineEnding : Str) : List DocumentSegment :=
  match segments.getLast? with
  | none => segments
  | some last => segments.dropLast ++ [{ last with lineEnding := lineEnding }]

def pushCsvRecord (selected : List Nat) (delimiter : Char) (segments : List DocumentSegment)
    (record : CsvRecord) : Run DocumentError (List DocumentSegment) :=
  let segments := setLastEnding (pushFields selected delimiter 0 segments record.fields)
    record.lineEnding
  if maxCsvSegments < segments.length then fail .invalidStructure else .ok segments

def fromCsvText (sourceName text : Str) (selectedColumns : Option (List Nat)) :
    Run DocumentError DocumentJob := do
  let delimiter := detectCsvDelimiter text
  let records ← parseCsvRecords text delimiter
  let selected ← selectColumns records delimiter selectedColumns
  let segments ← records.foldlM (pushCsvRecord selected delimiter) []
  .ok ⟨.csv, sourceName, segments, none⟩

/-- The last segment has no line ending, so that one can be set. -/
theorem segmented_setLastEnding {text ending : Str} {segments : List DocumentSegment}
    {kind : DocumentSegmentKind} {new : Str} (h : Segmented text segments) :
    Segmented (text ++ new ++ ending) (setLastEnding (pushSegment segments kind new) ending) := by
  have : setLastEnding (pushSegment segments kind new) ending =
      segments ++ [.fresh segments.length kind new ending] := by
    simp [setLastEnding, pushSegment, DocumentSegment.fresh]
  rw [this]
  exact h.snoc kind new ending

theorem segmented_pushFields {selected : List Nat} {delimiter : Char} {text ending : Str}
    {segments : List DocumentSegment} {fields : List Str} (column : Nat) (hf : fields ≠ [])
    (h : Segmented text segments) :
    Segmented (text ++ joined delimiter fields ++ ending)
      (setLastEnding (pushFields selected delimiter column segments fields) ending) := by
  induction fields generalizing column text segments with
  | nil => exact absurd rfl hf
  | cons field fields ih =>
    cases fields with
    | nil => exact segmented_setLastEnding h
    | cons g fields =>
      have h1 := h.push (if selected.contains column then .prose else .verbatim) field
      have h2 := ih (column + 1) (List.cons_ne_nil g fields) (h1.push .verbatim [delimiter])
      simpa [pushFields, joined] using h2

theorem post_pushCsvRecord {selected : List Nat} {delimiter : Char} {text : Str}
    {segments : List DocumentSegment} {record : CsvRecord} (hr : record.fields ≠ [])
    (h : Segmented text segments) :
    Post (pushCsvRecord selected delimiter segments record)
      (Segmented (text ++ record.spelled delimiter)) := by
  unfold pushCsvRecord
  dsimp only
  split
  · exact post_fail
  · rw [CsvRecord.spelled, ← List.append_assoc]
    exact segmented_pushFields 0 hr h

theorem post_pushCsvRecords {selected : List Nat} {delimiter : Char} {text : Str}
    {segments : List DocumentSegment} {records : List CsvRecord}
    (hr : ∀ r ∈ records, r.fields ≠ []) (h : Segmented text segments) :
    Post (records.foldlM (pushCsvRecord selected delimiter) segments)
      (Segmented (text ++ records.flatMap (CsvRecord.spelled delimiter))) := by
  induction records generalizing text segments with
  | nil => simpa using h
  | cons r records ih =>
    rw [List.foldlM_cons, List.flatMap_cons, ← List.append_assoc]
    exact (post_pushCsvRecord (hr r (by simp)) h).bind fun s hs =>
      ih (fun r hr' => hr r (by simp [hr'])) hs

theorem post_fromCsvText (sourceName text : Str) (selectedColumns : Option (List Nat)) :
    Post (fromCsvText sourceName text selectedColumns) fun job =>
      job.format = .csv ∧ Segmented text job.segments := by
  unfold fromCsvText
  refine (post_parseCsvRecords text _).bind fun records hr => ?_
  refine (returns_selectColumns records _ selectedColumns).bind fun selected _ => ?_
  refine (post_pushCsvRecords hr.2 Segmented.nil).bind fun segments h => ?_
  rw [List.nil_append, hr.1] at h
  exact ⟨rfl, h⟩

end LinguaMesh
