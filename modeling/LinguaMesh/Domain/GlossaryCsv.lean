import LinguaMesh.Domain.Glossary

/-!
# Glossary files

A glossary is exported as a CSV text with a fixed header, one line an entry, and
imported again from such a text (`to_csv`, `from_csv`). A field is quoted if it has
a comma, a quote or a line ending; an absent option is an empty field.

`scan_field` is the point where the two meet: the reader, at the start of a field,
takes what the writer wrote and the delimiter behind it. Rows, files and entries
follow by the structure of the text (`from_csv_to_csv`).
-/

namespace LinguaMesh.GlossaryCsv

def maxGlossaryCsvBytes : Nat := 4 * 1024 * 1024

def glossaryCsvHeader : Str :=
  ("source_term,target_term,source_locale,target_locale,case_sensitive,whole_word,immutable," ++
    "domain,priority,notes,enabled").toList

/-- The columns: `GLOSSARY_CSV_HEADER.split(',')`. -/
def expected : List Str := glossaryCsvHeader.splitOn ','

inductive GlossaryCsvError where
  | tooLarge
  | missingHeader
  | invalidHeader
  | tooManyRows
  | malformed
  | invalidRow (row : Nat)
  | invalidValue (row : Nat)
  | invalidEntry (row : Nat) (error : GlossaryError)
  | glossary (error : GlossaryError)
  deriving DecidableEq, Repr

/-! ## Writing -/

def boolToCsv (value : Bool) : Str := if value then "true".toList else "false".toList

/-- `i32::to_string`. -/
def printI32 (x : Int) : Str :=
  if x < 0 then '-' :: Nat.toDigits 10 x.natAbs else Nat.toDigits 10 x.natAbs

def needsQuotes (c : Char) : Bool := c == ',' || c == '"' || c == '\n' || c == '\r'

/-- A text with its quotes doubled. -/
def doubled (value : Str) : Str := value.flatMap fun c => if c = '"' then ['"', '"'] else [c]

/-- What `append_csv_field` appends. -/
def csvField (value : Str) : Str :=
  if value.any needsQuotes then '"' :: (doubled value ++ ['"']) else value

def csvRow : List Str → Str
  | [] => []
  | [value] => csvField value
  | value :: values => csvField value ++ ',' :: csvRow values

def row (e : GlossaryEntry) : List Str :=
  [e.sourceTerm, e.targetTerm, e.sourceLocale.getD [], e.targetLocale.getD [],
    boolToCsv e.caseSensitive, boolToCsv e.wholeWord, boolToCsv e.immutable, e.domain.getD [],
    printI32 e.priority, e.notes.getD [], boolToCsv e.enabled]

def csvLine (values : List Str) : Str := csvRow values ++ ['\n']

def toCsv (g : Glossary) : Str :=
  glossaryCsvHeader ++ '\n' :: g.entries.flatMap fun e => csvLine (row e)

/-! ## Reading records -/

structure Scan where
  records : List (List Str)
  record : List Str
  field : Str
  quoted : Bool
  closedQuote : Bool
  atFieldStart : Bool
  deriving DecidableEq, Repr

namespace Scan

def push (s : Scan) (c : Char) : Scan := { s with field := s.field ++ [c] }

/-- A comma, where no quote is open. -/
def endField (s : Scan) : Scan :=
  { s with record := s.record ++ [s.field], field := [], atFieldStart := true, closedQuote := false }

/-- A line ending, where no quote is open. -/
def endRecord (s : Scan) : Scan :=
  { s with
    records := s.records ++ [s.record ++ [s.field]], record := [], field := [],
    atFieldStart := true, closedQuote := false }

end Scan

/-- One turn of the loop at `c` before `next`: the state after it, and how many characters of the
text after `c` it has also read. -/
def scanStep (s : Scan) (c : Char) (next : Option Char) : Except GlossaryCsvError (Scan × Nat) :=
  if s.quoted then
    if c = '"' ∧ next = some '"' then .ok (s.push '"', 1)
    else if c = '"' then .ok ({ s with quoted := false, closedQuote := true }, 0)
    else .ok (s.push c, 0)
  else if s.closedQuote then
    if c = ',' then .ok (s.endField, 0)
    else if c = '\n' then .ok (s.endRecord, 0)
    else if c = '\r' ∧ next = some '\n' then .ok (s.endRecord, 1)
    else .error .malformed
  else
    if c = '"' ∧ s.atFieldStart then .ok ({ s with quoted := true }, 0)
    else if c = ',' then .ok (s.endField, 0)
    else if c = '\n' then .ok (s.endRecord, 0)
    else if c = '\r' ∧ next = some '\n' then .ok (s.endRecord, 1)
    else if c = '"' ∨ c = '\r' then .error .malformed
    else .ok ({ s.push c with atFieldStart := false }, 0)

/-- The loop over a text of which `skip` characters have been read already. -/
def scan : Nat → Scan → Str → Except GlossaryCsvError Scan
  | _, s, [] => .ok s
  | skip + 1, s, _ :: cs => scan skip s cs
  | 0, s, c :: cs => do
    let (s, skip) ← scanStep s c cs.head?
    scan skip s cs

/-- The last record need not end in a line ending. -/
def Scan.finish (s : Scan) : Except GlossaryCsvError (List (List Str)) :=
  if s.quoted then .error .malformed
  else if s.field ≠ [] ∨ s.record ≠ [] then .ok (s.records ++ [s.record ++ [s.field]])
  else .ok s.records

/-- `strip_prefix('\u{feff}')`, the byte order mark. -/
def stripMark : Str → Str
  | [] => []
  | c :: cs => if c = '\uFEFF' then cs else c :: cs

def parseCsvRecords (source : Str) : Except GlossaryCsvError (List (List Str)) := do
  let s ← scan 0 ⟨[], [], [], false, false, true⟩ (stripMark source)
  s.finish

/-! ## Reading entries -/

def parseBool (rowNumber : Nat) (value : Str) : Except GlossaryCsvError Bool :=
  if value = "true".toList then .ok true
  else if value = "false".toList then .ok false
  else .error (.invalidValue rowNumber)

/-- The values of an `i32`. -/
def FitsI32 (x : Int) : Prop := -2 ^ 31 ≤ x ∧ x < 2 ^ 31

instance (x : Int) : Decidable (FitsI32 x) := inferInstanceAs (Decidable (_ ∧ _))

/-- The number that a sign and digits give, if it is an `i32`. -/
def signed (negative : Bool) (digits : Str) : Option Int :=
  if digits.isEmpty || !digits.all Char.isDigit then none
  else
    let n : Int := Nat.ofDigitChars 10 digits 0
    let x := if negative then -n else n
    if FitsI32 x then some x else none

/-- `str::parse::<i32>`. -/
def parseI32 : Str → Option Int
  | '-' :: digits => signed true digits
  | '+' :: digits => signed false digits
  | digits => signed false digits

/-- `GlossaryEntry::new`. -/
def newEntry (sourceTerm targetTerm : Str) : Except GlossaryError GlossaryEntry := do
  let entry : GlossaryEntry := {
    sourceTerm, targetTerm
    sourceLocale := none
    targetLocale := none
    caseSensitive := true
    wholeWord := true
    immutable := false
    domain := none
    priority := 0
    notes := none
    enabled := true }
  entry.validate
  .ok entry

/-- The option that a field gives: none, if it is empty. -/
def option (value : Str) : Option Str := if value.isEmpty then none else some value

def parseGlossaryEntry (record : List Str) (rowNumber : Nat) :
    Except GlossaryCsvError GlossaryEntry :=
  match record with
  | [sourceTerm, targetTerm, sourceLocale, targetLocale, caseSensitive, wholeWord, immutable,
      domain, priority, notes, enabled] => do
    let entry ← (newEntry sourceTerm targetTerm).mapError (.invalidEntry rowNumber)
    let caseSensitive ← parseBool rowNumber caseSensitive
    let wholeWord ← parseBool rowNumber wholeWord
    let immutable ← parseBool rowNumber immutable
    let priority ← (parseI32 priority).elim (.error (.invalidValue rowNumber)) .ok
    let enabled ← parseBool rowNumber enabled
    let entry := { entry with
      sourceLocale := option sourceLocale
      targetLocale := option targetLocale
      domain := option domain
      notes := option notes
      caseSensitive, wholeWord, immutable, priority, enabled }
    entry.validate.mapError (.invalidEntry rowNumber)
    .ok entry
  -- `from_csv` counts the columns before
  | _ => .error (.invalidRow rowNumber)

def parseRows : Nat → List (List Str) → Except GlossaryCsvError (List GlossaryEntry)
  | _, [] => .ok []
  | rowNumber, record :: records => do
    let entry ← parseGlossaryEntry record rowNumber
    let entries ← parseRows (rowNumber + 1) records
    .ok (entry :: entries)

/-- `Glossary::new`. -/
def newGlossary (entries : List GlossaryEntry) : Except GlossaryError Glossary := do
  let glossary : Glossary := ⟨entries⟩
  glossary.validate
  .ok glossary

def fromCsv (source : Str) : Except GlossaryCsvError Glossary :=
  if maxGlossaryCsvBytes < utf8Len source then .error .tooLarge
  else do
    match ← parseCsvRecords source with
    | [] => .error .missingHeader
    | header :: records =>
      if header ≠ expected then .error .invalidHeader
      else if maxGlossaryEntries < records.length then .error .tooManyRows
      else do
        let entries ← parseRows 2 records
        (newGlossary entries).mapError .glossary

/-! ## The reader reads what the writer writes -/

/-- The reader at the start of a field. -/
def Scan.start (records : List (List Str)) (record : List Str) : Scan :=
  ⟨records, record, [], false, false, true⟩

section Fields

variable {records : List (List Str)} {record : List Str} {atStart : Bool}

theorem scan_cons {s t : Scan} {skip : Nat} {c : Char} {cs : Str}
    (h : scanStep s c cs.head? = .ok (t, skip)) : scan 0 s (c :: cs) = scan skip t cs := by
  rw [scan, h, Except.ok_bind]

/-- Without a character that needs quotes, a text is read as it is. -/
theorem scan_plain {value : Str} (h : ∀ c ∈ value, needsQuotes c = false) (field t : Str) :
    scan 0 ⟨records, record, field, false, false, atStart⟩ (value ++ t) =
      scan 0 ⟨records, record, field ++ value, false, false, atStart && value.isEmpty⟩ t := by
  induction value generalizing field atStart with
  | nil => simp
  | cons c value ih =>
    have hc := h c List.mem_cons_self
    simp only [needsQuotes, Bool.or_eq_false_iff, beq_eq_false_iff_ne] at hc
    obtain ⟨⟨⟨hcomma, hquote⟩, hline⟩, hreturn⟩ := hc
    have hstep (next : Option Char) :
        scanStep ⟨records, record, field, false, false, atStart⟩ c next =
          .ok (⟨records, record, field ++ [c], false, false, false⟩, 0) := by
      simp [scanStep, Scan.push, hcomma, hquote, hline, hreturn]
    rw [List.cons_append, scan_cons (hstep _), ih fun d hd => h d (List.mem_cons_of_mem _ hd)]
    simp

/-- Inside quotes, doubled quotes are read as one. -/
theorem scan_doubled (value field : Str) {t : Str} (ht : t.head? ≠ some '"') :
    scan 0 ⟨records, record, field, true, false, atStart⟩ (doubled value ++ '"' :: t) =
      scan 0 ⟨records, record, field ++ value, false, true, atStart⟩ t := by
  induction value generalizing field with
  | nil =>
    have hstep : scanStep ⟨records, record, field, true, false, atStart⟩ '"' t.head? =
        .ok (⟨records, record, field, false, true, atStart⟩, 0) := by
      simp [scanStep, ht]
    show scan 0 _ ('"' :: t) = _
    rw [scan_cons hstep, List.append_nil]
  | cons c value ih =>
    by_cases hc : c = '"'
    · subst hc
      show scan 0 _ ('"' :: '"' :: (doubled value ++ '"' :: t)) = _
      have hstep (next : Option Char) (hnext : next = some '"') :
          scanStep ⟨records, record, field, true, false, atStart⟩ '"' next =
            .ok (⟨records, record, field ++ ['"'], true, false, atStart⟩, 1) := by
        rw [hnext]
        rfl
      rw [scan_cons (hstep _ rfl), scan, ih]
      simp
    · have hstep (next : Option Char) :
          scanStep ⟨records, record, field, true, false, atStart⟩ c next =
            .ok (⟨records, record, field ++ [c], true, false, atStart⟩, 0) := by
        simp [scanStep, Scan.push, hc]
      have hplain : doubled (c :: value) = c :: doubled value := by
        simp [doubled, hc]
      rw [hplain, List.cons_append, scan_cons (hstep _), ih]
      simp

/-- From the start of a field, the reader takes the field and the delimiter behind it. -/
theorem scan_field (value : Str) (t : Str) :
    scan 0 (.start records record) (csvField value ++ ',' :: t) =
        scan 0 (.start records (record ++ [value])) t ∧
      scan 0 (.start records record) (csvField value ++ '\n' :: t) =
        scan 0 (.start (records ++ [record ++ [value]]) []) t := by
  unfold csvField Scan.start
  split
  · have hopen (u : Str) : scan 0 ⟨records, record, [], false, false, true⟩ ('"' :: u) =
        scan 0 ⟨records, record, [], true, false, true⟩ u := scan_cons rfl
    simp only [List.cons_append, List.append_assoc, List.nil_append, hopen]
    rw [scan_doubled value [] (by simp), scan_doubled value [] (by simp)]
    exact ⟨scan_cons rfl, scan_cons rfl⟩
  · rename_i h
    have hplain : ∀ c ∈ value, needsQuotes c = false := by simpa using h
    rw [scan_plain hplain, scan_plain hplain]
    exact ⟨scan_cons rfl, scan_cons rfl⟩

theorem scan_row {values : List Str} (hvalues : values ≠ []) (t : Str) :
    scan 0 (.start records record) (csvLine values ++ t) =
      scan 0 (.start (records ++ [record ++ values]) []) t := by
  unfold csvLine
  induction values generalizing record with
  | nil => exact absurd rfl hvalues
  | cons value values ih =>
    cases values with
    | nil => simpa [csvRow] using (scan_field value t).2
    | cons next values =>
      have h := @ih (record ++ [value]) (by simp)
      simp only [csvRow, List.append_assoc, List.cons_append, List.nil_append] at h ⊢
      rw [(scan_field value _).1, h]

theorem scan_rows {rows : List (List Str)} (hrows : ∀ r ∈ rows, r ≠ []) :
    scan 0 (.start records []) (rows.flatMap csvLine) = .ok (.start (records ++ rows) []) := by
  induction rows generalizing records with
  | nil => simp [scan]
  | cons r rows ih =>
    rw [List.flatMap_cons, scan_row (hrows r List.mem_cons_self),
      ih fun x hx => hrows x (List.mem_cons_of_mem _ hx)]
    simp

end Fields

theorem toCsv_eq (g : Glossary) : toCsv g = (expected :: g.entries.map row).flatMap csvLine := by
  have hheader : csvLine expected = glossaryCsvHeader ++ ['\n'] := by decide +kernel
  rw [List.flatMap_cons, hheader, List.flatMap_map, toCsv]
  simp

theorem parse_toCsv (g : Glossary) :
    parseCsvRecords (toCsv g) = .ok (expected :: g.entries.map row) := by
  have hmark : stripMark (toCsv g) = toCsv g := by
    have hheader : glossaryCsvHeader = 's' :: glossaryCsvHeader.tail := by decide +kernel
    rw [toCsv, hheader]
    rfl
  have hrows : ∀ r ∈ expected :: g.entries.map row, r ≠ [] := by
    refine List.forall_mem_cons.mpr ⟨List.splitOn_ne_nil _ _, fun r hr => ?_⟩
    obtain ⟨e, -, rfl⟩ := List.mem_map.mp hr
    exact List.cons_ne_nil _ _
  have hscan := @scan_rows [] _ hrows
  unfold parseCsvRecords
  rw [hmark, toCsv_eq]
  show (scan 0 (.start [] []) _ >>= Scan.finish) = _
  rw [hscan]
  rfl

/-! ## Values -/

theorem parseBool_boolToCsv (rowNumber : Nat) (value : Bool) :
    parseBool rowNumber (boolToCsv value) = .ok value := by
  cases value <;> rfl

theorem signed_toDigits (negative : Bool) (n : Nat)
    (h : FitsI32 (if negative then -(n : Int) else n)) :
    signed negative (Nat.toDigits 10 n) = some (if negative then -(n : Int) else n) := by
  have hempty : (Nat.toDigits 10 n).isEmpty = false :=
    List.isEmpty_eq_false_iff.mpr Nat.toDigits_ne_nil
  have hdigits : (Nat.toDigits 10 n).all Char.isDigit = true :=
    List.all_eq_true.mpr fun c hc => Nat.isDigit_of_mem_toDigits (by decide) (by decide) hc
  have hvalue : Nat.ofDigitChars 10 (Nat.toDigits 10 n) 0 = n := Nat.ofDigitChars_ten_toDigits
  unfold signed
  simp [hempty, hdigits, hvalue, h]

/-- Digits alone have no sign in front. -/
theorem parseI32_digits (n : Nat) : parseI32 (Nat.toDigits 10 n) = signed false (Nat.toDigits 10 n) := by
  cases hd : Nat.toDigits 10 n with
  | nil => rfl
  | cons c digits =>
    have hc : c.isDigit = true :=
      Nat.isDigit_of_mem_toDigits (by decide) (by decide) (hd ▸ List.mem_cons_self)
    have hminus : c ≠ '-' := fun h => absurd (h ▸ hc) (by decide)
    have hplus : c ≠ '+' := fun h => absurd (h ▸ hc) (by decide)
    unfold parseI32
    split
    · rename_i h
      exact absurd (List.cons.inj h).1 hminus
    · rename_i h
      exact absurd (List.cons.inj h).1 hplus
    · rfl

theorem parseI32_printI32 {x : Int} (h : FitsI32 x) : parseI32 (printI32 x) = some x := by
  unfold printI32
  split
  · have hx : -(x.natAbs : Int) = x := by omega
    show signed true (Nat.toDigits 10 x.natAbs) = some x
    rw [signed_toDigits true x.natAbs (hx.symm ▸ h)]
    exact congrArg some hx
  · have hx : (x.natAbs : Int) = x := by omega
    rw [parseI32_digits, signed_toDigits false x.natAbs (hx.symm ▸ h)]
    exact congrArg some hx

/-- An option is not blank, so an absent one is the only one with an empty field. -/
theorem option_getD {value : Option Str} {maxBytes : Nat} {field : String}
    (h : validateOptional value maxBytes field = .ok ()) : option (value.getD []) = value := by
  cases value with
  | none => rfl
  | some value =>
    cases value with
    | nil => cases h
    | cons c value => rfl

theorem entry_fields {e : GlossaryEntry} (h : e.validate = .ok ()) :
    validateGlossaryText e.sourceTerm maxGlossaryTermBytes "source term" = .ok () ∧
    validateGlossaryText e.targetTerm maxGlossaryTermBytes "target term" = .ok () ∧
    validateOptional e.sourceLocale 64 "source locale" = .ok () ∧
    validateOptional e.targetLocale 64 "target locale" = .ok () ∧
    validateOptional e.domain 128 "domain" = .ok () ∧
    validateOptional e.notes maxGlossaryNoteBytes "notes" = .ok () := by
  unfold GlossaryEntry.validate at h
  simpa only [Except.check_ok] using h

theorem parseGlossaryEntry_row {e : GlossaryEntry} (h : e.validate = .ok ())
    (hp : FitsI32 e.priority) (rowNumber : Nat) :
    parseGlossaryEntry (row e) rowNumber = .ok e := by
  obtain ⟨hsource, htarget, hfrom, hto, hdomain, hnotes⟩ := entry_fields h
  have hnew : newEntry e.sourceTerm e.targetTerm = .ok
      ⟨e.sourceTerm, e.targetTerm, none, none, true, true, false, none, 0, none, true⟩ := by
    simp only [newEntry, GlossaryEntry.validate, hsource, htarget]
    rfl
  unfold row parseGlossaryEntry
  simp only [hnew, parseBool_boolToCsv, parseI32_printI32 hp, option_getD hfrom, option_getD hto,
    option_getD hdomain, option_getD hnotes, Except.ok_mapError, Option.elim, Except.ok_bind, h]

theorem parseRows_map {entries : List GlossaryEntry}
    (h : ∀ e ∈ entries, e.validate = .ok () ∧ FitsI32 e.priority) (rowNumber : Nat) :
    parseRows rowNumber (entries.map row) = .ok entries := by
  induction entries generalizing rowNumber with
  | nil => rfl
  | cons e entries ih =>
    have he := h e List.mem_cons_self
    rw [List.map_cons, parseRows, parseGlossaryEntry_row he.1 he.2, Except.ok_bind,
      ih fun x hx => h x (List.mem_cons_of_mem _ hx)]
    rfl

/-! ## The size of an export -/

theorem doubled_len (value : Str) : utf8Len (doubled value) ≤ 2 * utf8Len value := by
  induction value with
  | nil => decide
  | cons c value ih =>
    have hc : utf8Len (if c = '"' then ['"', '"'] else [c]) ≤ 2 * c.utf8Size := by
      split
      · subst c
        decide
      · rw [utf8Len_cons]
        show c.utf8Size + 0 ≤ _
        omega
    show utf8Len ((if c = '"' then ['"', '"'] else [c]) ++ doubled value) ≤ _
    rw [utf8Len_append, utf8Len_cons]
    omega

theorem csvField_len (value : Str) : utf8Len (csvField value) ≤ 2 * utf8Len value + 2 := by
  have h := doubled_len value
  have hquote : Char.utf8Size '"' = 1 := by decide
  unfold csvField
  split
  · rw [utf8Len_cons, utf8Len_append, utf8Len_cons]
    show Char.utf8Size '"' + (utf8Len (doubled value) + (Char.utf8Size '"' + 0)) ≤ _
    omega
  · omega

/-- A field may double in size, and has a delimiter and two quotes. -/
theorem csvLine_len (values : List Str) :
    utf8Len (csvLine values) ≤ 2 * (values.map utf8Len).sum + 3 * values.length + 1 := by
  have hcomma : Char.utf8Size ',' = 1 := by decide
  have hline : utf8Len ['\n'] = 1 := by decide
  unfold csvLine
  rw [utf8Len_append, hline]
  induction values with
  | nil => decide
  | cons value values ih =>
    have h := csvField_len value
    cases values with
    | nil =>
      simp only [csvRow, List.map_cons, List.map_nil, List.sum_cons, List.sum_nil, List.length_cons,
        List.length_nil]
      omega
    | cons next values =>
      simp only [csvRow, utf8Len_append, utf8Len_cons, List.map_cons, List.sum_cons,
        List.length_cons] at ih ⊢
      omega

theorem text_len {value : Str} {maxBytes : Nat} {field : String}
    (h : validateGlossaryText value maxBytes field = .ok ()) : utf8Len value ≤ maxBytes := by
  unfold validateGlossaryText at h
  split at h
  · cases h
  · rename_i hbad
    simp only [Bool.or_eq_true, decide_eq_true_eq, not_or, not_lt] at hbad
    exact hbad.1.2

theorem option_len {value : Option Str} {maxBytes : Nat} {field : String}
    (h : validateOptional value maxBytes field = .ok ()) : utf8Len (value.getD []) ≤ maxBytes := by
  cases value with
  | none => exact Nat.zero_le _
  | some value => exact text_len h

theorem bool_len (value : Bool) : utf8Len (boolToCsv value) ≤ 5 := by
  cases value <;> decide

theorem digits_len {l : Str} (h : ∀ c ∈ l, c.isDigit = true) : utf8Len l = l.length := by
  induction l with
  | nil => rfl
  | cons c l ih =>
    have hc := h c List.mem_cons_self
    have hsize : c.utf8Size = 1 := by
      rw [Char.utf8Size_eq_one_iff]
      simp only [Char.isDigit, Bool.and_eq_true, decide_eq_true_eq] at hc
      exact UInt32.le_trans hc.2 (by decide)
    rw [utf8Len_cons, hsize, ih fun d hd => h d (List.mem_cons_of_mem _ hd), List.length_cons]
    omega

theorem printI32_len {x : Int} (h : FitsI32 x) : utf8Len (printI32 x) ≤ 11 := by
  have hbound : x.natAbs < 10 ^ 10 := by
    unfold FitsI32 at h
    omega
  have hlength : (Nat.toDigits 10 x.natAbs).length ≤ 10 :=
    (Nat.length_toDigits_le_iff (by decide) (by decide)).mpr hbound
  have hdigits := digits_len fun c hc =>
    Nat.isDigit_of_mem_toDigits (b := 10) (n := x.natAbs) (by decide) (by decide) hc
  have hminus : Char.utf8Size '-' = 1 := by decide
  unfold printI32
  split
  · rw [utf8Len_cons]
    omega
  · omega

theorem row_len {e : GlossaryEntry} (h : e.validate = .ok ()) (hp : FitsI32 e.priority) :
    utf8Len (csvLine (row e)) ≤ 8192 := by
  obtain ⟨hsource, htarget, hfrom, hto, hdomain, hnotes⟩ := entry_fields h
  have hline := csvLine_len (row e)
  have hsource := text_len hsource
  have htarget := text_len htarget
  have hfrom := option_len hfrom
  have hto := option_len hto
  have hdomain := option_len hdomain
  have hnotes := option_len hnotes
  have hpriority := printI32_len hp
  have hcase := bool_len e.caseSensitive
  have hword := bool_len e.wholeWord
  have himmutable := bool_len e.immutable
  have henabled := bool_len e.enabled
  simp only [row, List.map_cons, List.map_nil, List.sum_cons, List.sum_nil, List.length_cons,
    List.length_nil, maxGlossaryTermBytes, maxGlossaryNoteBytes] at *
  omega

theorem lines_len {entries : List GlossaryEntry}
    (h : ∀ e ∈ entries, e.validate = .ok () ∧ FitsI32 e.priority) :
    utf8Len (entries.flatMap fun e => csvLine (row e)) ≤ 8192 * entries.length := by
  induction entries with
  | nil => decide
  | cons e entries ih =>
    have hrow := row_len (h e List.mem_cons_self).1 (h e List.mem_cons_self).2
    have hrest := ih fun x hx => h x (List.mem_cons_of_mem _ hx)
    rw [List.flatMap_cons, utf8Len_append, List.length_cons]
    omega

/-! ## The round trip -/

theorem glossary_valid {g : Glossary} (h : g.validate = .ok ()) :
    g.entries.length ≤ maxGlossaryEntries ∧ ∀ e ∈ g.entries, e.validate = .ok () := by
  unfold Glossary.validate at h
  by_cases hlen : maxGlossaryEntries < g.entries.length
  · simp only [hlen, if_true] at h
    cases h
  · simp only [hlen, if_false] at h
    exact ⟨not_lt.mp hlen, Except.forM_ok.mp (Except.check_ok.mp h).1⟩

/-- A glossary that `Glossary::new` accepts is what its export is read as, and the export is not
too large to be read. A priority is an `i32`. -/
theorem from_csv_to_csv {g : Glossary} (hg : newGlossary g.entries = .ok g)
    (hp : ∀ e ∈ g.entries, FitsI32 e.priority) :
    fromCsv (toCsv g) = .ok g ∧ utf8Len (toCsv g) ≤ maxGlossaryCsvBytes := by
  have hg' : g.validate = .ok () := (Except.check_ok.mp hg).1
  obtain ⟨hlen, hvalid⟩ := glossary_valid hg'
  have hentries : ∀ e ∈ g.entries, e.validate = .ok () ∧ FitsI32 e.priority :=
    fun e he => ⟨hvalid e he, hp e he⟩
  have hsize : utf8Len (toCsv g) ≤ maxGlossaryCsvBytes := by
    have hlines := lines_len hentries
    have hheader : utf8Len glossaryCsvHeader = 117 := by decide +kernel
    have hline : Char.utf8Size '\n' = 1 := by decide
    rw [toCsv, utf8Len_append, utf8Len_cons]
    unfold maxGlossaryCsvBytes maxGlossaryEntries at *
    omega
  refine ⟨?_, hsize⟩
  unfold fromCsv
  rw [if_neg (by omega), parse_toCsv, Except.ok_bind]
  show (if expected ≠ expected then _ else _) = _
  rw [if_neg (by simp), if_neg (by simpa using hlen), parseRows_map hentries, Except.ok_bind, hg]
  rfl

def quotedTerms : Glossary := ⟨[
  { sourceTerm := "save, then \"close\"".toList
    targetTerm := "\uFEFFspeichern\r\nschließen ".toList
    sourceLocale := none
    targetLocale := some "de".toList
    caseSensitive := true
    wholeWord := false
    immutable := false
    domain := some "\"ui\"".toList
    priority := -7
    notes := none
    enabled := true }]⟩

theorem from_csv_to_csv_quotedTerms : fromCsv (toCsv quotedTerms) = .ok quotedTerms ∧
    utf8Len (toCsv quotedTerms) ≤ maxGlossaryCsvBytes :=
  from_csv_to_csv (g := quotedTerms) (by decide +kernel) (by decide)

end LinguaMesh.GlossaryCsv
