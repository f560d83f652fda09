import LinguaMesh.Document.Csv

/-!
# CSV tables and their texts

A field is plain, or quoted with its quotes doubled (`IsField`). The fields that
`parse_csv_records` cuts off a text are fields, and so is every encoded one. Of
the text of a table (`CsvRecord.spelled`) the parser gives the table back, with
two exceptions, both records of one empty field after another record: without a
line ending such a record is nothing (the text is at its end), and its LF after a
CR makes one line ending (`condense`).
-/

namespace LinguaMesh

open Run

/-! ## Fields -/

/-- A text with its quotes written twice. -/
def doubled (s : Str) : Str := replaceChar '"' "\"\"" s

@[simp] theorem doubled_nil : doubled [] = [] := rfl

theorem doubled_cons (c : Char) (s : Str) :
    doubled (c :: s) = (if c = '"' then ['"', '"'] else [c]) ++ doubled s := rfl

theorem doubled_append (s t : Str) : doubled (s ++ t) = doubled s ++ doubled t :=
  List.flatMap_append

/-- A character that a plain field cannot have. -/
def isCsvMark (delimiter c : Char) : Bool := c == '"' || c == delimiter || c == '\r' || c == '\n'

inductive IsField (delimiter : Char) : Str → Prop where
  | plain {raw : Str} : (∀ c ∈ raw, isCsvMark delimiter c = false) → IsField delimiter raw
  | quoted (x : Str) : IsField delimiter ('"' :: doubled x ++ ['"'])

theorem not_isCsvMark {delimiter c : Char} :
    isCsvMark delimiter c = false ↔ c ≠ '"' ∧ c ≠ delimiter ∧ c ≠ '\r' ∧ c ≠ '\n' := by
  simp [isCsvMark, and_assoc]

/-- An encoded field is quoted, or the translation itself without a special character. -/
theorem encodeCsvField_cases (raw translated : Str) (delimiter : Char) :
    encodeCsvField raw translated delimiter = '"' :: doubled translated ++ ['"'] ∨
      encodeCsvField raw translated delimiter = translated ∧
        ∀ c ∈ translated, isCsvMark delimiter c = false := by
  unfold encodeCsvField
  split
  · exact .inl rfl
  · rename_i h
    simp only [not_or] at h
    refine .inr ⟨rfl, fun c hc => not_isCsvMark.mpr ⟨?_, ?_, ?_, ?_⟩⟩ <;> rintro rfl
    · exact h.2.2.1 hc
    · exact h.2.1 hc
    · exact h.2.2.2.1 hc
    · exact h.2.2.2.2 hc

theorem isField_encode (raw translated : Str) (delimiter : Char) :
    IsField delimiter (encodeCsvField raw translated delimiter) := by
  rcases encodeCsvField_cases raw translated delimiter with h | ⟨h, hplain⟩ <;> rw [h]
  · exact .quoted translated
  · exact .plain hplain

theorem unquote_doubled (x : Str) : unquote (doubled x) = .ok x := by
  induction x with
  | nil => rfl
  | cons c x ih =>
    rw [doubled_cons]
    split
    · rename_i hc
      rw [hc, List.cons_append, List.singleton_append, unquote, ih]
      rfl
    · rename_i hc
      rw [List.singleton_append, unquote, ih]
      · rfl
      · exact fun _ h => absurd h hc
      · exact fun h => absurd h hc

theorem decode_quoted (delimiter : Char) (x : Str) :
    decodeCsvField ('"' :: doubled x ++ ['"']) delimiter = .ok x := by
  have hslice : slice ('"' :: doubled x ++ ['"']) 1 (('"' :: doubled x ++ ['"']).length - 1) =
      doubled x := by
    unfold slice
    simp
  have hlast : ('"' :: doubled x ++ ['"']).getLast? = some '"' := List.getLast?_concat
  unfold decodeCsvField
  rw [if_pos (by rfl), if_neg (not_or.mpr ⟨not_not.mpr hlast, by simp⟩), hslice, unquote_doubled]

theorem decode_plain {delimiter : Char} {raw : Str} (h : ∀ c ∈ raw, isCsvMark delimiter c = false) :
    decodeCsvField raw delimiter = .ok raw := by
  have hq : '"' ∉ raw := fun hc => (not_isCsvMark.mp (h _ hc)).1 rfl
  have hd : delimiter ∉ raw := fun hc => (not_isCsvMark.mp (h _ hc)).2.1 rfl
  have hhead : raw.head? ≠ some '"' := fun hh => hq (List.mem_of_mem_head? hh)
  unfold decodeCsvField
  rw [if_neg hhead, if_neg (by simp [hq, hd])]

/-- An encoded field is decoded as what it encodes. -/
theorem decode_encode (raw translated : Str) (delimiter : Char) :
    decodeCsvField (encodeCsvField raw translated delimiter) delimiter = .ok translated := by
  rcases encodeCsvField_cases raw translated delimiter with h | ⟨h, hplain⟩ <;> rw [h]
  · exact decode_quoted delimiter translated
  · exact decode_plain hplain

/-! ## The pass over a field -/

section Scan

variable {d : Char} {R : List CsvRecord} {F : List Str} {f rest : Str}

theorem csvScan_next {c : Char} {s s' : CsvScan} {skip : Nat}
    (h : csvStep d s c rest = .ok (s', skip)) :
    csvScan d 0 s (c :: rest) = csvScan d skip s' rest := by
  rw [csvScan, h]
  rfl

theorem csvScan_plain {raw : Str} (h : ∀ c ∈ raw, isCsvMark d c = false) :
    csvScan d 0 ⟨R, F, f, false, false⟩ (raw ++ rest) =
      csvScan d 0 ⟨R, F, f ++ raw, false, false⟩ rest := by
  induction raw generalizing f with
  | nil => simp
  | cons c raw ih =>
    obtain ⟨h1, h2, h3, h4⟩ := not_isCsvMark.mp (h c List.mem_cons_self)
    have hstep (cs : Str) : csvStep d ⟨R, F, f, false, false⟩ c cs =
        .ok (⟨R, F, f ++ [c], false, false⟩, 0) := by
      unfold csvStep
      simp [h1, h2, h3, h4]
    rw [List.cons_append, csvScan_next (hstep _), ih fun e he => h e (List.mem_cons_of_mem c he)]
    simp

theorem csvScan_doubled (x : Str) (hrest : rest.head? ≠ some '"') :
    csvScan d 0 ⟨R, F, f, true, false⟩ (doubled x ++ '"' :: rest) =
      csvScan d 0 ⟨R, F, f ++ doubled x ++ ['"'], false, true⟩ rest := by
  induction x generalizing f with
  | nil =>
    have hstep : csvStep d ⟨R, F, f, true, false⟩ '"' rest =
        .ok (⟨R, F, f ++ ['"'], false, true⟩, 0) := by
      unfold csvStep
      simp [hrest]
    simpa using csvScan_next hstep
  | cons c x ih =>
    rw [doubled_cons]
    split
    · have hstep (cs : Str) : csvStep d ⟨R, F, f, true, false⟩ '"' ('"' :: cs) =
          .ok (⟨R, F, f ++ ['"', '"'], true, false⟩, 1) := by
        unfold csvStep
        simp
      have hnext := csvScan_next (hstep (doubled x ++ '"' :: rest))
      rw [csvScan, ih] at hnext
      simpa using hnext
    · rename_i hc
      have hstep (cs : Str) : csvStep d ⟨R, F, f, true, false⟩ c cs =
          .ok (⟨R, F, f ++ [c], true, false⟩, 0) := by
        unfold csvStep
        simp [hc]
      rw [List.cons_append, List.cons_append, csvScan_next (hstep _), List.nil_append, ih]
      simp

/-- A field is read up to what comes after it. -/
theorem csvScan_field {raw : Str} (h : IsField d raw) (hrest : rest.head? ≠ some '"') :
    ∃ afterQuote, csvScan d 0 ⟨R, F, [], false, false⟩ (raw ++ rest) =
      csvScan d 0 ⟨R, F, raw, false, afterQuote⟩ rest := by
  cases h with
  | plain h => exact ⟨false, by rw [csvScan_plain h, List.nil_append]⟩
  | quoted x =>
    have hstep (cs : Str) : csvStep d ⟨R, F, [], false, false⟩ '"' cs =
        .ok (⟨R, F, ['"'], true, false⟩, 0) := by
      unfold csvStep
      simp
    refine ⟨true, ?_⟩
    rw [List.append_assoc, List.cons_append, csvScan_next (hstep _)]
    exact csvScan_doubled x hrest

/-- A character that separates fields: a candidate of `detect_csv_delimiter` is one. -/
structure IsDelimiter (d : Char) : Prop where
  quote : d ≠ '"'
  cr : d ≠ '\r'
  lf : d ≠ '\n'

theorem csvScan_delimiter (hd : IsDelimiter d) (afterQuote : Bool) :
    csvScan d 0 ⟨R, F, f, false, afterQuote⟩ (d :: rest) =
      csvScan d 0 ⟨R, F ++ [f], [], false, false⟩ rest := by
  have hstep : csvStep d ⟨R, F, f, false, afterQuote⟩ d rest =
      .ok (⟨R, F ++ [f], [], false, false⟩, 0) := by
    unfold csvStep
    rw [if_neg hd.quote, if_pos ⟨rfl, by simp⟩, CsvScan.closed_eq]
  exact csvScan_next hstep

/-- The fields of a record are read up to what comes after the last. -/
theorem csvScan_joined (R : List CsvRecord) (F : List Str) (rest : Str) {fields : List Str} (hd : IsDelimiter d) (hne : fields ≠ [])
    (hf : ∀ raw ∈ fields, IsField d raw) (hrest : rest.head? ≠ some '"') :
    ∃ last before afterQuote, before ++ [last] = F ++ fields ∧
      csvScan d 0 ⟨R, F, [], false, false⟩ (joined d fields ++ rest) =
        csvScan d 0 ⟨R, before, last, false, afterQuote⟩ rest := by
  induction fields generalizing F with
  | nil => exact absurd rfl hne
  | cons raw fields ih =>
    cases fields with
    | nil =>
      obtain ⟨afterQuote, h⟩ := csvScan_field (R := R) (F := F) (hf raw List.mem_cons_self) hrest
      exact ⟨raw, F, afterQuote, rfl, h⟩
    | cons next fields =>
      have hdelim : (d :: (joined d (next :: fields) ++ rest)).head? ≠ some '"' := by
        simpa using hd.quote
      obtain ⟨afterQuote, h⟩ := csvScan_field (R := R) (F := F) (hf raw List.mem_cons_self) hdelim
      obtain ⟨last, before, q, hfields, hscan⟩ := ih (F ++ [raw]) (List.cons_ne_nil _ _)
        fun g hg => hf g (List.mem_cons_of_mem raw hg)
      refine ⟨last, before, q, by rw [hfields, List.append_assoc]; rfl, ?_⟩
      rw [joined, List.append_assoc, List.cons_append, h, csvScan_delimiter hd, hscan]
      exact List.cons_ne_nil _ _

end Scan

/-! ## Tables -/

structure IsRecord (d : Char) (r : CsvRecord) : Prop where
  filled : r.fields ≠ []
  limit : r.fields.length ≤ maxCsvFields
  fields : ∀ raw ∈ r.fields, IsField d raw

/-- The records of a table; only the last may be without a line ending. -/
inductive IsTable (d : Char) : List CsvRecord → Prop where
  | nil : IsTable d []
  | last {r : CsvRecord} : IsRecord d r → r.lineEnding = [] → IsTable d [r]
  | cons {r : CsvRecord} {table : List CsvRecord} : IsRecord d r →
    r.lineEnding ∈ [['\n'], ['\r'], ['\r', '\n']] → IsTable d table → IsTable d (r :: table)

/-- One empty field and the end of the text. -/
def nothing : CsvRecord := ⟨[[]], []⟩

/-- One empty field and a LF. -/
def bareLf : CsvRecord := ⟨[[]], ['\n']⟩

/-- What the text of a table is read as, after `first` records or as the first of them. -/
def condense : Bool → List CsvRecord → List CsvRecord
  | _, [] => []
  | first, [r] => if !first && r = nothing then [] else [r]
  | _, r :: s :: table =>
    if r.lineEnding = ['\r'] ∧ s = bareLf then
      { r with lineEnding := ['\r', '\n'] } :: condense false table
    else r :: condense false (s :: table)

/-- A record that is not read as one of its own after `previous`. -/
def Vanishes (previous r : CsvRecord) : Prop :=
  r = nothing ∨ r = bareLf ∧ previous.lineEnding = ['\r']

/-- The end of `parse_csv_records`, after the pass. -/
def finishCsv (s : CsvScan) : Run DocumentError (List CsvRecord) :=
  if s.inQuotes then fail .invalidStructure
  else if s.fields ≠ [] ∨ s.field ≠ [] ∨ s.records = [] then do
    let s ← s.pushRecord (s.fields ++ [s.field]) []
    .ok s.records
  else .ok s.records

theorem parseCsvRecords_eq {text : Str} {d : Char} (htext : text ≠ []) (hd : d.toNat < 0x100) :
    parseCsvRecords text d = csvScan d 0 ⟨[], [], [], false, false⟩ text >>= finishCsv := by
  unfold parseCsvRecords
  rw [if_neg (by simp [htext, hd])]
  rfl

section Tables

variable {d : Char} {R table : List CsvRecord} {r : CsvRecord}

theorem IsRecord.push (h : IsRecord d r) (hR : R.length < maxCsvRecords) (before : List Str)
    (last : Str) (afterQuote : Bool) (ending : Str) :
    (⟨R, before, last, false, afterQuote⟩ : CsvScan).pushRecord r.fields ending =
      .ok ⟨R ++ [⟨r.fields, ending⟩], [], [], false, false⟩ := by
  unfold CsvScan.pushRecord
  rw [if_neg (by have := h.limit; simp only [not_or]; omega)]

theorem csvScan_lineEnd (hd : IsDelimiter d) (h : IsRecord d r) (hR : R.length < maxCsvRecords)
    {before : List Str} {last : Str} (hfields : before ++ [last] = r.fields) (afterQuote : Bool)
    {c : Char} (hc : c = '\r' ∨ c = '\n') (rest : Str) :
    csvScan d 0 ⟨R, before, last, false, afterQuote⟩ (c :: rest) =
      if c = '\r' ∧ rest.head? = some '\n' then
        csvScan d 0 ⟨R ++ [⟨r.fields, ['\r', '\n']⟩], [], [], false, false⟩ rest.tail
      else csvScan d 0 ⟨R ++ [⟨r.fields, [c]⟩], [], [], false, false⟩ rest := by
  have hne : c ≠ '"' ∧ c ≠ d := by
    rcases hc with rfl | rfl
    · exact ⟨by decide, fun e => hd.cr e.symm⟩
    · exact ⟨by decide, fun e => hd.lf e.symm⟩
  have hclosed : (⟨R, before, last, false, afterQuote⟩ : CsvScan).closed = r.fields := by
    rw [CsvScan.closed_eq, hfields]
  rw [csvScan, csvStep, if_neg hne.1, if_neg (by simp [hne.2]), if_pos ⟨hc, by simp⟩, hclosed]
  split
  · rw [h.push hR]
    cases rest with
    | nil => rfl
    | cons e rest => rfl
  · rw [h.push hR]
    rfl

/-- A record with its line ending is read, with the LF after a CR. -/
theorem csvScan_record (hd : IsDelimiter d) (h : IsRecord d r)
    (hend : r.lineEnding ∈ [['\n'], ['\r'], ['\r', '\n']]) (hR : R.length < maxCsvRecords)
    (rest : Str) :
    csvScan d 0 ⟨R, [], [], false, false⟩ (r.spelled d ++ rest) =
      if r.lineEnding = ['\r'] ∧ rest.head? = some '\n' then
        csvScan d 0 ⟨R ++ [{ r with lineEnding := ['\r', '\n'] }], [], [], false, false⟩ rest.tail
      else csvScan d 0 ⟨R ++ [r], [], [], false, false⟩ rest := by
  obtain ⟨fields, ending⟩ := r
  simp only [List.mem_cons, List.not_mem_nil, or_false] at hend
  have hquote : (ending ++ rest).head? ≠ some '"' := by
    rcases hend with rfl | rfl | rfl <;> simp
  obtain ⟨last, before, q, hfields, hscan⟩ := csvScan_joined R [] _ hd h.filled h.fields hquote
  rw [CsvRecord.spelled, List.append_assoc, hscan]
  rcases hend with rfl | rfl | rfl
  · exact csvScan_lineEnd hd h hR hfields q (.inr rfl) rest
  · simpa using csvScan_lineEnd hd h hR hfields q (.inl rfl) rest
  · exact csvScan_lineEnd hd h hR hfields q (.inl rfl) ('\n' :: rest)

/-- Fields other than a single empty one have a text, and it does not begin with a LF. -/
theorem joined_cons {fields : List Str} (hd : IsDelimiter d) (hf : ∀ raw ∈ fields, IsField d raw)
    (hne : fields ≠ []) (hempty : fields ≠ [[]]) :
    ∃ c cs, joined d fields = c :: cs ∧ c ≠ '\n' := by
  have head {c : Char} {cs : Str} (h : IsField d (c :: cs)) : c ≠ '\n' := by
    rintro rfl
    cases h with
    | plain h => exact (not_isCsvMark.mp (h _ List.mem_cons_self)).2.2.2 rfl
  match fields with
  | [] => exact absurd rfl hne
  | [[]] => exact absurd rfl hempty
  | [c :: cs] => exact ⟨c, cs, rfl, head (hf _ List.mem_cons_self)⟩
  | [] :: next :: fields => exact ⟨d, _, rfl, hd.lf⟩
  | (c :: cs) :: next :: fields => exact ⟨c, _, rfl, head (hf _ List.mem_cons_self)⟩

/-- A table whose text begins with a LF begins with a bare one. -/
theorem head_spelled (h : IsTable d table) (hd : IsDelimiter d)
    (hhead : (table.flatMap (CsvRecord.spelled d)).head? = some '\n') :
    ∃ rest, table = bareLf :: rest := by
  have single {r : CsvRecord} {rest : Str} (hr : IsRecord d r)
      (h : (r.spelled d ++ rest).head? = some '\n') : r.fields = [[]] := by
    by_contra hempty
    obtain ⟨c, cs, hj, hc⟩ := joined_cons hd hr.fields hr.filled hempty
    rw [CsvRecord.spelled, hj] at h
    exact hc (Option.some.inj h)
  cases h with
  | nil => cases hhead
  | @last r hr he =>
    have hfields := single hr hhead
    rw [List.flatMap_singleton, CsvRecord.spelled, he, hfields] at hhead
    cases hhead
  | @cons r rest hr he _ =>
    obtain ⟨fields, ending⟩ := r
    have hfields : fields = [[]] := single hr hhead
    subst hfields
    refine ⟨rest, ?_⟩
    simp only [List.mem_cons, List.not_mem_nil, or_false] at he
    rcases he with rfl | rfl | rfl
    · rfl
    · cases hhead
    · cases hhead

theorem IsTable.head_tail {s : CsvRecord} (h : IsTable d (r :: s :: table)) :
    IsRecord d r ∧ r.lineEnding ∈ [['\n'], ['\r'], ['\r', '\n']] ∧ IsTable d (s :: table) := by
  cases h with
  | cons h1 h2 h3 => exact ⟨h1, h2, h3⟩

theorem IsTable.tail (h : IsTable d (r :: table)) : IsTable d table := by
  cases h with
  | last => exact .nil
  | cons _ _ h => exact h

theorem finishCsv_done (hR : R ≠ []) :
    finishCsv ⟨R, [], [], false, false⟩ = .ok R := by
  unfold finishCsv
  simp [hR]

/-- The text of a table is read as what it condenses to. -/
theorem csvScan_table (hd : IsDelimiter d) (h : IsTable d table)
    (hlimit : R.length + table.length ≤ maxCsvRecords) (hne : table ≠ [] ∨ R ≠ []) (first : Bool)
    (hfirst : first = decide (R = [])) :
    csvScan d 0 ⟨R, [], [], false, false⟩ (table.flatMap (CsvRecord.spelled d)) >>= finishCsv =
      .ok (R ++ condense first table) := by
  fun_induction condense first table generalizing R with
  | case1 first =>
    rw [List.append_nil]
    exact finishCsv_done (hne.resolve_left fun h => h rfl)
  | case2 first r hr =>
    simp only [Bool.and_eq_true, Bool.not_eq_true', decide_eq_true_eq] at hr
    obtain ⟨rfl, rfl⟩ := hr
    rw [List.append_nil]
    exact finishCsv_done (of_decide_eq_false hfirst.symm)
  | case3 first r hr =>
    cases h with
    | last hrec he =>
      obtain ⟨last, before, q, hfields, hscan⟩ := csvScan_joined R [] [] hd
        hrec.filled hrec.fields (by simp)
      rw [List.nil_append] at hfields
      rw [List.append_nil] at hscan
      have hkept : before ≠ [] ∨ last ≠ [] ∨ R = [] := by
        by_contra hno
        simp only [not_or, not_not] at hno
        obtain ⟨rfl, rfl, hR⟩ := hno
        obtain ⟨fields, ending⟩ := r
        dsimp only at hfields he
        refine hr ?_
        simp [hfirst, hR, nothing, ← hfields, he]
      rw [List.flatMap_singleton, CsvRecord.spelled, he, List.append_nil, hscan, csvScan, Except.ok_bind,
        finishCsv, if_neg (by simp), if_pos hkept, hfields, hrec.push (by simp at hlimit; omega)]
      obtain ⟨fields, ending⟩ := r
      subst he
      rfl
    | cons hrec he _ =>
      rw [List.flatMap_singleton, ← List.append_nil (CsvRecord.spelled d r),
        csvScan_record hd hrec he (by simp at hlimit; omega), if_neg (by simp)]
      exact finishCsv_done (by simp)
  | case4 first r s table hr ih =>
    obtain ⟨hend, rfl⟩ := hr
    obtain ⟨hrec, he, htable⟩ := h.head_tail
    have hrest := htable.tail
    rw [List.flatMap_cons, csvScan_record hd hrec he (by simp at hlimit; omega),
      if_pos ⟨hend, rfl⟩]
    have := ih (R := R ++ [{ r with lineEnding := ['\r', '\n'] }]) hrest
      (by simp at hlimit ⊢; omega) (.inr (by simp)) (by simp)
    rw [List.append_assoc] at this
    exact this
  | case5 first r s table hr ih =>
    obtain ⟨hrec, he, htable⟩ := h.head_tail
    have hhead : ¬ (r.lineEnding = ['\r'] ∧
        ((s :: table).flatMap (CsvRecord.spelled d)).head? = some '\n') := by
      rintro ⟨hcr, hlf⟩
      obtain ⟨rest, heq⟩ := head_spelled htable hd hlf
      exact hr ⟨hcr, (List.cons.inj heq).1⟩
    rw [List.flatMap_cons, csvScan_record hd hrec he (by simp at hlimit; omega), if_neg hhead]
    have := ih (R := R ++ [r]) htable (by simp at hlimit ⊢; omega) (.inr (by simp)) (by simp)
    rw [List.append_assoc] at this
    exact this

/-! ## Records that are read as they are -/

/-- A record with no other before it is never nothing. -/
theorem condense_eq {p : CsvRecord} (h : (p :: table).IsChain fun p r => ¬ Vanishes p r)
    (first : Bool) : condense first table = table := by
  fun_induction condense first table generalizing p with
  | case1 => rfl
  | case2 first r hr =>
    simp only [Bool.and_eq_true, decide_eq_true_eq] at hr
    exact absurd (.inl hr.2) (List.isChain_cons_cons.mp h).1
  | case3 => rfl
  | case4 first r s table hr ih =>
    exact absurd (.inr ⟨hr.2, hr.1⟩) (List.isChain_cons_cons.mp (List.isChain_cons_cons.mp h).2).1
  | case5 first r s table hr ih => rw [ih (List.isChain_cons_cons.mp h).2]

theorem length_condense_le (first : Bool) (table : List CsvRecord) :
    (condense first table).length ≤ table.length := by
  fun_induction condense first table with
  | case1 | case2 | case3 => simp
  | case4 first r s table hr ih =>
    rw [List.length_cons, List.length_cons, List.length_cons]
    omega
  | case5 first r s table hr ih => exact Nat.succ_le_succ ih

theorem condense_of_chain (h : table.IsChain fun p r => ¬ Vanishes p r) :
    condense true table = table := by
  cases table with
  | nil => rfl
  | cons r table =>
    cases table with
    | nil => simp [condense]
    | cons s table =>
      have hr : ¬ (r.lineEnding = ['\r'] ∧ s = bareLf) := fun hr =>
        (List.isChain_cons_cons.mp h).1 (.inr ⟨hr.2, hr.1⟩)
      rw [condense, if_neg hr, condense_eq h]

/-- The records of a table are all read if and only if none vanishes. -/
theorem length_condense (h : IsTable d table) :
    (condense true table).length = table.length ↔ table.IsChain fun p r => ¬ Vanishes p r := by
  have short {first : Bool} {table : List CsvRecord} (h : IsTable d table)
      (hv : ¬ table.IsChain fun p r => ¬ Vanishes p r) :
      (condense first table).length < table.length := by
    fun_induction condense first table with
    | case1 => exact absurd .nil hv
    | case2 first r => exact absurd (.singleton r) hv
    | case3 first r => exact absurd (.singleton r) hv
    | case4 first r s table hr ih =>
      have := length_condense_le false table
      rw [List.length_cons, List.length_cons, List.length_cons]
      omega
    | case5 first r s table hr ih =>
      obtain ⟨-, -, hs⟩ := h.head_tail
      rw [List.isChain_cons_cons, not_and_or, not_not] at hv
      rcases hv with hv | hv
      · -- a record that is nothing ends the table
        have hnothing : s = nothing := hv.resolve_right fun hv => hr ⟨hv.2, hv.1⟩
        subst hnothing
        cases hs with
        | last => simp [condense]
        | cons _ he _ => simp [nothing] at he
      · exact Nat.succ_lt_succ (ih hs hv)
  refine ⟨fun hlen => ?_, fun hchain => ?_⟩
  · by_contra hv
    exact absurd hlen (Nat.ne_of_lt (short h hv))
  · rw [condense_of_chain hchain]

/-- The text of a table is read as the table that its records condense to. -/
theorem parse_table (hd : IsDelimiter d) (hsmall : d.toNat < 0x100) (h : IsTable d table)
    (hlimit : table.length ≤ maxCsvRecords)
    (hne : table.flatMap (CsvRecord.spelled d) ≠ []) :
    parseCsvRecords (table.flatMap (CsvRecord.spelled d)) d = .ok (condense true table) := by
  have htable : table ≠ [] := by
    rintro rfl
    exact hne rfl
  rw [parseCsvRecords_eq hne hsmall]
  exact csvScan_table (R := []) hd h (by simpa using hlimit) (.inl htable) true rfl

end Tables

/-! ## What the parser cuts off is a table -/

/-- The open field: plain so far, inside its quotes, or after them. -/
inductive OpenField (d : Char) : Str → Bool → Bool → Prop where
  | plain {raw : Str} : (∀ c ∈ raw, isCsvMark d c = false) → OpenField d raw false false
  | inside (x : Str) : OpenField d ('"' :: doubled x) true false
  | closed (x : Str) : OpenField d ('"' :: doubled x ++ ['"']) false true

theorem OpenField.isField {d : Char} {raw : Str} {afterQuote : Bool}
    (h : OpenField d raw false afterQuote) : IsField d raw := by
  cases h with
  | plain h => exact .plain h
  | closed x => exact .quoted x

/-- The parts that a pass has cut off so far. -/
structure CsvScan.Cut (d : Char) (s : CsvScan) : Prop where
  records : ∀ r ∈ s.records, IsRecord d r ∧ r.lineEnding ∈ [['\n'], ['\r'], ['\r', '\n']]
  limit : s.records.length ≤ maxCsvRecords
  fields : ∀ raw ∈ s.fields, IsField d raw
  field : OpenField d s.field s.inQuotes s.afterQuote

section Cut

variable {d : Char} {s : CsvScan}

theorem CsvScan.Cut.start : CsvScan.Cut d ⟨[], [], [], false, false⟩ :=
  ⟨fun _ h => absurd h List.not_mem_nil, Nat.zero_le _, fun _ h => absurd h List.not_mem_nil,
    .plain fun _ h => absurd h List.not_mem_nil⟩

/-- The fields of the open record, when the open field can end. -/
theorem CsvScan.Cut.closed (h : s.Cut d) (hq : s.inQuotes = false) :
    ∀ raw ∈ s.closed, IsField d raw := by
  intro raw hraw
  rw [CsvScan.closed_eq] at hraw
  rcases List.mem_append.mp hraw with hraw | hraw
  · exact h.fields raw hraw
  · rw [List.mem_singleton.mp hraw]
    have := h.field
    rw [hq] at this
    exact this.isField

theorem CsvScan.Cut.post_pushRecord (h : s.Cut d) (hq : s.inQuotes = false) (ending : Str) :
    Post (s.pushRecord s.closed ending) fun s' =>
      s'.records = s.records ++ [⟨s.closed, ending⟩] ∧ IsRecord d ⟨s.closed, ending⟩ ∧
        (ending ∈ [['\n'], ['\r'], ['\r', '\n']] → s'.Cut d) ∧
        s'.records.length ≤ maxCsvRecords := by
  unfold CsvScan.pushRecord
  split
  · exact post_fail
  · rename_i hlimits
    rw [not_or, Nat.not_lt, Nat.not_le] at hlimits
    have hrecord : IsRecord d ⟨s.closed, ending⟩ := by
      refine ⟨?_, hlimits.1, h.closed hq⟩
      rw [CsvScan.closed_eq]
      exact List.append_ne_nil_of_right_ne_nil _ (List.cons_ne_nil _ _)
    have hlength : (s.records ++ [CsvRecord.mk s.closed ending]).length ≤ maxCsvRecords := by
      rw [List.length_append, List.length_singleton]
      exact hlimits.2
    refine ⟨rfl, hrecord, fun hending => ⟨fun r hr => ?_, hlength, ?_, ?_⟩, hlength⟩
    · rcases List.mem_append.mp hr with hr | hr
      · exact h.records r hr
      · rw [List.mem_singleton.mp hr]
        exact ⟨hrecord, hending⟩
    · exact fun raw hraw => absurd hraw List.not_mem_nil
    · rw [hq]
      exact .plain fun _ hc => absurd hc List.not_mem_nil

theorem CsvScan.Cut.post_step (h : s.Cut d) (c : Char) (cs : Str) :
    Post (csvStep d s c cs) fun r => r.1.Cut d := by
  have endRecord (hq : s.inQuotes = false) (ending : Str) (skip : Nat)
      (hending : ending ∈ [['\n'], ['\r'], ['\r', '\n']]) :
      Post (s.pushRecord s.closed ending >>= fun t => .ok (t, skip)) fun r => r.1.Cut d :=
    (h.post_pushRecord hq ending).bind fun t ht => ht.2.2.1 hending
  obtain ⟨records, fields, field, inQuotes, afterQuote⟩ := s
  have hfield : OpenField d field inQuotes afterQuote := h.field
  unfold csvStep
  split
  · rename_i hc
    cases hfield with
    | inside x =>
      rw [if_pos rfl]
      split
      · refine ⟨h.records, h.limit, h.fields, ?_⟩
        have : '"' :: doubled x ++ ['"', '"'] = '"' :: doubled (x ++ ['"']) := by
          rw [doubled_append]
          rfl
        dsimp only
        rw [this]
        exact .inside _
      · exact ⟨h.records, h.limit, h.fields, .closed x⟩
    | plain hplain =>
      rw [if_neg Bool.false_ne_true]
      split
      · exact ⟨h.records, h.limit, h.fields, .inside []⟩
      · exact post_fail
    | closed x => exact post_fail
  · rename_i hc
    split
    · rename_i hd
      refine ⟨h.records, h.limit, h.closed (by simpa using hd.2), ?_⟩
      have hq : inQuotes = false := by simpa using hd.2
      rw [hq]
      exact .plain fun _ hc => absurd hc List.not_mem_nil
    · rename_i hd
      split
      · rename_i hend
        have hq : inQuotes = false := by simpa using hend.2
        split
        · exact endRecord hq _ _ (by simp)
        · exact endRecord hq _ _ (by rcases hend.1 with rfl | rfl <;> simp)
      · rename_i hend
        cases hfield with
        | closed x => exact post_fail
        | plain hplain =>
          refine ⟨h.records, h.limit, h.fields, .plain fun e he => ?_⟩
          rcases List.mem_append.mp he with he | he
          · exact hplain e he
          · rw [List.mem_singleton.mp he]
            simp only [Bool.false_eq_true, not_false_eq_true, and_true, not_or] at hd hend
            exact not_isCsvMark.mpr ⟨hc, hd, hend⟩
        | inside x =>
          refine ⟨h.records, h.limit, h.fields, ?_⟩
          have : '"' :: doubled x ++ [c] = '"' :: doubled (x ++ [c]) := by
            rw [doubled_append, doubled_cons, if_neg hc]
            rfl
          dsimp only
          rw [this]
          exact .inside _

theorem CsvScan.Cut.post_scan {skip : Nat} (h : s.Cut d) (text : Str) :
    Post (csvScan d skip s text) (CsvScan.Cut d) := by
  induction text generalizing skip s with
  | nil => exact h
  | cons c cs ih =>
    cases skip with
    | succ skip => exact ih h
    | zero =>
      unfold csvScan
      exact (h.post_step c cs).bind fun r hr => ih hr

theorem isTable_append {table table' : List CsvRecord}
    (h : ∀ r ∈ table, IsRecord d r ∧ r.lineEnding ∈ [['\n'], ['\r'], ['\r', '\n']])
    (h' : IsTable d table') : IsTable d (table ++ table') := by
  induction table with
  | nil => exact h'
  | cons r table ih =>
    obtain ⟨hr, he⟩ := h r List.mem_cons_self
    exact .cons hr he (ih fun t ht => h t (List.mem_cons_of_mem r ht))

/-- What a text is parsed as is a table within the limits. -/
theorem post_parse_table (text : Str) (d : Char) :
    Post (parseCsvRecords text d) fun table => IsTable d table ∧ table.length ≤ maxCsvRecords := by
  unfold parseCsvRecords
  split
  · exact post_fail
  refine (CsvScan.Cut.start.post_scan text).bind fun s hs => ?_
  split
  · exact post_fail
  rename_i hq
  split
  · rw [← CsvScan.closed_eq]
    refine (hs.post_pushRecord (by simpa using hq) []).bind fun t ht => ?_
    obtain ⟨hrecords, hrecord, -, hlimit⟩ := ht
    refine And.intro ?_ hlimit
    rw [hrecords]
    exact isTable_append hs.records (.last hrecord rfl)
  · refine ⟨?_, hs.limit⟩
    have := isTable_append hs.records IsTable.nil
    rwa [List.append_nil] at this

/-- No record vanishes in a table that the parser gives. -/
theorem chain_of_parse {text : Str} {table : List CsvRecord} (hd : IsDelimiter d)
    (h : parseCsvRecords text d = .ok table) : table.IsChain fun p r => ¬ Vanishes p r := by
  obtain ⟨htable, hlimit⟩ := (post_parse_table text d).ok h
  obtain ⟨hspelled, -⟩ := (post_parseCsvRecords text d).ok h
  have hlegal : text ≠ [] ∧ d.toNat < 0x100 := by
    unfold parseCsvRecords at h
    split at h
    · cases h
    · rename_i hno
      rwa [not_or, Nat.not_le] at hno
  have hagain := parse_table hd hlegal.2 htable hlimit (by rw [hspelled]; exact hlegal.1)
  rw [hspelled, h] at hagain
  exact (length_condense htable).mp (congrArg List.length (Except.ok.inj hagain)).symm

end Cut

/-! ## The detected delimiter -/

theorem detected_mem (text : Str) : detectCsvDelimiter text ∈ csvDelimiterCandidates := by
  unfold detectCsvDelimiter
  dsimp only
  rw [List.getD_eq_getElem?_getD]
  cases h : csvDelimiterCandidates[(csvCounts false [0, 0, 0, 0] text).idxOf
      ((csvCounts false [0, 0, 0, 0] text).foldl max 0)]? with
  | none => decide
  | some d => exact List.mem_of_getElem? h

theorem detected (text : Str) :
    IsDelimiter (detectCsvDelimiter text) ∧ (detectCsvDelimiter text).toNat < 0x100 := by
  have hall : ∀ d ∈ csvDelimiterCandidates, (d ≠ '"' ∧ d ≠ '\r' ∧ d ≠ '\n') ∧ d.toNat < 0x100 := by
    simp [csvDelimiterCandidates]
  obtain ⟨⟨h1, h2, h3⟩, h4⟩ := hall _ (detected_mem text)
  exact ⟨⟨h1, h2, h3⟩, h4⟩

end LinguaMesh
