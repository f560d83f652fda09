import LinguaMesh.Document.CsvTable
import LinguaMesh.Document.Translation

/-!
# Translating a CSV table

The segments of a CSV document lie at places that only the widths of the rows
decide (`cellIndex`), so that the output of a translated job is the text of the
table with the selected cells written anew (`writtenTable`). It is read as that
table, record by record, unless a record vanishes: one field, unquoted, that is
translated to the empty text (`Erased`).
-/

namespace LinguaMesh

open Run

/-! ## Where the cells are -/

/-- The number of segments of a record: its fields and the delimiters between them. -/
def CsvRecord.width (r : CsvRecord) : Nat := 2 * r.fields.length - 1

/-- The index of the first segment of a record. -/
def rowStart (table : List CsvRecord) (row : Nat) : Nat := ((table.take row).map (·.width)).sum

/-- The index of the segment of a cell. -/
def cellIndex (table : List CsvRecord) (row column : Nat) : Nat := rowStart table row + 2 * column

def cell (table : List CsvRecord) (row column : Nat) : Option Str :=
  table[row]?.bind fun r => r.fields[column]?

@[simp] theorem rowStart_zero (table : List CsvRecord) : rowStart table 0 = 0 := rfl

@[simp] theorem rowStart_succ (r : CsvRecord) (table : List CsvRecord) (row : Nat) :
    rowStart (r :: table) (row + 1) = r.width + rowStart table row := rfl

def cellKind (selected : List Nat) (column : Nat) : DocumentSegmentKind :=
  if selected.contains column then .prose else .verbatim

theorem cellKind_prose {selected : List Nat} {column : Nat} :
    cellKind selected column = .prose ↔ column ∈ selected := by
  unfold cellKind
  split <;> simp_all

/-- The segments of the fields of a record from `column` on, the first of them at `index`. -/
def rowSegments (selected : List Nat) (d : Char) (ending : Str) :
    Nat → Nat → List Str → List DocumentSegment
  | _, _, [] => []
  | column, index, [raw] => [.fresh index (cellKind selected column) raw ending]
  | column, index, raw :: next :: fields =>
    .fresh index (cellKind selected column) raw [] :: .fresh (index + 1) .verbatim [d] [] ::
      rowSegments selected d ending (column + 1) (index + 2) (next :: fields)

/-- The segments of the records of a table, the first of them at `index`. -/
def tableSegments (selected : List Nat) (d : Char) : Nat → List CsvRecord → List DocumentSegment
  | _, [] => []
  | index, r :: table =>
    rowSegments selected d r.lineEnding 0 index r.fields ++
      tableSegments selected d (index + r.width) table

section Layout

variable {selected : List Nat} {d : Char} {ending : Str} {segments : List DocumentSegment}
  {table : List CsvRecord}

theorem length_rowSegments (column index : Nat) (fields : List Str) :
    (rowSegments selected d ending column index fields).length = 2 * fields.length - 1 := by
  fun_induction rowSegments selected d ending column index fields with
  | case1 | case2 => rfl
  | case3 column index raw next fields ih =>
    rw [List.length_cons, List.length_cons, ih]
    simp only [List.length_cons]
    omega

theorem pushFields_eq {fields : List Str} (hne : fields ≠ []) (column : Nat) :
    setLastEnding (pushFields selected d column segments fields) ending =
      segments ++ rowSegments selected d ending column segments.length fields := by
  induction fields generalizing column segments with
  | nil => exact absurd rfl hne
  | cons raw fields ih =>
    cases fields with
    | nil => simp [pushFields, setLastEnding, pushSegment, rowSegments, DocumentSegment.fresh, cellKind]
    | cons next fields =>
      rw [pushFields, if_neg (List.cons_ne_nil _ _), ih (List.cons_ne_nil _ _)]
      simp [pushSegment, rowSegments, cellKind]

theorem pushRecords_eq {segments' : List DocumentSegment} (hfilled : ∀ r ∈ table, r.fields ≠ [])
    (h : table.foldlM (pushCsvRecord selected d) segments = .ok segments') :
    segments' = segments ++ tableSegments selected d segments.length table := by
  induction table generalizing segments with
  | nil =>
    cases h
    exact (List.append_nil _).symm
  | cons r table ih =>
    rw [List.foldlM_cons] at h
    obtain ⟨segments1, hr, h⟩ := Except.bind_ok.mp h
    unfold pushCsvRecord at hr
    rw [pushFields_eq (hfilled r List.mem_cons_self)] at hr
    dsimp only at hr
    split at hr
    · cases hr
    · cases hr
      rw [ih (fun t ht => hfilled t (List.mem_cons_of_mem r ht)) h, List.length_append,
        length_rowSegments, List.append_assoc]
      rfl

theorem getElem_rowSegments (selected : List Nat) (d : Char) (ending : Str) {fields : List Str}
    {j : Nat} {raw : Str} (column index : Nat)
    (h : fields[j]? = some raw) :
    ∃ e, (rowSegments selected d ending column index fields)[2 * j]? =
      some (.fresh (index + 2 * j) (cellKind selected (column + j)) raw e) := by
  fun_induction rowSegments selected d ending column index fields generalizing j with
  | case1 => cases h
  | case2 column index field =>
    cases j with
    | zero =>
      cases h
      exact ⟨ending, rfl⟩
    | succ j => cases h
  | case3 column index field next fields ih =>
    cases j with
    | zero =>
      cases h
      exact ⟨[], rfl⟩
    | succ j =>
      obtain ⟨e, he⟩ := ih h
      refine ⟨e, ?_⟩
      rw [show 2 * (j + 1) = 2 * j + 1 + 1 by omega, List.getElem?_cons_succ,
        List.getElem?_cons_succ, he, show index + 2 + 2 * j = index + (2 * j + 1 + 1) by omega,
        show column + 1 + j = column + (j + 1) by omega]

theorem getElem_tableSegments (selected : List Nat) (d : Char) {row column : Nat} {raw : Str}
    (index : Nat)
    (h : cell table row column = some raw) :
    ∃ e, (tableSegments selected d index table)[cellIndex table row column]? =
      some (.fresh (index + cellIndex table row column) (cellKind selected column) raw e) := by
  induction table generalizing index row with
  | nil => cases h
  | cons r table ih =>
    unfold tableSegments
    cases row with
    | zero =>
      have hget : r.fields[column]? = some raw := h
      have hlt : 2 * column < r.width := by
        have := (List.getElem?_eq_some_iff.mp hget).1
        unfold CsvRecord.width
        omega
      have hindex : cellIndex (r :: table) 0 column = 2 * column := Nat.zero_add _
      obtain ⟨e, he⟩ := getElem_rowSegments selected d r.lineEnding 0 index hget
      refine ⟨e, ?_⟩
      rw [hindex, List.getElem?_append_left (by rw [length_rowSegments]; exact hlt), he, Nat.zero_add]
    | succ row =>
      have hindex : cellIndex (r :: table) (row + 1) column = r.width + cellIndex table row column := by
        simp [cellIndex, Nat.add_assoc]
      obtain ⟨e, he⟩ := ih (index + r.width) h
      refine ⟨e, ?_⟩
      rw [hindex, List.getElem?_append_right (by rw [length_rowSegments]; exact Nat.le_add_right _ _),
        length_rowSegments, show 2 * r.fields.length - 1 = r.width from rfl, Nat.add_sub_cancel_left, he,
        Nat.add_assoc]

end Layout

/-! ## The table that is written -/

/-- The table with each cell written anew, from its column, the index of its segment and its text. -/
def writtenTable (write : Nat → Nat → Str → Str) : Nat → List CsvRecord → List CsvRecord
  | _, [] => []
  | index, r :: table =>
    { r with fields := r.fields.mapIdx fun column => write column (index + 2 * column) } ::
      writtenTable write (index + r.width) table

/-- What a cell is written as: a selected one as its translation. -/
def writtenCell (selected : List Nat) (calls : List (Nat × Str)) (d : Char) (column index : Nat)
    (raw : Str) : Str :=
  if column ∈ selected then ((lastCall calls index).map (encodeCsvField raw · d)).getD [] else raw

section Written

variable {write : Nat → Nat → Str → Str} {d : Char} {table : List CsvRecord}

theorem getElem_writtenTable (index row : Nat) :
    (writtenTable write index table)[row]? = table[row]?.map fun r =>
      ⟨r.fields.mapIdx fun column => write column (index + cellIndex table row column), r.lineEnding⟩ := by
  induction table generalizing index row with
  | nil => rfl
  | cons r table ih =>
    cases row with
    | zero => simp [writtenTable, cellIndex]
    | succ row =>
      rw [writtenTable, List.getElem?_cons_succ, List.getElem?_cons_succ, ih]
      simp [cellIndex, Nat.add_assoc]

theorem length_writtenTable (index : Nat) : (writtenTable write index table).length = table.length := by
  induction table generalizing index with
  | nil => rfl
  | cons r table ih => rw [writtenTable, List.length_cons, List.length_cons, ih]

theorem shape_writtenTable (index : Nat) :
    (writtenTable write index table).map (fun r => (r.fields.length, r.lineEnding)) =
      table.map fun r => (r.fields.length, r.lineEnding) := by
  induction table generalizing index with
  | nil => rfl
  | cons r table ih => rw [writtenTable, List.map_cons, List.map_cons, ih, List.length_mapIdx]

theorem isTable_written (hwrite : ∀ column index raw, IsField d raw → IsField d (write column index raw))
    (h : IsTable d table) (index : Nat) : IsTable d (writtenTable write index table) := by
  have record {r : CsvRecord} (hr : IsRecord d r) (index : Nat) :
      IsRecord d { r with fields := r.fields.mapIdx fun column => write column (index + 2 * column) } := by
    refine ⟨?_, ?_, fun raw hraw => ?_⟩
    · simpa using hr.filled
    · simpa using hr.limit
    · obtain ⟨i, hi, rfl⟩ := List.mem_mapIdx.mp hraw
      exact hwrite _ _ _ (hr.fields _ (List.getElem_mem hi))
  induction h generalizing index with
  | nil => exact .nil
  | last hr he => exact .last (record hr index) he
  | cons hr he _ ih => exact .cons (record hr index) he (ih _)

end Written

theorem joined_cons_of_ne_nil {d : Char} {raw : Str} {fields : List Str} (hne : fields ≠ []) :
    joined d (raw :: fields) = raw ++ d :: joined d fields := by
  cases fields with
  | nil => exact absurd rfl hne
  | cons next fields => rfl

section Output

variable [JsonStrings] {selected : List Nat} {d : Char} {job : DocumentJob} {calls : List (Nat × Str)}

omit [JsonStrings] in
theorem isField_writtenCell {raw : Str} (column index : Nat) (h : IsField d raw) :
    IsField d (writtenCell selected calls d column index raw) := by
  unfold writtenCell
  split
  · cases lastCall calls index with
    | none => exact .plain fun _ hc => absurd hc List.not_mem_nil
    | some x => exact isField_encode raw x d
  · exact h

theorem output_cell (hencode : job.encodeTranslation = (encodeCsvField · · d)) (column index : Nat)
    (raw ending : Str) :
    (job.retold calls (.fresh index (cellKind selected column) raw ending)).output =
      writtenCell selected calls d column index raw := by
  unfold writtenCell
  split
  · rename_i hmem
    rw [cellKind_prose.mpr hmem, DocumentSegment.output, DocumentJob.retold, hencode]
    simp [DocumentSegment.fresh]
  · rename_i hmem
    have hkind : cellKind selected column = .verbatim := by
      cases hk : cellKind selected column with
      | verbatim => rfl
      | prose => exact absurd (cellKind_prose.mp hk) hmem
    rw [hkind]
    rfl

theorem output_row (selected : List Nat) (calls : List (Nat × Str))
    (hencode : job.encodeTranslation = (encodeCsvField · · d)) (ending : Str)
    (column index : Nat) {fields : List Str} (hne : fields ≠ []) :
    (rowSegments selected d ending column index fields).flatMap (fun s =>
        (job.retold calls s).output ++ (job.retold calls s).lineEnding) =
      joined d (fields.mapIdx fun j =>
        writtenCell selected calls d (column + j) (index + 2 * j)) ++ ending := by
  fun_induction rowSegments selected d ending column index fields with
  | case1 => exact absurd rfl hne
  | case2 column index raw =>
    rw [List.flatMap_singleton, output_cell hencode]
    rfl
  | case3 column index raw next fields ih =>
    have hdelimiter : (job.retold calls (.fresh (index + 1) .verbatim [d] [])).output = [d] := rfl
    have hshift : (fun j => writtenCell selected calls d (column + (j + 1)) (index + 2 * (j + 1))) =
        fun j => writtenCell selected calls d (column + 1 + j) (index + 2 + 2 * j) := by
      funext j
      rw [show column + (j + 1) = column + 1 + j by omega,
        show index + 2 * (j + 1) = index + 2 + 2 * j by omega]
    have hfields : (raw :: next :: fields).mapIdx (fun j =>
          writtenCell selected calls d (column + j) (index + 2 * j)) =
        writtenCell selected calls d column index raw :: (next :: fields).mapIdx fun j =>
          writtenCell selected calls d (column + 1 + j) (index + 2 + 2 * j) := by
      rw [List.mapIdx_cons, hshift]
      rfl
    rw [List.flatMap_cons, List.flatMap_cons, ih (List.cons_ne_nil _ _), output_cell hencode, hdelimiter,
      hfields, joined_cons_of_ne_nil (by simp)]
    simp [DocumentSegment.fresh]

/-- The output of the segments of a table is the text of the written one. -/
theorem output_table (hencode : job.encodeTranslation = (encodeCsvField · · d)) (index : Nat)
    {table : List CsvRecord} (hfilled : ∀ r ∈ table, r.fields ≠ []) :
    (tableSegments selected d index table).flatMap (fun s =>
        (job.retold calls s).output ++ (job.retold calls s).lineEnding) =
      (writtenTable (writtenCell selected calls d) index table).flatMap (CsvRecord.spelled d) := by
  induction table generalizing index with
  | nil => rfl
  | cons r table ih =>
    have hrow := output_row selected calls hencode r.lineEnding 0 index
      (hfilled r List.mem_cons_self)
    rw [tableSegments, List.flatMap_append, hrow, ih _ fun t ht => hfilled t (List.mem_cons_of_mem r ht),
      writtenTable, List.flatMap_cons]
    simp [CsvRecord.spelled]

end Output

/-! ## Reconstruction -/

/-- Each cell has a segment of its own, which is prose in a selected column. -/
def LaidOut (selected : List Nat) (job : DocumentJob) (table : List CsvRecord) : Prop :=
  ∀ row column raw, cell table row column = some raw →
    ∃ s, job.segments[cellIndex table row column]? = some s ∧ s.sourceText = raw ∧
      (s.kind = .prose ↔ column ∈ selected)

/-- What a cell of the output has to be read as: its translation if it is selected and has one, and
what the cell of the source is read as otherwise. -/
def cellValue (selected : List Nat) (calls : List (Nat × Str)) (d : Char) (column index : Nat)
    (raw : Str) : Run DocumentError Str :=
  match if column ∈ selected then lastCall calls index else none with
  | some translated => .ok translated
  | none => decodeCsvField raw d

/-- The output table has the rows of the source table, with the translations in the selected cells. -/
structure TableKept (selected : List Nat) (calls : List (Nat × Str)) (d : Char)
    (table table' : List CsvRecord) : Prop where
  shape : table'.map (fun r => (r.fields.length, r.lineEnding)) =
    table.map fun r => (r.fields.length, r.lineEnding)
  cells : ∀ row column raw, cell table row column = some raw →
    ∃ raw', cell table' row column = some raw' ∧
      decodeCsvField raw' d = cellValue selected calls d column (cellIndex table row column) raw

/-- The record after `row` is one unquoted field that is translated to the empty text, where nothing
or the LF of a line ending is left of it. -/
def Erased (selected : List Nat) (calls : List (Nat × Str)) (table : List CsvRecord) (row : Nat) :
    Prop :=
  ∃ p r raw, table[row]? = some p ∧ table[row + 1]? = some r ∧ r.fields = [raw] ∧
    raw.head? ≠ some '"' ∧ 0 ∈ selected ∧ lastCall calls (cellIndex table (row + 1) 0) = some [] ∧
    (r.lineEnding = [] ∨ r.lineEnding = ['\n'] ∧ p.lineEnding = ['\r'])

/-- The columns of an import, when it selects any. -/
def ImportOptions.columns : ImportOptions → Option (List Nat)
  | plain => none
  | csvColumns selected => selected
  | jsonPaths _ _ => none

section Reconstruct

variable {selected : List Nat} {calls : List (Nat × Str)} {d : Char} {table : List CsvRecord}

theorem encodeCsvField_eq_nil {raw translated : Str} :
    encodeCsvField raw translated d = [] ↔ raw.head? ≠ some '"' ∧ translated = [] := by
  unfold encodeCsvField
  split
  · rename_i h
    constructor
    · intro hnil
      cases hnil
    · rintro ⟨hraw, rfl⟩
      simp [hraw] at h
  · rename_i h
    simp only [not_or] at h
    exact ⟨fun hnil => ⟨h.1, hnil⟩, fun h => h.2⟩

/-- Every selected cell has a translation. -/
def Complete (selected : List Nat) (calls : List (Nat × Str)) (table : List CsvRecord) : Prop :=
  ∀ row column raw, cell table row column = some raw → column ∈ selected →
    (lastCall calls (cellIndex table row column)).isSome

theorem tableKept_written (hdone : Complete selected calls table) :
    TableKept selected calls d table (writtenTable (writtenCell selected calls d) 0 table) := by
  refine ⟨shape_writtenTable 0, fun row column raw hcell => ?_⟩
  obtain ⟨r, hr, hraw⟩ := Option.bind_eq_some_iff.mp hcell
  refine ⟨writtenCell selected calls d column (cellIndex table row column) raw, ?_, ?_⟩
  · unfold cell
    rw [getElem_writtenTable, hr, Option.map_some, Option.bind_some, List.getElem?_mapIdx, hraw,
      Nat.zero_add]
    rfl
  · unfold writtenCell cellValue
    split
    · rename_i hmem
      obtain ⟨x, hx⟩ := Option.isSome_iff_exists.mp (hdone row column raw hcell hmem)
      rw [hx]
      exact decode_encode raw x d
    · rfl

theorem mapIdx_eq_single {write : Nat → Str → Str} {fields : List Str} :
    fields.mapIdx write = [[]] ↔ ∃ raw, fields = [raw] ∧ write 0 raw = [] := by
  match fields with
  | [] => simp
  | [raw] => simp
  | raw :: next :: fields => simp

/-- A record that did not vanish in the source vanishes when it is erased. -/
theorem vanishes_written (hdone : Complete selected calls table) {row : Nat} {p r : CsvRecord}
    (hp : table[row]? = some p) (hr : table[row + 1]? = some r) (hsource : ¬ Vanishes p r)
    {fields : List Str} :
    Vanishes ⟨fields, p.lineEnding⟩ ⟨r.fields.mapIdx fun column =>
        writtenCell selected calls d column (cellIndex table (row + 1) column), r.lineEnding⟩ ↔
      Erased selected calls table row := by
  have hends (fields' : List Str) : Vanishes ⟨fields, p.lineEnding⟩ ⟨fields', r.lineEnding⟩ ↔
      fields' = [[]] ∧ (r.lineEnding = [] ∨ r.lineEnding = ['\n'] ∧ p.lineEnding = ['\r']) := by
    unfold Vanishes nothing bareLf
    rw [CsvRecord.mk.injEq, CsvRecord.mk.injEq]
    tauto
  rw [hends, mapIdx_eq_single]
  constructor
  · rintro ⟨⟨raw, hraw, hnil⟩, hend⟩
    have hcell : cell table (row + 1) 0 = some raw := by
      rw [cell, hr, Option.bind_some, hraw]
      rfl
    unfold writtenCell at hnil
    split at hnil
    · rename_i hmem
      obtain ⟨x, hx⟩ := Option.isSome_iff_exists.mp (hdone _ _ _ hcell hmem)
      rw [hx] at hnil
      obtain ⟨hquote, rfl⟩ := encodeCsvField_eq_nil.mp hnil
      exact ⟨p, r, raw, hp, hr, hraw, hquote, hmem, hx, hend⟩
    · -- an empty field that is not selected would vanish from the source too
      subst hnil
      have : Vanishes ⟨p.fields, p.lineEnding⟩ ⟨r.fields, r.lineEnding⟩ := by
        rw [hraw]
        rcases hend with he | ⟨he, hcr⟩
        · exact .inl (by rw [he]; rfl)
        · exact .inr ⟨by rw [he]; rfl, hcr⟩
      exact absurd this hsource
  · rintro ⟨p', r', raw, hp', hr', hraw, hquote, hmem, hcall, hend⟩
    cases hp.symm.trans hp'
    cases hr.symm.trans hr'
    refine ⟨⟨raw, hraw, ?_⟩, hend⟩
    rw [writtenCell, if_pos hmem, hcall]
    exact encodeCsvField_eq_nil.mpr ⟨hquote, rfl⟩

/-- The written table has a record that vanishes if and only if one is erased. -/
theorem chain_written (hchain : table.IsChain fun p r => ¬ Vanishes p r)
    (hdone : Complete selected calls table) :
    (writtenTable (writtenCell selected calls d) 0 table).IsChain (fun p r => ¬ Vanishes p r) ↔
      ∀ row, ¬ Erased selected calls table row := by
  rw [isChain_iff_getElem?] at hchain ⊢
  have written {row : Nat} {r : CsvRecord} (hr : table[row]? = some r) :
      (writtenTable (writtenCell selected calls d) 0 table)[row]? =
        some ⟨r.fields.mapIdx fun column => writtenCell selected calls d column (cellIndex table row column),
          r.lineEnding⟩ := by
    rw [getElem_writtenTable, hr]
    simp
  constructor
  · intro h row herased
    obtain ⟨p, r, -, hp, hr, -⟩ := id herased
    exact h row _ _ (written hp) (written hr)
      ((vanishes_written hdone hp hr (hchain row p r hp hr)).mpr herased)
  · intro h row p' r' hp' hr' hv
    rw [getElem_writtenTable] at hp' hr'
    obtain ⟨p, hp, rfl⟩ := Option.map_eq_some_iff.mp hp'
    obtain ⟨r, hr, rfl⟩ := Option.map_eq_some_iff.mp hr'
    simp only [Nat.zero_add] at hv
    exact h row ((vanishes_written hdone hp hr (hchain row p r hp hr)).mp hv)

/-- An imported CSV document is laid out by the table that its text is parsed as. -/
theorem laidOut_fromCsvText {sourceName text : Str} {columns : Option (List Nat)} {job : DocumentJob}
    (h : fromCsvText sourceName text columns = .ok job) :
    ∃ table selected, parseCsvRecords text (detectCsvDelimiter text) = .ok table ∧
      selectColumns table (detectCsvDelimiter text) columns = .ok selected ∧
      job.segments = tableSegments selected (detectCsvDelimiter text) 0 table ∧
      LaidOut selected job table := by
  obtain ⟨table, htable, h⟩ := Except.bind_ok.mp h
  obtain ⟨selected, hselected, h⟩ := Except.bind_ok.mp h
  obtain ⟨segments, hpush, h⟩ := Except.bind_ok.mp h
  cases h
  have hfilled := ((post_parseCsvRecords text _).ok htable).2
  have hsegments := pushRecords_eq hfilled hpush
  rw [List.nil_append, List.length_nil] at hsegments
  refine ⟨table, selected, htable, hselected, hsegments, fun row column raw hcell => ?_⟩
  obtain ⟨e, he⟩ := getElem_tableSegments selected (detectCsvDelimiter text) 0 hcell
  refine ⟨_, by rw [hsegments]; exact he, rfl, cellKind_prose⟩

theorem fromCsvText_of_jsonPaths [JsonReader] {sourceName : Str} {contents : Bytes}
    {includePaths excludePaths : Option (List Str)} {job : DocumentJob}
    (h : DocumentJob.fromUtf8WithJsonPaths sourceName contents includePaths excludePaths = .ok job)
    (hformat : job.format = .csv) : ∃ text, fromCsvText sourceName text none = .ok job := by
  obtain ⟨⟨format, text⟩, -, h⟩ := Except.bind_ok.mp h
  dsimp only at h
  split at h
  · rw [((post_fromJsonText sourceName text _ _).ok h).1] at hformat
    cases hformat
  split at h
  · exact ⟨text, h⟩
  · have := (DocumentJob.fromText_spec sourceName format text).1
    rw [Except.ok.inj h, hformat] at this
    exact absurd this.symm ‹_›

theorem fromCsvText_of_run [JsonReader] [Packages] {options : ImportOptions} {sourceName : Str}
    {contents : Bytes} {job : DocumentJob} (h : options.run sourceName contents = .ok job)
    (hformat : job.format = .csv) :
    ∃ text, fromCsvText sourceName text options.columns = .ok job := by
  cases options with
  | csvColumns selected =>
    obtain ⟨⟨format, text⟩, -, h⟩ := Except.bind_ok.mp h
    dsimp only at h
    split at h
    · exact ⟨text, h⟩
    · have := (DocumentJob.fromText_spec sourceName format text).1
      rw [Except.ok.inj h, hformat] at this
      exact absurd this.symm ‹_›
  | jsonPaths includePaths excludePaths => exact fromCsvText_of_jsonPaths h hformat
  | plain =>
    unfold ImportOptions.run DocumentJob.fromUtf8 at h
    dsimp only at h
    split at h
    · cases h
    split at h
    · rename_i format _ hpackage
      unfold DocumentJob.fromPackage at h
      split at h
      · cases h
      · obtain ⟨segments, -, h⟩ := Except.bind_ok.mp h
        cases h
        dsimp only at hformat
        rw [hformat] at hpackage
        cases hpackage
    · exact fromCsvText_of_jsonPaths h hformat

end Reconstruct

/-- Once no segment is pending, every selected cell has a translation. -/
theorem complete_of_pending [JsonStrings] {selected : List Nat} {calls : List (Nat × Str)}
    {job : DocumentJob} {text : Str} {table : List CsvRecord} (hsegmented : Segmented text job.segments)
    (hlaid : LaidOut selected job table)
    (hdone : ∀ s ∈ job.segments, (job.retold calls s).isPending = false) :
    Complete selected calls table := by
  intro row column raw hcell hmem
  obtain ⟨s, hs, -, hkind⟩ := hlaid row column raw hcell
  have hpending := hdone s (List.mem_of_getElem? hs)
  rw [DocumentJob.isPending_retold (hsegmented.fresh s (List.mem_of_getElem? hs)), hkind.mpr hmem,
    index_of_getElem hsegmented.indices hs] at hpending
  simpa using hpending

theorem output_ne_nil [JsonReader] [Packages] {job : DocumentJob} {out : Str}
    (hformat : job.format = .csv) (h : job.reconstruct = .ok out) : out ≠ [] := by
  rintro rfl
  have hpackage : ¬ job.format.isPackage := by rw [hformat]; decide
  have hdone := DocumentJob.pendingCount_of_reconstruct hpackage h
  have hnil := DocumentJob.output_of_reconstruct hpackage hdone h
  rw [DocumentJob.reconstruct_eq hpackage hdone, hformat, hnil] at h
  cases h

/-- The output of a CSV document is read as its table with the translations in the selected cells if
and only if no record of it is erased by an empty translation. -/
theorem reconstruct_table [JsonReader] [JsonStrings] [Packages] {options : ImportOptions}
    {sourceName : Str} {contents : Bytes} {job job' : DocumentJob} {calls : List (Nat × Str)} {out : Str}
    (himport : options.run sourceName contents = .ok job) (hformat : job.format = .csv)
    (happly : job.applyTranslations calls = .ok job') (hout : job'.reconstruct = .ok out) :
    ∃ table selected,
      parseCsvRecords job.sourceText (detectCsvDelimiter job.sourceText) = .ok table ∧
      selectColumns table (detectCsvDelimiter job.sourceText) options.columns = .ok selected ∧
      LaidOut selected job table ∧
      ((∃ table', parseCsvRecords out (detectCsvDelimiter job.sourceText) = .ok table' ∧
          TableKept selected calls (detectCsvDelimiter job.sourceText) table table') ↔
        ∀ row, ¬ Erased selected calls table row) := by
  obtain ⟨text, hcsv⟩ := fromCsvText_of_run himport hformat
  have hsegmented := ((post_fromCsvText sourceName text options.columns).ok hcsv).2
  have htext : job.sourceText = text := hsegmented.text
  obtain ⟨table, selected, htable, hselected, hsegments, hlaid⟩ := laidOut_fromCsvText hcsv
  obtain ⟨hjob', -⟩ := DocumentJob.applyTranslations_eq hsegmented.indices happly
  have hformat' : job'.format = .csv := by rw [hjob']; exact hformat
  have hpackage : ¬ job'.format.isPackage := by rw [hformat']; decide
  rw [htext]
  refine ⟨table, selected, htable, hselected, hlaid, ?_⟩
  generalize hdelimiter : detectCsvDelimiter text = d at htable hsegments
  obtain ⟨hd, hsmall⟩ : IsDelimiter d ∧ d.toNat < 0x100 := hdelimiter ▸ detected text
  obtain ⟨htab, hlimit⟩ := (post_parse_table text d).ok htable
  have hdone := DocumentJob.pendingCount_of_reconstruct hpackage hout
  have hcomplete : Complete selected calls table := by
    refine complete_of_pending hsegmented hlaid fun s hs => DocumentJob.pending_false hdone _ ?_
    rw [hjob']
    exact List.mem_map_of_mem hs
  -- the output is the text of the written table, and is parsed as what that condenses to
  have hencode : job.encodeTranslation = (encodeCsvField · · d) := by
    funext raw translated
    rw [DocumentJob.encodeTranslation, hformat, htext, hdelimiter]
  have houtput : (writtenTable (writtenCell selected calls d) 0 table).flatMap (CsvRecord.spelled d) =
      out := by
    rw [← DocumentJob.output_of_reconstruct hpackage hdone hout,
      ← output_table hencode 0 ((post_parseCsvRecords text d).ok htable).2, ← hsegments, hjob',
      DocumentJob.output, List.flatMap_map]
  have hwritten : IsTable d (writtenTable (writtenCell selected calls d) 0 table) :=
    isTable_written (fun column index _ => isField_writtenCell column index) htab 0
  have hparse := parse_table hd hsmall hwritten (by rwa [length_writtenTable])
    (by rw [houtput]; exact output_ne_nil hformat' hout)
  rw [houtput] at hparse
  rw [← chain_written (chain_of_parse hd htable) hcomplete]
  constructor
  · rintro ⟨table', htable', hkept⟩
    rw [hparse] at htable'
    cases htable'
    refine (length_condense hwritten).mp ?_
    rw [length_writtenTable]
    simpa using congrArg List.length hkept.shape
  · intro hchain
    rw [condense_of_chain hchain] at hparse
    exact ⟨_, hparse, tableKept_written hcomplete⟩

/-! ## Two columns and one -/

/-- The sample with its names translated. -/
def translatedCsvJob : DocumentJob := { sampleCsvJob with
  segments := [
    ⟨0, .verbatim, "id".toList, none, []⟩,
    ⟨1, .verbatim, ",".toList, none, []⟩,
    ⟨2, .prose, "name".toList, some "nom".toList, "\r\n".toList⟩,
    ⟨3, .verbatim, "1".toList, none, []⟩,
    ⟨4, .verbatim, ",".toList, none, []⟩,
    ⟨5, .prose, "\"a\"\"b\"".toList, some "\"x,y\"".toList, "\n".toList⟩] }

def nameCalls : List (Nat × Str) := [(2, "name?".toList), (5, "x,y".toList), (2, "nom".toList)]

/-- One column, and no line ending after the last record. -/
def wordCsv : Bytes := asciiBytes "h\nabc"

def wordCsvJob (first second : Option String) : DocumentJob where
  format := .csv
  sourceName := "words.csv".toList
  segments := [
    ⟨0, .prose, "h".toList, first.map String.toList, "\n".toList⟩,
    ⟨1, .prose, "abc".toList, second.map String.toList, []⟩]
  package := none

section Samples

local instance tableReader : JsonReader := noReader
local instance tableStrings : JsonStrings := noStrings
local instance tablePackages : Packages := noPackages

theorem reconstruct_table_sample :
    ∃ table selected,
      parseCsvRecords sampleCsvJob.sourceText (detectCsvDelimiter sampleCsvJob.sourceText) = .ok table ∧
      selectColumns table (detectCsvDelimiter sampleCsvJob.sourceText)
        (ImportOptions.csvColumns none).columns = .ok selected ∧
      LaidOut selected sampleCsvJob table ∧
      ((∃ table', parseCsvRecords "id,nom\r\n1,\"x,y\"\n".toList
            (detectCsvDelimiter sampleCsvJob.sourceText) = .ok table' ∧
          TableKept selected nameCalls (detectCsvDelimiter sampleCsvJob.sourceText) table table') ↔
        ∀ row, ¬ Erased selected nameCalls table row) :=
  have happly : sampleCsvJob.applyTranslations nameCalls = .ok translatedCsvJob := by decide +kernel
  have hout : translatedCsvJob.reconstruct = .ok "id,nom\r\n1,\"x,y\"\n".toList := by decide +kernel
  reconstruct_table sampleCsv_import rfl happly hout

/-- The last word is translated to the empty text: its record is not in the output. -/
theorem reconstruct_table_erased :
    (ImportOptions.csvColumns none).run "words.csv".toList wordCsv = .ok (wordCsvJob none none) ∧
      (wordCsvJob none none).applyTranslations [(0, "h".toList), (1, [])] =
        .ok (wordCsvJob (some "h") (some "")) ∧
      (wordCsvJob (some "h") (some "")).reconstruct = .ok "h\n".toList ∧
      parseCsvRecords "h\nabc".toList ',' = .ok [⟨["h".toList], ['\n']⟩, ⟨["abc".toList], []⟩] ∧
      ¬ ∃ table', parseCsvRecords "h\n".toList ',' = .ok table' ∧
        TableKept [0] [(0, "h".toList), (1, [])] ',' [⟨["h".toList], ['\n']⟩, ⟨["abc".toList], []⟩]
          table' := by
  refine ⟨by decide +kernel, by decide +kernel, by decide +kernel, by decide +kernel, ?_⟩
  rintro ⟨table', htable', hkept⟩
  have hparse : parseCsvRecords "h\n".toList ',' = .ok [⟨["h".toList], ['\n']⟩] := by decide +kernel
  cases hparse.symm.trans htable'
  cases hkept.shape

end Samples

end LinguaMesh
