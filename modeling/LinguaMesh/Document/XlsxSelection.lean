import LinguaMesh.Document.PlainArchive
import LinguaMesh.Document.XlsxCells

/-!
# Ranges of a workbook

A selection names a sheet and a range of cells. `xlsx_selection_context` finds the parts of the
sheets, reads off each the cells and the shared strings they show (`scan_xlsx_cells`), and
keeps the cells of the range and the shared strings that no other cell shows. The segments of
a job are prose where the scan of the texts is in one of them (`is_selected`).

The two scans are not the same: one looks for `<c` and goes on behind `</c>`, the other takes
every tag. `prose_of_selection` says, for any workbook, which segments become prose, and
`selectXlsxRange_iff` what a selection does to a job.
-/

namespace LinguaMesh.Ooxml

open Search Run Except

/-! ## Sheets -/

/-- A cell that `scan_xlsx_cells` comes to, with the shared string that it shows. -/
structure ScannedCell where
  ref : Option Str
  index : Option Nat
  deriving DecidableEq, Repr

def usize : Nat := 2 ^ 64

/-- The shared string that the body of a cell shows. -/
def sharedIndex (body : Str) : Run DocumentError (Option Nat) :=
  match find "<v".toList body with
  | none => .ok none
  | some start => do
    let length ← tagEnd (body.drop start)
    let rest := body.drop (start + length)
    let valueEnd ← ofOption .invalidStructure (find "</v>".toList rest)
    let index ← ofOption .invalidStructure (parseUnsigned usize (trim (rest.take valueEnd)))
    .ok (some index)

/-- What a turn of the loop of `scan_xlsx_cells` takes; where no `<c` is left, the rest. -/
def cellCut (_ : Unit) (tail : Str) : Run DocumentError (Piece Unit (Option ScannedCell)) :=
  match find "<c".toList tail with
  | none => .ok ⟨tail.length, none, ()⟩
  | some start => do
    let length ← tagEnd (tail.drop start)
    let stop := start + length
    let raw := slice tail start stop
    if elementName raw ≠ some "c".toList || isClosing raw then .ok ⟨stop, none, ()⟩
    else if xmlAttribute raw "t".toList = some "s".toList then do
      let rest := tail.drop stop
      let close ← ofOption .invalidStructure (find "</c>".toList rest)
      let index ← sharedIndex (rest.take close)
      .ok ⟨stop + close + 4, some ⟨xmlAttribute raw "r".toList, index⟩, ()⟩
    else .ok ⟨stop, some ⟨xmlAttribute raw "r".toList, none⟩, ()⟩

/-- The result of a scan: the references of the selected cells, and the shared strings that selected
cells and that other cells show. -/
structure XlsxCellScan where
  selectedCells : List Str
  selectedShared : List Nat
  unselectedShared : List Nat

/-- The cells that the loop comes to. -/
def scannedCells [QuickXml] (xml : Str) : Run DocumentError (List ScannedCell) := do
  validateXml xml
  let (_, cells) ← cutAll cellCut (fun _ _ cell => cell.toList) xml ()
  .ok cells

/-- Whether a cell is in the range, on the sheet that was selected. -/
def isSelectedCell (selectedSheet : Bool) (range : XlsxCellRange) (cell : ScannedCell) : Bool :=
  selectedSheet && cell.ref.any (xlsxCellInRange · range)

def scanXlsxCells [QuickXml] (xml : Str) (selectedSheet : Bool) (range : XlsxCellRange) :
    Run DocumentError XlsxCellScan := do
  let cells ← scannedCells xml
  .ok {
    selectedCells := (cells.filter (isSelectedCell selectedSheet range)).filterMap (·.ref)
    selectedShared := (cells.filter (isSelectedCell selectedSheet range)).filterMap (·.index)
    unselectedShared := (cells.filter (!isSelectedCell selectedSheet range ·)).filterMap (·.index) }

/-! ## The parts of a workbook -/

/-- A turn of the loop of `xml_tag_slices`. -/
def tagCut (_ : Unit) (tail : Str) : Run DocumentError (Piece Unit (Option Str)) :=
  match find ['<'] tail with
  | none => .ok ⟨tail.length, none, ()⟩
  | some start => do
    let length ← tagEnd (tail.drop start)
    .ok ⟨start + length, some (slice tail start (start + length)), ()⟩

def xmlTagSlices [QuickXml] (xml : Str) : Run DocumentError (List Str) := do
  validateXml xml
  let (_, tags) ← cutAll tagCut (fun _ _ tag => tag.toList) xml ()
  .ok tags

/-- `strip_prefix("../")`, as often as it can be. -/
def stripParents : Str → Str
  | '.' :: '.' :: '/' :: rest => stripParents rest
  | target => target

def normalizeXlsxPart (target : Str) : Str :=
  let target := stripParents (target.dropWhile (· = '/'))
  if "xl/".toList.isPrefixOf target then target else "xl/".toList ++ target

def relationshipTarget (tag : Str) : Option (Str × Str) :=
  if elementName tag = some "Relationship".toList then do
    let id ← xmlAttribute tag "Id".toList
    let target ← xmlAttribute tag "Target".toList
    some (id, normalizeXlsxPart target)
  else none

/-- The name and the part of a sheet. `targets` has the last target of an identifier in front. -/
def sheetOf (targets : List (Str × Str)) (tag : Str) : Run DocumentError (Str × Str) := do
  let name ← ofOption .invalidStructure (xmlAttribute tag "name".toList)
  let relationshipId := (xmlAttribute tag "r:id".toList).or (xmlAttribute tag "id".toList)
  let part ← ofOption .invalidStructure ((relationshipId.bind fun id => targets.lookup id).or
    ((xmlAttribute tag "sheetId".toList).map fun id =>
      "xl/worksheets/sheet".toList ++ id ++ ".xml".toList))
  .ok (name, part)

structure XlsxSelection where
  sheetName : Str
  cellRange : Str
  deriving DecidableEq, Repr

/-- `XlsxSelection::new`. -/
def XlsxSelection.make (sheetName cellRange : Str) : Run DocumentError XlsxSelection :=
  if sheetName.isEmpty || 128 < utf8Len sheetName || cellRange.isEmpty then fail .invalidXlsxSelection
  else .ok ⟨sheetName, cellRange⟩

section Context

variable [QuickXml] [Zip]

omit [QuickXml] in
def archiveXml (files : List Zip.File) (name : Str) : Run DocumentError Str := do
  let file ← ofOption .invalidXlsxSelection (files.find? (·.name == name))
  let data ← ofOption .invalidXlsxSelection file.data
  ofOption .invalidXlsxSelection (fromUtf8 data)

/-- The names and the parts of the sheets of a workbook. -/
def workbookSheets (files : List Zip.File) : Run DocumentError (List (Str × Str)) := do
  let workbook ← archiveXml files "xl/workbook.xml".toList
  let relationships ← archiveXml files "xl/_rels/workbook.xml.rels".toList
  let tags ← xmlTagSlices relationships
  let targets := (tags.filterMap relationshipTarget).reverse
  let tags ← xmlTagSlices workbook
  (tags.filter (elementName · == some "sheet".toList)).mapM (sheetOf targets)

/-- The maps of the loop over the sheets. -/
structure SheetScans where
  selectedCellsByPart : List (Str × List Str)
  selectedShared : List Nat
  unselectedShared : List Nat

def scanSheet (files : List Zip.File) (sheetName : Str) (range : XlsxCellRange) (s : SheetScans)
    (sheet : Str × Str) : Run DocumentError SheetScans := do
  let xml ← archiveXml files sheet.2
  let scan ← scanXlsxCells xml (sheet.1 == sheetName) range
  .ok ⟨(sheet.2, scan.selectedCells) :: s.selectedCellsByPart, s.selectedShared ++ scan.selectedShared,
    s.unselectedShared ++ scan.unselectedShared⟩

def xlsxSelectionContext (package : Bytes) (selection : XlsxSelection) :
    Run DocumentError XlsxSelectionContext := do
  let range ← ofOption .invalidXlsxSelection (parseXlsxRange selection.cellRange)
  let files ← ofOption .invalidXlsxSelection ((Zip.files package).map (·.filterMap id))
  let sheets ← workbookSheets files
  if !sheets.any (·.1 == selection.sheetName) then fail .invalidXlsxSelection
  else do
    let s ← sheets.foldlM (scanSheet files selection.sheetName range) ⟨[], [], []⟩
    .ok ⟨s.selectedCellsByPart, s.selectedShared.filter (!s.unselectedShared.contains ·)⟩

def inspectXlsxWithSelection (package : Bytes) (selection : XlsxSelection) :
    Run DocumentError (List DocumentSegment) := do
  let context ← xlsxSelectionContext package selection
  inspectKind .xlsx package (some context)

/-- `DocumentJob::select_xlsx_range`. -/
def selectXlsxRange (job : DocumentJob) (sheetName cellRange : Str) : Run DocumentError DocumentJob :=
  if job.format ≠ .xlsx || job.segments.any (·.translatedText.isSome) then fail .invalidXlsxSelection
  else do
    let selection ← XlsxSelection.make sheetName cellRange
    let package ← ofOption .invalidXlsxSelection job.package
    let selected ← inspectXlsxWithSelection package selection
    if selected.map (·.sourceText) ≠ job.segments.map (·.sourceText) then fail .invalidXlsxSelection
    else .ok { job with
      segments := List.zipWith (fun current selected => { current with kind := selected.kind }) job.segments selected }

/-! ## What is selected -/

/-- A sheet, and the cells that the scan finds on it. -/
abbrev ScannedSheet := (Str × Str) × List ScannedCell

omit [QuickXml] [Zip] in
/-- The cell is in the range of the selection. -/
def Chosen (sheetName : Str) (range : XlsxCellRange) (sheet : ScannedSheet) (cell : ScannedCell) : Prop :=
  cell ∈ sheet.2 ∧ sheet.1.1 = sheetName ∧ ∃ ref, cell.ref = some ref ∧ xlsxCellInRange ref range = true

omit [QuickXml] [Zip] in
theorem chosen_iff {sheetName : Str} {range : XlsxCellRange} {sheet : ScannedSheet} {cell : ScannedCell} :
    Chosen sheetName range sheet cell ↔
      cell ∈ sheet.2 ∧ isSelectedCell (sheet.1.1 == sheetName) range cell = true := by
  unfold Chosen isSelectedCell
  simp [Option.any_eq_true]

/-- The scan of a sheet of the archive. -/
def ScanOf (files : List Zip.File) (sheet : Str × Str) (cells : List ScannedCell) : Prop :=
  ∃ xml, archiveXml files sheet.2 = .ok xml ∧ scannedCells xml = .ok cells

/-- What the loop over the sheets adds for one of them. -/
def SheetScans.add (sheetName : Str) (range : XlsxCellRange) (s : SheetScans) (sheet : ScannedSheet) :
    SheetScans :=
  let isSelected := isSelectedCell (sheet.1.1 == sheetName) range
  ⟨(sheet.1.2, (sheet.2.filter isSelected).filterMap (·.ref)) :: s.selectedCellsByPart,
    s.selectedShared ++ (sheet.2.filter isSelected).filterMap (·.index),
    s.unselectedShared ++ (sheet.2.filter (!isSelected ·)).filterMap (·.index)⟩

variable {files : List Zip.File} {sheetName : Str} {range : XlsxCellRange}

theorem scanSheet_iff {s s' : SheetScans} {sheet : Str × Str} :
    scanSheet files sheetName range s sheet = .ok s' ↔
      ∃ cells, ScanOf files sheet cells ∧ s' = s.add sheetName range (sheet, cells) := by
  unfold scanSheet scanXlsxCells ScanOf
  simp only [bind_ok, Except.ok.injEq]
  constructor
  · rintro ⟨xml, hxml, scan, ⟨cells, hcells, rfl⟩, rfl⟩
    exact ⟨cells, ⟨xml, hxml, hcells⟩, rfl⟩
  · rintro ⟨cells, ⟨xml, hxml, hcells⟩, rfl⟩
    exact ⟨xml, hxml, _, ⟨cells, hcells, rfl⟩, rfl⟩

theorem scanSheets_iff {s s' : SheetScans} {sheets : List (Str × Str)} :
    sheets.foldlM (scanSheet files sheetName range) s = .ok s' ↔
      ∃ cellss, List.Forall₂ (ScanOf files) sheets cellss ∧
        s' = (sheets.zip cellss).foldl (SheetScans.add sheetName range) s := by
  induction sheets generalizing s with
  | nil =>
    constructor
    · intro h
      cases h
      exact ⟨[], .nil, rfl⟩
    · rintro ⟨cellss, hcells, rfl⟩
      cases hcells
      rfl
  | cons sheet sheets ih =>
    rw [List.foldlM_cons, bind_ok]
    constructor
    · rintro ⟨s1, hone, h⟩
      obtain ⟨cells, hcells, rfl⟩ := scanSheet_iff.mp hone
      obtain ⟨cellss, hcellss, rfl⟩ := ih.mp h
      exact ⟨cells :: cellss, .cons hcells hcellss, rfl⟩
    · rintro ⟨cellss, hcellss, rfl⟩
      cases hcellss with
      | @cons _ cells _ cellss hcells hcellss =>
        exact ⟨_, scanSheet_iff.mpr ⟨cells, hcells, rfl⟩, ih.mpr ⟨cellss, hcellss, rfl⟩⟩

omit [QuickXml] [Zip] in
theorem mem_selectedShared {sheets : List ScannedSheet} {s : SheetScans} {i : Nat} :
    i ∈ (sheets.foldl (SheetScans.add sheetName range) s).selectedShared ↔ i ∈ s.selectedShared ∨
      ∃ sheet ∈ sheets, ∃ cell, Chosen sheetName range sheet cell ∧ cell.index = some i := by
  induction sheets generalizing s with
  | nil => simp
  | cons sheet sheets ih =>
    rw [List.foldl_cons, ih]
    simp only [SheetScans.add, List.mem_append, List.mem_filterMap, List.mem_filter, List.mem_cons,
      exists_eq_or_imp, chosen_iff, or_assoc]

omit [QuickXml] [Zip] in
theorem mem_unselectedShared {sheets : List ScannedSheet} {s : SheetScans} {i : Nat} :
    i ∈ (sheets.foldl (SheetScans.add sheetName range) s).unselectedShared ↔ i ∈ s.unselectedShared ∨
      ∃ sheet ∈ sheets, ∃ cell ∈ sheet.2, ¬ Chosen sheetName range sheet cell ∧ cell.index = some i := by
  induction sheets generalizing s with
  | nil => simp
  | cons sheet sheets ih =>
    have hnot (cell : ScannedCell) (hcell : cell ∈ sheet.2) : ¬ Chosen sheetName range sheet cell ↔
        (!isSelectedCell (sheet.1.1 == sheetName) range cell) = true := by
      simp [chosen_iff, hcell]
    rw [List.foldl_cons, ih]
    simp only [SheetScans.add, List.mem_append, List.mem_filterMap, List.mem_filter, List.mem_cons,
      exists_eq_or_imp, or_assoc]
    refine or_congr_right (or_congr_left ?_)
    refine exists_congr fun cell => ?_
    constructor
    · rintro ⟨⟨hcell, hsel⟩, hindex⟩
      exact ⟨hcell, (hnot cell hcell).mpr hsel, hindex⟩
    · rintro ⟨hcell, hsel, hindex⟩
      exact ⟨⟨hcell, (hnot cell hcell).mp hsel⟩, hindex⟩

/-- The context of scanned sheets. -/
def contextOf (sheetName : Str) (range : XlsxCellRange) (sheets : List ScannedSheet) : XlsxSelectionContext :=
  let s := sheets.foldl (SheetScans.add sheetName range) ⟨[], [], []⟩
  ⟨s.selectedCellsByPart, s.selectedShared.filter (!s.unselectedShared.contains ·)⟩

/-- The references of the cells of a sheet that are selected. -/
def selectedRefs (sheetName : Str) (range : XlsxCellRange) (sheet : ScannedSheet) : Str × List Str :=
  (sheet.1.2, (sheet.2.filter (isSelectedCell (sheet.1.1 == sheetName) range)).filterMap (·.ref))

omit [QuickXml] [Zip] in
theorem cells_contextOf (sheets : List ScannedSheet) :
    (contextOf sheetName range sheets).selectedCellsByPart = (sheets.map (selectedRefs sheetName range)).reverse := by
  have hfold (s : SheetScans) : (sheets.foldl (SheetScans.add sheetName range) s).selectedCellsByPart =
      (sheets.map (selectedRefs sheetName range)).reverse ++ s.selectedCellsByPart := by
    induction sheets generalizing s with
    | nil => rfl
    | cons sheet sheets ih =>
      rw [List.foldl_cons, ih, List.map_cons, List.reverse_cons, List.append_assoc]
      rfl
  exact (hfold _).trans (List.append_nil _)

/-- The sheets of a workbook as they are scanned for a selection. -/
structure Scanned (files : List Zip.File) (selection : XlsxSelection) (range : XlsxCellRange)
    (sheets : List ScannedSheet) : Prop where
  cells : parseXlsxRange selection.cellRange = some range
  parts : workbookSheets files = .ok (sheets.map (·.1))
  scans : ∀ sheet ∈ sheets, ScanOf files sheet.1 sheet.2
  named : ∃ sheet ∈ sheets, sheet.1.1 = selection.sheetName

theorem xlsxSelectionContext_iff {package : Bytes} {selection : XlsxSelection} {context : XlsxSelectionContext} :
    xlsxSelectionContext package selection = .ok context ↔ ∃ files range sheets,
      (Zip.files package).map (·.filterMap id) = some files ∧ Scanned files selection range sheets ∧
        context = contextOf selection.sheetName range sheets := by
  unfold xlsxSelectionContext
  constructor
  · intro h
    obtain ⟨range, hrange, h⟩ := bind_ok.mp h
    obtain ⟨files, hfiles, h⟩ := bind_ok.mp h
    obtain ⟨sheets, hsheets, h⟩ := bind_ok.mp h
    split at h
    · cases h
    · rename_i hnamed
      obtain ⟨s, hs, h⟩ := bind_ok.mp h
      obtain ⟨cellss, hcells, rfl⟩ := scanSheets_iff.mp hs
      have hfst : (sheets.zip cellss).map (·.1) = sheets := by
        rw [List.map_fst_zip (Nat.le_of_eq hcells.length_eq)]
      refine ⟨files, range, sheets.zip cellss, ofOption_eq_ok.mp hfiles, ⟨ofOption_eq_ok.mp hrange, ?_, ?_, ?_⟩,
        (Except.ok.inj h).symm⟩
      · rw [hfst, hsheets]
      · exact fun sheet hsheet => (List.forall₂_iff_zip.mp hcells).2 hsheet
      · simp only [Bool.not_eq_true', Bool.not_eq_false, List.any_eq_true, beq_iff_eq] at hnamed
        obtain ⟨sheet, hsheet, hname⟩ := hnamed
        rw [← hfst] at hsheet
        obtain ⟨scanned, hscanned, rfl⟩ := List.mem_map.mp hsheet
        exact ⟨scanned, hscanned, hname⟩
  · rintro ⟨files, range, sheets, hfiles, scanned, rfl⟩
    have hnamed : (sheets.map (·.1)).any (·.1 == selection.sheetName) = true := by
      obtain ⟨sheet, hsheet, hname⟩ := scanned.named
      exact List.any_eq_true.mpr ⟨sheet.1, List.mem_map_of_mem hsheet, by simp [hname]⟩
    have hscans : List.Forall₂ (ScanOf files) (sheets.map (·.1)) (sheets.map (·.2)) := by
      rw [List.forall₂_map_left_iff, List.forall₂_map_right_iff]
      exact List.forall₂_same.mpr scanned.scans
    have hzip : (sheets.map (·.1)).zip (sheets.map (·.2)) = sheets := by
      rw [List.zip_map', List.map_id'' fun _ => rfl]
    refine bind_ok.mpr ⟨range, ofOption_eq_ok.mpr scanned.cells, bind_ok.mpr ⟨files, ofOption_eq_ok.mpr hfiles,
      bind_ok.mpr ⟨_, scanned.parts, ?_⟩⟩⟩
    rw [hnamed]
    refine bind_ok.mpr ⟨_, scanSheets_iff.mpr ⟨_, hscans, rfl⟩, ?_⟩
    rw [hzip]
    rfl

omit [QuickXml] [Zip] in
/-- A shared string is selected if a selected cell shows it and no other cell does. -/
theorem mem_sharedIndices {sheets : List ScannedSheet} {i : Nat} :
    i ∈ (contextOf sheetName range sheets).selectedSharedIndices ↔
      (∃ sheet ∈ sheets, ∃ cell, Chosen sheetName range sheet cell ∧ cell.index = some i) ∧
      ∀ sheet ∈ sheets, ∀ cell ∈ sheet.2, cell.index = some i → Chosen sheetName range sheet cell := by
  unfold contextOf
  simp only [List.mem_filter, Bool.not_eq_true', List.contains_eq_mem, decide_eq_false_iff_not,
    mem_selectedShared, mem_unselectedShared, List.not_mem_nil, false_or]
  refine and_congr_right fun _ => ?_
  constructor
  · intro hnone sheet hsheet cell hcell hindex
    by_contra hnot
    exact hnone ⟨sheet, hsheet, cell, hcell, hnot, hindex⟩
  · rintro hall ⟨sheet, hsheet, cell, hcell, hnot, hindex⟩
    exact hnot (hall sheet hsheet cell hcell hindex)

omit [QuickXml] [Zip] in
theorem lookup_mem {l : List (Str × List Str)} {key : Str} {value : List Str} (h : l.lookup key = some value) :
    (key, value) ∈ l := by
  obtain ⟨front, back, rfl, -⟩ := List.lookup_eq_some_iff.mp h
  exact List.mem_append_right _ List.mem_cons_self

omit [QuickXml] [Zip] in
theorem lookup_of_mem {l : List (Str × List Str)} (hnodup : (l.map (·.1)).Nodup) {key : Str} {value : List Str}
    (h : (key, value) ∈ l) : l.lookup key = some value := by
  obtain ⟨front, back, rfl⟩ := List.append_of_mem h
  refine List.lookup_eq_some_iff.mpr ⟨front, back, rfl, fun p hp => ?_⟩
  rw [List.map_append, List.nodup_append] at hnodup
  have hne : p.1 ≠ key := hnodup.2.2 p.1 (List.mem_map_of_mem hp) key (by simp)
  simpa using fun h => hne h.symm

/-- Whether the context has a cell of a part. -/
def XlsxSelectionContext.hasCell (context : XlsxSelectionContext) (part ref : Str) : Bool :=
  (context.selectedCellsByPart.lookup part).any (·.contains ref)

omit [QuickXml] [Zip] in
theorem mem_selectedRefs {sheet : ScannedSheet} {ref : Str} :
    ref ∈ (selectedRefs sheetName range sheet).2 ↔
      ∃ cell, Chosen sheetName range sheet cell ∧ cell.ref = some ref := by
  unfold selectedRefs
  simp only [List.mem_filterMap, List.mem_filter, chosen_iff, and_assoc]

omit [QuickXml] [Zip] in
/-- A cell of the context is on the sheet that was selected, and in the range. -/
theorem chosen_of_hasCell {sheets : List ScannedSheet} {part ref : Str}
    (h : (contextOf sheetName range sheets).hasCell part ref = true) :
    ∃ sheet ∈ sheets, sheet.1.2 = part ∧ ∃ cell, Chosen sheetName range sheet cell ∧ cell.ref = some ref := by
  unfold XlsxSelectionContext.hasCell at h
  rw [cells_contextOf, Option.any_eq_true] at h
  obtain ⟨refs, hlookup, hmem⟩ := h
  obtain ⟨sheet, hsheet, heq⟩ := List.mem_map.mp (List.mem_reverse.mp (lookup_mem hlookup))
  obtain ⟨rfl, rfl⟩ := Prod.mk.inj heq
  exact ⟨sheet, hsheet, rfl, mem_selectedRefs.mp (List.contains_iff_mem.mp hmem)⟩

omit [QuickXml] [Zip] in
/-- Where each sheet has a part of its own, these are the cells of the context. -/
theorem hasCell_iff {sheets : List ScannedSheet} (hparts : (sheets.map (·.1.2)).Nodup) {part ref : Str} :
    (contextOf sheetName range sheets).hasCell part ref = true ↔
      ∃ sheet ∈ sheets, sheet.1.2 = part ∧ ∃ cell, Chosen sheetName range sheet cell ∧ cell.ref = some ref := by
  refine ⟨chosen_of_hasCell, ?_⟩
  rintro ⟨sheet, hsheet, rfl, hcell⟩
  unfold XlsxSelectionContext.hasCell
  have hmem : (sheet.1.2, (selectedRefs sheetName range sheet).2) ∈ (sheets.map (selectedRefs sheetName range)).reverse :=
    List.mem_reverse.mpr (List.mem_map_of_mem (f := selectedRefs sheetName range) hsheet)
  have hnodup : (((sheets.map (selectedRefs sheetName range)).reverse).map (·.1)).Nodup := by
    rw [List.map_reverse, List.map_map, List.nodup_reverse]
    exact hparts
  rw [cells_contextOf, lookup_of_mem hnodup hmem]
  exact List.contains_iff_mem.mpr (mem_selectedRefs.mpr hcell)

/-! ## The segments of a selection -/

/-- Where a segment is read: the part, its text and the span. -/
structure Origin where
  part : Str
  xml : Str
  span : TextSpan

def originsOf (files : List Zip.File) (name : Str) : Run DocumentError (List Origin) := do
  let xml ← partText files name
  let spans ← textSpans .xlsx xml
  .ok (spans.map fun span => ⟨name, xml, span⟩)

/-- The texts of a workbook, in the order of its segments. -/
def origins (package : Bytes) : Run DocumentError (List Origin) := do
  let names ← archiveNames .xlsx package
  let files ← archive package
  let originss ← (names.filter (translatablePart .xlsx)).mapM (originsOf files)
  .ok originss.flatten

/-- The segment is read at the origin. -/
structure ReadAt (context : XlsxSelectionContext) (o : Origin) (s : DocumentSegment) : Prop where
  text : QuickXml.unescape (slice o.xml o.span.contentStart o.span.contentStop) = some s.sourceText
  prose : s.kind = .prose ↔ isSelected .xlsx (some context) o.part o.span = true ∧
    s.sourceText.any (!isWhitespace ·) = true

omit [Zip] in
theorem inspectSpans_readAt {context : XlsxSelectionContext} {name xml : Str} {spans : List TextSpan}
    {before out : List DocumentSegment}
    (h : spans.foldlM (inspectSpan .xlsx (some context) name xml) before = .ok out) :
    ∃ segs, out = before ++ segs ∧ List.Forall₂ (ReadAt context) (spans.map fun span => ⟨name, xml, span⟩) segs := by
  induction spans generalizing before with
  | nil =>
    cases h
    exact ⟨[], (List.append_nil _).symm, .nil⟩
  | cons span spans ih =>
    rw [List.foldlM_cons] at h
    obtain ⟨next, hnext, h⟩ := bind_ok.mp h
    obtain ⟨text, htext, hnext⟩ := bind_ok.mp hnext
    obtain rfl := Except.ok.inj hnext
    obtain ⟨segs, rfl, hsegs⟩ := ih h
    refine ⟨_ :: segs, List.append_assoc _ _ _, .cons ⟨ofOption_eq_ok.mp htext, ?_⟩ hsegs⟩
    dsimp only
    rw [← Bool.and_eq_true]
    split
    · rename_i hselected
      exact iff_of_true rfl hselected
    · rename_i hselected
      exact iff_of_false nofun hselected

theorem inspectParts_readAt {context : XlsxSelectionContext} {names : List Str} {before out : List DocumentSegment}
    (h : names.foldlM (inspectPart .xlsx (some context) files) before = .ok out) :
    ∃ originss segs, names.mapM (originsOf files) = .ok originss ∧ out = before ++ segs ∧
      List.Forall₂ (ReadAt context) originss.flatten segs := by
  induction names generalizing before with
  | nil =>
    cases h
    exact ⟨[], [], rfl, (List.append_nil _).symm, .nil⟩
  | cons name names ih =>
    rw [List.foldlM_cons] at h
    obtain ⟨next, hnext, h⟩ := bind_ok.mp h
    obtain ⟨xml, hxml, hnext⟩ := bind_ok.mp hnext
    obtain ⟨spans, hspans, hnext⟩ := bind_ok.mp hnext
    obtain ⟨segs, rfl, hsegs⟩ := inspectSpans_readAt hnext
    obtain ⟨originss, rest, hrest, rfl, hread⟩ := ih h
    have hone : originsOf files name = .ok (spans.map fun span => ⟨name, xml, span⟩) :=
      bind_ok.mpr ⟨xml, hxml, bind_ok.mpr ⟨spans, hspans, rfl⟩⟩
    refine ⟨spans.map (fun span => ⟨name, xml, span⟩) :: originss, segs ++ rest, ?_, List.append_assoc _ _ _, ?_⟩
    · rw [List.mapM_cons, hone, Except.ok_bind, hrest]
      rfl
    · rw [List.flatten_cons]
      exact List.rel_append hsegs hread

/-- The text at an origin is in the range: a shared string that a chosen cell shows and no other cell
does, or the text of a chosen cell of the part. -/
def InRange (sheetName : Str) (range : XlsxCellRange) (sheets : List ScannedSheet) (o : Origin) : Prop :=
  if o.part = "xl/sharedStrings.xml".toList then
    ∃ i, o.span.xlsxSharedIndex = some i ∧
      (∃ sheet ∈ sheets, ∃ cell, Chosen sheetName range sheet cell ∧ cell.index = some i) ∧
      ∀ sheet ∈ sheets, ∀ cell ∈ sheet.2, cell.index = some i → Chosen sheetName range sheet cell
  else
    ∃ ref, o.span.xlsxCellRef = some ref ∧ ∃ sheet ∈ sheets, sheet.1.2 = o.part ∧
      ∃ cell, Chosen sheetName range sheet cell ∧ cell.ref = some ref

omit [QuickXml] [Zip] in
theorem inRange_of_isSelected {sheets : List ScannedSheet} {o : Origin}
    (h : isSelected .xlsx (some (contextOf sheetName range sheets)) o.part o.span = true) :
    InRange sheetName range sheets o := by
  unfold InRange
  unfold isSelected at h
  dsimp only at h
  split at h
  · rename_i hshared
    rw [if_pos hshared]
    obtain ⟨i, hi, hmem⟩ := Option.any_eq_true _ _ |>.mp h
    exact ⟨i, hi, mem_sharedIndices.mp (List.contains_iff_mem.mp hmem)⟩
  · rename_i hshared
    rw [if_neg hshared]
    obtain ⟨ref, href, hcell⟩ := Option.any_eq_true _ _ |>.mp h
    exact ⟨ref, href, chosen_of_hasCell hcell⟩

omit [QuickXml] [Zip] in
theorem isSelected_of_inRange {sheets : List ScannedSheet} (hparts : (sheets.map (·.1.2)).Nodup) {o : Origin}
    (h : InRange sheetName range sheets o) :
    isSelected .xlsx (some (contextOf sheetName range sheets)) o.part o.span = true := by
  unfold InRange at h
  unfold isSelected
  dsimp only
  split at h
  · rename_i hshared
    rw [if_pos hshared]
    obtain ⟨i, hi, hmem⟩ := h
    exact Option.any_eq_true _ _ |>.mpr ⟨i, hi, List.contains_iff_mem.mpr (mem_sharedIndices.mpr hmem)⟩
  · rename_i hshared
    rw [if_neg hshared]
    obtain ⟨ref, href, hcell⟩ := h
    exact Option.any_eq_true _ _ |>.mpr ⟨ref, href, (hasCell_iff hparts).mpr hcell⟩

/-- The segment is read at the origin, and is prose where the text is in the range and not blank. With a
part for two sheets, the last of them counts, so that the text need not become prose. -/
structure Selects (sheetName : Str) (range : XlsxCellRange) (sheets : List ScannedSheet) (o : Origin)
    (s : DocumentSegment) : Prop where
  text : QuickXml.unescape (slice o.xml o.span.contentStart o.span.contentStop) = some s.sourceText
  sound : s.kind = .prose → InRange sheetName range sheets o ∧ s.sourceText.any (!isWhitespace ·) = true
  complete : (sheets.map (·.1.2)).Nodup → InRange sheetName range sheets o →
    s.sourceText.any (!isWhitespace ·) = true → s.kind = .prose

theorem prose_of_selection {package : Bytes} {selection : XlsxSelection} {segments : List DocumentSegment}
    (h : inspectXlsxWithSelection package selection = .ok segments) :
    ∃ files range sheets os, (Zip.files package).map (·.filterMap id) = some files ∧
      Scanned files selection range sheets ∧ origins package = .ok os ∧
      List.Forall₂ (Selects selection.sheetName range sheets) os segments := by
  unfold inspectXlsxWithSelection at h
  obtain ⟨context, hcontext, h⟩ := bind_ok.mp h
  obtain ⟨files, range, sheets, hfiles, scanned, rfl⟩ := xlsxSelectionContext_iff.mp hcontext
  unfold inspectKind at h
  obtain ⟨names, hnames, h⟩ := bind_ok.mp h
  obtain ⟨files', hfiles', h⟩ := bind_ok.mp h
  obtain ⟨originss, segs, horigins, rfl, hread⟩ := inspectParts_readAt h
  refine ⟨files, range, sheets, originss.flatten, hfiles, scanned, ?_, ?_⟩
  · exact bind_ok.mpr ⟨names, hnames, bind_ok.mpr ⟨files', hfiles', bind_ok.mpr ⟨originss, horigins, rfl⟩⟩⟩
  · refine hread.imp fun o s hs => ⟨hs.text, fun hprose => ?_, fun hparts hin hblank => ?_⟩
    · obtain ⟨hselected, hblank⟩ := hs.prose.mp hprose
      exact ⟨inRange_of_isSelected hselected, hblank⟩
    · exact hs.prose.mpr ⟨isSelected_of_inRange hparts hin, hblank⟩

/-! ## The job -/

/-- The kinds of other segments. -/
def withKinds (segments selected : List DocumentSegment) : List DocumentSegment :=
  List.zipWith (fun current selected => { current with kind := selected.kind }) segments selected

omit [QuickXml] [Zip] in
theorem map_withKinds {α : Type} {f : DocumentSegment → α} (hf : ∀ s kind, f { s with kind := kind } = f s)
    {segments selected : List DocumentSegment} (hlen : segments.length = selected.length) :
    (withKinds segments selected).map f = segments.map f := by
  induction segments generalizing selected with
  | nil => rfl
  | cons s segments ih =>
    cases selected with
    | nil => cases hlen
    | cons t selected =>
      exact congrArg₂ List.cons (hf s t.kind) (ih (Nat.succ.inj hlen))

omit [QuickXml] [Zip] in
theorem withKinds_withKinds {segments first second : List DocumentSegment}
    (hlen : segments.length = first.length) : withKinds (withKinds segments first) second = withKinds segments second := by
  induction segments generalizing first second with
  | nil => rfl
  | cons s segments ih =>
    cases first with
    | nil => cases hlen
    | cons t first =>
      cases second with
      | nil => rfl
      | cons u second => exact congrArg (_ :: ·) (ih (Nat.succ.inj hlen))

omit [Zip] in
theorem selects_withKinds {sheets : List ScannedSheet} {os : List Origin} {segments selected : List DocumentSegment}
    (h : List.Forall₂ (Selects sheetName range sheets) os selected)
    (htexts : selected.map (·.sourceText) = segments.map (·.sourceText)) :
    List.Forall₂ (Selects sheetName range sheets) os (withKinds segments selected) := by
  induction h generalizing segments with
  | nil =>
    obtain rfl := List.map_eq_nil_iff.mp htexts.symm
    exact .nil
  | @cons o t os selected hone _ ih =>
    cases segments with
    | nil => cases htexts
    | cons s segments =>
      obtain ⟨htext, htexts⟩ := List.cons.inj htexts
      refine .cons ?_ (ih htexts)
      have htext : t.sourceText = s.sourceText := htext
      obtain ⟨hread, hsound, hcomplete⟩ := hone
      rw [htext] at hread hsound hcomplete
      exact ⟨hread, hsound, hcomplete⟩

theorem selectXlsxRange_iff {job job' : DocumentJob} {sheetName cellRange : Str} :
    selectXlsxRange job sheetName cellRange = .ok job' ↔
      (job.format = .xlsx ∧ job.segments.any (·.translatedText.isSome) = false) ∧ ∃ selection package selected,
        XlsxSelection.make sheetName cellRange = .ok selection ∧ job.package = some package ∧
        inspectXlsxWithSelection package selection = .ok selected ∧
        selected.map (·.sourceText) = job.segments.map (·.sourceText) ∧
        job' = { job with segments := withKinds job.segments selected } := by
  unfold selectXlsxRange
  split
  · rename_i hrefuse
    refine iff_of_false nofun ?_
    rintro ⟨⟨hformat, hnone⟩, -⟩
    rw [hformat, hnone] at hrefuse
    exact absurd hrefuse (by decide)
  · rename_i hgo
    have hjob : job.format = .xlsx ∧ job.segments.any (·.translatedText.isSome) = false := by
      simpa using hgo
    simp only [bind_ok, ofOption_eq_ok]
    constructor
    · rintro ⟨selection, hmake, package, hpackage, selected, hselected, h⟩
      split at h
      · cases h
      · rename_i htexts
        exact ⟨hjob, selection, package, selected, hmake, hpackage, hselected, not_not.mp htexts,
          (Except.ok.inj h).symm⟩
    · rintro ⟨-, selection, package, selected, hmake, hpackage, hselected, htexts, rfl⟩
      refine ⟨selection, hmake, package, hpackage, selected, hselected, ?_⟩
      rw [if_neg (not_not.mpr htexts)]
      rfl

/-- A selection changes nothing but the kinds of the segments: prose is what it selects, whatever was
selected before. -/
theorem selectXlsxRange_selects (job job' : DocumentJob) (sheetName cellRange : Str)
    (h : selectXlsxRange job sheetName cellRange = .ok job') :
    (∃ kinds, job' = { job with segments := withKinds job.segments kinds } ∧
      kinds.map (·.sourceText) = job.segments.map (·.sourceText)) ∧
    (∃ package files range sheets os, job.package = some package ∧
      (Zip.files package).map (·.filterMap id) = some files ∧ Scanned files ⟨sheetName, cellRange⟩ range sheets ∧
      origins package = .ok os ∧ List.Forall₂ (Selects sheetName range sheets) os job'.segments) ∧
    ∀ other otherRange, selectXlsxRange job' other otherRange = selectXlsxRange job other otherRange := by
  obtain ⟨⟨hformat, hnone⟩, selection, package, selected, hmake, hpackage, hselected, htexts, rfl⟩ :=
    selectXlsxRange_iff.mp h
  have hselection : selection = ⟨sheetName, cellRange⟩ := by
    unfold XlsxSelection.make at hmake
    split at hmake
    · cases hmake
    · exact (Except.ok.inj hmake).symm
  subst hselection
  have hlen : job.segments.length = selected.length := by
    simpa using congrArg List.length htexts.symm
  refine ⟨⟨selected, rfl, htexts⟩, ?_, fun other otherRange => ?_⟩
  · obtain ⟨files, range, sheets, os, hfiles, scanned, hos, hselects⟩ := prose_of_selection hselected
    exact ⟨package, files, range, sheets, os, hpackage, hfiles, scanned, hos, selects_withKinds hselects htexts⟩
  · have htranslated : (withKinds job.segments selected).any (·.translatedText.isSome) =
        job.segments.any (·.translatedText.isSome) := by
      have hmap := map_withKinds (f := fun s => s.translatedText.isSome) (fun _ _ => rfl) hlen
      have hany := congrArg (List.any · id) hmap
      simpa [List.any_map] using hany
    have hsources : (withKinds job.segments selected).map (·.sourceText) = job.segments.map (·.sourceText) :=
      map_withKinds (fun _ _ => rfl) hlen
    unfold selectXlsxRange
    dsimp only
    rw [htranslated, hsources]
    have hagain (again : List DocumentSegment) :
        withKinds (withKinds job.segments selected) again = withKinds job.segments again :=
      withKinds_withKinds hlen
    unfold withKinds at hagain ⊢
    simp only [hagain]

end Context

/-! ## A workbook with two greetings -/

def greetingsParts : List (Str × String) :=
  [("[Content_Types].xml".toList, "<Types/>"),
    ("xl/workbook.xml".toList, "<workbook><sheet name=\"A\" r:id=\"r1\"/></workbook>"),
    ("xl/_rels/workbook.xml.rels".toList,
      "<Relationships><Relationship Id=\"r1\" Target=\"worksheets/sheet1.xml\"/></Relationships>"),
    ("xl/sharedStrings.xml".toList, "<sst><si><t>Hi</t></si><si><t>Yo</t></si></sst>"),
    ("xl/worksheets/sheet1.xml".toList,
      "<sheet><c r=\"A1\" t=\"s\"><v>0</v></c><c r=\"B2\" t=\"s\"><v>1</v></c></sheet>")]

def greetingsPackage : Bytes :=
  PlainArchive.writeFiles (greetingsParts.map fun part => ⟨part.1, false, (), asciiBytes part.2⟩)

def greetingsSegment (index : Nat) (kind : DocumentSegmentKind) (text : String) : DocumentSegment :=
  ⟨index, kind, text.toList, none, []⟩

def greetingsJob (first second : DocumentSegmentKind) : DocumentJob :=
  ⟨.xlsx, "a.xlsx".toList, [greetingsSegment 0 first "Hi", greetingsSegment 1 second "Yo"], some greetingsPackage⟩

theorem selectXlsxRange_greetings :
    letI := PlainXml.plainXml
    letI := PlainArchive.plainZip
    selectXlsxRange (greetingsJob .prose .prose) "A".toList "A1:A9".toList = .ok (greetingsJob .prose .verbatim) ∧
      selectXlsxRange (greetingsJob .prose .verbatim) "A".toList "B1:C2".toList =
        .ok (greetingsJob .verbatim .prose) := by
  let _ : QuickXml := PlainXml.plainXml
  let _ : Zip := PlainArchive.plainZip
  have hfirst : selectXlsxRange (greetingsJob .prose .prose) "A".toList "A1:A9".toList =
      .ok (greetingsJob .prose .verbatim) := by decide +kernel
  refine ⟨hfirst, ?_⟩
  rw [(selectXlsxRange_selects _ _ _ _ hfirst).2.2]
  decide +kernel

end LinguaMesh.Ooxml
