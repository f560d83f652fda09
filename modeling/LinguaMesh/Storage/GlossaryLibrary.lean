import LinguaMesh.Domain.Glossary
import LinguaMesh.Lib.Shelf
import LinguaMesh.Storage.Tables
import Mathlib.Data.Char
import Mathlib.Data.List.Lex

/-!
# Glossary libraries

A library has a row in `glossaries` and a row in `glossary_terms` for each of its terms. Saving one
replaces all its terms, in one transaction; deleting its row deletes the terms that refer to it
(`ON DELETE CASCADE`, with `PRAGMA foreign_keys = ON`). What is read is validated again.

The tables are a shelf with room for 32 glossaries (`glossary_history`), whichever statements fail.
-/

namespace LinguaMesh.Storage

open Transaction Shelves

def maxGlossaries : Nat := 32

/-- A row of `glossaries`. -/
structure GlossaryRow where
  glossaryId : Str
  createdAt : Int
  updatedAt : Int
  deriving DecidableEq, Repr

/-- A row of `glossary_terms`; the other columns are the fields of the entry. -/
structure TermRow where
  glossaryId : Str
  termIndex : Nat
  entry : GlossaryEntry
  deriving DecidableEq, Repr

structure GlossaryTables where
  glossaries : List GlossaryRow
  terms : List TermRow
  deriving DecidableEq, Repr

structure GlossaryRecord where
  id : Str
  glossary : Glossary
  createdAt : Int
  updatedAt : Int
  deriving DecidableEq, Repr

abbrev GlossarySql : Type → Type := Sql TranslationError GlossaryTables

/-- `Glossary::new`. -/
def newGlossary (entries : List GlossaryEntry) : Except GlossaryError Glossary := do
  let glossary : Glossary := ⟨entries⟩
  glossary.validate
  .ok glossary

/-- The bytes of a character that is not ASCII are not allowed either. -/
def validateGlossaryId (glossaryId : Str) : Except TranslationError Unit :=
  Except.refuseIf
    (glossaryId.isEmpty || 128 < utf8Len glossaryId ||
      glossaryId.any fun c => !(c.isAlphanum || c == '-' || c == '_' || c == '.'))
    (.new .invalidConfiguration "The glossary library ID is invalid.")

namespace GlossaryTables

def empty : GlossaryTables := ⟨[], []⟩

/-! ## Statements -/

def findGlossary (t : GlossaryTables) (glossaryId : Str) : Option GlossaryRow :=
  findRow GlossaryRow.glossaryId glossaryId t.glossaries

def touchRow (now : Int) (row : GlossaryRow) : GlossaryRow := { row with updatedAt := now }

/-- `INSERT INTO glossaries .. ON CONFLICT(glossary_id) DO UPDATE SET updated_at`. -/
def touchGlossary (now : Int) (glossaryId : Str) (t : GlossaryTables) : GlossaryTables :=
  ⟨put GlossaryRow.glossaryId glossaryId (touchRow now) ⟨glossaryId, now, now⟩ t.glossaries, t.terms⟩

def deleteTerms (glossaryId : Str) (t : GlossaryTables) : GlossaryTables :=
  { t with terms := t.terms.filter (·.glossaryId != glossaryId) }

/-- `INSERT INTO glossary_terms`, with its primary key and its foreign key. -/
def insertTerm (row : TermRow) (t : GlossaryTables) : Except TranslationError GlossaryTables :=
  if t.terms.any fun old => old.glossaryId == row.glossaryId && old.termIndex == row.termIndex then
    .error (mapError "UNIQUE constraint failed: glossary_terms.glossary_id, glossary_terms.term_index")
  else if (t.findGlossary row.glossaryId).isNone then .error (mapError "FOREIGN KEY constraint failed")
  else .ok { t with terms := t.terms ++ [row] }

/-- `DELETE FROM glossaries`, with the terms that refer to the row, and whether there was one. -/
def deleteGlossaryRow (glossaryId : Str) (t : GlossaryTables) : Bool × GlossaryTables :=
  ((t.findGlossary glossaryId).isSome,
    { glossaries := removeRow GlossaryRow.glossaryId glossaryId t.glossaries
      terms := t.terms.filter (·.glossaryId != glossaryId) })

/-- `SELECT .. FROM glossary_terms .. ORDER BY term_index`. -/
def selectTerms (glossaryId : Str) (t : GlossaryTables) : List GlossaryEntry :=
  ((t.terms.filter (·.glossaryId == glossaryId)).insertionSort fun a b => a.termIndex ≤ b.termIndex).map
    (·.entry)

/-- `SELECT .. FROM glossaries ORDER BY updated_at DESC, glossary_id ASC LIMIT`. -/
def selectGlossaries (t : GlossaryTables) : List GlossaryRow :=
  (sortedRows GlossaryRow.glossaryId GlossaryRow.updatedAt t.glossaries).take maxGlossaries

end GlossaryTables

open GlossaryTables

/-! ## Operations -/

def storedGlossary (entries : List GlossaryEntry) : Except TranslationError Glossary :=
  (newGlossary entries).mapError fun e =>
    .new .persistence ("Stored glossary library is invalid: " ++ e.message)

/-- `load_glossary_record`: the terms of a row that was read. -/
def loadGlossaryRecord (row : GlossaryRow) : GlossarySql GlossaryRecord := do
  let entries ← query (selectTerms row.glossaryId)
  let glossary ← fromExcept (storedGlossary entries)
  pure ⟨row.glossaryId, glossary, row.createdAt, row.updatedAt⟩

def loadGlossaryRecords : List GlossaryRow → GlossarySql (List GlossaryRecord)
  | [] => pure []
  | row :: rows => do
    let record ← loadGlossaryRecord row
    let records ← loadGlossaryRecords rows
    pure (record :: records)

def glossary (glossaryId : Str) : GlossarySql (Option GlossaryRecord) := do
  fromExcept (validateGlossaryId glossaryId)
  match ← query (·.findGlossary glossaryId) with
  | none => pure none
  | some row => some <$> loadGlossaryRecord row

def glossaries : GlossarySql (List GlossaryRecord) := do
  let rows ← query selectGlossaries
  loadGlossaryRecords rows

/-- The terms one after the other, from `termIndex` on. -/
def insertTerms (glossaryId : Str) : Nat → List GlossaryEntry → GlossarySql Unit
  | _, [] => pure ()
  | termIndex, entry :: entries => do
    execute (insertTerm ⟨glossaryId, termIndex, entry⟩)
    insertTerms glossaryId (termIndex + 1) entries

def libraryFull : TranslationError :=
  .new .invalidConfiguration "The local glossary library limit has been reached."

def saveGlossaryRows (glossaryId : Str) (g : Glossary) (now : Int) : GlossarySql Unit := do
  checkRoom (fun t => (t.findGlossary glossaryId).isSome) (·.glossaries.length) maxGlossaries libraryFull
  write (touchGlossary now glossaryId)
  write (deleteTerms glossaryId)
  insertTerms glossaryId 0 g.entries

def checkGlossary (g : Glossary) : Except TranslationError Unit :=
  g.validate.mapError fun e => .new .invalidConfiguration e.message

/-- `now` is the clock reading of the statement that writes the row of the library. -/
def saveGlossary (glossaryId : Str) (g : Glossary) (now : Int) : GlossarySql GlossaryRecord := do
  fromExcept (validateGlossaryId glossaryId)
  fromExcept (checkGlossary g)
  transaction (saveGlossaryRows glossaryId g now)
  match ← glossary glossaryId with
  | some record => pure record
  | none => giveUp (.new .persistence "The saved glossary library could not be reloaded.")

def deleteGlossary (glossaryId : Str) : GlossarySql Bool := do
  fromExcept (validateGlossaryId glossaryId)
  statement fun t => .ok (t.deleteGlossaryRow glossaryId)

/-! ## The design -/

def GlossaryRecord.shelved (record : GlossaryRecord) : Str × Entry Glossary :=
  (record.id, ⟨record.glossary, record.createdAt, record.updatedAt⟩)

def libraryRules : ShelfRules TranslationError Str Glossary where
  checkSave glossaryId g := do
    validateGlossaryId glossaryId
    checkGlossary g
  checkKey := validateGlossaryId
  limit := maxGlossaries
  full := libraryFull

/-- The operation of the storage for one of the shelf. -/
def performGlossaryOp : ShelfOp Str Glossary → GlossarySql (ShelfAnswer Str Glossary)
  | .save glossaryId g now => (fun r => .saved r.shelved) <$> saveGlossary glossaryId g now
  | .remove glossaryId => .removed <$> deleteGlossary glossaryId
  | .find glossaryId => (fun r => .found (r.map GlossaryRecord.shelved)) <$> glossary glossaryId
  | .list => (fun r => .listed (r.map GlossaryRecord.shelved)) <$> glossaries

/-- What a row of `glossaries` loads as. -/
def loadGlossary (t : GlossaryTables) (row : GlossaryRow) : Option (Entry Glossary) :=
  (storedGlossary (t.selectTerms row.glossaryId)).toOption.map (⟨·, row.createdAt, row.updatedAt⟩)

def GlossaryTables.shelf (t : GlossaryTables) : Shelf Str Glossary :=
  Shelves.shelf GlossaryRow.glossaryId (loadGlossary t) t.glossaries

def GlossaryTables.Stocked (t : GlossaryTables) : Prop :=
  Shelves.Stocked GlossaryRow.glossaryId GlossaryRow.updatedAt (loadGlossary t) maxGlossaries t.glossaries

/-! ## Terms -/

variable {t : GlossaryTables} {glossaryId : Str} {g : Glossary} {now : Int}

/-- The rows of some terms, from `termIndex` on. -/
def termRows (glossaryId : Str) : Nat → List GlossaryEntry → List TermRow
  | _, [] => []
  | termIndex, entry :: entries => ⟨glossaryId, termIndex, entry⟩ :: termRows glossaryId (termIndex + 1) entries

theorem mem_termRows {n : Nat} {entries : List GlossaryEntry} {row : TermRow}
    (h : row ∈ termRows glossaryId n entries) : row.glossaryId = glossaryId ∧ n ≤ row.termIndex := by
  induction entries generalizing n with
  | nil => cases h
  | cons entry entries ih =>
    rcases List.mem_cons.mp h with rfl | h
    · exact ⟨rfl, le_refl n⟩
    · obtain ⟨hid, hle⟩ := ih h
      exact ⟨hid, by omega⟩

theorem termRows_entries {n : Nat} {entries : List GlossaryEntry} :
    (termRows glossaryId n entries).map (·.entry) = entries := by
  induction entries generalizing n with
  | nil => rfl
  | cons entry entries ih => rw [termRows, List.map_cons, ih]

theorem termRows_sorted {n : Nat} {entries : List GlossaryEntry} :
    (termRows glossaryId n entries).Pairwise fun a b => a.termIndex ≤ b.termIndex := by
  induction entries generalizing n with
  | nil => exact .nil
  | cons entry entries ih =>
    refine List.pairwise_cons.mpr ⟨fun row hrow => ?_, ih⟩
    have := (mem_termRows hrow).2
    dsimp only
    omega

/-- The rows of a library are inserted when no row of it has a later index. -/
theorem run_insertTerms {n : Nat} {entries : List GlossaryEntry}
    (hknown : (t.findGlossary glossaryId).isSome = true)
    (hfree : ∀ row ∈ t.terms, row.glossaryId = glossaryId → row.termIndex < n) :
    insertTerms glossaryId n entries t [] =
      (.ok (), { t with terms := t.terms ++ termRows glossaryId n entries }, []) := by
  induction entries generalizing n t with
  | nil =>
    rw [termRows, List.append_nil]
    rfl
  | cons entry entries ih =>
    have hunique : ¬ (t.terms.any fun old => old.glossaryId == glossaryId && old.termIndex == n) = true := by
      intro hany
      obtain ⟨row, hrow, he⟩ := List.any_eq_true.mp hany
      simp only [Bool.and_eq_true, beq_iff_eq] at he
      have := hfree row hrow he.1
      omega
    have hinsert : insertTerm ⟨glossaryId, n, entry⟩ t =
        .ok { t with terms := t.terms ++ [⟨glossaryId, n, entry⟩] } := by
      unfold insertTerm
      rw [if_neg hunique, if_neg]
      cases hfound : t.findGlossary glossaryId with
      | none => rw [hfound] at hknown; cases hknown
      | some row => exact Bool.false_ne_true
    have hstep : execute (insertTerm ⟨glossaryId, n, entry⟩) t [] =
        (.ok (), { t with terms := t.terms ++ [⟨glossaryId, n, entry⟩] }, []) := by
      rw [run_execute, hinsert]
    rw [insertTerms, run_bind_ok hstep]
    refine (ih (t := { t with terms := t.terms ++ [⟨glossaryId, n, entry⟩] }) hknown ?_).trans ?_
    · intro row hrow hid
      rcases List.mem_append.mp hrow with hrow | hrow
      · have := hfree row hrow hid
        omega
      · rw [List.mem_singleton.mp hrow]
        exact Nat.lt_succ_self n
    · rw [termRows, List.append_assoc]
      rfl

/-- Deleting the terms of a library leaves those of the others. -/
theorem filter_other {other : Str} (hne : other ≠ glossaryId) :
    (t.terms.filter (·.glossaryId != glossaryId)).filter (·.glossaryId == other) =
      t.terms.filter (·.glossaryId == other) := by
  rw [List.filter_filter]
  refine List.filter_congr fun row _ => ?_
  cases heq : row.glossaryId == other with
  | false => rfl
  | true =>
    rw [beq_iff_eq.mp heq, Bool.true_and, bne_iff_ne]
    exact hne

/-! ## Saving -/

/-- The tables after a library was saved. -/
def saved (glossaryId : Str) (g : Glossary) (now : Int) (t : GlossaryTables) : GlossaryTables :=
  let t := (t.touchGlossary now glossaryId).deleteTerms glossaryId
  { t with terms := t.terms ++ termRows glossaryId 0 g.entries }

theorem findGlossary_touch : (t.touchGlossary now glossaryId).findGlossary glossaryId =
    some (putRow GlossaryRow.glossaryId glossaryId (touchRow now) ⟨glossaryId, now, now⟩ t.glossaries) :=
  findRow_put (fun _ h => h) rfl

theorem run_saveGlossaryRows
    (hroom : (t.findGlossary glossaryId).isSome = true ∨ t.glossaries.length < maxGlossaries) :
    saveGlossaryRows glossaryId g now t [] = (.ok (), saved glossaryId g now t, []) := by
  have hknown : ((t.touchGlossary now glossaryId).findGlossary glossaryId).isSome = true := by
    rw [findGlossary_touch]
    rfl
  have hfree : ∀ row ∈ ((t.touchGlossary now glossaryId).deleteTerms glossaryId).terms,
      row.glossaryId = glossaryId → row.termIndex < 0 := by
    intro row hrow hid
    have hne : (row.glossaryId != glossaryId) = true := (List.mem_filter.mp hrow).2
    rw [hid, bne_self_eq_false] at hne
    cases hne
  unfold saveGlossaryRows
  rw [run_bind_ok (run_checkRoom_ok hroom), run_bind_ok (run_write ..), run_bind_ok (run_write ..)]
  exact run_insertTerms hknown hfree

theorem selectTerms_saved : (saved glossaryId g now t).selectTerms glossaryId = g.entries := by
  unfold selectTerms
  have hnew : (termRows glossaryId 0 g.entries).filter (·.glossaryId == glossaryId) =
      termRows glossaryId 0 g.entries :=
    List.filter_eq_self.mpr fun row hrow => beq_iff_eq.mpr (mem_termRows hrow).1
  have hold : ((t.touchGlossary now glossaryId).deleteTerms glossaryId).terms.filter
      (·.glossaryId == glossaryId) = [] := by
    refine List.filter_eq_nil_iff.mpr fun row hrow heq => ?_
    have hne : (row.glossaryId != glossaryId) = true := (List.mem_filter.mp hrow).2
    rw [bne, heq] at hne
    cases hne
  have hrows : (saved glossaryId g now t).terms.filter (·.glossaryId == glossaryId) =
      termRows glossaryId 0 g.entries := by
    rw [saved, List.filter_append, hold, hnew, List.nil_append]
  rw [hrows, termRows_sorted.insertionSort_eq, termRows_entries]

/-- The terms of the other libraries are as they were. -/
theorem selectTerms_saved_ne {other : Str} (hne : other ≠ glossaryId) :
    (saved glossaryId g now t).selectTerms other = t.selectTerms other := by
  have hnew : (termRows glossaryId 0 g.entries).filter (·.glossaryId == other) = [] := by
    refine List.filter_eq_nil_iff.mpr fun row hrow heq => hne ?_
    rw [← beq_iff_eq.mp heq, (mem_termRows hrow).1]
  have hrows : (saved glossaryId g now t).terms.filter (·.glossaryId == other) =
      t.terms.filter (·.glossaryId == other) := by
    rw [saved, List.filter_append, hnew, List.append_nil]
    exact filter_other hne
  unfold selectTerms
  rw [hrows]

theorem checkGlossary_ok : checkGlossary g = .ok () ↔ g.validate = .ok () := by
  unfold checkGlossary
  cases g.validate with
  | ok => exact ⟨fun _ => rfl, fun _ => rfl⟩
  | error e => exact ⟨nofun, nofun⟩

theorem storedGlossary_entries (h : g.validate = .ok ()) : storedGlossary g.entries = .ok g := by
  unfold storedGlossary newGlossary
  dsimp only
  rw [h]
  rfl

theorem loadGlossary_iff {row : GlossaryRow} {entry : Entry Glossary} :
    loadGlossary t row = some entry ↔ storedGlossary (t.selectTerms row.glossaryId) = .ok entry.value ∧
      entry.createdAt = row.createdAt ∧ entry.updatedAt = row.updatedAt := by
  obtain ⟨value, createdAt, updatedAt⟩ := entry
  unfold loadGlossary
  cases storedGlossary (t.selectTerms row.glossaryId) with
  | ok g =>
    simp only [Except.toOption, Option.map_some, Option.some.injEq, Entry.mk.injEq, Except.ok.injEq]
    exact and_congr_right fun _ => and_congr eq_comm eq_comm
  | error e => exact ⟨nofun, nofun⟩

/-- The entry that saving leaves has the time of the row that was there. -/
theorem entryAfter_saved (h : t.Stocked) : t.shelf.entryAfter glossaryId g now =
    ⟨g, (putRow GlossaryRow.glossaryId glossaryId (touchRow now) ⟨glossaryId, now, now⟩ t.glossaries).createdAt,
      now⟩ := by
  unfold Shelf.entryAfter GlossaryTables.shelf Shelves.shelf putRow
  cases hfound : findRow GlossaryRow.glossaryId glossaryId t.glossaries with
  | none => rfl
  | some row =>
    obtain ⟨entry, hentry, -⟩ := h.loads row (findRow_mem hfound)
    rw [Option.bind_some, hentry, Option.map_some, (loadGlossary_iff.mp hentry).2.1]
    rfl

theorem stocked_saved (h : t.Stocked) (hvalid : g.validate = .ok ())
    (hroom : (t.findGlossary glossaryId).isSome = true ∨ t.glossaries.length < maxGlossaries) :
    (saved glossaryId g now t).Stocked ∧
      (saved glossaryId g now t).shelf = t.shelf.save glossaryId g now := by
  have hrow : (putRow GlossaryRow.glossaryId glossaryId (touchRow now) ⟨glossaryId, now, now⟩
      t.glossaries).glossaryId = glossaryId := findRow_key (findGlossary_touch (t := t))
  have hdate : (putRow GlossaryRow.glossaryId glossaryId (touchRow now) ⟨glossaryId, now, now⟩
      t.glossaries).updatedAt = now := by
    unfold putRow
    cases findRow GlossaryRow.glossaryId glossaryId t.glossaries <;> rfl
  have hnew : GlossaryRow.glossaryId ⟨glossaryId, now, now⟩ = glossaryId := rfl
  have htouch : ∀ row, row.glossaryId = glossaryId → (touchRow now row).glossaryId = glossaryId := fun _ h => h
  refine Stocked.put h htouch hnew hroom (fun row _ hne => ?_) ?_ hdate.symm
  · unfold loadGlossary
    rw [selectTerms_saved_ne hne]
  · refine loadGlossary_iff.mpr ?_
    rw [hrow, selectTerms_saved, storedGlossary_entries hvalid, hdate, entryAfter_saved h]
    exact ⟨rfl, rfl, rfl⟩

/-! ## Reading -/

theorem run_loadGlossaryRecord {row : GlossaryRow} {entry : Entry Glossary}
    (h : loadGlossary t row = some entry) : ∃ record,
    loadGlossaryRecord row t [] = (.ok record, t, []) ∧ record.shelved = (row.glossaryId, entry) := by
  obtain ⟨hvalue, hcreated, hupdated⟩ := loadGlossary_iff.mp h
  refine ⟨⟨row.glossaryId, entry.value, row.createdAt, row.updatedAt⟩, ?_, ?_⟩
  · unfold loadGlossaryRecord
    rw [run_bind_ok (run_query ..), hvalue]
    rfl
  · rw [← hcreated, ← hupdated]
    rfl

theorem run_loadGlossaryRecords {rows : List GlossaryRow}
    (h : ∀ row ∈ rows, ∃ entry, loadGlossary t row = some entry) : ∃ records,
    loadGlossaryRecords rows t [] = (.ok records, t, []) ∧ records.map GlossaryRecord.shelved =
      rows.filterMap (shelved GlossaryRow.glossaryId (loadGlossary t)) := by
  induction rows with
  | nil => exact ⟨[], rfl, rfl⟩
  | cons row rows ih =>
    obtain ⟨⟨entry, hentry⟩, hrows⟩ := List.forall_mem_cons.mp h
    obtain ⟨record, hrecord, hshelved⟩ := run_loadGlossaryRecord hentry
    obtain ⟨records, hrecords, hall⟩ := ih hrows
    refine ⟨record :: records, ?_, ?_⟩
    · rw [loadGlossaryRecords, run_bind_ok hrecord, run_bind_ok hrecords]
      rfl
    · have hself : shelved GlossaryRow.glossaryId (loadGlossary t) row = some (row.glossaryId, entry) :=
        shelved_iff.mpr ⟨hentry, rfl⟩
      rw [List.map_cons, hshelved, hall, List.filterMap_cons_some hself]

theorem run_glossary (h : t.Stocked) (hid : validateGlossaryId glossaryId = .ok ()) : ∃ found,
    glossary glossaryId t [] = (.ok found, t, []) ∧
      found.map GlossaryRecord.shelved = (t.shelf glossaryId).map (glossaryId, ·) := by
  have hshelf : t.shelf glossaryId = (t.findGlossary glossaryId).bind (loadGlossary t) := rfl
  unfold glossary
  rw [hid]
  cases hfound : t.findGlossary glossaryId with
  | none =>
    refine ⟨none, ?_, ?_⟩
    · rw [run_bind_ok rfl, run_bind_ok (run_query ..), hfound]
      rfl
    · rw [hshelf, hfound]
      rfl
  | some row =>
    obtain ⟨entry, hentry, -⟩ := h.loads row (findRow_mem hfound)
    obtain ⟨record, hrecord, hshelved⟩ := run_loadGlossaryRecord hentry
    refine ⟨some record, ?_, ?_⟩
    · rw [run_bind_ok rfl, run_bind_ok (run_query ..), hfound]
      change (some <$> loadGlossaryRecord row) t [] = _
      rw [run_map, hrecord]
      rfl
    · have hkey : row.glossaryId = glossaryId := findRow_key hfound
      rw [hshelf, hfound, Option.bind_some, hentry, Option.map_some, Option.map_some, hshelved, hkey]

theorem run_glossaries (h : t.Stocked) : ∃ records,
    glossaries t [] = (.ok records, t, []) ∧ Lists t.shelf (records.map GlossaryRecord.shelved) ∧
      records.length ≤ maxGlossaries := by
  have hall : t.selectGlossaries = sortedRows GlossaryRow.glossaryId GlossaryRow.updatedAt t.glossaries := by
    refine List.take_of_length_le ?_
    rw [sortedRows_perm.length_eq]
    exact h.bounded
  have hloads : ∀ row ∈ t.selectGlossaries, ∃ entry, loadGlossary t row = some entry := by
    intro row hrow
    rw [hall] at hrow
    obtain ⟨entry, hentry, -⟩ := h.loads row (sortedRows_perm.mem_iff.mp hrow)
    exact ⟨entry, hentry⟩
  obtain ⟨records, hrecords, hshelved⟩ := run_loadGlossaryRecords hloads
  have hlisting : records.map GlossaryRecord.shelved =
      listing GlossaryRow.glossaryId GlossaryRow.updatedAt (loadGlossary t) t.glossaries := by
    rw [hshelved, hall]
    rfl
  refine ⟨records, ?_, hlisting ▸ h.lists, ?_⟩
  · unfold glossaries
    rw [run_bind_ok (run_query ..)]
    exact hrecords
  · rw [← List.length_map GlossaryRecord.shelved, hlisting, h.length_listing]
    exact h.bounded

/-! ## Programs -/

theorem readOnly_map {β γ : Type} {m : GlossarySql β} (f : β → γ) (h : ReadOnly m) : ReadOnly (f <$> m) :=
  readOnly_bind h fun b => readOnly_pure (f b)

theorem readOnly_loadGlossaryRecord (row : GlossaryRow) : ReadOnly (loadGlossaryRecord row) :=
  readOnly_bind (readOnly_query _) fun _ => readOnly_bind (readOnly_fromExcept _) fun _ => readOnly_pure _

theorem readOnly_loadGlossaryRecords (rows : List GlossaryRow) : ReadOnly (loadGlossaryRecords rows) := by
  induction rows with
  | nil => exact readOnly_pure _
  | cons row rows ih =>
    exact readOnly_bind (readOnly_loadGlossaryRecord row) fun _ => readOnly_bind ih fun _ => readOnly_pure _

theorem readOnly_glossary (glossaryId : Str) : ReadOnly (glossary glossaryId) := by
  refine readOnly_bind (readOnly_fromExcept _) fun _ => readOnly_bind (readOnly_query _) fun found => ?_
  cases found with
  | none => exact readOnly_pure _
  | some row => exact readOnly_map some (readOnly_loadGlossaryRecord row)

theorem readOnly_glossaries : ReadOnly glossaries :=
  readOnly_bind (readOnly_query _) readOnly_loadGlossaryRecords

theorem steady_insertTerms {n : Nat} {entries : List GlossaryEntry} :
    Steady (insertTerms glossaryId n entries) t := by
  induction entries generalizing n t with
  | nil => exact steady_pure ()
  | cons entry entries ih => exact steady_bind (steady_execute _) fun _ _ _ => ih

theorem steady_saveGlossaryRows : Steady (saveGlossaryRows glossaryId g now) t := by
  refine steady_bind (readOnly_checkRoom t).1 fun _ _ _ => ?_
  refine steady_bind (steady_write _) fun _ _ _ => steady_bind (steady_write _) fun _ _ _ => ?_
  exact steady_insertTerms

theorem whole_saveGlossary : Whole (saveGlossary glossaryId g now) t := by
  refine whole_after_reading (readOnly_fromExcept _) fun _ => ?_
  refine whole_after_reading (readOnly_fromExcept _) fun _ => ?_
  refine whole_before_reading (whole_transaction steady_saveGlossaryRows)
    (steady_transaction steady_saveGlossaryRows) fun _ => readOnly_bind (readOnly_glossary _) fun found => ?_
  cases found with
  | none => exact readOnly_giveUp _
  | some record => exact readOnly_pure record

/-- Every operation of the library is all or nothing. -/
theorem whole_performGlossaryOp (op : ShelfOp Str Glossary) : Whole (performGlossaryOp op) t := by
  cases op with
  | save glossaryId g now => exact whole_map _ whole_saveGlossary
  | remove glossaryId =>
    exact whole_map _ (whole_after_reading (readOnly_fromExcept _) fun _ => whole_statement _)
  | find glossaryId => exact whole_of_readOnly (readOnly_map _ (readOnly_glossary glossaryId))
  | list => exact whole_of_readOnly (readOnly_map _ readOnly_glossaries)

/-! ## Calls without a fault -/

theorem run_saveGlossary (h : t.Stocked) (hid : validateGlossaryId glossaryId = .ok ())
    (hvalid : checkGlossary g = .ok ())
    (hroom : (t.findGlossary glossaryId).isSome = true ∨ t.glossaries.length < maxGlossaries) :
    ∃ record, saveGlossary glossaryId g now t [] = (.ok record, saved glossaryId g now t, []) ∧
      record.shelved = (glossaryId, t.shelf.entryAfter glossaryId g now) := by
  obtain ⟨hstocked, hshelf⟩ := stocked_saved h (checkGlossary_ok.mp hvalid) hroom
  obtain ⟨found, hfound, hshelved⟩ := run_glossary hstocked hid
  have hentry : (saved glossaryId g now t).shelf glossaryId =
      some (t.shelf.entryAfter glossaryId g now) := by
    rw [hshelf, Shelf.save_self]
  rw [hentry, Option.map_some] at hshelved
  obtain ⟨record, rfl, hrecord⟩ := Option.map_eq_some_iff.mp hshelved
  refine ⟨record, ?_, hrecord⟩
  have hbody : saveGlossaryRows glossaryId g now t [] = (.ok (), saved glossaryId g now t, []) :=
    run_saveGlossaryRows hroom
  have hcommit := run_transaction hbody
  unfold saveGlossary
  rw [hid, hvalid, run_bind_ok rfl, run_bind_ok rfl, run_bind_ok hcommit, run_bind_ok hfound]
  rfl

theorem agrees_save (h : t.Stocked) : Agrees (shelfDesign libraryRules) GlossaryTables.shelf
    GlossaryTables.Stocked (.save glossaryId g now) t (performGlossaryOp (.save glossaryId g now) t []) := by
  unfold performGlossaryOp
  cases hid : validateGlossaryId glossaryId with
  | error e =>
    have hrun : saveGlossary glossaryId g now t [] = (.error e, t, []) := by
      unfold saveGlossary
      rw [hid]
      rfl
    dsimp only
    rw [run_map, hrun]
    refine ⟨.save ?_, rfl⟩
    change (validateGlossaryId glossaryId >>= fun _ => checkGlossary g) = .error e
    rw [hid]
    rfl
  | ok =>
    cases hvalid : checkGlossary g with
    | error e =>
      have hrun : saveGlossary glossaryId g now t [] = (.error e, t, []) := by
        unfold saveGlossary
        rw [hid, run_bind_ok rfl, hvalid]
        rfl
      dsimp only
      rw [run_map, hrun]
      refine ⟨.save ?_, rfl⟩
      change (validateGlossaryId glossaryId >>= fun _ => checkGlossary g) = .error e
      rw [hid]
      exact hvalid
    | ok =>
      have hcheck : libraryRules.checkSave glossaryId g = .ok () := by
        change (validateGlossaryId glossaryId >>= fun _ => checkGlossary g) = .ok ()
        rw [hid]
        exact hvalid
      by_cases hroom : (t.findGlossary glossaryId).isSome = true ∨ t.glossaries.length < maxGlossaries
      · obtain ⟨record, hrun, hrecord⟩ := run_saveGlossary h hid hvalid hroom
        obtain ⟨hstocked, hshelf⟩ := stocked_saved h (checkGlossary_ok.mp hvalid) hroom
        dsimp only
        rw [run_map, hrun]
        refine ⟨?_, hshelf, hstocked⟩
        change ShelfAnswers libraryRules t.shelf (.save glossaryId g now) (.saved record.shelved)
        rw [hrecord]
        exact .saved hcheck (h.hasRoom.mpr hroom)
      · have hbody : saveGlossaryRows glossaryId g now t [] = (.error libraryFull, t, []) := by
          unfold saveGlossaryRows
          rw [run_bind_error (run_checkRoom_full hroom)]
        have hrun : saveGlossary glossaryId g now t [] = (.error libraryFull, t, []) := by
          unfold saveGlossary
          rw [hid, hvalid, run_bind_ok rfl, run_bind_ok rfl, run_bind_error (run_transaction hbody)]
        dsimp only
        rw [run_map, hrun]
        exact ⟨.full hcheck fun hhas => hroom (h.hasRoom.mp hhas), rfl⟩

/-- The terms of a deleted library go with it. -/
theorem stocked_deleted (h : t.Stocked) (glossaryId : Str) : (t.deleteGlossaryRow glossaryId).2.Stocked ∧
    (t.deleteGlossaryRow glossaryId).2.shelf = t.shelf.remove glossaryId := by
  refine Stocked.remove h fun row _ hne => ?_
  unfold loadGlossary selectTerms deleteGlossaryRow
  rw [filter_other hne]

theorem agrees_remove (h : t.Stocked) : Agrees (shelfDesign libraryRules) GlossaryTables.shelf
    GlossaryTables.Stocked (.remove glossaryId) t (performGlossaryOp (.remove glossaryId) t []) := by
  unfold performGlossaryOp
  dsimp only
  rw [run_map]
  unfold deleteGlossary
  cases hid : validateGlossaryId glossaryId with
  | error e => exact ⟨.remove hid, rfl⟩
  | ok =>
    rw [run_bind_ok rfl, statement_ok rfl rfl]
    obtain ⟨hstocked, hshelf⟩ := stocked_deleted h glossaryId
    refine ⟨?_, hshelf, hstocked⟩
    have hanswer : ShelfAnswers libraryRules t.shelf (.remove glossaryId)
        (.removed (t.shelf glossaryId).isSome) := .removed hid
    have hknown : (t.shelf glossaryId).isSome = (t.findGlossary glossaryId).isSome := h.isSome glossaryId
    exact hknown ▸ hanswer

theorem agrees_find (h : t.Stocked) : Agrees (shelfDesign libraryRules) GlossaryTables.shelf
    GlossaryTables.Stocked (.find glossaryId) t (performGlossaryOp (.find glossaryId) t []) := by
  unfold performGlossaryOp
  dsimp only
  rw [run_map]
  cases hid : validateGlossaryId glossaryId with
  | error e =>
    have hrun : glossary glossaryId t [] = (.error e, t, []) := by
      unfold glossary
      rw [hid]
      rfl
    rw [hrun]
    exact ⟨.find hid, rfl⟩
  | ok =>
    obtain ⟨found, hrun, hshelved⟩ := run_glossary h hid
    rw [hrun]
    refine ⟨?_, rfl, h⟩
    change ShelfAnswers libraryRules t.shelf (.find glossaryId) (.found (found.map GlossaryRecord.shelved))
    rw [hshelved]
    exact .found hid

theorem agrees_list (h : t.Stocked) : Agrees (shelfDesign libraryRules) GlossaryTables.shelf
    GlossaryTables.Stocked .list t (performGlossaryOp .list t []) := by
  obtain ⟨records, hrun, hlists, hbounded⟩ := run_glossaries h
  unfold performGlossaryOp
  dsimp only
  rw [run_map, hrun]
  exact ⟨.listed hlists (by rwa [List.length_map]), rfl, h⟩

/-- Any calls on the library, with any of their statements failing, return what a shelf with room for 32
glossaries returns: what was saved last under an identifier is found there, as it was saved, until it is
deleted; the list has everything; a call that fails has had its whole effect or none. -/
theorem glossary_history (ops : List (ShelfOp Str Glossary × List (Option TranslationError))) :
    ∃ s, Explained (shelfDesign libraryRules) Shelf.empty (perform performGlossaryOp .empty ops).1 s := by
  have hempty : GlossaryTables.empty.Stocked := stocked_nil
  have hquiet (op : ShelfOp Str Glossary) (t : GlossaryTables) (ht : t.Stocked) :
      Agrees (shelfDesign libraryRules) GlossaryTables.shelf GlossaryTables.Stocked op t
        (performGlossaryOp op t []) := by
    cases op with
    | save glossaryId g now => exact agrees_save ht
    | remove glossaryId => exact agrees_remove ht
    | find glossaryId => exact agrees_find ht
    | list => exact agrees_list ht
  exact ⟨_, (explained_of_quiet hempty (fun op _ _ => whole_performGlossaryOp op) hquiet ops).2⟩

end LinguaMesh.Storage
