import LinguaMesh.Lib.Numeration
import LinguaMesh.Document.Package

/-!
# Cell references

`parse_xlsx_cell_ref` reads a reference such as `$B$12`: the letters of a column, which
count in base 26 without a zero, and the digits of a row. A column has one name
(`columnName`), and a text refers to a cell if it is that name, in any case, and digits
for the row, but for `$` marks and blanks around it (`parseXlsxCellRef_iff`).
-/

namespace LinguaMesh.Ooxml

open Search Run Numeration

def u32 : Nat := 2 ^ 32

/-- A number may have a sign. -/
def unsigned : Str → Str
  | '+' :: digits => digits
  | digits => digits

/-- `str::parse` of an unsigned number below `limit`. -/
def parseUnsigned (limit : Nat) (s : Str) : Option Nat :=
  let digits := unsigned s
  if digits.isEmpty || !digits.all Char.isDigit then none
  else (some (Nat.ofDigitChars 10 digits 0)).filter (· < limit)

/-- `checked_mul` and `checked_add` stay below this. -/
def checked (n : Nat) : Option Nat := (some n).filter (· < u32)

/-- A turn over the letters of a column. -/
def columnLetter (n : Nat) (c : Char) : Option Nat :=
  if !c.isAlpha then none
  else do
    let n ← checked (n * 26)
    checked (n + (c.toUpper.toNat - 'A'.toNat + 1))

def maxColumn : Nat := 16384
def maxRow : Nat := 1048576

def parseXlsxCellRef (value : Str) : Option (Nat × Nat) := do
  let value := (trim value).filter (· ≠ '$')
  let split ← (value.findIdx? Char.isDigit).filter (0 < ·)
  let columnNumber ← (value.take split).foldlM columnLetter 0
  let rowNumber ← parseUnsigned u32 (value.drop split)
  if 0 < columnNumber && columnNumber ≤ maxColumn && 0 < rowNumber && rowNumber ≤ maxRow then
    some (columnNumber, rowNumber)
  else none

structure XlsxCellRange where
  startColumn : Nat
  startRow : Nat
  endColumn : Nat
  endRow : Nat
  deriving DecidableEq, Repr

def parseXlsxRange (value : Str) : Option XlsxCellRange :=
  match value.splitOn ':' with
  | [start] => (parseXlsxCellRef start).map fun s => ⟨s.1, s.2, s.1, s.2⟩
  | [start, stop] => do
    let s ← parseXlsxCellRef start
    let e ← parseXlsxCellRef stop
    if e.1 < s.1 || e.2 < s.2 then none else some ⟨s.1, s.2, e.1, e.2⟩
  | _ => none

def xlsxCellInRange (cell : Str) (range : XlsxCellRange) : Bool :=
  (parseXlsxCellRef cell).any fun (column, row) =>
    (range.startColumn ≤ column && column ≤ range.endColumn) && (range.startRow ≤ row && row ≤ range.endRow)

/-! ## Columns -/

/-- The digit that a letter stands for. -/
def letterDigit (c : Char) : Nat := c.toUpper.toNat - 'A'.toNat

def digitLetter (d : Nat) : Char := Char.ofNat ('A'.toNat + d)

def columnName (column : Nat) : Str := (digits 26 column).map digitLetter

theorem toNat_alpha {c : Char} (h : c.isAlpha = true) : c.toNat < 128 := by
  delta Char.isAlpha Char.isUpper Char.isLower at h
  simp only [Bool.or_eq_true, Bool.and_eq_true, decide_eq_true_eq, ge_iff_le, UInt32.le_iff_toNat_le] at h
  have hz : ('Z'.val).toNat = 90 ∧ ('z'.val).toNat = 122 := ⟨rfl, rfl⟩
  show c.val.toNat < 128
  omega

theorem letter_codes : ∀ n < 128, (Char.ofNat n).isAlpha = true →
    letterDigit (Char.ofNat n) < 26 ∧ digitLetter (letterDigit (Char.ofNat n)) = (Char.ofNat n).toUpper := by
  decide +kernel

/-- A letter, in upper case, is that of its digit. -/
theorem letterDigit_alpha {c : Char} (h : c.isAlpha = true) :
    letterDigit c < 26 ∧ digitLetter (letterDigit c) = c.toUpper := by
  have hletter := letter_codes c.toNat (toNat_alpha h)
  rw [Char.ofNat_toNat] at hletter
  exact hletter h

theorem digit_letters : ∀ d < 26, (digitLetter d).isAlpha = true ∧ letterDigit (digitLetter d) = d := by
  decide +kernel

theorem columnLetter_iff {n m : Nat} {c : Char} (hm : m < u32) :
    columnLetter n c = some m ↔ c.isAlpha = true ∧ shift 26 n (letterDigit c) = m := by
  unfold columnLetter checked
  cases hc : c.isAlpha with
  | false => simp
  | true =>
    simp only [Bool.not_true, Bool.false_eq_true, if_false, Option.bind_eq_bind, Option.bind_eq_some_iff,
      Option.filter_eq_some_iff, Option.some.injEq, decide_eq_true_eq, true_and]
    constructor
    · rintro ⟨n', ⟨rfl, -⟩, hsum, -⟩
      exact hsum
    · intro hsum
      unfold shift letterDigit at hsum
      exact ⟨n * 26, ⟨rfl, by omega⟩, hsum, hm⟩

/-- The letters of a column that is not too far out. -/
theorem columnLetters_iff {letters : Str} {n m : Nat} (hm : m < u32) : letters.foldlM columnLetter n = some m ↔
    (∀ c ∈ letters, c.isAlpha = true) ∧ (letters.map letterDigit).foldl (shift 26) n = m := by
  induction letters generalizing n with
  | nil => simp
  | cons c letters ih =>
    rw [List.foldlM_cons, List.forall_mem_cons, List.map_cons, List.foldl_cons, Option.bind_eq_bind,
      Option.bind_eq_some_iff]
    constructor
    · rintro ⟨next, hnext, h⟩
      have hlt : next < u32 := by
        unfold columnLetter at hnext
        split at hnext
        · cases hnext
        · obtain ⟨_, -, hnext⟩ := Option.bind_eq_some_iff.mp hnext
          obtain ⟨h1, h2⟩ := Option.filter_eq_some_iff.mp hnext
          cases h1
          exact of_decide_eq_true h2
      obtain ⟨hc, rfl⟩ := (columnLetter_iff hlt).mp hnext
      obtain ⟨hletters, hvalue⟩ := ih.mp h
      exact ⟨⟨hc, hletters⟩, hvalue⟩
    · rintro ⟨⟨hc, hletters⟩, hvalue⟩
      -- the number only grows
      have hle := le_foldl (b := 26) (by decide) (letters.map letterDigit) (shift 26 n (letterDigit c))
      exact ⟨_, (columnLetter_iff (by omega)).mpr ⟨hc, rfl⟩, ih.mpr ⟨hletters, hvalue⟩⟩

theorem isAlpha_of_toUpper {c : Char} (h : c.toUpper.isAlpha = true) : c.isAlpha = true := by
  by_cases hlower : c.isLower = true
  · delta Char.isAlpha
    rw [hlower, Bool.or_true]
  · have hsame : c.toUpper = c := by
      unfold Char.toUpper
      rw [dif_neg]
      intro hrange
      refine hlower ?_
      delta Char.isLower
      simpa using hrange
    rwa [hsame] at h

theorem letterDigit_toUpper {c : Char} (h : c.isAlpha = true) : letterDigit c.toUpper = letterDigit c := by
  obtain ⟨hlt, heq⟩ := letterDigit_alpha h
  rw [← heq]
  exact (digit_letters _ hlt).2

/-- The letters of a column are its name, in any case. -/
theorem columnName_iff {letters : Str} {column : Nat} (hcolumn : column < u32) :
    letters.foldlM columnLetter 0 = some column ↔ letters.map Char.toUpper = columnName column := by
  rw [columnLetters_iff hcolumn]
  unfold columnName
  constructor
  · rintro ⟨hletters, rfl⟩
    have hdigits : digits 26 (value 26 (letters.map letterDigit)) = letters.map letterDigit := by
      refine digits_value fun d hd => ?_
      obtain ⟨c, hc, rfl⟩ := List.mem_map.mp hd
      exact (letterDigit_alpha (hletters c hc)).1
    show _ = (digits 26 (value 26 (letters.map letterDigit))).map digitLetter
    rw [hdigits, List.map_map]
    exact List.map_congr_left fun c hc => (letterDigit_alpha (hletters c hc)).2.symm
  · intro hname
    have halpha : ∀ c ∈ letters, c.isAlpha = true := by
      intro c hc
      obtain ⟨d, hd, hcd⟩ := List.mem_map.mp (hname ▸ List.mem_map_of_mem hc : c.toUpper ∈ _)
      refine isAlpha_of_toUpper ?_
      rw [← hcd]
      exact (digit_letters d (digits_lt (by decide) _ d hd)).1
    have hdigits : letters.map letterDigit = digits 26 column := by
      have hmap := congrArg (List.map letterDigit) hname
      rw [List.map_map, List.map_map] at hmap
      rw [← List.map_congr_left fun c hc => letterDigit_toUpper (halpha c hc)]
      refine hmap.trans ?_
      conv_rhs => rw [← List.map_id (digits 26 column)]
      exact List.map_congr_left fun d hd => (digit_letters d (digits_lt (by decide) _ d hd)).2
    exact ⟨halpha, by rw [hdigits]; exact value_digits column⟩

/-! ## References -/

/-- A cell that a sheet can have. -/
structure IsCell (cell : Nat × Nat) : Prop where
  column : 0 < cell.1 ∧ cell.1 ≤ maxColumn
  row : 0 < cell.2 ∧ cell.2 ≤ maxRow

/-- A reference without its marks and blanks. -/
def plainRef (value : Str) : Str := (trim value).filter (· ≠ '$')

/-- Digits that stand for a row. -/
structure RowDigits (row : Nat) (ds : Str) : Prop where
  ne_nil : ds ≠ []
  digits : ∀ c ∈ ds, c.isDigit = true
  value : Nat.ofDigitChars 10 ds 0 = row

theorem unsigned_digits {c : Char} {ds : Str} (hc : c.isDigit = true) : unsigned (c :: ds) = c :: ds := by
  unfold unsigned
  split
  · rename_i heq
    rw [(List.cons.inj heq).1] at hc
    exact absurd hc (by decide)
  · rfl

theorem parseUnsigned_digits {limit row : Nat} {c : Char} {ds : Str} (hc : c.isDigit = true) :
    parseUnsigned limit (c :: ds) = some row ↔ RowDigits row (c :: ds) ∧ row < limit := by
  have hne := List.cons_ne_nil c ds
  have hsign : unsigned (c :: ds) = c :: ds := unsigned_digits hc
  generalize c :: ds = digits at hne hsign ⊢
  unfold parseUnsigned
  rw [hsign]
  dsimp only
  constructor
  · intro h
    split at h
    · cases h
    · rename_i hdigits
      simp only [Bool.or_eq_true, Bool.not_eq_true', not_or, Bool.not_eq_false, List.all_eq_true] at hdigits
      obtain ⟨hval, hlt⟩ := Option.filter_eq_some_iff.mp h
      exact ⟨⟨hne, hdigits.2, Option.some.inj hval⟩, of_decide_eq_true hlt⟩
  · rintro ⟨⟨-, hall, rfl⟩, hlt⟩
    have hcheck : ¬ (digits.isEmpty || !digits.all Char.isDigit) = true := by
      simp only [Bool.or_eq_true, Bool.not_eq_true', not_or, Bool.not_eq_false, List.all_eq_true]
      exact ⟨by simpa using hne, hall⟩
    rw [if_neg hcheck]
    exact Option.filter_eq_some_iff.mpr ⟨rfl, decide_eq_true hlt⟩

theorem not_isDigit_of_isAlpha {c : Char} (h : c.isAlpha = true) : c.isDigit = false := by
  have hall : ∀ n < 128, (Char.ofNat n).isAlpha = true → (Char.ofNat n).isDigit = false := by decide +kernel
  have := hall c.toNat (toNat_alpha h)
  rw [Char.ofNat_toNat] at this
  exact this h

/-- A text refers to a cell if it is the name of its column, in any case, and digits for its row, but for
`$` marks and blanks around it. -/
theorem parseXlsxCellRef_iff {value : Str} {cell : Nat × Nat} : parseXlsxCellRef value = some cell ↔
    IsCell cell ∧ ∃ letters ds, plainRef value = letters ++ ds ∧ letters.map Char.toUpper = columnName cell.1 ∧
      RowDigits cell.2 ds := by
  obtain ⟨column, row⟩ := cell
  unfold parseXlsxCellRef
  rw [← plainRef]
  simp only [Option.bind_eq_bind, Option.bind_eq_some_iff, Option.filter_eq_some_iff, decide_eq_true_eq]
  constructor
  · rintro ⟨split, ⟨hsplit, hpos⟩, column', hcolumn, row', hrow, hcell⟩
    split at hcell
    · rename_i hbounds
      obtain ⟨rfl, rfl⟩ := Prod.mk.inj (Option.some.inj hcell)
      simp only [Bool.and_eq_true, decide_eq_true_eq] at hbounds
      obtain ⟨⟨⟨h1, h2⟩, h3⟩, h4⟩ := hbounds
      obtain ⟨hlen, hdigit, -⟩ := List.findIdx?_eq_some_iff_getElem.mp hsplit
      have hdrop : (plainRef value).drop split = (plainRef value)[split] :: (plainRef value).drop (split + 1) :=
        List.drop_eq_getElem_cons hlen
      rw [hdrop] at hrow
      have hds := ((parseUnsigned_digits hdigit).mp hrow).1
      rw [← hdrop] at hds
      refine ⟨⟨⟨h1, h2⟩, h3, h4⟩, _, _, (List.take_append_drop split _).symm, ?_, hds⟩
      exact (columnName_iff (Nat.lt_of_le_of_lt h2 (by decide))).mp hcolumn
    · cases hcell
  · rintro ⟨⟨⟨h1, h2⟩, h3, h4⟩, letters, ds, hvalue, hletters, hds⟩
    have hcolumn := (columnName_iff (Nat.lt_of_le_of_lt h2 (by decide))).mpr hletters
    have halpha := ((columnLetters_iff (Nat.lt_of_le_of_lt h2 (by decide))).mp hcolumn).1
    have hpos : 0 < letters.length := by
      refine List.length_pos_iff.mpr ?_
      rintro rfl
      have hzero : 0 = column := Option.some.inj hcolumn
      omega
    obtain ⟨d, ds', rfl⟩ := List.exists_cons_of_ne_nil hds.ne_nil
    have hd := hds.digits d List.mem_cons_self
    have hsplit : (plainRef value).findIdx? Char.isDigit = some letters.length := by
      rw [hvalue, List.findIdx?_append, List.findIdx?_eq_none_iff.mpr fun c hc =>
        not_isDigit_of_isAlpha (halpha c hc), List.findIdx?_cons, hd]
      simp
    refine ⟨letters.length, ⟨hsplit, hpos⟩, column, ?_, row, ?_, ?_⟩
    · rw [hvalue, List.take_left]
      exact hcolumn
    · rw [hvalue, List.drop_left]
      exact (parseUnsigned_digits hd).mpr ⟨hds, Nat.lt_of_le_of_lt h4 (by decide)⟩
    · have hbounds : (0 < column && column ≤ maxColumn && 0 < row && row ≤ maxRow : Bool) = true := by
        simp only [Bool.and_eq_true, decide_eq_true_eq]
        exact ⟨⟨⟨h1, h2⟩, h3⟩, h4⟩
      rw [if_pos hbounds]


end LinguaMesh.Ooxml
