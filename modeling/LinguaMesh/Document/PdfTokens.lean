import LinguaMesh.Document.PdfScan
import Mathlib.Logic.Relation

/-!
# The tokens of a content stream

A content stream is white space, comments, literals, hexadecimal strings,
numbers, operators and brackets; an operator or a number goes on to the next
white space or one of `[ ] ( ) <`. `tokenLength` is the length of the token in
front, and `Reached` walks over a stream token by token, inside a text object
from `BT` to `ET`.

`turned` says what a turn of the scan does in these terms. It steps over the
same tokens, but after a literal it goes on one byte too late.
-/

namespace LinguaMesh.Pdf

open Search Run Relation

def isNumeric (b : UInt8) : Bool := isDigit b || b == byte '+' || b == byte '-' || b == byte '.'

def isRegular (b : UInt8) : Bool := !isSpace b && !isDelimiter b

/-- The bytes up to the parenthesis that closes a literal of which `n` are open. A backslash takes
the byte after it. -/
def closingLength : Nat → Bytes → Option Nat
  | _, [] => none
  | n, b :: bs =>
    if b = byte '(' then (closingLength (n + 1) bs).map (· + 1)
    else if b = byte ')' then
      if n - 1 = 0 then some 1 else (closingLength (n - 1) bs).map (· + 1)
    else if b = byte '\\' then
      match bs with
      | [] => none
      | _ :: bs => (closingLength n bs).map (· + 2)
    else (closingLength n bs).map (· + 1)

section Tokens

variable (F : Type) [F32 F]

def numberLength (text : Bytes) : Option Nat :=
  let run := text.takeWhile isNumeric
  if run ≠ [] ∧ (F32.parse run : Option F).isSome then some run.length else none

/-- The length of the token in front of a text. -/
def tokenLength : Bytes → Option Nat
  | [] => none
  | b :: bs =>
    if isSpace b then some 1
    else if b = byte '%' then
      some (((b :: bs).idxOf? (byte '\n')).elim (b :: bs).length (· + 1))
    else if b = byte '(' then (closingLength 1 bs).map (· + 1)
    else if b = byte '<' ∧ bs.head? ≠ some (byte '<') then (bs.idxOf? (byte '>')).map (· + 2)
    else some ((numberLength F (b :: bs)).getD (max 1 ((b :: bs).takeWhile isRegular).length))

end Tokens

/-- Whether a text object is open after a token. -/
def textAfter (token : Bytes) (inText : Bool) : Bool :=
  if token = asciiBytes "BT" then true else if token = asciiBytes "ET" then false else inText

/-- A position in a stream, and whether a text object is open there. -/
structure Place where
  index : Nat
  inText : Bool
  deriving DecidableEq, Repr

section Walk

variable (F : Type) [F32 F] (data : Bytes)

/-- The place after the token at a place. -/
def Place.next? (p : Place) : Option Place :=
  (tokenLength F (data.drop p.index)).map fun n =>
    ⟨p.index + n, textAfter ((data.drop p.index).take n) p.inText⟩

/-- The walk over the tokens comes from one place to another. -/
def Place.Reaches : Place → Place → Prop := ReflTransGen fun p q => p.next? F data = some q

/-- It does so without a literal. -/
def Place.Skims : Place → Place → Prop :=
  ReflTransGen fun p q => data[p.index]? ≠ some (byte '(') ∧ p.next? F data = some q

/-- The walk from the start comes to the place. -/
def Reached (p : Place) : Prop := Place.Reaches F data ⟨0, false⟩ p

/-- The bytes from `start` up to `stop` are a literal. -/
def LiteralAt (start stop : Nat) : Prop :=
  data[start]? = some (byte '(') ∧ ∃ n, tokenLength F (data.drop start) = some n ∧ stop = start + n

/-- A string literal between `BT` and `ET`. -/
def Occurs (start stop : Nat) : Prop := Reached F data ⟨start, true⟩ ∧ LiteralAt F data start stop

end Walk

/-! ## Literals -/

variable {data : Bytes} {start stop : Nat}

theorem drop_of_getElem? {b : UInt8} {i : Nat} (h : data[i]? = some b) :
    data.drop i = b :: data.drop (i + 1) := by
  obtain ⟨hlt, rfl⟩ := List.getElem?_eq_some_iff.mp h
  exact List.drop_eq_getElem_cons hlt

theorem closing_cons {n : Nat} {b : UInt8} {bs : Bytes} (h1 : b ≠ byte '(') (h2 : b ≠ byte ')')
    (h3 : b ≠ byte '\\') : closingLength n (b :: bs) = (closingLength n bs).map (· + 1) := by
  rw [closingLength.eq_def]
  simp only
  rw [if_neg h1, if_neg h2, if_neg h3]

theorem closing_escape {n : Nat} {e : UInt8} {bs : Bytes} :
    closingLength n (byte '\\' :: e :: bs) = (closingLength n bs).map (· + 2) := by
  rw [closingLength.eq_def]
  rfl

/-- Octal digits neither open nor close a literal. -/
theorem closing_octal {n k m : Nat} {text : Bytes}
    (h : closingLength n (text.drop ((text.take k).takeWhile isOctal).length) = some m) :
    closingLength n text = some (((text.take k).takeWhile isOctal).length + m) := by
  induction text generalizing k with
  | nil => simp [closingLength] at h
  | cons b bs ih =>
    cases k with
    | zero => simpa using h
    | succ k =>
      rw [List.take_succ_cons] at h ⊢
      by_cases hb : isOctal b = true
      · rw [List.takeWhile_cons_of_pos hb, List.length_cons] at h ⊢
        have hne (c : UInt8) (hc : isOctal c = false) : b ≠ c := fun he => by simp [he, hc] at hb
        rw [closing_cons (hne _ (by decide)) (hne _ (by decide)) (hne _ (by decide)), ih h]
        simp only [Option.map_some, Option.some.injEq]
        omega
      · rw [List.takeWhile_cons_of_neg hb] at h ⊢
        simpa using h

/-- An escape takes the backslash, the byte after it and perhaps more, up to the place `n` bytes
on; what is left of the literal is left there too. -/
theorem closing_escapeTurn {cursor : Nat} {escaped : UInt8} {s s' : LiteralScan} {n m : Nat}
    (hb : data[cursor]? = some (byte '\\')) (he : data[cursor + 1]? = some escaped)
    (h : escapeTurn data (cursor + 1) escaped s = .ok s')
    (hm : closingLength n (data.drop s'.cursor) = some m) :
    s'.depth = s.depth ∧ cursor < s'.cursor ∧
      closingLength n (data.drop cursor) = some (s'.cursor - cursor + m) := by
  have hone : ∀ k, closingLength n (data.drop (cursor + 2)) = some k →
      closingLength n (data.drop cursor) = some (k + 2) := by
    intro k hk
    rw [drop_of_getElem? hb, drop_of_getElem? he, closing_escape, hk]
    rfl
  have push (out : Bytes) (h : (.ok { s with cursor := cursor + 1 + 1, output := out } :
      Run DocumentError LiteralScan) = .ok s') : s'.depth = s.depth ∧ cursor < s'.cursor ∧
      closingLength n (data.drop cursor) = some (s'.cursor - cursor + m) := by
    cases h
    refine ⟨rfl, by simp only; omega, ?_⟩
    rw [hone m hm]
    simp only [Option.some.injEq]
    omega
  unfold escapeTurn at h
  simp only at h
  iterate 5 (split at h; exact push _ h)
  split at h
  · exact push _ h
  split at h
  · -- a line break of two characters is taken whole
    split at h
    · rename_i hlf
      cases h
      have hk : closingLength n (data.drop (cursor + 2)) = some (m + 1) := by
        rw [drop_of_getElem? hlf, closing_cons (by decide) (by decide) (by decide), hm]
        rfl
      refine ⟨rfl, by simp only; omega, ?_⟩
      rw [hone _ hk]
      simp only [Option.some.injEq]
      omega
    · exact push _ h
  split at h
  · split at h
    · cases h
      simp only at hm
      have hk : closingLength n (data.drop (cursor + 1 + 1)) =
          some ((octalDigits data (cursor + 1 + 1)).length + m) := by
        refine closing_octal ?_
        rw [List.drop_drop]
        convert hm using 3
        unfold octalDigits
        omega
      refine ⟨rfl, by simp only; omega, ?_⟩
      rw [hone _ hk]
      simp only [Option.some.injEq]
      omega
    · cases h
  · exact push _ h

/-- What the reader of a literal takes is closed by its last byte. -/
theorem pdfLiteral_ok {r : Str × Nat × Nat} (h : pdfLiteral data start = .ok r) :
    data[start]? = some (byte '(') ∧ r.2.1 = start ∧ ∃ n,
      closingLength 1 (data.drop (start + 1)) = some n ∧ r.2.2 = start + 1 + n := by
  unfold pdfLiteral at h
  split at h
  swap
  · cases h
  rename_i hopen
  refine ⟨hopen, ?_⟩
  refine loop_ok (P := fun s r => r.2.1 = start ∧ ∃ n,
    closingLength s.depth (data.drop s.cursor) = some n ∧ r.2.2 = s.cursor + n) ?_ ?_ h
  · intro s r hturn
    unfold literalTurn at hturn
    split at hturn
    · cases hturn
    rename_i b hb
    split at hturn
    · cases hturn
    split at hturn
    · rename_i hne hclose
      split at hturn
      · rename_i hlast
        cases hturn
        refine ⟨rfl, 1, ?_, rfl⟩
        rw [drop_of_getElem? hb, closingLength.eq_def]
        simp only
        rw [if_neg hne, if_pos hclose, if_pos hlast]
      · cases hturn
    split at hturn
    · split at hturn
      · cases hturn
      · obtain ⟨_, -, hx⟩ := Except.map_eq_ok.mp hturn
        cases hx
    · cases hturn
  · rintro s s' r hturn ⟨hstart, n, hn, hstop⟩
    refine ⟨hstart, ?_⟩
    unfold literalTurn at hturn
    split at hturn
    · cases hturn
    rename_i b hb
    split at hturn
    · rename_i hopen
      cases hturn
      refine ⟨n + 1, ?_, by simp only at hstop; omega⟩
      rw [drop_of_getElem? hb, closingLength.eq_def]
      simp only
      rw [if_pos hopen, hn]
      rfl
    rename_i hnotOpen
    split at hturn
    · rename_i hclose
      split at hturn
      · cases hturn
      · rename_i hdepth
        cases hturn
        refine ⟨n + 1, ?_, by simp only at hstop; omega⟩
        rw [drop_of_getElem? hb, closingLength.eq_def]
        simp only
        rw [if_neg hnotOpen, if_pos hclose, if_neg hdepth, hn]
        rfl
    rename_i hnotClose
    split at hturn
    · rename_i hslash
      split at hturn
      · cases hturn
      · rename_i escaped he
        obtain ⟨s'', hs, hx⟩ := Except.map_eq_ok.mp hturn
        cases hx
        have hdepth : s'.depth = s.depth :=
          (closing_escapeTurn (hslash ▸ hb) he hs hn).1
        obtain ⟨-, hlt, hlen⟩ := closing_escapeTurn (hslash ▸ hb) he hs hn
        rw [hdepth] at hlen
        exact ⟨_, hlen, by omega⟩
    · rename_i hslash
      cases hturn
      refine ⟨n + 1, ?_, by simp only at hstop; omega⟩
      rw [drop_of_getElem? hb, closing_cons hnotOpen hnotClose hslash, hn]
      rfl

/-! ## Turns of the scan -/

variable {F : Type} [F32 F]

theorem passed_skip {p : UInt8 → Bool} {cursor : Nat} :
    passed data cursor (skip p data cursor) = (data.drop cursor).takeWhile p := by
  unfold passed skip
  rw [List.drop_take, Nat.add_sub_cancel_left]
  exact (List.prefix_iff_eq_take.mp (List.takeWhile_prefix p)).symm

theorem numberLength_drop (cursor : Nat) :
    numberLength F (data.drop cursor) =
      (parseNumber F data cursor).map fun r => r.2 - cursor := by
  unfold numberLength parseNumber
  simp only
  rw [passed_skip]
  have hrun : (fun b => isDigit b || b == byte '+' || b == byte '-' || b == byte '.') = isNumeric := rfl
  rw [hrun]
  by_cases h : (data.drop cursor).takeWhile isNumeric = []
  · rw [if_neg (fun hc => hc.1 h), if_neg (by simp [skip, h])]
    rfl
  · have hlt : cursor < skip isNumeric data cursor :=
      Nat.lt_add_of_pos_right (List.length_pos_iff.mpr h)
    rw [if_pos hlt]
    cases hp : (F32.parse ((data.drop cursor).takeWhile isNumeric) : Option F) with
    | none => simp
    | some value => simp [h, skip]

theorem isNumeric_of_parse {cursor : Nat} {b : UInt8} {r : F × Nat}
    (h : parseNumber F data cursor = some r) (hb : data[cursor]? = some b) : isNumeric b = true := by
  unfold parseNumber at h
  simp only at h
  split at h
  · rename_i hskip
    by_contra hne
    change cursor < skip isNumeric data cursor at hskip
    unfold skip at hskip
    rw [drop_of_getElem? hb, List.takeWhile_cons_of_neg hne] at hskip
    exact Nat.lt_irrefl _ hskip
  · cases h

theorem operator_inText (s : ScanState F) (op : Bytes) :
    (s.operator op).inText = textAfter op s.inText := by
  unfold ScanState.operator textAfter
  simp only
  split
  · rfl
  · split
    · rfl
    · split
      · rfl
      · split
        · split
          · rfl
          · split
            · rfl
            · split <;> rfl
        · split <;> rfl

theorem textAfter_of_head {token : Bytes} {b : UInt8} {inText : Bool} (hb : token.head? = some b)
    (h1 : b ≠ byte 'B') (h2 : b ≠ byte 'E') : textAfter token inText = inText := by
  unfold textAfter
  rw [if_neg, if_neg]
  · rintro rfl
    exact h2 (Option.some.inj hb).symm
  · rintro rfl
    exact h1 (Option.some.inj hb).symm

/-- What a turn of the scan does: it ends with the data, steps over a token that is not a literal,
or reads a literal and goes on one byte after it. -/
inductive Turned (data : Bytes) (id page : Nat) (s : ScanState F) :
    Turn (ScanState F) (List (PdfTextSpan F)) → Prop
  | finished : data[s.cursor]? = none → Turned data id page s (.done s.spans)
  | token {n : Nat} {s' : ScanState F} {found : List (PdfTextSpan F)} :
    data[s.cursor]? ≠ some (byte '(') → tokenLength F (data.drop s.cursor) = some n →
    s'.cursor = s.cursor + n → s'.inText = textAfter ((data.drop s.cursor).take n) s.inText →
    s'.spans = s.spans ++ found →
    (∀ span ∈ found, span.start = s.cursor) → Turned data id page s (.next s')
  | literal {text : Str} {n : Nat} :
    data[s.cursor]? = some (byte '(') → tokenLength F (data.drop s.cursor) = some n →
    pdfLiteral data s.cursor = .ok (text, s.cursor, s.cursor + n) →
    Turned data id page s (.next
      { s.pushSpan id page s.cursor (s.cursor + n) text with cursor := s.cursor + n + 1 })

variable {id page : Nat} {s : ScanState F}

omit [F32 F] in
/-- The text state of `n` bytes that begin neither `BT` nor `ET`. -/
theorem textAfter_take {b : UInt8} {n : Nat} {inText : Bool} (hb : data[s.cursor]? = some b) (hn : n ≠ 0)
    (h1 : b ≠ byte 'B') (h2 : b ≠ byte 'E') :
    textAfter ((data.drop s.cursor).take n) inText = inText := by
  refine textAfter_of_head (b := b) ?_ h1 h2
  rw [drop_of_getElem? hb]
  cases n with
  | zero => exact absurd rfl hn
  | succ n => rfl

omit [F32 F] in
theorem spans_pushSpan (s : ScanState F) (id page start stop : Nat) (text : Str) :
    ∃ found, (s.pushSpan id page start stop text).spans = s.spans ++ found ∧
      ∀ span ∈ found, span.start = start := by
  unfold ScanState.pushSpan
  split
  · exact ⟨_, rfl, by simp⟩
  · exact ⟨[], by simp, by simp⟩

theorem turned_hex {t : Turn (ScanState F) (List (PdfTextSpan F))}
    (hb : data[s.cursor]? = some (byte '<')) (hnext : data[s.cursor + 1]? ≠ some (byte '<'))
    (h : hexTurn data id page s = .ok t) : Turned data id page s t := by
  unfold hexTurn at h
  rw [Except.bind_ok] at h
  obtain ⟨rest, hrest, h⟩ := h
  rw [Except.bind_ok] at h
  obtain ⟨relativeEnd, hend, h⟩ := h
  have hrest' := (post_tailOf (lt_of_getElem? hb)).ok hrest
  subst hrest'
  have hlen : tokenLength F (data.drop s.cursor) = some (relativeEnd + 2) := by
    rw [drop_of_getElem? hb, tokenLength]
    rw [if_neg (by decide), if_neg (by decide), if_neg (by decide), if_pos]
    · rw [ofOption_eq_ok.mp hend]
      rfl
    · exact ⟨rfl, by rwa [List.head?_drop]⟩
  have htext : ∀ t, textAfter ((data.drop s.cursor).take (relativeEnd + 2)) t = t := fun t =>
    textAfter_take hb (by omega) (by decide) (by decide)
  have hopen : data[s.cursor]? ≠ some (byte '(') := by
    rw [hb]
    decide
  simp only at h
  split at h
  · rw [Except.bind_ok] at h
    obtain ⟨digits, -, h⟩ := h
    rw [Except.bind_ok] at h
    obtain ⟨bytes, -, h⟩ := h
    cases h
    obtain ⟨found, hfound, hstart⟩ := spans_pushSpan s id page s.cursor
      (s.cursor + relativeEnd + 2) (decodePdfText bytes)
    refine .token hopen hlen rfl ?_ hfound hstart
    rw [htext]
    unfold ScanState.pushSpan
    split <;> rfl
  · cases h
    exact .token hopen hlen rfl (htext _).symm (List.append_nil _).symm
      fun _ h => absurd h List.not_mem_nil

/-- A token that is no white space, comment, literal or hexadecimal string. -/
theorem tokenLength_word {b : UInt8} (hb : data[s.cursor]? = some b) (h1 : isSpace b = false)
    (h2 : b ≠ byte '%') (h3 : b ≠ byte '(')
    (h4 : ¬ (b = byte '<' ∧ data[s.cursor + 1]? ≠ some (byte '<'))) :
    tokenLength F (data.drop s.cursor) = some ((numberLength F (data.drop s.cursor)).getD
      (max 1 ((data.drop s.cursor).takeWhile isRegular).length)) := by
  rw [drop_of_getElem? hb, tokenLength]
  rw [if_neg (by rw [h1]; decide), if_neg h2, if_neg h3, if_neg]
  rwa [List.head?_drop]

theorem turned_operator {t : Turn (ScanState F) (List (PdfTextSpan F))} {b : UInt8}
    (hb : data[s.cursor]? = some b) (hopen : b ≠ byte '(')
    (hlen : tokenLength F (data.drop s.cursor) =
      some (max 1 ((data.drop s.cursor).takeWhile isRegular).length))
    (h : operatorTurn data s = .ok t) : Turned data id page s t := by
  have hopen' : data[s.cursor]? ≠ some (byte '(') := by
    rw [hb]
    exact fun h => hopen (Option.some.inj h)
  have hstop : skip (fun b => !isSpace b && !isDelimiter b) data s.cursor =
      s.cursor + ((data.drop s.cursor).takeWhile isRegular).length := rfl
  unfold operatorTurn at h
  simp only at h
  split at h
  · rename_i hzero
    have hzero' : ((data.drop s.cursor).takeWhile isRegular).length = 0 := by omega
    cases h
    rw [hzero'] at hlen
    refine .token hopen' hlen rfl ?_ (List.append_nil _).symm fun _ h => absurd h List.not_mem_nil
    -- a bracket
    have hdelimiter : isRegular b = false := by
      rw [drop_of_getElem? hb] at hzero'
      by_contra hne
      rw [List.takeWhile_cons_of_pos (by simpa using hne)] at hzero'
      cases hzero'
    have hne (c : UInt8) (hc : isRegular c = true) : b ≠ c := fun he => by
      rw [he, hc] at hdelimiter
      cases hdelimiter
    exact (textAfter_take hb Nat.one_ne_zero (hne _ (by decide)) (hne _ (by decide))).symm
  · rename_i hpos
    split at h
    · cases h
    · cases h
      rw [max_eq_right (by omega)] at hlen
      refine .token hopen' hlen hstop ?_ ((operator_spans _).trans (List.append_nil _).symm)
        fun _ h => absurd h List.not_mem_nil
      rw [← List.prefix_iff_eq_take.mp (List.takeWhile_prefix isRegular)]
      rw [passed_skip]
      exact operator_inText s _

/-- What a turn of the scan does. -/
theorem turned {t : Turn (ScanState F) (List (PdfTextSpan F))}
    (h : scanTurn data id page s = .ok t) : Turned data id page s t := by
  unfold scanTurn at h
  split at h
  · rename_i hb
    cases h
    exact .finished hb
  rename_i b hb
  have hdrop := drop_of_getElem? hb
  have none {x : PdfTextSpan F} (hx : x ∈ ([] : List (PdfTextSpan F))) : x.start = s.cursor :=
    absurd hx List.not_mem_nil
  split at h
  · rename_i hspace
    cases h
    have hne (c : UInt8) (hc : isSpace c = false) : b ≠ c := fun he => by simp [he, hc] at hspace
    refine .token ?_ ?_ rfl (textAfter_take hb Nat.one_ne_zero (hne _ (by decide))
      (hne _ (by decide))).symm (List.append_nil _).symm fun _ => none
    · rw [hb]
      exact fun h => hne _ (by decide) (Option.some.inj h)
    · rw [hdrop, tokenLength]
      rw [if_pos hspace]
  rename_i hspace
  split at h
  · rename_i hcomment
    subst hcomment
    cases h
    have hlen : tokenLength F (data.drop s.cursor) =
        some (((data.drop s.cursor).idxOf? (byte '\n')).elim (data.drop s.cursor).length (· + 1)) := by
      rw [hdrop, tokenLength]
      rw [if_neg (by decide), if_pos rfl]
    have hpos : ((data.drop s.cursor).idxOf? (byte '\n')).elim (data.drop s.cursor).length (· + 1) ≠ 0 := by
      cases (data.drop s.cursor).idxOf? (byte '\n') with
      | none =>
        rw [hdrop]
        exact Nat.succ_ne_zero _
      | some offset => exact Nat.succ_ne_zero _
    refine .token (by rw [hb]; decide) hlen ?_
      (textAfter_take hb hpos (by decide) (by decide)).symm (List.append_nil _).symm fun _ => none
    have hlt := lt_of_getElem? hb
    cases (data.drop s.cursor).idxOf? (byte '\n') with
    | none =>
      simp only [Option.elim_none, List.length_drop]
      omega
    | some offset =>
      simp only [Option.elim_some]
      omega
  rename_i hcomment
  split at h
  · rename_i hopen
    subst hopen
    rw [Except.bind_ok] at h
    obtain ⟨⟨text, start, stop⟩, hl, h⟩ := h
    cases h
    obtain ⟨-, hstart, n, hn, hstop⟩ := pdfLiteral_ok hl
    simp only at hstart hstop
    subst hstart hstop
    rw [Nat.add_assoc, Nat.add_comm 1 n] at hl ⊢
    refine .literal hb ?_ hl
    rw [hdrop, tokenLength]
    rw [if_neg (by decide), if_neg (by decide), if_pos rfl, hn]
    rfl
  rename_i hopen
  split at h
  · rename_i hhex
    obtain ⟨rfl, hnext⟩ := hhex
    exact turned_hex hb hnext h
  rename_i hhex
  have hlen := tokenLength_word (F := F) hb (by simpa using hspace) hcomment hopen hhex
  rw [numberLength_drop] at hlen
  split at h
  · rename_i number next hnumber
    cases h
    have hbounds := parseNumber_bounds hnumber (lt_of_getElem? hb).le
    rw [hnumber] at hlen
    refine .token ?_ hlen ?_ ?_ (List.append_nil _).symm fun _ => none
    · rw [hb]
      exact fun h => hopen (Option.some.inj h)
    · simp only [Option.map_some, Option.getD_some]
      omega
    · have hnumeric := isNumeric_of_parse hnumber hb
      have hne (c : UInt8) (hc : isNumeric c = false) : b ≠ c := fun he => by
        rw [he, hc] at hnumeric
        cases hnumeric
      refine (textAfter_take hb ?_ (hne _ (by decide)) (hne _ (by decide))).symm
      simp only [Option.map_some, Option.getD_some]
      omega
  · rename_i hnumber
    rw [hnumber] at hlen
    exact turned_operator hb hopen hlen h

end LinguaMesh.Pdf
