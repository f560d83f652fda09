import LinguaMesh.Document.Pdf
import LinguaMesh.Lib.Ranges

/-!
# What the PDF scanners give

Every scanner returns on every input, and its result lies where it was read:
the objects of a file are disjoint ranges of it (`post_parseObjects`), the spans
of a stream are disjoint ranges of the decoded data (`post_extractStreamSpans`).
Each is a loop whose turns move the cursor on, so the measure is what is left of
the data.

The page a stream is read for is a label of its spans (`extract_onPage`).
-/

namespace LinguaMesh.Pdf

open Search Run

/-! ## Positions -/

section Positions

variable {data : Bytes} {cursor : Nat} {p : UInt8 → Bool}

theorem le_skip : cursor ≤ skip p data cursor := Nat.le_add_right _ _

theorem skip_le (h : cursor ≤ data.length) : skip p data cursor ≤ data.length := by
  unfold skip
  have h1 : ((data.drop cursor).takeWhile p).length ≤ (data.drop cursor).length :=
    (List.takeWhile_sublist p).length_le
  rw [List.length_drop] at h1
  omega

theorem lt_skip {b : UInt8} (hb : data[cursor]? = some b) (hp : p b = true) :
    cursor < skip p data cursor := by
  obtain ⟨hlt, rfl⟩ := List.getElem?_eq_some_iff.mp hb
  unfold skip
  rw [List.drop_eq_getElem_cons hlt, List.takeWhile_cons_of_pos hp, List.length_cons]
  omega

theorem lt_of_getElem? {b : UInt8} (hb : data[cursor]? = some b) : cursor < data.length :=
  (List.getElem?_eq_some_iff.mp hb).1

theorem position_le {token : String} {i : Nat} (h : position data token = some i) :
    i + (asciiBytes token).length ≤ data.length := find_le_length h

theorem startsAt_le {token : String} (h : startsAt data cursor token = true)
    (ht : asciiBytes token ≠ []) : cursor + (asciiBytes token).length ≤ data.length := by
  have h1 := (List.isPrefixOf_iff_prefix.mp h).length_le
  rw [List.length_drop] at h1
  have := List.length_pos_iff.mpr ht
  omega

theorem parseNumber_bounds {F : Type} [F32 F] {value : F} {next : Nat}
    (h : parseNumber F data cursor = some (value, next)) (hc : cursor ≤ data.length) :
    cursor < next ∧ next ≤ data.length := by
  unfold parseNumber at h
  simp only at h
  split at h
  · rename_i hlt
    obtain ⟨v, -, hv⟩ := Option.map_eq_some_iff.mp h
    cases hv
    exact ⟨hlt, skip_le hc⟩
  · cases h

end Positions

/-! ## Objects -/

/-- The body of an object is a part of it. -/
def PdfObject.WellFormed (object : PdfObject) : Prop :=
  object.start < object.bodyStart ∧ object.bodyStart ≤ object.bodyEnd ∧
    object.bodyEnd ≤ object.stop

/-- Objects in file order. -/
structure Laid (size : Nat) (objects : List PdfObject) : Prop where
  ordered : Ordered PdfObject.start PdfObject.stop size objects
  wellFormed : ∀ object ∈ objects, object.WellFormed

theorem Laid.bodyEnd_le {size : Nat} {objects : List PdfObject} {object : PdfObject}
    (h : Laid size objects) (ho : object ∈ objects) : object.bodyEnd ≤ size :=
  le_trans (h.wellFormed object ho).2.2 (h.ordered.bounds object ho).2

def ObjectScan.Inv (pdf : Bytes) (s : ObjectScan) : Prop :=
  s.cursor ≤ pdf.length ∧ Laid pdf.length s.objects ∧ ∀ o ∈ s.objects, o.stop ≤ s.cursor

theorem post_objectTurn {pdf : Bytes} {s : ObjectScan} (hs : s.Inv pdf) :
    Post (objectTurn pdf s) (Turn.Good (ObjectScan.Inv pdf) (fun s => pdf.length - s.cursor)
      (Laid pdf.length) s) := by
  obtain ⟨hc, hlaid, hstop⟩ := hs
  unfold objectTurn
  cases hb : pdf[s.cursor]? with
  | none => exact hlaid
  | some b =>
    have hlt := lt_of_getElem? hb
    simp only
    split
    · exact ⟨⟨hlt, hlaid, fun o ho => le_trans (hstop o ho) (Nat.le_succ _)⟩, by simp only; omega⟩
    · rename_i hd
      have hdigit : isDigit b = true := by
        by_contra hne
        simp [hne] at hd
      have h1 : s.cursor < skip isDigit pdf s.cursor := lt_skip hb hdigit
      have h2 : skip isDigit pdf s.cursor ≤ pdf.length := skip_le hlt.le
      have h3 : skip isDigit pdf s.cursor ≤ skip isSpace pdf (skip isDigit pdf s.cursor) := le_skip
      have h4 : skip isSpace pdf (skip isDigit pdf s.cursor) ≤ pdf.length := skip_le h2
      generalize skip isSpace pdf (skip isDigit pdf s.cursor) = cursor at h3 h4 ⊢
      refine (post_ofOption (Q := fun _ => True) fun _ _ => trivial).bind fun id _ => ?_
      split
      · rename_i hobj
        have h5 : cursor + 5 ≤ pdf.length := startsAt_le hobj (by decide)
        refine (post_tailOf h5).bind fun rest hrest => ?_
        refine (post_ofOption fun _ h => h).bind fun relativeEnd hend => ?_
        have h6 : relativeEnd + 6 ≤ rest.length := position_le hend
        rw [hrest, List.length_drop] at h6
        split
        · trivial
        · refine ⟨⟨?_, ⟨hlaid.ordered.snoc ?_ ?_ ?_, ?_⟩, ?_⟩, ?_⟩
          · simp only; omega
          · exact fun o ho => hstop o ho
          · simp only; omega
          · simp only; omega
          · intro o ho
            rcases List.mem_append.mp ho with ho | ho
            · exact hlaid.wellFormed o ho
            · rw [List.mem_singleton.mp ho]
              exact ⟨by simp only; omega, Nat.le_add_right _ _, Nat.le_add_right _ _⟩
          · intro o ho
            rcases List.mem_append.mp ho with ho | ho
            · have := hstop o ho
              simp only
              omega
            · rw [List.mem_singleton.mp ho]
          · simp only
            omega
      · refine ⟨⟨h4, hlaid, fun o ho => ?_⟩, ?_⟩
        · have := hstop o ho
          simp only
          omega
        · simp only
          omega

theorem post_parseObjects (pdf : Bytes) : Post (parseObjects pdf) (Laid pdf.length) := by
  unfold parseObjects
  refine (Post.loop (ObjectScan.Inv pdf) (fun s => pdf.length - s.cursor)
    (fun _ hs => post_objectTurn hs) ⟨Nat.zero_le _, ⟨.nil, by simp⟩, by simp⟩
    (Nat.lt_succ_self _)).bind fun objects h => ?_
  split
  · trivial
  · exact h

theorem post_objectBody {pdf : Bytes} {objects : List PdfObject} {object : PdfObject}
    (h : Laid pdf.length objects) (ho : object ∈ objects) :
    Post (objectBody pdf object) fun _ => True :=
  (post_sliceOf (h.wellFormed object ho).2.1 (h.bodyEnd_le ho)).returns

theorem post_referencedObjects {F : Type} [F32 F] (data : Bytes) (marker : String) :
    Post (referencedObjects F data marker) fun _ => True := by
  unfold referencedObjects
  cases hp : position data marker with
  | none => trivial
  | some relative =>
    simp only
    have h1 : skip isSpace data (relative + (asciiBytes marker).length) ≤ data.length :=
      skip_le (position_le hp)
    refine Post.loop (fun s => s.cursor ≤ data.length) (fun s => data.length - s.cursor) ?_ ?_ ?_
    · intro s hs
      unfold referenceTurn
      cases hn : parseNumber F data (skip isSpace data s.cursor) with
      | none => trivial
      | some r =>
        obtain ⟨id, next⟩ := r
        have hn1 := parseNumber_bounds hn (skip_le hs)
        have hn0 : s.cursor ≤ skip isSpace data s.cursor := le_skip
        simp only
        cases hg : parseNumber F data (skip isSpace data next) with
        | none => trivial
        | some r =>
          obtain ⟨generation, next'⟩ := r
          have hg1 := parseNumber_bounds hg (skip_le hn1.2)
          have hg0 : next ≤ skip isSpace data next := le_skip
          have hc : next' ≤ skip isSpace data next' := le_skip
          simp only
          split
          · rename_i hr
            simp only [Bool.and_eq_true] at hr
            have h2 : skip isSpace data next' + 1 ≤ data.length :=
              startsAt_le hr.1.1.1 (by decide)
            split
            · trivial
            · exact ⟨h2, by simp only; omega⟩
          · trivial
    · simp only
      split
      · rename_i ha
        exact lt_of_getElem? (by simpa using ha)
      · exact h1
    · simp only
      omega

/-! ## Streams -/

theorem streamStart_le {body : Bytes} {start : Nat} (h : start ≤ body.length) :
    streamStart body start ≤ body.length := by
  have aux : ∀ {i : Nat} {b : UInt8}, i ≤ body.length →
      (if body[i]? = some b then i + 1 else i) ≤ body.length := by
    intro i b hi
    split
    · rename_i hb
      exact lt_of_getElem? hb
    · exact hi
  exact aux (aux h)

theorem post_streamData {pdf : Bytes} {objects : List PdfObject} {object : PdfObject}
    (h : Laid pdf.length objects) (ho : object ∈ objects) :
    Post (streamData pdf object) fun _ => True := by
  unfold streamData
  refine (post_objectBody h ho).bind fun body _ => ?_
  refine (post_ofOption fun _ h => h).bind fun relativeStream hs => ?_
  have h1 : relativeStream + 6 ≤ body.length := position_le hs
  have h2 := streamStart_le h1
  simp only
  generalize streamStart body (relativeStream + 6) = start at h2 ⊢
  refine (post_tailOf h2).bind fun rest hrest => ?_
  refine (post_ofOption fun _ h => h).bind fun offset hoff => ?_
  have h3 : offset + 9 ≤ rest.length := position_le hoff
  rw [hrest, List.length_drop] at h3
  have h4 : Post (sliceOf body start (start + offset) : Run DocumentError Bytes) fun _ => True :=
    (post_sliceOf (Nat.le_add_right _ _) (by omega)).returns
  refine (post_sliceOf (Nat.zero_le _) (by omega)).bind fun dictionary _ => ?_
  split
  · exact h4.bind fun _ _ => trivial
  · split
    · trivial
    · exact h4.bind fun _ _ => trivial

theorem post_decodeStream [Zlib] (data : Bytes) (compressed : Bool) :
    Post (decodeStream data compressed) fun _ => True := by
  unfold decodeStream
  split
  · trivial
  · split
    · trivial
    · split
      · trivial
      · split <;> trivial

/-! ## Literals -/

theorem post_escapeTurn {data : Bytes} {cursor : Nat} {escaped : UInt8} {s : LiteralScan}
    (h : cursor < data.length) : Post (escapeTurn data cursor escaped s) fun s' =>
      cursor < s'.cursor ∧ s'.cursor ≤ data.length := by
  have push : ∀ out : Bytes, Post (.ok { s with cursor := cursor + 1, output := out } :
      Run DocumentError LiteralScan) fun s' => cursor < s'.cursor ∧ s'.cursor ≤ data.length :=
    fun _ => ⟨Nat.lt_succ_self _, h⟩
  unfold escapeTurn
  simp only
  iterate 5 (split; exact push _)
  split
  · exact push _
  · split
    · refine post_ok.mpr ?_
      simp only
      split
      · rename_i hn
        have := lt_of_getElem? hn
        omega
      · omega
    · split
      · split
        · refine post_ok.mpr ?_
          have h1 : (octalDigits data (cursor + 1)).length ≤ (data.drop (cursor + 1)).length :=
            le_trans (List.takeWhile_sublist _).length_le (List.take_sublist _ _).length_le
          rw [List.length_drop] at h1
          simp only
          omega
        · trivial
      · exact push _

/-- A literal ends inside the data, after it began. -/
theorem post_pdfLiteral (data : Bytes) (start : Nat) : Post (pdfLiteral data start) fun r =>
    r.2.1 = start ∧ start < r.2.2 ∧ r.2.2 ≤ data.length := by
  unfold pdfLiteral
  split
  · rename_i ho
    have hlt := lt_of_getElem? ho
    refine Post.loop (fun s => start < s.cursor ∧ s.cursor ≤ data.length)
      (fun s => data.length - s.cursor) ?_ ⟨Nat.lt_succ_self _, hlt⟩ (by simp only; omega)
    rintro s ⟨h1, h2⟩
    unfold literalTurn
    cases hb : data[s.cursor]? with
    | none => trivial
    | some b =>
      have h3 := lt_of_getElem? hb
      simp only
      split
      · exact ⟨⟨by simp only; omega, h3⟩, by simp only; omega⟩
      · split
        · split
          · exact ⟨rfl, by simp only; omega, h3⟩
          · exact ⟨⟨by simp only; omega, h3⟩, by simp only; omega⟩
        · split
          · cases he : data[s.cursor + 1]? with
            | none => trivial
            | some escaped =>
              have h4 := lt_of_getElem? he
              simp only
              refine post_map.mpr ((post_escapeTurn h4).mono fun s' hs' => ?_)
              exact ⟨⟨by omega, hs'.2⟩, by simp only; omega⟩
          · exact ⟨⟨by simp only; omega, h3⟩, by simp only; omega⟩
  · trivial

/-! ## Spans -/

section Spans

variable {F : Type}

/-- Spans of the object `id`, as a scan of `size` bytes finds them. -/
structure Found (size id : Nat) (spans : List (PdfTextSpan F)) : Prop where
  ordered : Ordered PdfTextSpan.start PdfTextSpan.stop size spans
  nonempty : ∀ span ∈ spans, span.start < span.stop
  objectId : ∀ span ∈ spans, span.objectId = id

/-- The spans found so far end before the cursor. -/
def ScanState.Inv (data : Bytes) (id : Nat) (s : ScanState F) : Prop :=
  Found data.length id s.spans ∧ ∀ span ∈ s.spans, span.stop ≤ s.cursor

variable {data : Bytes} {id page : Nat} {s : ScanState F}

theorem ScanState.Inv.move (h : s.Inv data id) {s' : ScanState F} (hs : s'.spans = s.spans)
    (hc : s.cursor ≤ s'.cursor) : s'.Inv data id := by
  unfold ScanState.Inv
  rw [hs]
  exact ⟨h.1, fun span hspan => le_trans (h.2 span hspan) hc⟩

theorem ScanState.Inv.pushSpan (h : s.Inv data id) {start stop : Nat} (page : Nat) (text : Str)
    (h1 : s.cursor ≤ start) (h2 : start < stop) (h3 : stop ≤ data.length) :
    Found data.length id (s.pushSpan id page start stop text).spans ∧
      ∀ span ∈ (s.pushSpan id page start stop text).spans, span.stop ≤ stop := by
  have hstop : ∀ span ∈ s.spans, span.stop ≤ start := fun span hspan =>
    le_trans (h.2 span hspan) h1
  unfold ScanState.pushSpan
  split
  · refine ⟨⟨h.1.ordered.snoc hstop h2.le h3, ?_, ?_⟩, ?_⟩ <;> intro span hspan <;>
      rcases List.mem_append.mp hspan with hspan | hspan
    · exact h.1.nonempty span hspan
    · rw [List.mem_singleton.mp hspan]; exact h2
    · exact h.1.objectId span hspan
    · rw [List.mem_singleton.mp hspan]
    · exact le_trans (hstop span hspan) h2.le
    · rw [List.mem_singleton.mp hspan]
  · exact ⟨h.1, fun span hspan => le_trans (hstop span hspan) h2.le⟩

/-- What a turn of the scan has to keep. -/
abbrev ScanGood (data : Bytes) (id : Nat) (s : ScanState F) :
    Turn (ScanState F) (List (PdfTextSpan F)) → Prop :=
  Turn.Good (ScanState.Inv data id) (fun s => data.length - s.cursor) (Found data.length id) s

theorem ScanState.Inv.next (h : s.Inv data id) (hlt : s.cursor < data.length) {s' : ScanState F}
    (hs : s'.spans = s.spans) (hc : s.cursor < s'.cursor) :
    ScanGood data id s (.next s') :=
  ⟨h.move hs hc.le, Nat.sub_lt_sub_left hlt hc⟩

variable [F32 F]

/-- An operator neither reads nor changes the spans. -/
theorem operator_withSpans (op : Bytes) (spans : List (PdfTextSpan F)) :
    ({ s with spans := spans } : ScanState F).operator op = { s.operator op with spans := spans } := by
  unfold ScanState.operator
  simp only
  split
  · rfl
  · split
    · rfl
    · split
      · rfl
      · split
        · split
          · rfl
          · split
            · rfl
            · split <;> rfl
        · split <;> rfl

theorem operator_spans (op : Bytes) : (s.operator op).spans = s.spans := by
  have h : s.operator op = { s.operator op with spans := s.spans } := operator_withSpans op s.spans
  rw [h]

omit [F32 F] in
theorem post_hexTurn (h : s.Inv data id) (hlt : s.cursor < data.length) :
    Post (hexTurn data id page s) (ScanGood data id s) := by
  unfold hexTurn
  refine (post_tailOf hlt).bind fun rest hrest => ?_
  refine (post_ofOption fun _ h => h).bind fun relativeEnd hend => ?_
  have h1 : relativeEnd < rest.length := (List.idxOf?_eq_some_iff.mp hend).1
  rw [hrest, List.length_drop] at h1
  simp only
  split
  · refine (post_sliceOf (by omega) (by omega)).bind fun digits _ => ?_
    refine (post_ofOption (Q := fun _ => True) fun _ _ => trivial).bind fun bytes _ => ?_
    have h2 := h.pushSpan page (decodePdfText bytes) (Nat.le_refl s.cursor)
      (show s.cursor < s.cursor + relativeEnd + 2 by omega) (by omega)
    exact ⟨h2, by simp only; omega⟩
  · exact h.next hlt rfl (by simp only; omega)

theorem post_operatorTurn (h : s.Inv data id) (hlt : s.cursor < data.length) :
    Post (operatorTurn data s) (ScanGood data id s) := by
  unfold operatorTurn
  simp only
  split
  · exact h.next hlt rfl (Nat.lt_succ_self _)
  · rename_i hne
    split
    · trivial
    · refine h.next hlt (operator_spans _) ?_
      exact lt_of_le_of_ne le_skip (Ne.symm hne)

theorem post_scanTurn (h : s.Inv data id) :
    Post (scanTurn data id page s) (ScanGood data id s) := by
  unfold scanTurn
  cases hb : data[s.cursor]? with
  | none => exact h.1
  | some b =>
    have hlt := lt_of_getElem? hb
    simp only
    split
    · exact h.next hlt rfl (Nat.lt_succ_self _)
    · split
      · refine h.next hlt rfl ?_
        cases (data.drop s.cursor).idxOf? (byte '\n') with
        | none => exact hlt
        | some offset => simp only [Option.elim_some]; omega
      · split
        · refine (post_pdfLiteral data s.cursor).bind fun r hr => ?_
          obtain ⟨text, start, stop⟩ := r
          obtain ⟨h1, h2, h3⟩ := hr
          simp only at h1 h2 h3
          subst h1
          have h4 := h.pushSpan page text (Nat.le_refl _) h2 h3
          exact ⟨⟨h4.1, fun span hspan => le_trans (h4.2 span hspan) (Nat.le_succ _)⟩,
            by simp only; omega⟩
        · split
          · exact post_hexTurn h hlt
          · cases hn : parseNumber F data s.cursor with
            | none => exact post_operatorTurn h hlt
            | some r => exact h.next hlt rfl (parseNumber_bounds hn hlt.le).1

/-- The spans of a stream are disjoint ranges of its data, in order. -/
theorem post_extractStreamSpans (data : Bytes) (id page : Nat) :
    Post (extractStreamSpans (F := F) data id page) (Found data.length id) := by
  unfold extractStreamSpans
  refine Post.loop (ScanState.Inv data id) (fun s => data.length - s.cursor)
    (fun _ hs => post_scanTurn hs) ⟨⟨.nil, ?_, ?_⟩, ?_⟩ (by simp only; omega) <;> simp

/-! ## Pages -/

def PdfTextSpan.onPage (page : Nat) (span : PdfTextSpan F) : PdfTextSpan F := { span with page }

def ScanState.onPage (page : Nat) (s : ScanState F) : ScanState F :=
  { s with spans := s.spans.map (PdfTextSpan.onPage page) }

/-- The same turn on the other page. -/
abbrev turnOnPage (q : Nat) : Turn (ScanState F) (List (PdfTextSpan F)) →
    Turn (ScanState F) (List (PdfTextSpan F)) :=
  Turn.map (ScanState.onPage q) (List.map (PdfTextSpan.onPage q))

omit [F32 F] in
theorem pushSpan_onPage {p q start stop : Nat} {text : Str} :
    (s.onPage q).pushSpan id q start stop text = (s.pushSpan id p start stop text).onPage q := by
  unfold ScanState.pushSpan
  rw [show (s.onPage q).inText = s.inText from rfl]
  by_cases h : (s.inText && !text.isEmpty) = true
  · rw [if_pos h, if_pos h]
    simp [ScanState.onPage, PdfTextSpan.onPage]
  · rw [if_neg h, if_neg h]

omit [F32 F] in
theorem hexTurn_onPage {p q : Nat} :
    hexTurn data id q (s.onPage q) = (hexTurn data id p s).map (turnOnPage q) := by
  unfold hexTurn
  rw [Except.map_bind]
  refine Except.bind_congr_right fun rest => ?_
  rw [Except.map_bind]
  refine Except.bind_congr_right fun relativeEnd => ?_
  simp only [show (s.onPage q).inText = s.inText from rfl]
  split
  · rw [Except.map_bind]
    refine Except.bind_congr_right fun digits => ?_
    rw [Except.map_bind]
    refine Except.bind_congr_right fun bytes => ?_
    rw [pushSpan_onPage (p := p)]
    rfl
  · rfl

theorem operatorTurn_onPage {q : Nat} :
    operatorTurn data (s.onPage q) = (operatorTurn data s).map (turnOnPage q) := by
  unfold operatorTurn
  simp only [show (s.onPage q).cursor = s.cursor from rfl,
    show (s.onPage q).operators = s.operators from rfl]
  split
  · rfl
  · split
    · rfl
    · simp only [ScanState.onPage, operator_withSpans, operator_spans]
      rfl

theorem scanTurn_onPage {p q : Nat} :
    scanTurn data id q (s.onPage q) = (scanTurn data id p s).map (turnOnPage q) := by
  unfold scanTurn
  simp only [show (s.onPage q).cursor = s.cursor from rfl]
  cases data[s.cursor]? with
  | none => rfl
  | some b =>
    simp only
    split
    · rfl
    · split
      · rfl
      · split
        · rw [Except.map_bind]
          refine Except.bind_congr_right fun r => ?_
          simp only [pushSpan_onPage (p := p)]
          rfl
        · split
          · exact hexTurn_onPage
          · cases parseNumber F data s.cursor with
            | some r => rfl
            | none => exact operatorTurn_onPage

/-- The page of a scan is a label of its spans. -/
theorem extract_onPage (data : Bytes) (id p q : Nat) :
    extractStreamSpans (F := F) data id q =
      (extractStreamSpans data id p).map (List.map (PdfTextSpan.onPage q)) :=
  loop_map (ScanState.onPage q) (List.map (PdfTextSpan.onPage q)) (fun _ => scanTurn_onPage) _
    ⟨0, false, [], F32.ofNat 0, F32.ofNat 0, 0, []⟩

end Spans

end LinguaMesh.Pdf
