import LinguaMesh.Document.PdfTokens
import LinguaMesh.Document.PdfRewrite

/-!
# The literals of a content stream

The scan goes on one byte after the end of a literal. It is back at the tokens
of the stream when the walk from that byte and the walk from the literal's end
come to the same place before the next literal (`Rejoins`): this is so for white
space and for `]`, and for an operator such as `Tj`, but not for another
literal.
-/

namespace LinguaMesh.Pdf

open Search Run Relation

variable {F : Type} [F32 F] {data : Bytes}

section Statements

variable (F : Type) [F32 F] (data : Bytes)

/-- The walk from a place and the walk from one byte later meet before the next literal. -/
def Rejoins (p : Place) : Prop :=
  ∃ q, p.Skims F data q ∧ Place.Skims F data ⟨p.index + 1, p.inText⟩ q

omit [F32 F] in
/-- The literal has no text. -/
def EmptyLiteral (start : Nat) : Prop := ∃ stop, pdfLiteral data start = .ok ([], start, stop)

/-- No literal between `BT` and `ET` is empty, and the byte after a literal says nothing. -/
def Resumes : Prop :=
  ∀ start stop inText, Reached F data ⟨start, inText⟩ → LiteralAt F data start stop →
    (inText = true → ¬ EmptyLiteral data start) ∧
      (stop < data.length → Rejoins F data ⟨stop, inText⟩)

/-- Every literal between `BT` and `ET` has a span of its range. -/
def Extracted (spans : List (PdfTextSpan F)) : Prop :=
  ∀ start stop, Occurs F data start stop → ∃ span ∈ spans, span.start = start ∧ span.stop = stop

/-- Every literal between `BT` and `ET` is extracted, in order. -/
structure Complete (spans : List (PdfTextSpan F)) : Prop where
  extracted : Extracted F data spans
  ordered : spans.Pairwise fun a b => a.stop ≤ b.start

/-- Two literals between `BT` and `ET` with nothing in between. -/
def Adjacent : Prop := ∃ start middle stop, Occurs F data start middle ∧ Occurs F data middle stop

end Statements

/-! ## Walks -/

variable {p q r : Place} {start stop : Nat}

theorem Place.Skims.reaches (h : p.Skims F data q) : p.Reaches F data q :=
  ReflTransGen.mono (fun _ _ h => h.2) _ _ h

/-- A literal ahead of a walk is ahead of each place it comes to before a literal. -/
theorem Place.Skims.ahead (h : p.Skims F data q) (hr : p.Reaches F data r)
    (hl : data[r.index]? = some (byte '(')) : q.Reaches F data r := by
  induction h using ReflTransGen.head_induction_on with
  | refl => exact hr
  | head h0 _ ih =>
    obtain ⟨hne, hnext⟩ := h0
    obtain rfl | ⟨p', hp', hr'⟩ := hr.cases_head
    · exact absurd hl hne
    · rw [hnext] at hp'
      cases hp'
      exact ih hr'

theorem LiteralAt.lt (hl : LiteralAt F data start stop) : start < stop := by
  obtain ⟨hopen, n, hn, rfl⟩ := hl
  rw [drop_of_getElem? hopen, tokenLength] at hn
  rw [if_neg (by decide), if_neg (by decide), if_pos rfl] at hn
  obtain ⟨_, -, rfl⟩ := Option.map_eq_some_iff.mp hn
  omega

theorem LiteralAt.stop_eq {stop' : Nat} (h : LiteralAt F data start stop)
    (h' : LiteralAt F data start stop') : stop = stop' := by
  obtain ⟨-, n, hn, rfl⟩ := h
  obtain ⟨-, n', hn', rfl⟩ := h'
  rw [hn] at hn'
  rw [Option.some.inj hn']

theorem next_literal (hl : LiteralAt F data p.index stop) : p.next? F data = some ⟨stop, p.inText⟩ := by
  have hlt := hl.lt
  obtain ⟨hopen, n, hn, rfl⟩ := hl
  rw [Place.next?, hn, Option.map_some, textAfter_of_head (b := byte '(') _ (by decide) (by decide)]
  rw [drop_of_getElem? hopen]
  cases n with
  | zero => exact absurd hlt (Nat.lt_irrefl _)
  | succ n => rfl

theorem no_next (h : data[p.index]? = none) : p.next? F data = none := by
  rw [Place.next?, List.drop_eq_nil_of_le (List.getElem?_eq_none_iff.mp h)]
  rfl

/-- Past the end of the data there is no literal. -/
theorem none_ahead (h : data[p.index]? = none) (hr : p.Reaches F data ⟨start, true⟩) :
    ¬ LiteralAt F data start stop := by
  rintro ⟨hopen, -⟩
  obtain rfl | ⟨p', hp', -⟩ := hr.cases_head
  · rw [h] at hopen
    cases hopen
  · rw [no_next h] at hp'
    cases hp'

/-! ## The scan beside the walk -/

def ScanState.place {F : Type} (s : ScanState F) : Place := ⟨s.cursor, s.inText⟩

/-- The scan has the literals behind some place of the walk, and comes to that place. -/
def Abreast (data : Bytes) (s : ScanState F) : Prop :=
  (∃ q, Reached F data q ∧ s.place.Skims F data q ∧ ∀ start stop, Occurs F data start stop →
    (∃ span ∈ s.spans, span.start = start ∧ span.stop = stop) ∨ q.Reaches F data ⟨start, true⟩) ∨
  data.length < s.cursor ∧ Extracted F data s.spans

variable {id page : Nat} {s : ScanState F}

omit [F32 F] in
theorem mem_pushSpan {text : Str} {span : PdfTextSpan F} (h : span ∈ s.spans) :
    span ∈ (s.pushSpan id page start stop text).spans := by
  obtain ⟨found, hfound, -⟩ := spans_pushSpan s id page start stop text
  rw [hfound]
  exact List.mem_append_left _ h

omit [F32 F] in
theorem pushSpan_inText {text : Str} :
    (s.pushSpan id page start stop text).inText = s.inText := by
  unfold ScanState.pushSpan
  split <;> rfl

omit [F32 F] in
/-- A literal with a text that is read between `BT` and `ET` becomes a span. -/
theorem exists_pushSpan {text : Str} (ht : s.inText = true) (hne : text ≠ []) :
    ∃ span ∈ (s.pushSpan id page start stop text).spans, span.start = start ∧ span.stop = stop := by
  unfold ScanState.pushSpan
  rw [if_pos (by simp [ht, hne])]
  exact ⟨_, List.mem_append_right _ List.mem_cons_self, rfl, rfl⟩

theorem next_of_length {n : Nat} {s' : ScanState F}
    (hlen : tokenLength F (data.drop s.cursor) = some n) (hcursor : s'.cursor = s.cursor + n)
    (htext : s'.inText = textAfter ((data.drop s.cursor).take n) s.inText) :
    s.place.next? F data = some s'.place := by
  unfold Place.next? ScanState.place
  rw [hlen, hcursor, htext]
  rfl

/-- The scan at the end of a literal that it has read. -/
theorem Abreast.literal (hres : Resumes F data) {text : Str} {stop : Nat}
    (hreached : Reached F data s.place)
    (hahead : ∀ start stop, Occurs F data start stop →
      (∃ span ∈ s.spans, span.start = start ∧ span.stop = stop) ∨
        s.place.Reaches F data ⟨start, true⟩)
    (hl : LiteralAt F data s.cursor stop) (ht : pdfLiteral data s.cursor = .ok (text, s.cursor, stop)) :
    Abreast data { s.pushSpan id page s.cursor stop text with cursor := stop + 1 } := by
  have hnext : s.place.next? F data = some ⟨stop, s.inText⟩ := next_literal (p := s.place) hl
  have hend : Reached F data ⟨stop, s.inText⟩ := hreached.tail hnext
  obtain ⟨hne, hrejoins⟩ := hres s.cursor stop s.inText hreached hl
  have hahead' : ∀ start' stop', Occurs F data start' stop' →
      (∃ span ∈ (s.pushSpan id page s.cursor stop text).spans,
        span.start = start' ∧ span.stop = stop') ∨
      Place.Reaches F data ⟨stop, s.inText⟩ ⟨start', true⟩ := by
    intro start' stop' ho
    rcases hahead start' stop' ho with ⟨span, hspan, h⟩ | hr
    · exact .inl ⟨span, mem_pushSpan hspan, h⟩
    · obtain he | ⟨p', hp', hr'⟩ := hr.cases_head
      · -- the literal that was read
        have hcursor : s.cursor = start' := congrArg Place.index he
        have hin : s.inText = true := congrArg Place.inText he
        subst hcursor
        obtain rfl := hl.stop_eq ho.2
        refine .inl (exists_pushSpan hin ?_)
        rintro rfl
        exact hne hin ⟨stop, ht⟩
      · rw [hnext] at hp'
        cases hp'
        exact .inr hr'
  have hbound : stop ≤ data.length := ((post_pdfLiteral data s.cursor).ok ht).2.2
  by_cases hlt : stop < data.length
  · obtain ⟨q, h1, h2⟩ := hrejoins hlt
    refine .inl ⟨q, hend.trans h1.reaches, ?_, fun start' stop' ho => ?_⟩
    · have hplace : ({ s.pushSpan id page s.cursor stop text with cursor := stop + 1 } :
          ScanState F).place = ⟨stop + 1, s.inText⟩ := by
        unfold ScanState.place
        rw [pushSpan_inText]
      rw [hplace]
      exact h2
    · exact (hahead' start' stop' ho).imp_right fun hr => h1.ahead hr ho.2.1
  · refine .inr ⟨by simp only; omega, fun start' stop' ho => ?_⟩
    refine (hahead' start' stop' ho).resolve_right fun hr => ?_
    exact none_ahead (List.getElem?_eq_none_iff.mpr (Nat.not_lt.mp hlt)) hr ho.2

/-- A turn of the scan keeps abreast of the walk. -/
theorem abreast_turn (hres : Resumes F data) (hs : Abreast data s)
    {t : Turn (ScanState F) (List (PdfTextSpan F))} (ht : Turned data id page s t) :
    match t with
    | .next s' => Abreast data s'
    | .done spans => Extracted F data spans := by
  rcases hs with ⟨q, hreached, hskims, hahead⟩ | ⟨hend, hall⟩
  · cases ht with
    | finished hnone =>
      intro start stop ho
      refine (hahead start stop ho).resolve_right fun hr => ?_
      exact none_ahead (p := s.place) hnone (hskims.reaches.trans hr) ho.2
    | @token n s' found hopen hlen hcursor htext hspans hstart =>
      have hnext := next_of_length hlen hcursor htext
      have hgrown : ∀ start stop, (∃ span ∈ s.spans, span.start = start ∧ span.stop = stop) →
          ∃ span ∈ s'.spans, span.start = start ∧ span.stop = stop := by
        rintro start stop ⟨span, hspan, h⟩
        exact ⟨span, hspans ▸ List.mem_append_left _ hspan, h⟩
      obtain rfl | ⟨p', hp', hskims'⟩ := hskims.cases_head
      · refine .inl ⟨s'.place, hreached.tail hnext, .refl, fun start stop ho => ?_⟩
        rcases hahead start stop ho with h | hr
        · exact .inl (hgrown start stop h)
        · exact .inr (Place.Skims.ahead (.single ⟨hopen, hnext⟩) hr ho.2.1)
      · rw [hnext] at hp'
        cases hp'.2
        exact .inl ⟨q, hreached, hskims', fun start stop ho =>
          (hahead start stop ho).imp_left (hgrown start stop)⟩
    | @literal text n hopen hlen hl =>
      obtain rfl | ⟨p', hp', -⟩ := hskims.cases_head
      · exact Abreast.literal hres hreached hahead ⟨hopen, n, hlen, rfl⟩ hl
      · exact absurd hopen hp'.1
  · have hnone : data[s.cursor]? = none := List.getElem?_eq_none_iff.mpr hend.le
    cases ht with
    | finished _ => exact hall
    | token hopen hlen =>
      rw [List.drop_eq_nil_of_le hend.le] at hlen
      cases hlen
    | literal hopen =>
      rw [hnone] at hopen
      cases hopen

/-- A scan that resumes where it should extracts every literal. -/
theorem extracted_of_resumes (hres : Resumes F data) {spans : List (PdfTextSpan F)}
    (h : extractStreamSpans data id page = .ok spans) : Extracted F data spans := by
  have hstart : Abreast data (⟨0, false, [], F32.ofNat 0, F32.ofNat 0, 0, []⟩ : ScanState F) :=
    .inl ⟨⟨0, false⟩, .refl, .refl, fun start stop ho => .inr ho.1⟩
  refine loop_ok (P := fun s spans => Abreast data s → Extracted F data spans) ?_ ?_ h hstart
  · exact fun s spans ht hs => abreast_turn hres hs (turned ht)
  · exact fun s s' spans ht ih hs => ih (abreast_turn hres hs (turned ht))

/-! ## What a complete scan shows -/

/-- The spans of literals: each has a text, and ends before the scan goes on. -/
structure Apart (data : Bytes) (s : ScanState F) : Prop where
  literal : ∀ span ∈ s.spans, data[span.start]? = some (byte '(') → span.stop < s.cursor ∧
    ∃ text, text ≠ [] ∧ pdfLiteral data span.start = .ok (text, span.start, span.stop)
  apart : s.spans.Pairwise fun a b => data[a.start]? = some (byte '(') → a.stop < b.start

theorem apart_turn {s' : ScanState F} (hs : Apart data s)
    (ht : Turned data id page s (.next s')) : Apart data s' := by
  cases ht with
  | @token n _ found hopen hlen hcursor htext hspans hstart =>
    constructor
    · intro span hspan hl
      rw [hspans] at hspan
      rcases List.mem_append.mp hspan with h | h
      · obtain ⟨hstop, htext'⟩ := hs.literal span h hl
        exact ⟨by omega, htext'⟩
      · exact absurd (hstart span h ▸ hl) hopen
    · rw [hspans]
      refine List.pairwise_append.mpr ⟨hs.apart, ?_, fun a ha b hb hl => ?_⟩
      · exact List.pairwise_of_forall_mem_list fun a ha _ _ hl => absurd (hstart a ha ▸ hl) hopen
      · rw [hstart b hb]
        exact (hs.literal a ha hl).1
  | @literal text n hopen hlen hl =>
    have hold : ∀ span ∈ s.spans, data[span.start]? = some (byte '(') →
        span.stop < s.cursor + n + 1 ∧
          ∃ text, text ≠ [] ∧ pdfLiteral data span.start = .ok (text, span.start, span.stop) := by
      intro span hspan hs'
      obtain ⟨hstop, htext⟩ := hs.literal span hspan hs'
      exact ⟨by omega, htext⟩
    unfold ScanState.pushSpan
    split
    · rename_i hpush
      constructor
      · intro span hspan hs'
        rcases List.mem_append.mp hspan with h | h
        · exact hold span h hs'
        · rw [List.mem_singleton.mp h]
          refine ⟨Nat.lt_succ_self _, text, ?_, hl⟩
          rintro rfl
          simp at hpush
      · refine List.pairwise_append.mpr ⟨hs.apart, List.pairwise_singleton _ _, fun a ha b hb hs' => ?_⟩
        rw [List.mem_singleton.mp hb]
        exact (hs.literal a ha hs').1
    · exact ⟨hold, hs.apart⟩

theorem apart_of_scan {spans : List (PdfTextSpan F)}
    (h : extractStreamSpans data id page = .ok spans) :
    ∃ s : ScanState F, s.spans = spans ∧ Apart data s := by
  refine loop_ok (P := fun s spans => Apart data s → ∃ s : ScanState F, s.spans = spans ∧
    Apart data s) ?_ ?_ h ⟨fun _ h => absurd h List.not_mem_nil, .nil⟩
  · intro s spans ht hs
    cases turned ht with
    | finished => exact ⟨s, rfl, hs⟩
  · exact fun s s' spans ht ih hs => ih (apart_turn hs (turned ht))

/-- The walk stays among places that it does not leave. -/
theorem reached_mem (places : List Place) (h0 : ⟨0, false⟩ ∈ places)
    (hclosed : places.all (fun p => (p.next? F data).all (places.contains ·)) = true)
    (h : Reached F data p) : p ∈ places := by
  induction h with
  | refl => exact h0
  | tail _ hnext ih =>
    have hall := List.all_eq_true.mp hclosed _ ih
    rw [hnext] at hall
    exact List.contains_iff_mem.mp hall

deriving instance DecidableEq for PdfTextSpan

/-- A literal and the operator that shows it. -/
def shownStream : Bytes := asciiBytes "BT (a)Tj ET"

/-- Two literals side by side. -/
def adjacentStream : Bytes := asciiBytes "BT (a)(b)Tj ET"

section Streams

local instance literalsF32 : F32 Int := integerF32

theorem resumes_shownStream : Resumes Int shownStream := by
  intro start stop inText hreached hl
  have hmem := reached_mem
    [⟨0, false⟩, ⟨2, true⟩, ⟨3, true⟩, ⟨6, true⟩, ⟨8, true⟩, ⟨9, true⟩, ⟨11, false⟩]
    List.mem_cons_self (by decide +kernel) hreached
  have hplace : start = 3 ∧ inText = true := by
    have hopen := hl.1
    simp only [List.mem_cons, Place.mk.injEq, List.not_mem_nil, or_false] at hmem
    rcases hmem with ⟨rfl, rfl⟩ | ⟨rfl, rfl⟩ | ⟨rfl, rfl⟩ | ⟨rfl, rfl⟩ | ⟨rfl, rfl⟩ | ⟨rfl, rfl⟩ |
      ⟨rfl, rfl⟩ <;> first | exact ⟨rfl, rfl⟩ | exact absurd hopen (by decide +kernel)
  obtain ⟨rfl, rfl⟩ := hplace
  have hstop : stop = 6 := hl.stop_eq ⟨by decide +kernel, 3, by decide +kernel, rfl⟩
  subst hstop
  have hquiet : shownStream[6]? ≠ some (byte '(') := by decide +kernel
  have hquiet' : shownStream[7]? ≠ some (byte '(') := by decide +kernel
  refine ⟨fun _ => ?_, fun _ => ⟨⟨8, true⟩, .single ⟨hquiet, by decide +kernel⟩,
    .single ⟨hquiet', by decide +kernel⟩⟩⟩
  rintro ⟨stop, hempty⟩
  have hread : pdfLiteral shownStream 3 = .ok (['a'], 3, 6) := by decide +kernel
  rw [hread] at hempty
  cases hempty

end Streams

end LinguaMesh.Pdf
