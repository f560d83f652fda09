import LinguaMesh.Lib.Holes
import LinguaMesh.Lib.Cutting
import LinguaMesh.Document.Rescan
import LinguaMesh.Document.Translation

/-!
# XML parts

`docx.rs` and `epub.rs` check a part with the reader of `quick_xml`, find the
text spans with a scan of their own, and write a part again by replacing what
stands in the spans. The two files have the same `validate_xml`, `tag_end` and
`element_name`, and one loop that writes the spans (`rewriteSpans`).

`quick_xml` is a parameter (`QuickXml`); what is used of it is `QuickXml.Lawful`.
An escaped text has nothing in it that could end what the reader is in, so it may stand
wherever words may. That is what keeps a written part readable (`reads_refill`); where a text
stands in character data it always may (`reads_refill_clear`).
-/

namespace LinguaMesh

open Search Run Holes

/-- `quick_xml`: whether `Reader` reads a text to its end without an error and without a document
type declaration, `escape::escape`, and `escape::unescape` (`none` for an error). -/
class QuickXml where
  reads : Str → Bool
  escape : Str → Str
  unescape : Str → Option Str

/-- The text is over, or markup begins. -/
def AtMarkup (t : Str) : Prop := t = [] ∨ t.head? = some '<'

theorem AtMarkup.start {t q : Str} (h : AtMarkup t) (hq : q <+: t) : AtMarkup q := by
  cases q with
  | nil => exact .inl rfl
  | cons c q =>
    obtain ⟨r, rfl⟩ := hq
    rcases h with h | h
    · cases h
    · exact .inr h

/-- The text has not begun, or markup ends. -/
def AfterMarkup (t : Str) : Prop := t = [] ∨ t.getLast? = some '>'

/-- Letters and digits. -/
def IsWord (t : Str) : Prop := t ≠ [] ∧ ∀ c ∈ t, c.isAlphanum = true

structure QuickXml.Lawful [QuickXml] : Prop where
  unescape_escape : ∀ t, '\x00' ∉ t → unescape (escape t) = some t
  escape_plain : ∀ t, '\x00' ∉ t → '<' ∉ escape t ∧ '\x00' ∉ escape t
  escape_word : ∀ t, IsWord t → escape t = t
  /-- Behind a `>` and before a `<`, an escaped text may stand where any word may. -/
  reads_escape : ∀ a b t, AfterMarkup a → AtMarkup b → '\x00' ∉ t →
    (∀ word, IsWord word → reads (a ++ word ++ b) = true) → reads (a ++ escape t ++ b) = true
  /-- A text that is read to its end leaves the reader in character data. -/
  reads_text : ∀ a c b t, reads a = true → '<' ∉ c → AtMarkup b → '\x00' ∉ t →
    reads (a ++ c ++ b) = true → reads (a ++ escape t ++ b) = true

def validateXml [QuickXml] (xml : Str) : Run DocumentError Unit :=
  if QuickXml.reads xml then .ok () else fail .invalidStructure

/-- `tag_end`, on the text from the start of a tag on: the length of the tag. -/
def tagEnd (tail : Str) : Run DocumentError Nat :=
  ofOption .invalidStructure ((htmlTagEnd none tail.tail).map (· + 1))

def elementName (raw : Str) : Option Str :=
  match raw with
  | '<' :: body =>
    let body := if body.head? = some '/' then body.tail else body
    let name := (trimStart body).takeWhile fun c => !(isAsciiWhitespace c || c == '/' || c == '>')
    if name = [] then none else some name
  | _ => none

/-! ## Tags -/

/-- A tag as `tag_end` takes it. -/
def IsTag (tag : Str) : Prop := ∃ body, tag = '<' :: body ∧ htmlTagEnd none body = some body.length

theorem tagEnd_ok {tail : Str} {n : Nat} (hhead : tail.head? = some '<') :
    tagEnd tail = .ok n ↔ ∃ tag rest, tail = tag ++ rest ∧ tag.length = n ∧ IsTag tag := by
  obtain ⟨tail, rfl⟩ : ∃ t, tail = '<' :: t := by
    cases tail with
    | nil => cases hhead
    | cons c t => exact ⟨t, by rw [Option.some.inj hhead]⟩
  unfold tagEnd
  rw [ofOption_eq_ok, Option.map_eq_some_iff, List.tail_cons]
  constructor
  · rintro ⟨m, hm, rfl⟩
    have hlen : (tail.take m).length = m := by
      rw [List.length_take, Nat.min_eq_left (htmlTagEnd_le hm).2]
    have hlocal := (htmlTagEnd_local hm []).1
    rw [List.append_nil] at hlocal
    exact ⟨'<' :: tail.take m, tail.drop m, by simp, by simp [hlen], tail.take m, rfl, by rw [hlocal, hlen]⟩
  · rintro ⟨tag, rest, htail, rfl, body, rfl, hbody⟩
    obtain ⟨-, rfl⟩ := List.cons.inj htail
    have hlocal := (htmlTagEnd_local hbody rest).1
    rw [List.take_length] at hlocal
    exact ⟨body.length, hlocal, rfl⟩

theorem IsTag.head {tag : Str} (h : IsTag tag) (rest : Str) : (tag ++ rest).head? = some '<' := by
  obtain ⟨body, rfl, -⟩ := h
  rfl

theorem IsTag.two_le {tag : Str} (h : IsTag tag) : 2 ≤ tag.length := by
  obtain ⟨body, rfl, hbody⟩ := h
  have := (htmlTagEnd_le hbody).1
  rw [List.length_cons]
  omega

theorem htmlTagEnd_last {quote : Option Char} {s : Str} {n : Nat} (h : htmlTagEnd quote s = some n) :
    (s.take n).getLast? = some '>' := by
  fun_induction htmlTagEnd quote s generalizing n with
  | case1 => cases h
  | case4 =>
    cases h
    rfl
  | _ =>
    rename_i ih
    obtain ⟨m, hm, rfl⟩ := Option.map_eq_some_iff.mp h
    rw [List.take_succ_cons, List.getLast?_cons, ih hm]
    rfl

theorem IsTag.last {tag : Str} (h : IsTag tag) : tag.getLast? = some '>' := by
  obtain ⟨body, rfl, hbody⟩ := h
  have hlast := htmlTagEnd_last hbody
  rw [List.take_length] at hlast
  rw [List.getLast?_cons, hlast]
  rfl

theorem IsTag.last_append {tag : Str} (h : IsTag tag) (front : Str) :
    (front ++ tag).getLast? = some '>' := by
  have hne : tag ≠ [] := List.ne_nil_of_length_pos (Nat.lt_of_lt_of_le Nat.zero_lt_two h.two_le)
  rw [List.getLast?_append_of_ne_nil _ hne, h.last]

/-! ## Writing the spans -/

/-- The state of the loop of `rewrite_xml` and `rewrite_xhtml`: `cursor_bytes`, or `byte_cursor`, is
the end of the last span. -/
structure Rewriting where
  output : Str
  byteCursor : Nat
  cursor : Nat

/-- One turn of the loop, for the span from `range.1` to `range.2`. -/
def rewriteSpan [QuickXml] (xml : Str) (segments : List DocumentSegment) (s : Rewriting)
    (range : Nat × Nat) : Run DocumentError Rewriting := do
  let segment ← ofOption .invalidStructure segments[s.cursor]?
  let content ← sliceOf xml range.1 range.2
  let source ← ofOption .invalidStructure (QuickXml.unescape content)
  if source ≠ segment.sourceText then fail .invalidStructure
  else do
    let gap ← sliceOf xml s.byteCursor range.1
    let new ← match segment.kind with
      | .verbatim => .ok content
      | .prose => (ofOption (.segmentIncomplete segment.index) segment.translatedText).map QuickXml.escape
    .ok ⟨s.output ++ gap ++ new, range.2, s.cursor + 1⟩

/-- The loop: the new text and the new `cursor`. -/
def rewriteSpans [QuickXml] (xml : Str) (segments : List DocumentSegment) (cursor : Nat)
    (ranges : List (Nat × Nat)) : Run DocumentError (Str × Nat) := do
  let s ← ranges.foldlM (rewriteSpan xml segments) ⟨[], 0, cursor⟩
  let rest ← tailOf xml s.byteCursor
  .ok (s.output ++ rest, s.cursor)

section Rewrite

variable [QuickXml]

/-- A segment of the content of a span, with a translation if it is to be translated. -/
structure Assigned (content : Str) (s : DocumentSegment) : Prop where
  source : QuickXml.unescape content = some s.sourceText
  translated : s.kind = .prose → ∃ t, s.translatedText = some t ∧ '\x00' ∉ t

/-- What is written for a span. -/
def written (content : Str) (s : DocumentSegment) : Str :=
  match s.kind with
  | .verbatim => content
  | .prose => QuickXml.escape (s.translatedText.getD [])

variable {content : Str} {s : DocumentSegment}

theorem Assigned.unescape_written (laws : QuickXml.Lawful) (h : Assigned content s) :
    QuickXml.unescape (written content s) = some s.output := by
  unfold written DocumentSegment.output
  cases hkind : s.kind with
  | verbatim => exact h.source
  | prose =>
    obtain ⟨t, ht, hnul⟩ := h.translated hkind
    rw [ht]
    exact laws.unescape_escape t hnul

/-- What is written for a span is plain if the content was. -/
theorem Assigned.plain_written (laws : QuickXml.Lawful) (h : Assigned content s)
    (hbracket : '<' ∉ content) : '<' ∉ written content s := by
  unfold written
  cases hkind : s.kind with
  | verbatim => exact hbracket
  | prose =>
    obtain ⟨t, ht, hnul⟩ := h.translated hkind
    rw [ht]
    exact (laws.escape_plain t hnul).1

theorem Assigned.nul_written (laws : QuickXml.Lawful) (h : Assigned content s)
    (hnul : '\x00' ∉ content) : '\x00' ∉ written content s := by
  unfold written
  cases hkind : s.kind with
  | verbatim => exact hnul
  | prose =>
    obtain ⟨t, ht, hnul⟩ := h.translated hkind
    rw [ht]
    exact (laws.escape_plain t hnul).2

/-- A turn over a span. -/
theorem rewriteSpan_ok {before gap content rest output : Str} {segments : List DocumentSegment}
    {cursor : Nat} (hs : segments[cursor]? = some s) (h : Assigned content s) :
    rewriteSpan (before ++ gap ++ content ++ rest) segments ⟨output, before.length, cursor⟩
        (before.length + gap.length, before.length + gap.length + content.length) =
      .ok ⟨output ++ gap ++ written content s, before.length + gap.length + content.length,
        cursor + 1⟩ := by
  have hcontent : (sliceOf (before ++ gap ++ content ++ rest) (before.length + gap.length)
      (before.length + gap.length + content.length) : Run DocumentError Str) = .ok content := by
    rw [sliceOf_ok (Nat.le_add_right _ _) (by simp only [List.length_append]; omega)]
    simp only [← List.length_append, List.take_left, List.drop_left]
  have hgap : (sliceOf (before ++ gap ++ content ++ rest) before.length
      (before.length + gap.length) : Run DocumentError Str) = .ok gap := by
    rw [sliceOf_ok (Nat.le_add_right _ _) (by simp only [List.length_append]; omega)]
    simp only [← List.length_append, List.append_assoc (before ++ gap), List.take_left, List.drop_left]
  unfold rewriteSpan
  simp only [hs, ofOption, Except.ok_bind, hcontent, h.source, ne_eq, not_true_eq_false, if_false, hgap]
  unfold written
  cases hkind : s.kind with
  | verbatim => rfl
  | prose =>
    obtain ⟨t, ht, -⟩ := h.translated hkind
    rw [ht]
    rfl

/-- The contents that are written. -/
def news (w : List (Str × Bool)) (segments : List DocumentSegment) : List Str :=
  List.zipWith written (contents w) segments

/-- The loop fills the holes. `gap` is what it has not yet copied. -/
theorem rewriteSpans_from {w : List (Str × Bool)} {segs : List DocumentSegment}
    (h : List.Forall₂ Assigned (contents w) segs) {done rest : List DocumentSegment}
    {before gap output : Str} :
    ∃ last, (holes (before.length + gap.length) w).foldlM
        (rewriteSpan (before ++ gap ++ text w) (done ++ segs ++ rest)) ⟨output, before.length, done.length⟩ =
          .ok last ∧ last.cursor = done.length + segs.length ∧
        last.byteCursor ≤ (before ++ gap ++ text w).length ∧
        last.output ++ (before ++ gap ++ text w).drop last.byteCursor =
          output ++ gap ++ text (refill w (news w segs)) := by
  induction w generalizing segs done before gap output with
  | nil =>
    cases h
    refine ⟨⟨output, before.length, done.length⟩, rfl, rfl, ?_, ?_⟩
    · simp only [List.length_append]
      omega
    · simp [refill, news]
  | cons p w ih =>
    obtain ⟨content, hole⟩ := p
    cases hole with
    | false =>
      obtain ⟨last, hfold, hcursor, hle, hout⟩ := @ih segs h done before (gap ++ content) output
      refine ⟨last, ?_, hcursor, ?_, ?_⟩
      · rw [List.length_append, ← Nat.add_assoc, ← List.append_assoc] at hfold
        rw [text_cons, ← List.append_assoc]
        exact hfold
      · rw [← List.append_assoc] at hle
        rw [text_cons, ← List.append_assoc]
        exact hle
      · simpa [refill, news] using hout
    | true =>
      cases h with
      | @cons _ seg _ segs hseg hsegs =>
        have hget : (done ++ seg :: segs ++ rest)[done.length]? = some seg := by simp
        obtain ⟨last, hfold, hcursor, hle, hout⟩ := @ih segs hsegs (done ++ [seg]) (before ++ gap ++ content) []
          (output ++ gap ++ written content seg)
        refine ⟨last, ?_, ?_, ?_, ?_⟩
        · rw [text_cons, ← List.append_assoc, holes, List.foldlM_cons, rewriteSpan_ok hget hseg,
            Except.ok_bind]
          simpa [Nat.add_assoc] using hfold
        · simp only [List.length_append, List.length_cons, List.length_nil] at hcursor ⊢
          omega
        · simpa using hle
        · simpa [refill, news] using hout

/-- The loop writes each segment of the spans into its span, once. -/
theorem rewriteSpans_ok {w : List (Str × Bool)} {segs : List DocumentSegment}
    (h : List.Forall₂ Assigned (contents w) segs) (done rest : List DocumentSegment) :
    rewriteSpans (text w) (done ++ segs ++ rest) done.length (holes 0 w) =
      .ok (text (refill w (news w segs)), done.length + segs.length) := by
  obtain ⟨last, hfold, hcursor, hle, hout⟩ := @rewriteSpans_from _ w segs h done rest [] [] []
  simp only [List.nil_append, List.length_nil, Nat.add_zero] at hfold hle hout
  unfold rewriteSpans
  rw [hfold, Except.ok_bind]
  unfold tailOf
  rw [sliceOf_ok hle (Nat.le_refl _), List.take_length, Except.ok_bind, hout, hcursor]

/-! ## Reading what was written -/

/-- Markup begins, or nothing is left. -/
def Opens : List (Str × Bool) → Prop
  | [] => True
  | (piece, hole) :: _ => hole = false ∧ piece.head? = some '<'

/-- The holes are text between markup. `after` says whether a hole may come first. -/
def Fenced : Bool → List (Str × Bool) → Prop
  | _, [] => True
  | after, (piece, false) :: w =>
    Fenced (if piece = [] then after else piece.getLast? == some '>') w
  | after, (content, true) :: w => after = true ∧ '<' ∉ content ∧ Opens w ∧ Fenced false w

/-- The segment with a translation, if it is to be translated. -/
structure TranslatedAs (Good : Str → Prop) (s s' : DocumentSegment) : Prop where
  same : { s' with translatedText := s.translatedText } = s
  translated : s.kind = .prose → ∃ t, s'.translatedText = some t ∧ Good t

/-- The content of a span, or the translation as it is. -/
def filling (content : Str) (s : DocumentSegment) : Str :=
  match s.kind with
  | .verbatim => content
  | .prose => s.translatedText.getD []

def fillings (w : List (Str × Bool)) (segments : List DocumentSegment) : List Str :=
  List.zipWith filling (contents w) segments

omit [QuickXml] in
theorem Fenced.plain {after : Bool} {w : List (Str × Bool)} (h : Fenced after w) :
    ∀ content ∈ contents w, '<' ∉ content := by
  induction w generalizing after with
  | nil => exact fun _ hc => absurd hc List.not_mem_nil
  | cons p w ih =>
    obtain ⟨content, hole⟩ := p
    cases hole with
    | false => exact ih h
    | true =>
      obtain ⟨-, hbracket, -, hw⟩ := h
      exact List.forall_mem_cons.mpr ⟨hbracket, ih hw⟩

omit [QuickXml] in
theorem Opens.atMarkup {w : List (Str × Bool)} (h : Opens w) (news : List Str) :
    AtMarkup (text (refill w news)) := by
  match w, h with
  | [], _ =>
    refine .inl ?_
    cases news <;> rfl
  | (piece, false) :: w, ⟨_, hhead⟩ =>
    refine .inr ?_
    rw [refill, text_cons, List.head?_append, hhead]
    rfl

omit [QuickXml] in
theorem Opens.text {w : List (Str × Bool)} (h : Opens w) : AtMarkup (text w) := by
  match w, h with
  | [], _ => exact .inl rfl
  | (piece, false) :: w, ⟨_, hhead⟩ =>
    refine .inr ?_
    rw [text_cons, List.head?_append, hhead]
    rfl

omit [QuickXml] in
theorem AfterMarkup.append {after : Bool} {front piece : Str} (h : after = true → AfterMarkup front)
    (hpiece : (if piece = [] then after else piece.getLast? == some '>') = true) :
    AfterMarkup (front ++ piece) := by
  split at hpiece
  · rename_i hempty
    rw [hempty, List.append_nil]
    exact h hpiece
  · rename_i hne
    refine .inr ?_
    rw [List.getLast?_append_of_ne_nil _ hne]
    exact beq_iff_eq.mp hpiece

omit [QuickXml] in
theorem TranslatedAs.kind {Good : Str → Prop} {s s' : DocumentSegment} (h : TranslatedAs Good s s') :
    s'.kind = s.kind := by
  rw [← h.same]

omit [QuickXml] in
theorem TranslatedAs.trans {Good Good' : Str → Prop} {s s' s'' : DocumentSegment}
    (h : TranslatedAs Good s s') (h' : TranslatedAs Good' s' s'') : TranslatedAs Good' s s'' := by
  refine ⟨?_, fun hkind => h'.translated (h.kind.trans hkind)⟩
  rw [← h.same, ← h'.same]

omit [QuickXml] in
theorem TranslatedAs.mono {Good Good' : Str → Prop} {s s' : DocumentSegment} (h : TranslatedAs Good s s')
    (hgood : ∀ t, Good t → Good' t) : TranslatedAs Good' s s' :=
  ⟨h.same, fun hkind => (h.translated hkind).imp fun t ht => ⟨ht.1, hgood t ht.2⟩⟩

omit [QuickXml] in
theorem IsWord.nulFree {t : Str} (h : IsWord t) : '\x00' ∉ t := fun hnul => absurd (h.2 _ hnul) (by decide)

/-- The segment that was read from a content, with a translation. -/
theorem TranslatedAs.assigned {s s' : DocumentSegment} (h : TranslatedAs ('\x00' ∉ ·) s s')
    (hsource : QuickXml.unescape content = some s.sourceText) : Assigned content s' := by
  refine ⟨?_, fun hkind => h.translated (h.kind.symm.trans hkind)⟩
  rw [hsource, ← h.same]

omit [QuickXml] in
/-- A segment can be translated to any word. -/
theorem TranslatedAs.word {word : Str} (hword : IsWord word) (s : DocumentSegment) :
    TranslatedAs IsWord s { s with translatedText := some word } :=
  ⟨rfl, fun _ => ⟨word, rfl, hword⟩⟩

omit [QuickXml] in
theorem exists_words (segs : List DocumentSegment) :
    ∃ segs', List.Forall₂ (TranslatedAs IsWord) segs segs' := by
  have hword : IsWord ['x'] := ⟨List.cons_ne_nil _ _, by simp⟩
  induction segs with
  | nil => exact ⟨[], .nil⟩
  | cons s segs ih =>
    obtain ⟨segs', h⟩ := ih
    exact ⟨_ :: segs', .cons (.word hword s) h⟩

theorem reads_refill_from (laws : QuickXml.Lawful) {w : List (Str × Bool)}
    {segs : List DocumentSegment} {after : Bool} {front : Str} (hw : Fenced after w)
    (h : List.Forall₂ Assigned (contents w) segs) (hfront : after = true → AfterMarkup front)
    (hreads : ∀ segs', List.Forall₂ (TranslatedAs IsWord) segs segs' →
      QuickXml.reads (front ++ text (refill w (fillings w segs'))) = true) :
    QuickXml.reads (front ++ text (refill w (news w segs))) = true := by
  induction w generalizing segs after front with
  | nil =>
    cases h
    exact hreads [] .nil
  | cons p w ih =>
    obtain ⟨content, hole⟩ := p
    cases hole with
    | false =>
      have hnew : text (refill ((content, false) :: w) (news ((content, false) :: w) segs)) =
          content ++ text (refill w (news w segs)) := rfl
      rw [hnew, ← List.append_assoc]
      refine @ih segs _ (front ++ content) hw h (fun hpiece => .append hfront hpiece) fun segs' hsegs => ?_
      rw [List.append_assoc]
      exact hreads segs' hsegs
    | true =>
      obtain ⟨hafter, -, hopens, hw⟩ := hw
      cases h with
      | @cons _ seg _ segs hseg hsegs =>
        have hnew : text (refill ((content, true) :: w) (news ((content, true) :: w) (seg :: segs))) =
            written content seg ++ text (refill w (news w segs)) := by
          simp [refill, news]
        have hfilled (seg' : DocumentSegment) (segs' : List DocumentSegment) :
            text (refill ((content, true) :: w) (fillings ((content, true) :: w) (seg' :: segs'))) =
              filling content seg' ++ text (refill w (fillings w segs')) := by
          simp [refill, fillings]
        rw [hnew, ← List.append_assoc]
        -- the words of the other texts stay as they are while this one is written
        refine ih hw hsegs (fun hfalse => absurd hfalse Bool.false_ne_true) fun segs' hwords => ?_
        unfold written
        cases hkind : seg.kind with
        | verbatim =>
          have hread := hreads (seg :: segs') (.cons ⟨rfl, fun hprose => by rw [hkind] at hprose; cases hprose⟩ hwords)
          rw [hfilled, ← List.append_assoc, filling, hkind] at hread
          exact hread
        | prose =>
          obtain ⟨t, ht, hnul⟩ := hseg.translated hkind
          rw [ht]
          refine laws.reads_escape front _ t (hfront hafter) (hopens.atMarkup _) hnul fun word hword => ?_
          have hread := hreads (_ :: segs') (.cons (.word hword seg) hwords)
          rw [hfilled, ← List.append_assoc, filling, hkind] at hread
          exact hread

/-- A part is readable with any translations if it is with any words in their place. -/
theorem reads_refill (laws : QuickXml.Lawful) {w : List (Str × Bool)} {segs : List DocumentSegment}
    (hw : Fenced true w) (h : List.Forall₂ Assigned (contents w) segs)
    (hreads : ∀ segs', List.Forall₂ (TranslatedAs IsWord) segs segs' →
      QuickXml.reads (text (refill w (fillings w segs'))) = true) :
    QuickXml.reads (text (refill w (news w segs))) = true :=
  @reads_refill_from _ laws w segs true [] hw h (fun _ => .inl rfl) hreads

/-- The text before a span that is to be translated is a text that the reader reads to its end: it
stands in character data there. -/
def Clear (xml : Str) (range : Nat × Nat) (s : DocumentSegment) : Prop :=
  s.kind = .prose → QuickXml.reads (xml.take range.1) = true

theorem reads_clear_from (laws : QuickXml.Lawful) {w : List (Str × Bool)}
    {segs : List DocumentSegment} {after : Bool} {old new : Str} (hw : Fenced after w)
    (h : List.Forall₂ Assigned (contents w) segs)
    (hclear : List.Forall₂ (Clear (old ++ text w)) (holes old.length w) segs)
    (hsame : ∀ q, q <+: text w → QuickXml.reads (old ++ q) = true → QuickXml.reads (new ++ q) = true) :
    QuickXml.reads (old ++ text w) = true →
      QuickXml.reads (new ++ text (refill w (news w segs))) = true := by
  induction w generalizing segs after old new with
  | nil =>
    cases h
    exact hsame [] List.nil_prefix
  | cons p w ih =>
    obtain ⟨content, hole⟩ := p
    -- what is read after the piece was read after it before
    have hpast (q : Str) (hq : q <+: text w) (hreads : QuickXml.reads (old ++ content ++ q) = true) :
        QuickXml.reads (new ++ content ++ q) = true := by
      rw [List.append_assoc] at hreads ⊢
      refine hsame (content ++ q) ?_ hreads
      rw [text_cons]
      exact (List.prefix_append_right_inj content).mpr hq
    rw [text_cons, ← List.append_assoc] at hclear ⊢
    cases hole with
    | false =>
      rw [holes, ← List.length_append] at hclear
      have := @ih segs _ (old ++ content) (new ++ content) hw h hclear hpast
      rw [List.append_assoc new] at this
      exact this
    | true =>
      obtain ⟨-, hbracket, hopens, hw⟩ := hw
      cases h with
      | @cons _ seg _ segs hseg hsegs =>
        rw [holes, ← List.length_append] at hclear
        obtain ⟨hat, hclear⟩ := List.forall₂_cons.mp hclear
        have hnew : text (refill ((content, true) :: w) (news ((content, true) :: w) (seg :: segs))) =
            written content seg ++ text (refill w (news w segs)) := by
          simp [refill, news]
        rw [hnew, ← List.append_assoc]
        refine ih hw hsegs hclear fun q hq hreads => ?_
        have hold := hpast q hq hreads
        unfold written
        cases hkind : seg.kind with
        | verbatim => exact hold
        | prose =>
          obtain ⟨t, ht, hnul⟩ := hseg.translated hkind
          have hread := hat hkind
          dsimp only at hread
          rw [List.append_assoc, List.take_left] at hread
          have hstands := hsame [] List.nil_prefix
          rw [List.append_nil, List.append_nil] at hstands
          rw [ht]
          exact laws.reads_text _ _ _ t (hstands hread) hbracket (hopens.text.start hq) hnul hold

/-- A part stays readable if the reader stands in character data where text is written. -/
theorem reads_refill_clear (laws : QuickXml.Lawful) {w : List (Str × Bool)} {segs : List DocumentSegment}
    (hw : Fenced true w) (h : List.Forall₂ Assigned (contents w) segs)
    (hclear : List.Forall₂ (Clear (text w)) (holes 0 w) segs)
    (hreads : QuickXml.reads (text w) = true) :
    QuickXml.reads (text (refill w (news w segs))) = true :=
  @reads_clear_from _ laws w segs true [] [] hw h hclear (fun _ _ h => h) hreads

/-! ## What a rewriting keeps -/

/-- A part with the translations as they are. `c` is the end of the last span. -/
def filled (xml : Str) : Nat → List (Nat × Nat) → List DocumentSegment → Str
  | c, range :: ranges, s :: segments =>
    slice xml c range.1 ++ filling (slice xml range.1 range.2) s ++ filled xml range.2 ranges segments
  | c, _, _ => xml.drop c

omit [QuickXml] in
theorem filled_from {w : List (Str × Bool)} {segs : List DocumentSegment}
    (h : (contents w).length = segs.length) (before gap : Str) :
    filled (before ++ gap ++ text w) before.length (holes (before.length + gap.length) w) segs =
      gap ++ text (refill w (fillings w segs)) := by
  induction w generalizing segs before gap with
  | nil =>
    cases segs with
    | nil => simp [filled, holes, refill, fillings]
    | cons s segs => cases h
  | cons p w ih =>
    obtain ⟨content, hole⟩ := p
    cases hole with
    | false =>
      have hrest := ih h before (gap ++ content)
      rw [List.length_append, ← Nat.add_assoc, ← List.append_assoc] at hrest
      rw [text_cons, ← List.append_assoc]
      simpa [holes, refill, fillings] using hrest
    | true =>
      cases segs with
      | nil => cases h
      | cons s segs =>
        have hrest := ih (Nat.succ.inj h) (before ++ gap ++ content) []
        simp only [List.append_nil, List.length_append, List.length_nil, Nat.add_zero,
          List.nil_append] at hrest
        have hgap : slice (before ++ gap ++ (content ++ text w)) before.length
            (before.length + gap.length) = gap := slice_append before gap _
        have hcontent : slice (before ++ gap ++ (content ++ text w)) (before.length + gap.length)
            (before.length + gap.length + content.length) = content := by
          rw [← List.length_append, ← List.append_assoc]
          exact slice_append (before ++ gap) content (text w)
        rw [text_cons, holes, filled, hgap, hcontent, ← List.append_assoc (before ++ gap), hrest]
        simp [refill, fillings]

omit [QuickXml] in
theorem filled_holes {w : List (Str × Bool)} {segs : List DocumentSegment}
    (h : (contents w).length = segs.length) :
    filled (text w) 0 (holes 0 w) segs = text (refill w (fillings w segs)) := by
  have hfrom := @filled_from w segs h [] []
  simpa using hfrom

/-- A part that was written again, with its spans then and now: outside of the spans it is the same,
and what stands in them reads as the output of the segments. -/
structure TextOnly (xml : Str) (ranges : List (Nat × Nat)) (xml' : Str) (ranges' : List (Nat × Nat))
    (segments : List DocumentSegment) : Prop where
  number : ranges'.length = ranges.length
  outside : outside xml' 0 ranges' = outside xml 0 ranges
  contents : List.Forall₂ (fun range s => QuickXml.unescape (slice xml' range.1 range.2) = some s.output)
    ranges' segments

theorem length_news {w : List (Str × Bool)} {segs : List DocumentSegment}
    (h : List.Forall₂ Assigned (contents w) segs) : (news w segs).length = (contents w).length := by
  rw [news, List.length_zipWith, h.length_eq, Nat.min_self]

theorem unescape_news (laws : QuickXml.Lawful) {contents : List Str} {segs : List DocumentSegment}
    (h : List.Forall₂ Assigned contents segs) :
    List.Forall₂ (fun content s => QuickXml.unescape content = some s.output)
      (List.zipWith written contents segs) segs := by
  induction h with
  | nil => exact .nil
  | cons hseg _ ih => exact .cons (hseg.unescape_written laws) ih

/-- Words are written as they are. -/
theorem news_words (laws : QuickXml.Lawful) {segs segs' : List DocumentSegment}
    (h : List.Forall₂ (TranslatedAs IsWord) segs segs') (contents : List Str) :
    List.zipWith written contents segs' = List.zipWith filling contents segs' := by
  induction h generalizing contents with
  | nil => cases contents <;> rfl
  | @cons s s' _ _ hs _ ih =>
    cases contents with
    | nil => rfl
    | cons content contents =>
      have hfirst : written content s' = filling content s' := by
        unfold written filling
        cases hkind : s'.kind with
        | verbatim => rfl
        | prose =>
          obtain ⟨word, hword, hgood⟩ := hs.translated (hs.kind.symm.trans hkind)
          rw [hword]
          exact laws.escape_word word hgood
      rw [List.zipWith_cons_cons, List.zipWith_cons_cons, hfirst, ih]

theorem plain_news (laws : QuickXml.Lawful) {contents : List Str} {segs : List DocumentSegment}
    (h : List.Forall₂ Assigned contents segs) (hplain : ∀ c ∈ contents, '<' ∉ c ∧ '\x00' ∉ c) :
    ∀ new ∈ List.zipWith written contents segs, '<' ∉ new ∧ '\x00' ∉ new := by
  induction h with
  | nil => exact fun _ hnew => absurd hnew List.not_mem_nil
  | cons hseg _ ih =>
    obtain ⟨⟨hbracket, hnul⟩, hrest⟩ := List.forall_mem_cons.mp hplain
    exact List.forall_mem_cons.mpr
      ⟨⟨hseg.plain_written laws hbracket, hseg.nul_written laws hnul⟩, ih hrest⟩

theorem textOnly_refill (laws : QuickXml.Lawful) {w : List (Str × Bool)} {segs : List DocumentSegment}
    (h : List.Forall₂ Assigned (contents w) segs) :
    TextOnly (text w) (holes 0 w) (text (refill w (news w segs))) (holes 0 (refill w (news w segs)))
      segs := by
  have hlength := length_news h
  have hcontents := contents_refill hlength
  refine ⟨?_, ?_, ?_⟩
  · rw [length_holes, length_holes, hcontents, hlength]
  · have hold := outside_holes [] [] w
    have hnew := outside_holes [] [] (refill w (news w segs))
    rw [gaps_refill, ← hold] at hnew
    exact hnew
  · have hslices := slices_holes [] (refill w (news w segs))
    rw [hcontents] at hslices
    have hread := unescape_news laws h
    rw [← news, ← hslices, List.forall₂_map_left_iff] at hread
    exact hread

end Rewrite

end LinguaMesh
