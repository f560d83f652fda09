import LinguaMesh.Document.Xml

/-!
# The text spans of OOXML parts

`text_spans` goes over a part tag by tag, looks for the elements that hold text
(`w:t`, `a:t` or `t`), and takes the text up to the closing tag. For a workbook it
carries the cell and the shared string it is in. `spanCut` is a turn of its loop:
the text before a tag, the tag, and after the start of a text element its text
and its closing tag.

The scan never looks past what it cuts off (`spanCut_ok`). So a part whose spans
were filled with other text without markup has the same spans (`rescan`).
-/

namespace LinguaMesh.Ooxml

open Search Run Holes

inductive PackageKind where
  | docx | pptx | xlsx
  deriving DecidableEq, Repr

namespace PackageKind

def mainPart : PackageKind → Str
  | docx => "word/document.xml".toList
  | pptx => "ppt/presentation.xml".toList
  | xlsx => "xl/workbook.xml".toList

def paragraphClose : PackageKind → Str
  | docx => "</w:p>".toList
  | pptx => "</a:p>".toList
  | xlsx => []

def textOpen : PackageKind → Str
  | docx => "<w:t".toList
  | pptx => "<a:t".toList
  | xlsx => "<t".toList

/-- The element that holds text. -/
def textName : PackageKind → Str
  | docx => "w:t".toList
  | pptx => "a:t".toList
  | xlsx => "t".toList

end PackageKind

structure TextSpan where
  contentStart : Nat
  contentStop : Nat
  xlsxCellRef : Option Str
  xlsxSharedIndex : Option Nat
  deriving DecidableEq, Repr

def TextSpan.range (s : TextSpan) : Nat × Nat := (s.contentStart, s.contentStop)

/-- `xml_attribute`. -/
def xmlAttribute (raw name : Str) : Option Str :=
  ['"', '\x27'].findSome? fun quote =>
    let marker := name ++ ['=', quote]
    (find marker raw).bind fun start =>
      let rest := raw.drop (start + marker.length)
      (find [quote] rest).map rest.take

/-- The cell and the shared string that the scan is in. -/
structure CellState where
  cellRef : Option Str
  sharedIndex : Option Nat
  nextSharedIndex : Nat
  deriving DecidableEq, Repr

def isClosing (raw : Str) : Bool := "</".toList.isPrefixOf raw

def isSelfClosing (raw : Str) : Bool := "/>".toList.isSuffixOf raw

/-- The state after a tag. -/
def CellState.after (kind : PackageKind) (raw : Str) (s : CellState) : CellState :=
  match kind, elementName raw with
  | .xlsx, some name =>
    if name = "c".toList then
      { s with cellRef := if isClosing raw then none else xmlAttribute raw "r".toList }
    else if name = "si".toList then
      if isClosing raw then { s with sharedIndex := none }
      else { s with sharedIndex := some s.nextSharedIndex, nextSharedIndex := s.nextSharedIndex + 1 }
    else s
  | _, _ => s

/-- The name of the text element that a tag opens. -/
def textElement (kind : PackageKind) (raw : Str) : Option Str :=
  (elementName raw).filter fun name => name == kind.textName && !isClosing raw && !isSelfClosing raw

def closeMarker (name : Str) : Str := '<' :: '/' :: name ++ ['>']

/-- A text span and what was cut off around it. -/
structure Mark where
  lead : Str
  content : Str
  close : Str
  cellRef : Option Str
  sharedIndex : Option Nat
  deriving DecidableEq, Repr

/-- What a turn of the loop of `text_spans` cuts off; where no tag is left, the rest. -/
def spanCut (kind : PackageKind) (s : CellState) (tail : Str) :
    Run DocumentError (Piece CellState (Option Mark)) :=
  match find ['<'] tail with
  | none => .ok ⟨tail.length, none, s⟩
  | some start => do
    let length ← tagEnd (tail.drop start)
    let stop := start + length
    let raw := slice tail start stop
    let s := s.after kind raw
    match textElement kind raw with
    | none => .ok ⟨stop, none, s⟩
    | some name => do
      let offset ← ofOption .invalidStructure (find (closeMarker name) (tail.drop stop))
      let content := slice tail stop (stop + offset)
      if '<' ∈ content then fail .invalidStructure
      else .ok ⟨stop + offset + (closeMarker name).length,
        some ⟨tail.take stop, content, closeMarker name, s.cellRef, s.sharedIndex⟩, s⟩

/-- The span of a piece at the cursor. -/
def spanAt (cursor : Nat) (_ : Nat) : Option Mark → List TextSpan
  | none => []
  | some m =>
    [⟨cursor + m.lead.length, cursor + m.lead.length + m.content.length, m.cellRef, m.sharedIndex⟩]

def textSpans [QuickXml] (kind : PackageKind) (xml : Str) : Run DocumentError (List TextSpan) := do
  validateXml xml
  let (_, spans) ← cutAll (spanCut kind) spanAt xml ⟨none, none, 0⟩
  if '\x00' ∈ xml then fail .invalidStructure else .ok spans

def rewriteXml [QuickXml] (kind : PackageKind) (xml : Str) (segments : List DocumentSegment)
    (cursor : Nat) : Run DocumentError (Str × Nat) := do
  let spans ← textSpans kind xml
  rewriteSpans xml segments cursor (spans.map TextSpan.range)

/-! ## What a cut takes -/

section Cut

variable {kind : PackageKind} {s s' : CellState} {tail : Str} {p : Piece CellState (Option Mark)}

/-- What is cut off with a tag that opens a text. -/
def textMark (kind : PackageKind) (s : CellState) (gap tag content name : Str) : Mark :=
  ⟨gap ++ tag, content, closeMarker name, (s.after kind tag).cellRef, (s.after kind tag).sharedIndex⟩

/-- What a turn can cut off. -/
inductive Cut (kind : PackageKind) (s : CellState) : Str → Str → Option Mark → CellState → Prop where
  | rest {t : Str} : '<' ∉ t → Cut kind s t [] none s
  | tag {gap tag rest : Str} : '<' ∉ gap → IsTag tag → textElement kind tag = none →
    Cut kind s (gap ++ tag) rest none (s.after kind tag)
  | text {gap tag name content rest : Str} : '<' ∉ gap → IsTag tag → textElement kind tag = some name →
    '<' ∉ content → Cut kind s (gap ++ tag ++ content ++ closeMarker name) rest
      (some (textMark kind s gap tag content name)) (s.after kind tag)

theorem find_bracket {gap tag : Str} (hgap : '<' ∉ gap) (htag : IsTag tag) (rest : Str) :
    find ['<'] (gap ++ tag ++ rest) = some gap.length := by
  obtain ⟨body, rfl, -⟩ := htag
  exact find_singleton.mpr ⟨gap, body ++ rest, by simp, hgap, rfl⟩

/-- The cut in front of a tag. -/
theorem spanCut_tag {gap tag : Str} (hgap : '<' ∉ gap) (htag : IsTag tag) (rest : Str) :
    spanCut kind s (gap ++ tag ++ rest) =
      (match textElement kind tag with
      | none => .ok ⟨(gap ++ tag).length, none, s.after kind tag⟩
      | some name => (do
        let offset ← ofOption .invalidStructure (find (closeMarker name) rest)
        if '<' ∈ rest.take offset then fail .invalidStructure
        else .ok ⟨(gap ++ tag).length + offset + (closeMarker name).length,
          some (textMark kind s gap tag (rest.take offset) name), s.after kind tag⟩)) := by
  have hdrop : (gap ++ tag ++ rest).drop gap.length = tag ++ rest := by
    rw [List.append_assoc, List.drop_left]
  have hend : tagEnd (tag ++ rest) = .ok tag.length :=
    (tagEnd_ok (htag.head rest)).mpr ⟨tag, rest, rfl, rfl, htag⟩
  have hraw : slice (gap ++ tag ++ rest) gap.length (gap.length + tag.length) = tag :=
    slice_append gap tag rest
  have hrest : (gap ++ tag ++ rest).drop (gap.length + tag.length) = rest := by
    rw [← List.length_append, List.drop_left]
  have hlead : (gap ++ tag ++ rest).take (gap.length + tag.length) = gap ++ tag := by
    rw [← List.length_append, List.take_left]
  have hcontent (n : Nat) : slice (gap ++ tag ++ rest) (gap.length + tag.length)
      (gap.length + tag.length + n) = rest.take n := by
    unfold slice
    rw [List.drop_take, hrest, Nat.add_sub_cancel_left]
  unfold spanCut
  simp only [find_bracket hgap htag rest, hdrop, hend, Except.ok_bind, hraw, hrest, hcontent, hlead,
    List.length_append]
  rfl

theorem find_closeMarker {content name : Str} (hcontent : '<' ∉ content) (rest : Str) :
    find (closeMarker name) (content ++ closeMarker name ++ rest) = some content.length :=
  find_past hcontent rest

theorem spanCut_ok : spanCut kind s tail = .ok p ↔ ∃ piece rest, tail = piece ++ rest ∧
    p.length = piece.length ∧ Cut kind s piece rest p.label p.state := by
  constructor
  · intro h
    cases hfind : find ['<'] tail with
    | none =>
      unfold spanCut at h
      rw [hfind] at h
      cases h
      exact ⟨tail, [], (List.append_nil _).symm, rfl, .rest (find_singleton_none.mp hfind)⟩
    | some start =>
      obtain ⟨gap, body, rfl, hgap, rfl⟩ := find_singleton.mp hfind
      have htag : ∃ tag rest, '<' :: body = tag ++ rest ∧ IsTag tag := by
        unfold spanCut at h
        rw [hfind] at h
        obtain ⟨n, hn, -⟩ := Except.bind_ok.mp h
        rw [List.drop_left] at hn
        obtain ⟨tag, rest, hbody, -, htag⟩ := (tagEnd_ok rfl).mp hn
        exact ⟨tag, rest, hbody, htag⟩
      obtain ⟨tag, rest, hbody, htag⟩ := htag
      rw [hbody, ← List.append_assoc] at h ⊢
      rw [spanCut_tag hgap htag] at h
      split at h
      · rename_i hnone
        cases h
        exact ⟨gap ++ tag, rest, rfl, rfl, .tag hgap htag hnone⟩
      · rename_i name hname
        obtain ⟨offset, hoffset, h⟩ := Except.bind_ok.mp h
        rw [ofOption_eq_ok] at hoffset
        obtain ⟨⟨content, rest, rfl, rfl⟩, -⟩ := find_eq_some hoffset
        rw [List.append_assoc, List.take_left] at h
        split at h
        · cases h
        · rename_i hcontent
          cases h
          exact ⟨gap ++ tag ++ content ++ closeMarker name, rest, by simp,
            by simp only [List.length_append], .text hgap htag hname hcontent⟩
  · rintro ⟨piece, rest, rfl, hlen, h⟩
    obtain ⟨length, label, state⟩ := p
    dsimp only at hlen h
    subst hlen
    cases h with
    | rest hnot =>
      unfold spanCut
      rw [List.append_nil, find_singleton_none.mpr hnot]
    | tag hgap htag hnone =>
      rw [spanCut_tag hgap htag, hnone]
    | @text gap tag name content _ hgap htag hname hcontent =>
      have hassoc : gap ++ tag ++ content ++ closeMarker name ++ rest =
          gap ++ tag ++ (content ++ closeMarker name ++ rest) := by simp
      rw [hassoc, spanCut_tag hgap htag, hname]
      simp only [find_closeMarker hcontent, ofOption, Except.ok_bind]
      rw [List.append_assoc, List.take_left, if_neg hcontent]
      simp only [List.length_append]

theorem advances_spanCut (kind : PackageKind) : Advances (spanCut kind) := by
  intro s tail hne
  have hreturns : Returns (spanCut kind s tail) := by
    unfold Returns spanCut tagEnd
    split
    · trivial
    · refine Post.bind (Q := fun _ => True) (post_ofOption fun _ _ => trivial) fun n _ => ?_
      dsimp only
      split
      · trivial
      · refine Post.bind (Q := fun _ => True) (post_ofOption fun _ _ => trivial) fun n _ => ?_
        split <;> trivial
  refine hreturns.self.mono fun ⟨length, label, state⟩ hp => ?_
  obtain ⟨piece, rest, rfl, hlen, h⟩ := spanCut_ok.mp hp.1
  dsimp only at hlen h ⊢
  rw [hlen]
  refine ⟨?_, by simp⟩
  cases h with
  | rest => exact List.length_pos_iff.mpr (by simpa using hne)
  | tag _ htag =>
    have := htag.two_le
    rw [List.length_append]
    omega
  | text _ htag =>
    have := htag.two_le
    simp only [List.length_append]
    omega

end Cut

/-! ## Spans as holes -/

/-- The text of a piece, with the text of its span as a hole. -/
def parts : Str × Option Mark → List (Str × Bool)
  | (piece, none) => [(piece, false)]
  | (_, some m) => [(m.lead, false), (m.content, true), (m.close, false)]

/-- What a mark says of its piece. -/
def Marked : Str × Option Mark → Prop
  | (_, none) => True
  | (piece, some m) =>
    piece = m.lead ++ m.content ++ m.close ∧ m.lead.getLast? = some '>' ∧ '<' ∉ m.content ∧
      m.close.head? = some '<'

section Parts

variable {kind : PackageKind} {final : CellState → Prop} {s : CellState} {xml : Str}
  {ps ps' : List (Str × Option Mark)}

theorem marked_of_scans (h : Scans (spanCut kind) final s xml ps) : ∀ p ∈ ps, Marked p := by
  induction h with
  | nil => exact fun p hp => absurd hp List.not_mem_nil
  | @cons s s' piece rest label ps _ hc _ ih =>
    intro p hp
    rcases List.mem_cons.mp hp with rfl | hp
    · obtain ⟨piece', rest', hsplit, hlen, hcut⟩ := spanCut_ok.mp hc
      obtain ⟨rfl, -⟩ := append_length_inj hsplit hlen
      dsimp only at hcut
      cases hcut with
      | rest => trivial
      | tag => trivial
      | text _ htag _ hcontent =>
        exact ⟨rfl, htag.last_append _, hcontent, rfl⟩
    · exact ih p hp

theorem text_parts (h : ∀ p ∈ ps, Marked p) : text (ps.flatMap parts) = ps.flatMap Prod.fst := by
  induction ps with
  | nil => rfl
  | cons p ps ih =>
    obtain ⟨piece, label⟩ := p
    rw [List.flatMap_cons, List.flatMap_cons, text_append, ih fun p hp => h p (List.mem_cons_of_mem _ hp)]
    cases label with
    | none => simp [parts]
    | some m =>
      obtain ⟨hpiece, -, -, -⟩ := h _ List.mem_cons_self
      rw [hpiece]
      simp [parts]

theorem holes_parts (h : ∀ p ∈ ps, Marked p) (c : Nat) :
    holes c (ps.flatMap parts) = (emitted spanAt c ps).map TextSpan.range := by
  induction ps generalizing c with
  | nil => rfl
  | cons p ps ih =>
    obtain ⟨piece, label⟩ := p
    rw [List.flatMap_cons, holes_append, emitted, List.map_append]
    have hrest := ih (fun p hp => h p (List.mem_cons_of_mem _ hp)) (c + piece.length)
    cases label with
    | none =>
      rw [← hrest]
      simp [parts, holes, spanAt]
    | some m =>
      obtain ⟨hpiece, -, -, -⟩ := h _ List.mem_cons_self
      have hlen : (text (parts (piece, some m))).length = piece.length := by
        rw [hpiece]
        simp [parts]
      rw [hlen, hrest]
      rfl

theorem fenced_parts (h : ∀ p ∈ ps, Marked p) (after : Bool) : Fenced after (ps.flatMap parts) := by
  induction ps generalizing after with
  | nil => trivial
  | cons p ps ih =>
    obtain ⟨piece, label⟩ := p
    have hrest (after : Bool) : Fenced after (ps.flatMap parts) :=
      ih (fun p hp => h p (List.mem_cons_of_mem _ hp)) after
    cases label with
    | none => exact hrest _
    | some m =>
      obtain ⟨-, hlead, hcontent, hclose⟩ := h _ List.mem_cons_self
      refine ⟨?_, hcontent, ⟨rfl, hclose⟩, hrest _⟩
      rw [if_neg (by rintro he; rw [he] at hlead; cases hlead), hlead]
      rfl

/-! ## Scanning a part again -/

/-- What may stand for a piece of a scan. -/
inductive Kept : Str × Option Mark → Str × Option Mark → Prop where
  | markup (piece : Str) : Kept (piece, none) (piece, none)
  | text (m : Mark) {new : Str} : '<' ∉ new →
    Kept (m.lead ++ m.content ++ m.close, some m) (m.lead ++ new ++ m.close, some { m with content := new })

theorem kept_markup {piece : Str} {p : Str × Option Mark} (h : Kept (piece, none) p) :
    p = (piece, none) := by
  generalize hq : (piece, (none : Option Mark)) = q at h
  cases h with
  | markup => rfl
  | text => cases hq

/-- The cut is the same for other text in the span, and for whatever is behind the piece. -/
theorem spanCut_kept {s s' : CellState} {piece rest rest' : Str} {label : Option Mark}
    {p : Str × Option Mark} (hne : piece ≠ [])
    (hcut : spanCut kind s (piece ++ rest) = .ok ⟨piece.length, label, s'⟩)
    (hsame : rest = [] → rest' = []) (hk : Kept (piece, label) p) :
    p.1 ≠ [] ∧ spanCut kind s (p.1 ++ rest') = .ok ⟨p.1.length, p.2, s'⟩ ∧
      (piece ++ rest = [] → p.1 ++ rest' = []) := by
  have hnil : piece ++ rest = [] → p.1 ++ rest' = [] := fun h =>
    absurd (List.append_eq_nil_iff.mp h).1 hne
  obtain ⟨piece', rest0, hsplit, hlen, hc⟩ := spanCut_ok.mp hcut
  obtain ⟨rfl, rfl⟩ := append_length_inj hsplit hlen
  dsimp only at hc
  cases hc with
  | rest hnot =>
    obtain rfl := kept_markup hk
    obtain rfl := hsame rfl
    exact ⟨hne, spanCut_ok.mpr ⟨piece, [], rfl, rfl, .rest hnot⟩, hnil⟩
  | tag hgap htag hnone =>
    obtain rfl := kept_markup hk
    exact ⟨hne, spanCut_ok.mpr ⟨_, rest', rfl, rfl, .tag hgap htag hnone⟩, hnil⟩
  | @text gap tag name content _ hgap htag hname hcontent =>
    generalize hm : textMark kind s gap tag content name = m at hk
    generalize hpiece : gap ++ tag ++ content ++ closeMarker name = piece at hk
    cases hk with
    | @text _ new hnew =>
      subst hm
      refine ⟨?_, spanCut_ok.mpr ⟨_, rest', rfl, rfl, .text hgap htag hname hnew⟩, hnil⟩
      simp [textMark, closeMarker]

theorem rescan (h : Scans (spanCut kind) final s xml ps) (hk : List.Forall₂ Kept ps ps') :
    Scans (spanCut kind) final s (ps'.flatMap Prod.fst) ps' :=
  (h.replace (fun _ h => h) spanCut_kept hk).1

/-- Other texts in the spans. -/
theorem exists_kept (h : ∀ p ∈ ps, Marked p) {news : List Str}
    (hlen : news.length = (contents (ps.flatMap parts)).length) (hnew : ∀ new ∈ news, '<' ∉ new) :
    ∃ ps', List.Forall₂ Kept ps ps' ∧ (∀ p ∈ ps', Marked p) ∧
      ps'.flatMap parts = refill (ps.flatMap parts) news ∧
      (∀ c c', (emitted spanAt c' ps').map (fun s => (s.xlsxCellRef, s.xlsxSharedIndex)) =
        (emitted spanAt c ps).map fun s => (s.xlsxCellRef, s.xlsxSharedIndex)) := by
  induction ps generalizing news with
  | nil =>
    cases news with
    | nil => exact ⟨[], .nil, h, rfl, fun _ _ => rfl⟩
    | cons new news => cases hlen
  | cons p ps ih =>
    obtain ⟨piece, label⟩ := p
    have hps : ∀ p ∈ ps, Marked p := fun p hp => h p (List.mem_cons_of_mem _ hp)
    cases label with
    | none =>
      obtain ⟨ps', hk, hmarked, hparts, howner⟩ := ih hps hlen hnew
      refine ⟨(piece, none) :: ps', .cons (.markup piece) hk, ?_, ?_, fun c c' => howner _ _⟩
      · rintro p (_ | ⟨_, hp⟩)
        · trivial
        · exact hmarked p hp
      · rw [List.flatMap_cons, hparts]
        rfl
    | some m =>
      cases news with
      | nil => cases hlen
      | cons new news =>
        obtain ⟨ps', hk, hmarked, hparts, howner⟩ := ih hps (Nat.succ.inj hlen)
          fun n hn => hnew n (List.mem_cons_of_mem _ hn)
        obtain ⟨rfl, hlead, -, hclose⟩ := h _ List.mem_cons_self
        have hbracket := hnew new List.mem_cons_self
        refine ⟨_, .cons (.text m hbracket) hk, ?_, ?_, fun c c' => ?_⟩
        · rintro p (_ | ⟨_, hp⟩)
          · exact ⟨rfl, hlead, hbracket, hclose⟩
          · exact hmarked p hp
        · rw [List.flatMap_cons, hparts]
          rfl
        · rw [emitted, emitted, List.map_append, List.map_append, howner _ _]
          rfl

end Parts

/-! ## Rewriting a part -/

section Rewriting

variable [QuickXml] {kind : PackageKind} {xml xml' : Str} {spans : List TextSpan}
  {segs : List DocumentSegment}

theorem textSpans_ok : textSpans kind xml = .ok spans ↔ QuickXml.reads xml = true ∧ '\x00' ∉ xml ∧
    ∃ final ps, Scans (spanCut kind) (· = final) ⟨none, none, 0⟩ xml ps ∧ spans = emitted spanAt 0 ps := by
  unfold textSpans validateXml
  constructor
  · intro h
    split at h
    · rename_i hreads
      rw [Except.ok_bind] at h
      obtain ⟨⟨final, out⟩, hcut, h⟩ := Except.bind_ok.mp h
      obtain ⟨ps, hps, rfl⟩ := (cutAll_iff (advances_spanCut kind)).mp hcut
      dsimp only at h
      split at h
      · cases h
      · rename_i hnul
        exact ⟨hreads, hnul, final, ps, hps, (Except.ok.inj h).symm⟩
    · cases h
  · rintro ⟨hreads, hnul, final, ps, hps, rfl⟩
    rw [if_pos hreads, Except.ok_bind, (cutAll_iff (advances_spanCut kind)).mpr ⟨ps, hps, rfl⟩, Except.ok_bind]
    exact if_neg hnul

/-- What a span says of the cell and the shared string that it is in. -/
def TextSpan.owner (s : TextSpan) : Option Str × Option Nat := (s.xlsxCellRef, s.xlsxSharedIndex)

/-- The segments of the spans of a part, with their translations. -/
def AssignedSpans (xml : Str) (spans : List TextSpan) (segs : List DocumentSegment) : Prop :=
  List.Forall₂ (fun span s => Assigned (slice xml span.contentStart span.contentStop) s) spans segs

/-- The text of a part as a text whose holes are the spans, and the text after a rewriting. -/
theorem exists_parts (hspans : textSpans kind xml = .ok spans) :
    ∃ w, text w = xml ∧ holes 0 w = spans.map TextSpan.range ∧ Fenced true w ∧
      ∀ news : List Str, news.length = (contents w).length → (∀ new ∈ news, '<' ∉ new ∧ '\x00' ∉ new) →
        QuickXml.reads (text (refill w news)) = true →
        ∃ spans', textSpans kind (text (refill w news)) = .ok spans' ∧
          spans'.map TextSpan.range = holes 0 (refill w news) ∧
          spans'.map TextSpan.owner = spans.map TextSpan.owner := by
  obtain ⟨-, hnul, final, ps, hps, rfl⟩ := textSpans_ok.mp hspans
  have hmarked := marked_of_scans hps
  refine ⟨ps.flatMap parts, (text_parts hmarked).trans hps.spelled, holes_parts hmarked 0,
    fenced_parts hmarked true, fun news hlen hplain hreads => ?_⟩
  obtain ⟨ps', hk, hmarked', hparts, howner⟩ := exists_kept hmarked hlen fun new hnew => (hplain new hnew).1
  have htext : ps'.flatMap Prod.fst = text (refill (ps.flatMap parts) news) := by
    rw [← text_parts hmarked', hparts]
  have hscans := rescan hps hk
  rw [htext] at hscans
  refine ⟨emitted spanAt 0 ps', textSpans_ok.mpr ⟨hreads, ?_, final, ps', hscans, rfl⟩, ?_, howner 0 0⟩
  · intro h
    rcases mem_refill h with hold | ⟨new, hnew, hc⟩
    · rw [text_parts hmarked, hps.spelled] at hold
      exact hnul hold
    · exact (hplain new hnew).2 hc
  · rw [← holes_parts hmarked', hparts]

/-- `xml'` is `xml` with the output of the segments in its text spans. -/
def Rewritten (kind : PackageKind) (xml : Str) (segs : List DocumentSegment) (xml' : Str) : Prop :=
  ∃ spans spans', textSpans kind xml = .ok spans ∧ textSpans kind xml' = .ok spans' ∧
    spans'.map TextSpan.owner = spans.map TextSpan.owner ∧
    TextOnly xml (spans.map TextSpan.range) xml' (spans'.map TextSpan.range) segs

/-- The reader takes the part with any words for the texts that are to be translated. -/
def TakesWords (xml : Str) (spans : List TextSpan) (segs : List DocumentSegment) : Prop :=
  ∀ segs', List.Forall₂ (TranslatedAs IsWord) segs segs' →
    QuickXml.reads (filled xml 0 (spans.map TextSpan.range) segs') = true

theorem assigned_contents {w : List (Str × Bool)} (htext : text w = xml)
    (hholes : holes 0 w = spans.map TextSpan.range) (h : AssignedSpans xml spans segs) :
    List.Forall₂ Assigned (contents w) segs := by
  have hslices := slices_holes [] w
  rw [List.nil_append, List.length_nil, hholes, List.map_map] at hslices
  rw [← hslices, List.forall₂_map_left_iff, htext]
  exact h

theorem rewriteXml_refill (hspans : textSpans kind xml = .ok spans) (h : AssignedSpans xml spans segs)
    {w : List (Str × Bool)} (htext : text w = xml) (hholes : holes 0 w = spans.map TextSpan.range)
    (done rest : List DocumentSegment) :
    rewriteXml kind xml (done ++ segs ++ rest) done.length =
      .ok (text (refill w (news w segs)), done.length + segs.length) := by
  have hrewrite := rewriteSpans_ok (assigned_contents htext hholes h) done rest
  rw [htext, hholes] at hrewrite
  unfold rewriteXml
  rw [hspans, Except.ok_bind, hrewrite]

/-- A part that takes words takes any translations. -/
theorem rewriteXml_ok (laws : QuickXml.Lawful) (hspans : textSpans kind xml = .ok spans)
    (h : AssignedSpans xml spans segs) (hwords : TakesWords xml spans segs)
    (done rest : List DocumentSegment) :
    ∃ xml', rewriteXml kind xml (done ++ segs ++ rest) done.length =
      .ok (xml', done.length + segs.length) ∧ Rewritten kind xml segs xml' := by
  obtain ⟨w, htext, hholes, hfenced, hagain⟩ := exists_parts hspans
  have hassigned := assigned_contents htext hholes h
  have hlength : (contents w).length = segs.length := hassigned.length_eq
  have hreads : QuickXml.reads (text (refill w (news w segs))) = true := by
    refine reads_refill laws hfenced hassigned fun segs' hsegs => ?_
    have hfilled := filled_holes (hlength.trans hsegs.length_eq)
    rw [htext, hholes] at hfilled
    rw [← hfilled]
    exact hwords segs' hsegs
  have hplain : ∀ new ∈ news w segs, '<' ∉ new ∧ '\x00' ∉ new := by
    refine plain_news laws hassigned fun content hcontent => ⟨hfenced.plain content hcontent, fun hnul => ?_⟩
    exact (textSpans_ok.mp hspans).2.1 (htext ▸ mem_contents hcontent hnul)
  obtain ⟨spans', hspans', hranges, howner⟩ := hagain _ (length_news hassigned) hplain hreads
  refine ⟨_, rewriteXml_refill hspans h htext hholes done rest, spans, spans', hspans, hspans', howner, ?_⟩
  rw [hranges, ← hholes, ← htext]
  exact textOnly_refill laws hassigned

/-- With words for its texts a part is what the reader has to take. -/
theorem rewriteXml_words (laws : QuickXml.Lawful) (hspans : textSpans kind xml = .ok spans)
    (h : AssignedSpans xml spans segs) (hwords : ∃ segs0, List.Forall₂ (TranslatedAs IsWord) segs0 segs)
    (done rest : List DocumentSegment) :
    rewriteXml kind xml (done ++ segs ++ rest) done.length =
      .ok (filled xml 0 (spans.map TextSpan.range) segs, done.length + segs.length) := by
  obtain ⟨segs0, hwords⟩ := hwords
  obtain ⟨w, htext, hholes, -, -⟩ := exists_parts hspans
  have hlength : (contents w).length = segs.length := (assigned_contents htext hholes h).length_eq
  rw [rewriteXml_refill hspans h htext hholes, news, news_words laws hwords, ← fillings,
    ← filled_holes hlength, htext, hholes]

/-- A part takes words if its texts stand in character data. -/
theorem takesWords_of_clear (laws : QuickXml.Lawful) (hspans : textSpans kind xml = .ok spans)
    (h : List.Forall₂ (fun span s => QuickXml.unescape (slice xml span.contentStart span.contentStop) =
      some s.sourceText) spans segs)
    (hclear : List.Forall₂ (fun span s => Clear xml span.range s) spans segs) :
    TakesWords xml spans segs := by
  intro segs' hwords
  obtain ⟨w, htext, hholes, hfenced, -⟩ := exists_parts hspans
  have hassigned : AssignedSpans xml spans segs' :=
    forall₂_trans (fun _ _ _ hspan hs => (hs.mono fun _ => IsWord.nulFree).assigned hspan) h hwords
  have hclear' : List.Forall₂ (Clear (text w)) (holes 0 w) segs' := by
    rw [htext, hholes, List.forall₂_map_left_iff]
    exact forall₂_trans (fun _ _ _ hspan hs hkind => hspan (hs.kind.symm.trans hkind)) hclear hwords
  have hcontents := assigned_contents htext hholes hassigned
  have hreads := reads_refill_clear laws hfenced hcontents hclear' (htext ▸ (textSpans_ok.mp hspans).1)
  rwa [news, news_words laws hwords, ← fillings, ← filled_holes hcontents.length_eq, htext, hholes] at hreads

end Rewriting

end LinguaMesh.Ooxml
