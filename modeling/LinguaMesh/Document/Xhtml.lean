import LinguaMesh.Document.Package
import LinguaMesh.Domain.Respaced

/-!
# The chapters of an EPUB

`scan_xhtml` goes over a chapter with a cursor and a stack of the open elements. It
takes the text up to the next `<`, a comment up to its end, or a tag, and keeps as
spans the texts that say something outside of scripts and style sheets. `xhtmlCut` is
a turn of its loop.

It is a second reader beside that of `quick_xml`: for it a CDATA section is a tag that
ends at the first `>`. So what is written into a span need not stand in character data,
and whether a chapter stays readable is up to `quick_xml` (`rewriteXhtml_iff`); that the
scan finds the same spans again is not (`rescan`).
-/

namespace LinguaMesh.Epub

open Search Run Holes

/-- `unescape` leaves a text without references as it is. -/
structure Lawful [QuickXml] : Prop extends QuickXml.Lawful where
  unescape_plain : ∀ t, '&' ∉ t → QuickXml.unescape t = some t

def maxEpubSegments : Nat := 10000

/-- `content_start` and `content_end`. -/
abbrev TextSpan := Nat × Nat

/-- The names of the open elements, innermost first, and `spans.len()`. -/
structure ScanState where
  stack : List Str
  count : Nat
  deriving DecidableEq, Repr

/-- The elements whose text is not read. -/
def skippedElements : List Str := ["script".toList, "style".toList]

def isClosing (raw : Str) : Bool := "</".toList.isPrefixOf raw

def isSelfClosing (raw : Str) : Bool := !isClosing raw && "/>".toList.isSuffixOf (trimEnd raw)

/-- A processing instruction or a declaration. -/
def isDeclaration (raw : Str) : Bool := "<?".toList.isPrefixOf raw || "<!".toList.isPrefixOf raw

/-- The open elements after a tag. -/
def stackAfter (stack : List Str) (raw : Str) : Run DocumentError (List Str) :=
  match elementName raw with
  | none => .ok stack
  | some name =>
    if isClosing raw then
      if stack.head? = some (asciiLower name) then .ok stack.tail else fail .invalidStructure
    else .ok (if isSelfClosing raw then stack else asciiLower name :: stack)

/-- Whether a text is a span. In a script or a style sheet it is not even read. -/
def isSpan [QuickXml] (stack : List Str) (run : Str) : Run DocumentError Bool :=
  if stack.any skippedElements.contains then .ok false
  else do
    let text ← ofOption .invalidStructure (QuickXml.unescape run)
    .ok (text.any (!isWhitespace ·))

/-- What a turn of the loop of `scan_xhtml` takes. Its label is whether it is a span. -/
def xhtmlCut [QuickXml] (s : ScanState) (tail : Str) : Run DocumentError (Piece ScanState Bool) :=
  if tail.head? ≠ some '<' then do
    let run := tail.takeWhile (· ≠ '<')
    let span ← isSpan s.stack run
    .ok ⟨run.length, span, s.stack, s.count + span.toNat⟩
  else if "<!--".toList.isPrefixOf tail then do
    let offset ← ofOption .invalidStructure (find "-->".toList (tail.drop 4))
    .ok ⟨4 + offset + 3, false, s⟩
  else do
    let length ← tagEnd tail
    let raw := tail.take length
    if isDeclaration raw then .ok ⟨length, false, s⟩
    else do
      let stack ← stackAfter s.stack raw
      -- the limit is only checked after a tag
      if maxEpubSegments < s.count then fail .invalidStructure
      else .ok ⟨length, false, stack, s.count⟩

def spanAt (cursor length : Nat) (span : Bool) : List TextSpan :=
  if span then [(cursor, cursor + length)] else []

def scanXhtml [QuickXml] (xml : Str) : Run DocumentError (List TextSpan) := do
  validateXml xml
  if xml.isEmpty || xml.contains '\x00' then fail .invalidStructure
  else do
    let (last, spans) ← cutAll xhtmlCut spanAt xml ⟨[], 0⟩
    if last.stack ≠ [] then fail .invalidStructure else .ok spans

def rewriteXhtml [QuickXml] (xml : Str) (segments : List DocumentSegment) (cursor : Nat) :
    Run DocumentError (Str × Nat) := do
  let spans ← scanXhtml xml
  rewriteSpans xml segments cursor spans

/-! ## What a turn takes -/

section Cut

variable [QuickXml] {s s' : ScanState} {tail piece rest : Str} {label : Bool}

/-- What a turn can take; `rest` stands behind it. -/
inductive Cut (s : ScanState) : Str → Str → Bool → ScanState → Prop where
  | text {run rest : Str} {span : Bool} : run ≠ [] → '<' ∉ run → AtMarkup rest →
    isSpan s.stack run = .ok span → Cut s run rest span ⟨s.stack, s.count + span.toNat⟩
  | comment {body rest : Str} : find "-->".toList (body ++ "-->".toList) = some body.length →
    Cut s ("<!--".toList ++ body ++ "-->".toList) rest false s
  | declaration {tag rest : Str} : IsTag tag → ¬ "<!--".toList <+: tag → isDeclaration tag = true →
    Cut s tag rest false s
  | tag {tag rest : Str} {stack : List Str} : IsTag tag → isDeclaration tag = false →
    stackAfter s.stack tag = .ok stack → s.count ≤ maxEpubSegments → Cut s tag rest false ⟨stack, s.count⟩

omit [QuickXml] in
/-- The start of a comment lies in the tag that it is taken for. -/
theorem comment_within {tag : Str} (htag : IsTag tag) (h : "<!--".toList <+: tag ++ rest) :
    "<!--".toList <+: tag := by
  rcases Nat.le_total "<!--".toList.length tag.length with hle | hle
  · exact prefix_of_le h (List.prefix_append _ _) hle
  · have hp := prefix_of_le (List.prefix_append _ _) h hle
    have hgt : '>' ∈ tag := List.mem_of_getLast? htag.last
    exact absurd (hp.subset hgt) (by decide)

omit [QuickXml] in
/-- A tag that is no declaration begins no comment. -/
theorem not_comment {tag : Str} (h : isDeclaration tag = false) : ¬ "<!--".toList <+: tag := by
  intro hp
  have hbang : "<!".toList <+: tag := List.IsPrefix.trans ⟨"--".toList, rfl⟩ hp
  unfold isDeclaration at h
  rw [List.isPrefixOf_iff_prefix.mpr hbang, Bool.or_true] at h
  cases h

omit [QuickXml] in
theorem tagEnd_tag {tag : Str} (h : IsTag tag) (rest : Str) : tagEnd (tag ++ rest) = .ok tag.length :=
  (tagEnd_ok (h.head rest)).mpr ⟨tag, rest, rfl, rfl, h⟩

theorem Cut.xhtmlCut (h : Cut s piece rest label s') :
    xhtmlCut s (piece ++ rest) = .ok ⟨piece.length, label, s'⟩ := by
  unfold Epub.xhtmlCut
  cases h with
  | text hne hbracket hrest hspan =>
    have hhead : (piece ++ rest).head? ≠ some '<' := by
      obtain ⟨c, cs, rfl⟩ := List.exists_cons_of_ne_nil hne
      rintro hc
      exact hbracket (Option.some.inj hc ▸ List.mem_cons_self)
    rw [if_pos hhead]
    simp only [takeWhile_text hbracket hrest, hspan, Except.ok_bind]
  | @comment body _ hbody =>
    have hhead : ("<!--".toList ++ body ++ "-->".toList ++ rest).head? = some '<' := rfl
    have hcomment : "<!--".toList.isPrefixOf ("<!--".toList ++ body ++ "-->".toList ++ rest) = true := by
      rw [List.isPrefixOf_iff_prefix, List.append_assoc, List.append_assoc]
      exact List.prefix_append _ _
    have hdrop : ("<!--".toList ++ body ++ "-->".toList ++ rest).drop 4 =
        body ++ "-->".toList ++ rest := rfl
    rw [if_neg (not_not.mpr hhead), if_pos hcomment, hdrop, find_append hbody]
    simp only [ofOption, Except.ok_bind, List.length_append]
    rfl
  | declaration htag hcomment hdecl =>
    rw [if_neg (not_not.mpr (htag.head rest)), if_neg fun h => hcomment (comment_within htag
      (List.isPrefixOf_iff_prefix.mp h)), tagEnd_tag htag, Except.ok_bind]
    dsimp only
    rw [List.take_left, if_pos hdecl]
  | tag htag hdecl hstack hcount =>
    rw [if_neg (not_not.mpr (htag.head rest)), if_neg fun h => not_comment hdecl (comment_within htag
      (List.isPrefixOf_iff_prefix.mp h)), tagEnd_tag htag, Except.ok_bind]
    dsimp only
    rw [List.take_left, hdecl, if_neg Bool.false_ne_true, hstack, Except.ok_bind,
      if_neg (Nat.not_lt_of_le hcount)]

omit [QuickXml] in
/-- The text up to the next bracket. -/
theorem takeWhile_split (tail : Str) : ∃ run rest, tail = run ++ rest ∧ '<' ∉ run ∧ AtMarkup rest ∧
    tail.takeWhile (· ≠ '<') = run := by
  refine ⟨_, _, (List.takeWhile_append_dropWhile (p := (· ≠ '<'))).symm, fun h => ?_, ?_, rfl⟩
  · simpa using List.mem_takeWhile_imp h
  · cases hrest : tail.dropWhile (· ≠ '<') with
    | nil => exact .inl rfl
    | cons c rest =>
      have hc := List.head?_dropWhile_not (· ≠ '<') tail
      rw [hrest] at hc
      refine .inr ?_
      simpa using hc

theorem xhtmlCut_ok {p : Piece ScanState Bool} (hne : tail ≠ []) : xhtmlCut s tail = .ok p ↔
    ∃ piece rest, tail = piece ++ rest ∧ p.length = piece.length ∧ Cut s piece rest p.label p.state := by
  constructor
  · intro h
    unfold xhtmlCut at h
    split at h
    · rename_i hhead
      obtain ⟨run, rest, rfl, hbracket, hrest, htake⟩ := takeWhile_split tail
      obtain ⟨span, hspan, h⟩ := Except.bind_ok.mp h
      rw [htake] at hspan h
      cases h
      refine ⟨run, rest, rfl, rfl, .text ?_ hbracket hrest hspan⟩
      rintro rfl
      exact hrest.elim hne hhead
    rename_i hhead
    split at h
    · rename_i hcomment
      obtain ⟨offset, hfind, h⟩ := Except.bind_ok.mp h
      cases h
      obtain ⟨tail, rfl⟩ := List.isPrefixOf_iff_prefix.mp hcomment
      rw [ofOption_eq_ok] at hfind
      have hdrop : ("<!--".toList ++ tail).drop 4 = tail := rfl
      rw [hdrop] at hfind
      obtain ⟨⟨body, rest, rfl, rfl⟩, -⟩ := find_eq_some hfind
      refine ⟨"<!--".toList ++ body ++ "-->".toList, rest, by simp, ?_, .comment ?_⟩
      · simp only [List.length_append]
        rfl
      · have hcut := find_take hfind (Nat.le_refl _)
        rwa [← List.length_append, List.take_left] at hcut
    rename_i hcomment
    rw [List.isPrefixOf_iff_prefix] at hcomment
    obtain ⟨length, hend, h⟩ := Except.bind_ok.mp h
    obtain ⟨tag, rest, rfl, rfl, htag⟩ := (tagEnd_ok (not_not.mp hhead)).mp hend
    dsimp only at h
    rw [List.take_left] at h
    split at h
    · rename_i hdecl
      cases h
      exact ⟨tag, rest, rfl, rfl,
        .declaration htag (fun h => hcomment (h.trans (List.prefix_append _ _))) hdecl⟩
    · rename_i hdecl
      obtain ⟨stack, hstack, h⟩ := Except.bind_ok.mp h
      split at h
      · cases h
      · rename_i hcount
        cases h
        exact ⟨tag, rest, rfl, rfl, .tag htag (Bool.eq_false_iff.mpr hdecl) hstack (Nat.le_of_not_lt hcount)⟩
  · rintro ⟨piece, rest, rfl, hlen, h⟩
    obtain ⟨length, label, state⟩ := p
    dsimp only at hlen h
    rw [h.xhtmlCut, hlen]

omit [QuickXml] in
theorem returns_stackAfter (stack : List Str) (raw : Str) : Returns (stackAfter stack raw) := by
  unfold Returns stackAfter
  split
  · trivial
  · split
    · split <;> trivial
    · trivial

theorem returns_xhtmlCut (s : ScanState) (tail : Str) : Returns (xhtmlCut s tail) := by
  have hspan (run : Str) : Returns (isSpan s.stack run) := by
    unfold isSpan
    split
    · trivial
    · exact Post.bind (Q := fun _ => True) (post_ofOption fun _ _ => trivial) fun _ _ => trivial
  unfold Returns xhtmlCut tagEnd
  split
  · exact (hspan _).bind fun _ _ => trivial
  split
  · exact Post.bind (Q := fun _ => True) (post_ofOption fun _ _ => trivial) fun _ _ => trivial
  · refine Post.bind (Q := fun _ => True) (post_ofOption fun _ _ => trivial) fun n _ => ?_
    dsimp only
    split
    · trivial
    · refine (returns_stackAfter s.stack _).bind fun stack _ => ?_
      split <;> trivial

theorem Cut.ne_nil (h : Cut s piece rest label s') : piece ≠ [] := by
  cases h with
  | text hne => exact hne
  | comment => simp
  | declaration htag => exact List.ne_nil_of_length_pos (Nat.lt_of_lt_of_le Nat.zero_lt_two htag.two_le)
  | tag htag => exact List.ne_nil_of_length_pos (Nat.lt_of_lt_of_le Nat.zero_lt_two htag.two_le)

theorem advances_xhtmlCut : Advances xhtmlCut := by
  intro s tail hne
  refine (returns_xhtmlCut s tail).self.mono fun p hp => ?_
  obtain ⟨piece, rest, rfl, hlen, h⟩ := (xhtmlCut_ok hne).mp hp.1
  have hpos := List.length_pos_iff.mpr h.ne_nil
  rw [hlen, List.length_append]
  omega

theorem Cut.head (h : Cut s piece rest label s') (hmarkup : AtMarkup (piece ++ rest)) :
    label = false ∧ piece.head? = some '<' := by
  have hhead : piece.head? = some '<' := by
    obtain ⟨c, cs, rfl⟩ := List.exists_cons_of_ne_nil h.ne_nil
    rcases hmarkup with hnil | hhead
    · cases hnil
    · exact hhead
  refine ⟨?_, hhead⟩
  cases h with
  | text _ hbracket => exact absurd (List.mem_of_mem_head? hhead) hbracket
  | comment => rfl
  | declaration => rfl
  | tag => rfl

theorem Cut.last (h : Cut s piece rest label s') :
    label = false ∧ piece.getLast? = some '>' ∨ '<' ∉ piece ∧ AtMarkup rest := by
  cases h with
  | text _ hbracket hrest => exact .inr ⟨hbracket, hrest⟩
  | comment => exact .inl ⟨rfl, List.getLast?_append_of_ne_nil _ (by simp)⟩
  | declaration htag => exact .inl ⟨rfl, htag.last⟩
  | tag htag => exact .inl ⟨rfl, htag.last⟩

/-- The first piece of a scan. -/
theorem cut_of_scans {final : ScanState → Prop} {xml : Str} {p : Str × Bool} {ps : List (Str × Bool)}
    (h : Scans xhtmlCut final s xml (p :: ps)) :
    ∃ s' rest, xml = p.1 ++ rest ∧ Cut s p.1 rest p.2 s' ∧ Scans xhtmlCut final s' rest ps := by
  cases h with
  | @cons _ s' piece rest label _ hne hc hscans =>
    obtain ⟨piece', rest', hsplit, hlen, hcut⟩ :=
      (xhtmlCut_ok (List.append_ne_nil_of_left_ne_nil hne rest)).mp hc
    obtain ⟨rfl, rfl⟩ := append_length_inj hsplit hlen
    exact ⟨s', rest, rfl, hcut, hscans⟩

end Cut

/-! ## The spans as holes -/

section Spans

variable [QuickXml] {final : ScanState → Prop} {s : ScanState} {xml : Str} {ps ps' : List (Str × Bool)}

omit [QuickXml] in
theorem emitted_spanAt (c : Nat) (ps : List (Str × Bool)) : emitted spanAt c ps = holes c ps := by
  induction ps generalizing c with
  | nil => rfl
  | cons p ps ih =>
    obtain ⟨piece, span⟩ := p
    cases span with
    | false => exact ih _
    | true => exact congrArg _ (ih _)

theorem opens_of_scans (h : Scans xhtmlCut final s xml ps) (hmarkup : AtMarkup xml) : Opens ps := by
  cases ps with
  | nil => trivial
  | cons p ps =>
    obtain ⟨s', rest, rfl, hcut, -⟩ := cut_of_scans h
    exact hcut.head hmarkup

/-- A text comes only where markup ended. -/
theorem fenced_of_scans (h : Scans xhtmlCut final s xml ps) {after : Bool}
    (hafter : after = true ∨ AtMarkup xml) : Fenced after ps := by
  induction ps generalizing s xml after with
  | nil => trivial
  | cons p ps ih =>
    obtain ⟨piece, span⟩ := p
    obtain ⟨s', rest, rfl, hcut, hscans⟩ := cut_of_scans h
    cases span with
    | false =>
      refine ih hscans ?_
      rw [if_neg hcut.ne_nil]
      rcases hcut.last with ⟨-, hlast⟩ | ⟨-, hrest⟩
      · exact .inl (by rw [hlast]; rfl)
      · exact .inr hrest
    | true =>
      obtain ⟨hbracket, hrest⟩ := hcut.last.resolve_left fun h => Bool.false_ne_true h.1.symm
      refine ⟨hafter.resolve_right fun hmarkup => ?_, hbracket, opens_of_scans hscans hrest,
        ih hscans (.inr hrest)⟩
      exact Bool.false_ne_true (hcut.head hmarkup).1.symm

/-! ## Scanning a chapter again -/

/-- A text that is not blank, as it may stand in a chapter. -/
structure Spoken (new : Str) : Prop where
  plain : '<' ∉ new
  ne_nil : new ≠ []
  text : ∃ text, QuickXml.unescape new = some text ∧ text.any (!isWhitespace ·) = true

/-- What may stand for a piece of a scan. -/
inductive Kept : Str × Bool → Str × Bool → Prop where
  | markup (piece : Str) : Kept (piece, false) (piece, false)
  | text (piece : Str) {new : Str} : Spoken new → Kept (piece, true) (new, true)

theorem Spoken.isSpan {new piece : Str} (h : Spoken new) {stack : List Str}
    (hpiece : isSpan stack piece = .ok true) : isSpan stack new = .ok true := by
  unfold Epub.isSpan at hpiece ⊢
  split at hpiece
  · cases hpiece
  · rename_i hskipped
    obtain ⟨text, htext, hblank⟩ := h.text
    rw [if_neg hskipped, htext]
    simp only [ofOption, Except.ok_bind, hblank]

/-- The rule of `Scans.replace` for the cuts of the scan. -/
theorem xhtmlCut_kept {s s' : ScanState} {piece rest rest' : Str} {label : Bool} {p : Str × Bool}
    (hne : piece ≠ []) (hcut : xhtmlCut s (piece ++ rest) = .ok ⟨piece.length, label, s'⟩)
    (hsame : AtMarkup rest → AtMarkup rest') (hk : Kept (piece, label) p) :
    p.1 ≠ [] ∧ xhtmlCut s (p.1 ++ rest') = .ok ⟨p.1.length, p.2, s'⟩ ∧
      (AtMarkup (piece ++ rest) → AtMarkup (p.1 ++ rest')) := by
  have htail := List.append_ne_nil_of_left_ne_nil hne rest
  obtain ⟨piece', rest0, hsplit, hlen, hc⟩ := (xhtmlCut_ok htail).mp hcut
  obtain ⟨rfl, rfl⟩ := append_length_inj hsplit hlen
  dsimp only at hc
  cases hk with
  | markup =>
    refine ⟨hne, ?_, fun hmarkup => .inr ?_⟩
    · generalize hfalse : false = label at hc
      cases hc with
      | text _ hbracket hrest hspan => exact (Cut.text hne hbracket (hsame hrest) hspan).xhtmlCut
      | comment hbody => exact (Cut.comment hbody).xhtmlCut
      | declaration htag hcomment hdecl => exact (Cut.declaration htag hcomment hdecl).xhtmlCut
      | tag htag hdecl hstack hcount => exact (Cut.tag htag hdecl hstack hcount).xhtmlCut
    · rw [head_append hne rest' rest]
      exact hmarkup.resolve_left htail
  | text _ hnew =>
    refine ⟨hnew.ne_nil, ?_, fun hmarkup => absurd (hc.head hmarkup).1 Bool.false_ne_true.symm⟩
    generalize htrue : true = label at hc
    cases hc with
    | text _ hbracket hrest hspan =>
      subst htrue
      exact (Cut.text hnew.ne_nil hnew.plain (hsame hrest) (hnew.isSpan hspan)).xhtmlCut
    | comment => cases htrue
    | declaration => cases htrue
    | tag => cases htrue

/-- With other texts in its spans, a chapter has the same pieces. -/
theorem rescan (h : Scans xhtmlCut final s xml ps) (hk : List.Forall₂ Kept ps ps') :
    Scans xhtmlCut final s (text ps') ps' := by
  let Same (_ : ScanState) (t t' : Str) : Prop := AtMarkup t → AtMarkup t'
  have hnil (s : ScanState) : Same s [] [] := id
  exact (h.replace hnil xhtmlCut_kept hk).1

theorem kept_refill (ps : List (Str × Bool)) {news : List Str}
    (hlen : news.length = (contents ps).length) (hnews : ∀ new ∈ news, Spoken new) :
    List.Forall₂ Kept ps (refill ps news) := by
  induction ps generalizing news with
  | nil =>
    obtain rfl := List.length_eq_zero_iff.mp hlen
    exact .nil
  | cons p ps ih =>
    obtain ⟨piece, span⟩ := p
    cases span with
    | false =>
      rw [refill]
      exact .cons (.markup piece) (ih hlen hnews)
    | true =>
      cases news with
      | nil => cases hlen
      | cons new news =>
        obtain ⟨hnew, hnews⟩ := List.forall_mem_cons.mp hnews
        exact .cons (.text piece hnew) (ih (Nat.succ.inj hlen) hnews)

end Spans

/-! ## Rewriting a chapter -/

/-- A translation that is not blank, and that XML can have. -/
def Visible (t : Str) : Prop := '\x00' ∉ t ∧ t.any (!isWhitespace ·) = true

theorem IsWord.visible {t : Str} (h : IsWord t) : Visible t := by
  refine ⟨h.nulFree, ?_⟩
  obtain ⟨c, cs, rfl⟩ := List.exists_cons_of_ne_nil h.1
  have hc := h.2 c List.mem_cons_self
  rw [List.any_cons, Bool.or_eq_true]
  exact .inl (by rw [blank_of_alphanum hc]; rfl)

section Rewrite

variable [QuickXml] {xml xml' : Str} {spans : List TextSpan} {segs : List DocumentSegment}

theorem scanXhtml_ok : scanXhtml xml = .ok spans ↔
    QuickXml.reads xml = true ∧ xml ≠ [] ∧ '\x00' ∉ xml ∧ ∃ last ps, last.stack = [] ∧
      Scans xhtmlCut (· = last) ⟨[], 0⟩ xml ps ∧ spans = holes 0 ps := by
  unfold scanXhtml validateXml
  constructor
  · intro h
    split at h
    · rename_i hreads
      rw [Except.ok_bind] at h
      split at h
      · cases h
      rename_i hplain
      obtain ⟨⟨last, out⟩, hcut, h⟩ := Except.bind_ok.mp h
      obtain ⟨ps, hps, rfl⟩ := (cutAll_iff advances_xhtmlCut).mp hcut
      dsimp only at h
      split at h
      · cases h
      · rename_i hstack
        cases h
        simp only [Bool.or_eq_true, List.isEmpty_iff, List.contains_iff_mem, not_or] at hplain
        exact ⟨hreads, hplain.1, hplain.2, last, ps, not_not.mp hstack, hps, emitted_spanAt 0 ps⟩
    · cases h
  · rintro ⟨hreads, hne, hnul, last, ps, hstack, hps, rfl⟩
    have hplain : ¬ (xml.isEmpty || xml.contains '\x00') = true := by
      simp only [Bool.or_eq_true, List.isEmpty_iff, List.contains_iff_mem, not_or]
      exact ⟨hne, hnul⟩
    rw [if_pos hreads, Except.ok_bind, if_neg hplain,
      (cutAll_iff advances_xhtmlCut).mpr ⟨ps, hps, rfl⟩, Except.ok_bind]
    dsimp only
    rw [if_neg (not_not.mpr hstack), emitted_spanAt]

theorem spoken_contents {s : ScanState} {final : ScanState → Prop} {ps : List (Str × Bool)}
    (h : Scans xhtmlCut final s xml ps) : ∀ content ∈ contents ps, Spoken content := by
  induction ps generalizing s xml with
  | nil => exact fun _ hc => absurd hc List.not_mem_nil
  | cons p ps ih =>
    obtain ⟨piece, span⟩ := p
    obtain ⟨s', rest, rfl, hcut, hscans⟩ := cut_of_scans h
    cases span with
    | false => exact ih hscans
    | true =>
      refine List.forall_mem_cons.mpr ⟨?_, ih hscans⟩
      generalize htrue : true = span at hcut
      cases hcut with
      | text hne hbracket _ hspan =>
        subst htrue
        unfold isSpan at hspan
        split at hspan
        · cases hspan
        · obtain ⟨text, htext, hspan⟩ := Except.bind_ok.mp hspan
          exact ⟨hbracket, hne, text, ofOption_eq_ok.mp htext, Except.ok.inj hspan⟩
      | comment => cases htrue
      | declaration => cases htrue
      | tag => cases htrue

/-- What is written for a span is not blank. -/
theorem spoken_written (laws : Lawful) {content : Str} {s : DocumentSegment} (hcontent : Spoken content)
    (hs : s.kind = .prose → ∃ t, s.translatedText = some t ∧ Visible t) : Spoken (written content s) := by
  unfold written
  cases hkind : s.kind with
  | verbatim => exact hcontent
  | prose =>
    obtain ⟨t, ht, hnul, hblank⟩ := hs hkind
    rw [ht]
    have hback := laws.unescape_escape t hnul
    refine ⟨(laws.escape_plain t hnul).1, fun hempty => ?_, t, hback, hblank⟩
    dsimp only [Option.getD_some] at hempty
    rw [hempty, laws.unescape_plain [] List.not_mem_nil] at hback
    rw [← Option.some.inj hback] at hblank
    cases hblank

theorem spoken_news (laws : Lawful) {contents : List Str} (hcontents : ∀ content ∈ contents, Spoken content)
    {segs' : List DocumentSegment} (ht : List.Forall₂ (TranslatedAs Visible) segs segs') :
    ∀ new ∈ List.zipWith written contents segs', Spoken new := by
  induction ht generalizing contents with
  | nil =>
    rw [List.zipWith_nil_right]
    exact fun _ hnew => absurd hnew List.not_mem_nil
  | cons hs _ ih =>
    cases contents with
    | nil => exact fun _ hnew => absurd hnew List.not_mem_nil
    | cons content contents =>
      obtain ⟨hcontent, hcontents⟩ := List.forall_mem_cons.mp hcontents
      exact List.forall_mem_cons.mpr ⟨spoken_written laws hcontent fun hkind =>
        hs.translated (hs.kind.symm.trans hkind), ih hcontents⟩

/-- `xml'` is the chapter `xml` with the output of the segments in its text spans. -/
def Rewritten (xml : Str) (segs : List DocumentSegment) (xml' : Str) : Prop :=
  ∃ spans spans', scanXhtml xml = .ok spans ∧ scanXhtml xml' = .ok spans' ∧
    TextOnly xml spans xml' spans' segs

/-- The spans of a chapter read as the sources of the segments. -/
def ReadsAs (xml : Str) (spans : List TextSpan) (segs : List DocumentSegment) : Prop :=
  List.Forall₂ (fun span s => QuickXml.unescape (slice xml span.1 span.2) = some s.sourceText) spans segs

/-- The reader takes the chapter with any words for the texts that are to be translated. -/
def TakesWords (xml : Str) (spans : List TextSpan) (segs : List DocumentSegment) : Prop :=
  ∀ segs', List.Forall₂ (TranslatedAs IsWord) segs segs' → QuickXml.reads (filled xml 0 spans segs') = true

/-- A chapter as a text whose holes are its spans. -/
theorem exists_pieces (hspans : scanXhtml xml = .ok spans) :
    ∃ w, text w = xml ∧ holes 0 w = spans ∧ Fenced true w ∧ (∀ content ∈ contents w, Spoken content) ∧
      ∀ news : List Str, news.length = (contents w).length → (∀ new ∈ news, Spoken new ∧ '\x00' ∉ new) →
        QuickXml.reads (text (refill w news)) = true →
        scanXhtml (text (refill w news)) = .ok (holes 0 (refill w news)) := by
  obtain ⟨-, hne, hnul, last, ps, hstack, hps, rfl⟩ := scanXhtml_ok.mp hspans
  refine ⟨ps, hps.spelled, rfl, fenced_of_scans hps (.inl rfl), spoken_contents hps,
    fun news hlen hnews hreads => ?_⟩
  have hkept := kept_refill ps hlen fun new hnew => (hnews new hnew).1
  have hscans := rescan hps hkept
  refine scanXhtml_ok.mpr ⟨hreads, fun hempty => hne ?_, fun h => ?_, last, _, hstack, hscans, rfl⟩
  · -- no piece is empty
    have hlength := hkept.length_eq
    rw [hscans.nil_iff.mpr hempty] at hlength
    exact hps.nil_iff.mp (List.length_eq_zero_iff.mp hlength)
  · rcases mem_refill h with hold | ⟨new, hnew, hc⟩
    · exact hnul (hps.spelled ▸ hold)
    · exact (hnews new hnew).2 hc

theorem assigned_contents {w : List (Str × Bool)} (htext : text w = xml) (hholes : holes 0 w = spans)
    (hread : ReadsAs xml spans segs) {segs' : List DocumentSegment}
    (ht : List.Forall₂ (TranslatedAs ('\x00' ∉ ·)) segs segs') : List.Forall₂ Assigned (contents w) segs' := by
  have hslices := slices_holes [] w
  rw [List.nil_append, List.length_nil, hholes] at hslices
  rw [← hslices, List.forall₂_map_left_iff, htext]
  exact forall₂_trans (fun _ _ _ hspan hs => hs.assigned hspan) hread ht

theorem rewriteXhtml_refill (hspans : scanXhtml xml = .ok spans) {w : List (Str × Bool)}
    (htext : text w = xml) (hholes : holes 0 w = spans) (h : List.Forall₂ Assigned (contents w) segs)
    (done rest : List DocumentSegment) :
    rewriteXhtml xml (done ++ segs ++ rest) done.length =
      .ok (text (refill w (news w segs)), done.length + segs.length) := by
  have hrewrite := rewriteSpans_ok h done rest
  rw [htext, hholes] at hrewrite
  unfold rewriteXhtml
  rw [hspans, Except.ok_bind, hrewrite]

/-- With words for its texts a chapter is what the reader has to take. -/
theorem rewriteXhtml_words (laws : Lawful) (hspans : scanXhtml xml = .ok spans)
    (hread : ReadsAs xml spans segs) {words : List DocumentSegment}
    (hwords : List.Forall₂ (TranslatedAs IsWord) segs words) (done rest : List DocumentSegment) :
    rewriteXhtml xml (done ++ words ++ rest) done.length =
      .ok (filled xml 0 spans words, done.length + words.length) := by
  obtain ⟨w, htext, hholes, -, -, -⟩ := exists_pieces hspans
  have hassigned := assigned_contents htext hholes hread
    (hwords.imp fun _ _ hs => hs.mono fun _ => IsWord.nulFree)
  rw [rewriteXhtml_refill hspans htext hholes hassigned, news, news_words laws.toLawful hwords, ← fillings,
    ← filled_holes hassigned.length_eq, htext, hholes]

/-- A chapter that takes words takes any translations. -/
theorem rewriteXhtml_ok (laws : Lawful) (hspans : scanXhtml xml = .ok spans) (hread : ReadsAs xml spans segs)
    (hwords : TakesWords xml spans segs) {segs' : List DocumentSegment}
    (ht : List.Forall₂ (TranslatedAs Visible) segs segs') (done rest : List DocumentSegment) :
    ∃ xml', rewriteXhtml xml (done ++ segs' ++ rest) done.length = .ok (xml', done.length + segs'.length) ∧
      Rewritten xml segs' xml' := by
  obtain ⟨w, htext, hholes, hfenced, hspoken, hagain⟩ := exists_pieces hspans
  have hassigned := assigned_contents htext hholes hread (ht.imp fun _ _ hs => hs.mono fun _ => And.left)
  have hreads : QuickXml.reads (text (refill w (news w segs'))) = true := by
    refine reads_refill laws.toLawful hfenced hassigned fun words hsegs => ?_
    have hfilled := filled_holes (hassigned.length_eq.trans hsegs.length_eq)
    rw [htext, hholes] at hfilled
    rw [← hfilled]
    exact hwords words (forall₂_trans (fun _ _ _ hs hs' => hs.trans hs') ht hsegs)
  have hplain := plain_news laws.toLawful hassigned fun content hcontent =>
    ⟨hfenced.plain content hcontent, fun hnul =>
      (scanXhtml_ok.mp hspans).2.2.1 (htext ▸ mem_contents hcontent hnul)⟩
  have hnews : ∀ new ∈ news w segs', Spoken new ∧ '\x00' ∉ new := fun new hnew =>
    ⟨spoken_news laws hspoken ht new hnew, (hplain new hnew).2⟩
  refine ⟨_, rewriteXhtml_refill hspans htext hholes hassigned done rest, spans, _, hspans,
    hagain _ (length_news hassigned) hnews hreads, ?_⟩
  rw [← hholes, ← htext]
  exact textOnly_refill laws.toLawful hassigned

/-- A chapter can be written again and read again with any translations in its spans, and the same
outside of them, if and only if the reader takes it with any words in their place. -/
theorem rewriteXhtml_iff (laws : Lawful) (hspans : scanXhtml xml = .ok spans)
    (hread : ReadsAs xml spans segs) :
    (∀ segs', List.Forall₂ (TranslatedAs Visible) segs segs' → ∀ done rest, ∃ xml',
      rewriteXhtml xml (done ++ segs' ++ rest) done.length = .ok (xml', done.length + segs'.length) ∧
        Rewritten xml segs' xml') ↔ TakesWords xml spans segs := by
  constructor
  · intro h words hwords
    obtain ⟨xml', hrewrite, _, _, -, hspans', -⟩ :=
      h words (hwords.imp fun _ _ hs => hs.mono fun _ => IsWord.visible) [] []
    rw [rewriteXhtml_words laws hspans hread hwords [] []] at hrewrite
    obtain ⟨rfl, -⟩ := Prod.mk.inj (Except.ok.inj hrewrite)
    exact (scanXhtml_ok.mp hspans').1
  · intro hwords segs' ht done rest
    exact rewriteXhtml_ok laws hspans hread hwords ht done rest

/-- A chapter takes words if its texts stand in character data. -/
theorem takesWords_of_clear (laws : Lawful) (hspans : scanXhtml xml = .ok spans) (hread : ReadsAs xml spans segs)
    (hclear : List.Forall₂ (Clear xml) spans segs) : TakesWords xml spans segs := by
  intro words hwords
  obtain ⟨w, htext, hholes, hfenced, -, -⟩ := exists_pieces hspans
  have hassigned := assigned_contents htext hholes hread
    (hwords.imp fun _ _ hs => hs.mono fun _ => IsWord.nulFree)
  have hclear' : List.Forall₂ (Clear (text w)) (holes 0 w) words := by
    rw [htext, hholes]
    exact forall₂_trans (fun _ _ _ hspan hs hkind => hspan (hs.kind.symm.trans hkind)) hclear hwords
  have hreads := reads_refill_clear laws.toLawful hfenced hassigned hclear' (htext ▸ (scanXhtml_ok.mp hspans).1)
  rwa [news, news_words laws.toLawful hwords, ← fillings, ← filled_holes hassigned.length_eq, htext, hholes]
    at hreads

end Rewrite

/-! ### Two chapters -/

theorem lawful_plainXml : @Lawful PlainXml.plainXml := by
  refine @Lawful.mk PlainXml.plainXml PlainXml.lawful_plainXml fun t ht => ?_
  show PlainXml.unescapeFrom 0 t = some t
  induction t with
  | nil => rfl
  | cons c t ih =>
    rw [List.mem_cons, not_or] at ht
    obtain ⟨hc, ht⟩ := ht
    rw [PlainXml.unescapeFrom, if_neg (Ne.symm hc), ih ht]
    rfl

def helloChapter : String := "<html><body><p>Hello</p></body></html>"

def helloSegment : DocumentSegment := ⟨0, .prose, "Hello".toList, none, []⟩

theorem rewriteXhtml_hello :
    letI := PlainXml.plainXml
    letI segment : DocumentSegment := { helloSegment with translatedText := some "你好".toList }
    ∃ xml, rewriteXhtml helloChapter.toList [segment] 0 = .ok (xml, 1) ∧
      Rewritten helloChapter.toList [segment] xml := by
  let _ : QuickXml := PlainXml.plainXml
  have hspans : scanXhtml helloChapter.toList = .ok [(15, 20)] := by decide +kernel
  have hread : ReadsAs helloChapter.toList [(15, 20)] [helloSegment] := .cons (by decide +kernel) .nil
  have htakes : TakesWords helloChapter.toList [(15, 20)] [helloSegment] :=
    takesWords_of_clear lawful_plainXml hspans hread (.cons (fun _ => by decide +kernel) .nil)
  exact (rewriteXhtml_iff lawful_plainXml hspans hread).mpr htakes _
    (.cons ⟨rfl, fun _ => ⟨_, rfl, by decide, by decide⟩⟩ .nil) [] []

/-- For the scan the section ends at the first bracket, for the reader it has not ended. -/
def sectionChapter : String := "<p><![CDATA[a>b]]></p>"

theorem section_takes_no_words :
    letI := PlainXml.plainXml
    scanXhtml sectionChapter.toList = .ok [(14, 18)] ∧
      ¬ TakesWords sectionChapter.toList [(14, 18)] [⟨0, .prose, "b]]>".toList, none, []⟩] := by
  let _ : QuickXml := PlainXml.plainXml
  refine ⟨by decide +kernel, fun h => ?_⟩
  have hread := h [⟨0, .prose, "b]]>".toList, some ['x'], []⟩]
    (.cons ⟨rfl, fun _ => ⟨['x'], rfl, PlainXml.isWord_x⟩⟩ .nil)
  exact absurd hread (by decide +kernel)

end LinguaMesh.Epub
