import LinguaMesh.Document.Html

/-!
# Scanning a changed HTML text

What `htmlCut` cuts off does not depend on the text behind it, but for two
things: text ends at the next `<`, and raw text at the next closing tag
(`SameAhead`). So a text in which other text stands for the text to translate is
cut at the same tags and comments (`rescan`), as long as that text holds no `<`
and is not blank (`Kept`).
-/

namespace LinguaMesh

open Search Run

/-- What may stand for a piece of a scan. -/
inductive Kept : Str × Bool → Str × Bool → Prop where
  | markup (piece : Str) : Kept (piece, false) (piece, false)
  | text {piece new : Str} : '<' ∉ new → new.any (!isWhitespace ·) → Kept (piece, true) (new, true)

/-! ## Tags and comments -/

section Local

variable {t : Str} {quote : Option Char} {n : Nat}

theorem htmlTagEnd_local (h : htmlTagEnd quote t = some n) (u : Str) :
    htmlTagEnd quote (t.take n ++ u) = some n ∧ '>' ∈ t.take n := by
  fun_induction htmlTagEnd quote t generalizing n with
  | case1 => cases h
  | case2 quote c cs ih =>
    obtain ⟨m, hm, rfl⟩ := Option.map_eq_some_iff.mp h
    obtain ⟨h1, h2⟩ := ih hm
    rw [List.take_succ_cons, List.cons_append, htmlTagEnd, h1]
    exact ⟨rfl, List.mem_cons_of_mem _ h2⟩
  | case3 c cs hc ih =>
    obtain ⟨m, hm, rfl⟩ := Option.map_eq_some_iff.mp h
    obtain ⟨h1, h2⟩ := ih hm
    rw [List.take_succ_cons, List.cons_append, htmlTagEnd, if_pos hc, h1]
    exact ⟨rfl, List.mem_cons_of_mem _ h2⟩
  | case4 cs hc =>
    cases h
    rw [List.take_succ_cons, List.cons_append, htmlTagEnd, if_neg hc, if_pos rfl]
    exact ⟨rfl, List.mem_cons_self⟩
  | case5 c cs hc hgt ih =>
    obtain ⟨m, hm, rfl⟩ := Option.map_eq_some_iff.mp h
    obtain ⟨h1, h2⟩ := ih hm
    rw [List.take_succ_cons, List.cons_append, htmlTagEnd, if_neg hc, if_neg hgt, h1]
    exact ⟨rfl, List.mem_cons_of_mem _ h2⟩

/-- A tag does not end among characters that are no quotes and no `>`. -/
theorem lt_htmlTagEnd {a b : Str} (ha : ∀ c ∈ a, c ≠ '"' ∧ c ≠ '\x27' ∧ c ≠ '>')
    (h : htmlTagEnd none (a ++ b) = some n) : a.length < n := by
  induction a generalizing n with
  | nil => exact (htmlTagEnd_le h).1
  | cons c a ih =>
    obtain ⟨h1, h2, h3⟩ := ha c List.mem_cons_self
    rw [List.cons_append, htmlTagEnd, if_neg (not_or.mpr ⟨h1, h2⟩), if_neg h3] at h
    obtain ⟨m, hm, rfl⟩ := Option.map_eq_some_iff.mp h
    have := ih (fun c hc => ha c (List.mem_cons_of_mem _ hc)) hm
    rw [List.length_cons]
    omega

variable {stack stack' : List Str} {piece rest : Str}

/-- A comment or a tag is found in whatever text follows it. -/
theorem htmlMarkup_local (h : htmlMarkup stack (piece ++ rest) = .ok (piece.length, stack'))
    (rest' : Str) : htmlMarkup stack (piece ++ rest') = .ok (piece.length, stack') := by
  unfold htmlMarkup at h ⊢
  split at h
  · rename_i hp
    obtain ⟨offset, hfind, h⟩ := Except.bind_ok.mp h
    rw [ofOption_eq_ok] at hfind
    obtain ⟨hl, rfl⟩ := Prod.mk.inj (Except.ok.inj h)
    have h4 : 4 ≤ piece.length := by omega
    have hp' : "<!--".toList.isPrefixOf (piece ++ rest') := by
      rw [List.isPrefixOf_iff_prefix] at hp ⊢
      have : "<!--".toList <+: piece := prefix_of_le hp (List.prefix_append _ _) h4
      exact this.trans (List.prefix_append _ _)
    have hfind' : find "-->".toList ((piece ++ rest').drop 4) = some offset := by
      rw [List.drop_append_of_le_length h4] at hfind ⊢
      have hcut := find_take hfind (Nat.le_refl _)
      rw [List.take_left' (by rw [List.length_drop, ← hl]; show _ = offset + 3; omega)] at hcut
      exact find_append hcut rest'
    rw [if_pos hp', hfind']
    exact congrArg (fun n => Except.ok (n, stack)) hl
  · rename_i hp
    obtain ⟨offset, hend, h⟩ := Except.bind_ok.mp h
    obtain ⟨tag, htag, h⟩ := Except.bind_ok.mp h
    obtain ⟨stack'', hstack, h⟩ := Except.bind_ok.mp h
    rw [ofOption_eq_ok] at hend
    obtain ⟨hl, rfl⟩ := Prod.mk.inj (Except.ok.inj h)
    have h1 : 1 ≤ piece.length := by omega
    rw [List.drop_append_of_le_length h1] at hend
    have hdrop : (piece.drop 1 ++ rest).take offset = piece.drop 1 :=
      List.take_left' (by rw [List.length_drop, ← hl]; omega)
    obtain ⟨hend', hgt⟩ := htmlTagEnd_local hend rest'
    rw [hdrop] at hend' hgt
    -- a piece that the comment's start goes over would end inside it, but it ends in `>`
    have hp' : ¬ "<!--".toList.isPrefixOf (piece ++ rest') := by
      rw [List.isPrefixOf_iff_prefix] at hp ⊢
      intro hc
      rcases Nat.le_total "<!--".toList.length piece.length with hle | hle
      · exact hp ((prefix_of_le hc (List.prefix_append _ _) hle).trans (List.prefix_append _ _))
      · have hpiece := prefix_of_le (List.prefix_append _ _) hc hle
        have : '>' ∈ "<!--".toList := hpiece.subset (List.mem_of_mem_drop hgt)
        exact absurd this (by decide)
    rw [hl, List.take_left] at htag
    rw [if_neg hp', List.drop_append_of_le_length h1, hend']
    simp only [ofOption, Except.ok_bind, hl, List.take_left, htag, hstack]

end Local

/-! ## Raw text -/

/-- The closing tag of an element is at the front of the text. -/
def ClosesAt (tag text : Str) : Prop := asciiLower (closingTag tag) <+: asciiLower text

section Raw

variable {stack stack' : List Str} {tag piece rest : Str}

theorem ClosesAt.split (h : ClosesAt tag rest) :
    ∃ x b, rest = x ++ b ∧ asciiLower x = asciiLower (closingTag tag) := by
  obtain ⟨b, hb⟩ := h
  obtain ⟨x, y, rfl, hx, -⟩ := List.map_eq_append_iff.mp hb.symm
  exact ⟨x, y, rfl, hx⟩

theorem ClosesAt.append (h : ClosesAt tag piece) (rest : Str) : ClosesAt tag (piece ++ rest) := by
  unfold ClosesAt asciiLower
  rw [List.map_append]
  exact h.trans (List.prefix_append _ _)

theorem rawTag_mem (h : rawTag stack = some tag) : tag ∈ htmlRawTextTags := by
  obtain ⟨-, h⟩ := Option.filter_eq_some_iff.mp h
  simpa using h

theorem rawTextLength_zero : rawTextLength stack rest = .ok 0 ↔
    ∀ tag, rawTag stack = some tag → ClosesAt tag rest := by
  unfold rawTextLength
  cases rawTag stack with
  | none => simp
  | some tag => simp [findCloses_eq, find_eq_zero, ClosesAt]

/-- Raw text ends where the closing tag begins, whatever follows that. -/
theorem rawTextLength_pos (hne : piece ≠ [])
    (h : rawTextLength stack (piece ++ rest) = .ok piece.length) :
    ∃ tag, rawTag stack = some tag ∧ ¬ ClosesAt tag (piece ++ rest) ∧ ClosesAt tag rest ∧
      ∀ rest', ClosesAt tag rest' → rawTextLength stack (piece ++ rest') = .ok piece.length := by
  have hpos := List.length_pos_iff.mpr hne
  unfold rawTextLength at h ⊢
  cases htag : rawTag stack with
  | none =>
    rw [htag] at h
    have := Except.ok.inj h
    omega
  | some tag =>
    rw [htag] at h
    simp only [ofOption_eq_ok, findCloses_eq] at h ⊢
    have hlower (t : Str) : asciiLower (piece ++ t) = asciiLower piece ++ asciiLower t :=
      List.map_append
    have hlen : (asciiLower piece).length = piece.length := List.length_map _
    obtain ⟨⟨A, B, hsplit, hA⟩, -⟩ := find_eq_some h
    rw [hlower, List.append_assoc] at hsplit
    obtain ⟨hpiece, hrest⟩ := append_length_inj hsplit (hlen.trans hA.symm)
    refine ⟨tag, rfl, fun hc => ?_, ⟨B, hrest.symm⟩, ?_⟩
    · rw [find_eq_zero.mpr hc] at h
      have := Option.some.inj h
      omega
    · rintro rest' ⟨B', hrest'⟩
      have hcut := find_take h (Nat.le_refl _)
      rw [hlower, hrest, ← List.append_assoc,
        List.take_left' (by rw [List.length_append, hlen])] at hcut
      rw [hlower, ← hrest', ← List.append_assoc]
      exact find_append hcut B'

/-- Whether a character, in any case, ends a tag or opens a quote. -/
def endsOrQuotes (c : Char) : Bool := [Char.toLower '"', Char.toLower '\x27', Char.toLower '>'].contains c

theorem plain_closingTags : (htmlRawTextTags.all fun tag =>
    (asciiLower ('/' :: tag)).all (!endsOrQuotes ·)) = true := by
  decide +kernel

theorem plain_closingTag {c : Char} (htag : tag ∈ htmlRawTextTags)
    (hc : c.toLower ∈ asciiLower ('/' :: tag)) : c ≠ '"' ∧ c ≠ '\x27' ∧ c ≠ '>' := by
  have h := List.all_eq_true.mp (List.all_eq_true.mp plain_closingTags tag htag) _ hc
  simp only [endsOrQuotes, Bool.not_eq_true', List.contains_eq_mem, decide_eq_false_iff_not,
    List.mem_cons, List.not_mem_nil, or_false, not_or] at h
  obtain ⟨h1, h2, h3⟩ := h
  exact ⟨fun e => h1 (by rw [e]), fun e => h2 (by rw [e]), fun e => h3 (by rw [e])⟩

/-- A closing tag at the front of a text lies in the token that is cut off there. -/
theorem ClosesAt.of_markup (htag : tag ∈ htmlRawTextTags) (hc : ClosesAt tag (piece ++ rest))
    (h : htmlMarkup stack (piece ++ rest) = .ok (piece.length, stack')) : ClosesAt tag piece := by
  obtain ⟨x, b, hx, hlower⟩ := hc.split
  have hlen : x.length ≤ piece.length := by
    obtain ⟨c0, x, rfl, -, hx1⟩ := List.map_eq_cons_iff.mp hlower
    obtain ⟨c1, y, rfl, hc1, -⟩ := List.map_eq_cons_iff.mp hx1
    have hplain (c : Char) (hc : c ∈ c1 :: y) : c ≠ '"' ∧ c ≠ '\x27' ∧ c ≠ '>' := by
      have hmem : c.toLower ∈ (c1 :: y).map Char.toLower := List.mem_map_of_mem hc
      rw [hx1] at hmem
      exact plain_closingTag htag hmem
    unfold htmlMarkup at h
    split at h
    · rename_i hp
      rw [hx, List.isPrefixOf_iff_prefix] at hp
      obtain ⟨-, hp⟩ := List.cons_prefix_cons.mp hp
      obtain ⟨rfl, -⟩ := List.cons_prefix_cons.mp hp
      exact absurd hc1 (by decide)
    · obtain ⟨offset, hend, h⟩ := Except.bind_ok.mp h
      obtain ⟨_, -, h⟩ := Except.bind_ok.mp h
      obtain ⟨_, -, h⟩ := Except.bind_ok.mp h
      obtain ⟨hl, -⟩ := Prod.mk.inj (Except.ok.inj h)
      rw [ofOption_eq_ok, hx] at hend
      have := lt_htmlTagEnd hplain (show htmlTagEnd none (c1 :: y ++ b) = some offset from hend)
      simp only [List.length_cons] at this ⊢
      omega
  have hpre : x <+: piece := prefix_of_le ⟨b, hx.symm⟩ (List.prefix_append _ _) hlen
  unfold ClosesAt
  rw [← hlower]
  exact hpre.map _

end Raw

/-! ## The cut -/

/-- What the cut before `text` and before `text'` may look at is the same. -/
structure SameAhead (s : HtmlState) (text text' : Str) : Prop where
  nil : text = [] → text' = []
  bracket : text.head? = some '<' → text'.head? = some '<'
  closes : ∀ tag, rawTag s.stack = some tag → ClosesAt tag text → ClosesAt tag text'

section Cut

variable {s s' : HtmlState} {piece rest rest' : Str} {label : Bool}

/-- A piece that stays agrees with itself, but for a closing tag that goes beyond it. -/
theorem sameAhead_of_piece (hne : piece ≠ [])
    (h : ∀ tag, rawTag s.stack = some tag → ClosesAt tag (piece ++ rest) →
      ClosesAt tag (piece ++ rest')) : SameAhead s (piece ++ rest) (piece ++ rest') := by
  refine ⟨fun e => absurd (List.append_eq_nil_iff.mp e).1 hne, fun e => ?_, h⟩
  obtain ⟨c, cs, rfl⟩ := List.exists_cons_of_ne_nil hne
  exact e

theorem sameAhead_nil (s : HtmlState) : SameAhead s [] [] := ⟨id, id, fun _ _ => id⟩

/-- The text before the next `<`. -/
theorem takeWhile_text {new rest : Str} (hnew : '<' ∉ new)
    (hrest : rest = [] ∨ rest.head? = some '<') : (new ++ rest).takeWhile (· ≠ '<') = new := by
  have hall : ∀ c ∈ new, decide (c ≠ '<') = true := fun c hc =>
    decide_eq_true fun e => hnew (e ▸ hc)
  rw [List.takeWhile_append_of_pos hall]
  rcases hrest with rfl | hrest
  · simp
  · obtain ⟨cs, rfl⟩ : ∃ cs, rest = '<' :: cs := by
      cases rest with
      | nil => cases hrest
      | cons c cs => exact ⟨cs, by rw [Option.some.inj hrest]⟩
    simp

theorem head_append (hne : piece ≠ []) (a b : Str) : (piece ++ a).head? = (piece ++ b).head? := by
  obtain ⟨c, cs, rfl⟩ := List.exists_cons_of_ne_nil hne
  rfl

/-- The cut of raw text. -/
theorem htmlCut_raw (hne : piece ≠ [])
    (hclose : rawTextLength s.stack (piece ++ rest) = .ok piece.length)
    (hsame : SameAhead ⟨s.stack, s.count + 1⟩ rest rest') :
    htmlCut s (piece ++ rest') = .ok ⟨piece.length, false, s.stack, s.count + 1⟩ ∧
      SameAhead s (piece ++ rest) (piece ++ rest') := by
  obtain ⟨tag, htag, hnot, hrest, hall⟩ := rawTextLength_pos hne hclose
  refine ⟨?_, sameAhead_of_piece hne fun t ht hc => ?_⟩
  · unfold htmlCut
    rw [hall rest' (hsame.closes tag htag hrest), Except.ok_bind,
      if_pos (List.length_pos_iff.mpr hne)]
  · rw [htag] at ht
    cases ht
    exact absurd hc hnot

/-- The cut of a comment or a tag. -/
theorem htmlCut_markup {stack : List Str} (hne : piece ≠ [])
    (hclose : rawTextLength s.stack (piece ++ rest) = .ok 0)
    (hhead : (piece ++ rest).head? = some '<')
    (hm : htmlMarkup s.stack (piece ++ rest) = .ok (piece.length, stack)) (rest' : Str) :
    htmlCut s (piece ++ rest') = .ok ⟨piece.length, false, stack, s.count + 1⟩ ∧
      SameAhead s (piece ++ rest) (piece ++ rest') := by
  have hcloses (tag : Str) (htag : rawTag s.stack = some tag) : ClosesAt tag (piece ++ rest') :=
    (ClosesAt.of_markup (rawTag_mem htag) (rawTextLength_zero.mp hclose tag htag) hm).append rest'
  refine ⟨?_, sameAhead_of_piece hne fun tag htag _ => hcloses tag htag⟩
  unfold htmlCut
  rw [rawTextLength_zero.mpr hcloses, Except.ok_bind, if_neg (Nat.lt_irrefl 0),
    head_append hne rest' rest, if_pos hhead, htmlMarkup_local hm rest']
  rfl

theorem eq_bracket_of_toLower {c : Char} (h : c.toLower = '<') : c = '<' := by
  unfold Char.toLower at h
  split at h
  · -- a capital letter becomes a letter
    rename_i hc
    have hval : c.val + 32 = 60 := congrArg Char.val h
    have h1 : (65 : UInt32) ≤ c.val := hc.1
    have h2 : c.val ≤ 90 := hc.2
    have hsum := congrArg UInt32.toNat hval
    rw [UInt32.le_iff_toNat_le] at h1 h2
    rw [UInt32.toNat_add] at hsum
    simp only [UInt32.reduceToNat] at h1 h2 hsum
    omega
  · exact h

/-- Where a closing tag is, there is a bracket. -/
theorem ClosesAt.head {tag text : Str} (h : ClosesAt tag text) : text.head? = some '<' := by
  obtain ⟨x, b, rfl, hx⟩ := h.split
  obtain ⟨c, x, rfl, hc, -⟩ := List.map_eq_cons_iff.mp hx
  rw [eq_bracket_of_toLower hc]
  rfl

/-- A piece of text goes up to the next `<`. -/
theorem takeWhile_piece (h : ((piece ++ rest).takeWhile (· ≠ '<')).length = piece.length) :
    (piece ++ rest).takeWhile (· ≠ '<') = piece ∧ '<' ∉ piece ∧ (rest = [] ∨ rest.head? = some '<') := by
  have hpre := prefix_of_le (List.takeWhile_prefix (· ≠ '<')) (List.prefix_append piece rest)
    (Nat.le_of_eq h)
  have heq := hpre.eq_of_length h
  have hnot : '<' ∉ piece := fun hm => by
    rw [← heq] at hm
    simpa using List.mem_takeWhile_imp hm
  refine ⟨heq, hnot, ?_⟩
  cases rest with
  | nil => exact .inl rfl
  | cons c cs =>
    right
    by_contra hc
    have hall : ∀ d ∈ piece, decide (d ≠ '<') = true := fun d hd =>
      decide_eq_true fun e => hnot (e ▸ hd)
    rw [List.takeWhile_append_of_pos hall, List.takeWhile_cons_of_pos (by simpa using hc)] at heq
    have := congrArg List.length heq
    simp at this

/-- The cut of text: what it depends on is the bracket behind it. -/
theorem htmlCut_text {p : Str × Bool} (hne : piece ≠ [])
    (hcut : htmlCut s (piece ++ rest) = .ok ⟨piece.length, label, s'⟩)
    (hclose : rawTextLength s.stack (piece ++ rest) = .ok 0)
    (hhead : (piece ++ rest).head? ≠ some '<') (hsame : SameAhead s' rest rest')
    (hk : Kept (piece, label) p) :
    p.1 ≠ [] ∧ htmlCut s (p.1 ++ rest') = .ok ⟨p.1.length, p.2, s'⟩ ∧
      SameAhead s (piece ++ rest) (p.1 ++ rest') := by
  -- no raw text is open: its closing tag would be a bracket
  have hraw (tag : Str) : rawTag s.stack ≠ some tag := fun htag =>
    hhead (rawTextLength_zero.mp hclose tag htag).head
  unfold htmlCut at hcut
  rw [hclose, Except.ok_bind, if_neg (Nat.lt_irrefl 0), if_neg hhead] at hcut
  dsimp only at hcut
  split at hcut
  · cases hcut
  rename_i hlimit
  obtain ⟨hlength, hlabel, hs'⟩ := Piece.mk.inj (Except.ok.inj hcut)
  obtain ⟨hpiece, hnot, hrest⟩ := takeWhile_piece hlength
  rw [hpiece] at hlabel
  -- the new text is no less text than the old one
  obtain ⟨hne', hnot', hlabel'⟩ : p.1 ≠ [] ∧ '<' ∉ p.1 ∧
      (!s.stack.any htmlRawTextTags.contains && p.1.any (!isWhitespace ·)) = p.2 := by
    cases hk with
    | markup => exact ⟨hne, hnot, hlabel⟩
    | text hnew hblank =>
      refine ⟨?_, hnew, ?_⟩
      · rintro rfl
        cases hblank
      · rw [hblank, Bool.and_true]
        exact (Bool.and_eq_true_iff.mp hlabel).1
  have hhead' : (p.1 ++ rest').head? ≠ some '<' := fun e => by
    obtain ⟨c, cs, hp⟩ := List.exists_cons_of_ne_nil hne'
    rw [hp] at e hnot'
    exact hnot' (by rw [← Option.some.inj e]; exact List.mem_cons_self)
  refine ⟨hne', ?_, ⟨fun e => absurd (List.append_eq_nil_iff.mp e).1 hne, fun e => absurd e hhead,
    fun tag htag => absurd htag (hraw tag)⟩⟩
  unfold htmlCut
  rw [rawTextLength_zero.mpr fun tag htag => absurd htag (hraw tag), Except.ok_bind,
    if_neg (Nat.lt_irrefl 0), if_neg hhead']
  dsimp only
  rw [if_neg hlimit, takeWhile_text hnot' (hrest.imp hsame.nil hsame.bracket), hlabel', hs']

/-- The rule of `Scans.replace` for the cuts of the scanner. -/
theorem htmlCut_kept {p : Str × Bool} (hne : piece ≠ [])
    (hcut : htmlCut s (piece ++ rest) = .ok ⟨piece.length, label, s'⟩) (hsame : SameAhead s' rest rest')
    (hk : Kept (piece, label) p) :
    p.1 ≠ [] ∧ htmlCut s (p.1 ++ rest') = .ok ⟨p.1.length, p.2, s'⟩ ∧
      SameAhead s (piece ++ rest) (p.1 ++ rest') := by
  obtain ⟨close, hclose, h⟩ := Except.bind_ok.mp hcut
  split at h
  · cases h
    cases hk
    exact ⟨hne, htmlCut_raw hne hclose hsame⟩
  rename_i h0
  obtain rfl : close = 0 := Nat.eq_zero_of_not_pos h0
  split at h
  · rename_i hhead
    obtain ⟨⟨length, stack⟩, hm, h⟩ := Except.bind_ok.mp h
    cases h
    cases hk
    exact ⟨hne, htmlCut_markup hne hclose hhead hm rest'⟩
  · rename_i hhead
    exact htmlCut_text hne hcut hclose hhead hsame hk

/-- A piece to translate is text. -/
theorem htmlCut_translatable (h : htmlCut s (piece ++ rest) = .ok ⟨piece.length, true, s'⟩) :
    '<' ∉ piece := by
  obtain ⟨close, hclose, h⟩ := Except.bind_ok.mp h
  split at h
  · cases h
  split at h
  · obtain ⟨_, -, h⟩ := Except.bind_ok.mp h
    exact absurd (Piece.mk.inj (Except.ok.inj h)).2.1 Bool.false_ne_true
  · dsimp only at h
    split at h
    · cases h
    · exact (takeWhile_piece (Piece.mk.inj (Except.ok.inj h)).1).2.1

end Cut

/-! ## The scan -/

section

variable {s : HtmlState} {text : Str} {ps ps' : List (Str × Bool)}

/-- Other text in the place of the text to translate: the scan finds the same tokens. -/
theorem rescan (h : HtmlScans s text ps) (hk : List.Forall₂ Kept ps ps') :
    HtmlScans s (ps'.flatMap Prod.fst) ps' :=
  (h.replace sameAhead_nil htmlCut_kept hk).1

theorem translatable_piece (h : HtmlScans s text ps) : ∀ p ∈ ps, p.2 = true → '<' ∉ p.1 := by
  induction h with
  | nil => exact fun p hp => absurd hp List.not_mem_nil
  | cons _ hcut _ ih =>
    intro p hp htrue
    rcases List.mem_cons.mp hp with rfl | hp
    · subst htrue
      exact htmlCut_translatable hcut
    · exact ih p hp htrue

end

end LinguaMesh
