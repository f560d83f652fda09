import LinguaMesh.Domain.Text
import LinguaMesh.Lib.Gaps

/-!
# Words

The words of a text and the gaps of blanks between them. Texts with the same words differ
by a sequence of other gaps, so what no single gap changes depends on the words alone
(`eq_of_words`).
-/

namespace LinguaMesh

open Search

/-- `str::split_whitespace`. -/
def splitWhitespace : Str → List Str
  | [] => []
  | c :: cs =>
    if isWhitespace c then splitWhitespace cs
    else if cs.head?.all isWhitespace then [c] :: splitWhitespace cs
    else (splitWhitespace cs).modifyHead (c :: ·)

/-- `[str]::join(" ")`. -/
def joinWords (words : List Str) : Str := [' '].intercalate words

/-- Blanks between two parts of a source, or at an end of it. -/
structure Gap (x g y : Str) : Prop where
  blank : ∀ c ∈ g, isWhitespace c = true
  apart : Search.Apart x g y

/-- No blank is in the pattern. -/
def Solid (pat : Str) : Prop := ∀ c ∈ pat, isWhitespace c = false

instance decidableSolid (pat : Str) : Decidable (Solid pat) := List.decidableBAll _ _

variable {x g w y u v pat : Str}

theorem Gap.notMem (h : Gap x g y) (hpat : Solid pat) : ∀ c ∈ g, c ∉ pat := by
  intro c hc hmem
  have hblank := h.blank c hc
  rw [hpat c hmem] at hblank
  cases hblank

theorem Gap.sub (h : Gap x g y) (hu : x = [] → u = []) : Gap u g y :=
  ⟨h.blank, h.apart.imp_right (Or.imp_left hu)⟩

theorem Gap.full (h : Gap x g y) (hx : x ≠ []) : g ≠ [] ∨ y = [] :=
  h.apart.of_ne_nil hx (List.infix_refl _)

/-! ## The words of a text with a gap -/

theorem splitWhitespace_blank {c : Char} (hc : isWhitespace c = true) (s : Str) :
    splitWhitespace (c :: s) = splitWhitespace s := by
  rw [splitWhitespace, if_pos hc]

theorem splitWhitespace_blanks (h : ∀ c ∈ g, isWhitespace c = true) (s : Str) :
    splitWhitespace (g ++ s) = splitWhitespace s := by
  induction g with
  | nil => rfl
  | cons c g ih =>
    rw [List.cons_append, splitWhitespace_blank (h c List.mem_cons_self)]
    exact ih fun d hd => h d (List.mem_cons_of_mem c hd)

/-- A character that is not blank begins a word. -/
theorem first_word {c : Char} (hc : isWhitespace c = false) (s : Str) :
    ∃ word words, splitWhitespace (c :: s) = (c :: word) :: words := by
  rw [splitWhitespace, if_neg (by simp [hc])]
  split
  · exact ⟨[], _, rfl⟩
  rename_i hs
  induction s generalizing c with
  | nil => simp at hs
  | cons d s ih =>
    have hd : isWhitespace d = false := by simpa using hs
    rw [splitWhitespace, if_neg (by simp [hd])]
    split
    · exact ⟨[d], _, rfl⟩
    · rename_i hs'
      obtain ⟨word, words, hword⟩ := ih hd hs'
      rw [hword]
      exact ⟨d :: word, words, rfl⟩

theorem words_gap (h : Gap u g v) :
    splitWhitespace (u ++ (g ++ v)) = splitWhitespace u ++ splitWhitespace v := by
  induction u with
  | nil => rw [List.nil_append, splitWhitespace_blanks h.blank]; rfl
  | cons c u ih =>
    have hfull := h.full (List.cons_ne_nil c u)
    have ih := ih ⟨h.blank, hfull.imp_right .inr⟩
    have hhead : (u ++ (g ++ v)).head?.all isWhitespace = u.head?.all isWhitespace := by
      cases u with
      | cons d u => rfl
      | nil =>
        cases g with
        | cons d g => exact h.blank d List.mem_cons_self
        | nil =>
          obtain rfl := hfull.resolve_left (by simp)
          rfl
    rw [List.cons_append, splitWhitespace, splitWhitespace, hhead, ih]
    split
    · rfl
    split
    · rfl
    · rename_i hu
      cases u with
      | nil => simp at hu
      | cons d u =>
        obtain ⟨word, words, hword⟩ := first_word (c := d) (by simpa using hu) u
        rw [hword]
        rfl

theorem words_solid {word : Str} (hsolid : Solid word) (hne : word ≠ []) :
    splitWhitespace word = [word] := by
  induction word with
  | nil => exact absurd rfl hne
  | cons c word ih =>
    rw [splitWhitespace, if_neg (by simp [hsolid c List.mem_cons_self])]
    cases word with
    | nil => rfl
    | cons d word =>
      have hd := hsolid d (List.mem_cons_of_mem c List.mem_cons_self)
      rw [if_neg (by simp [hd]), ih (fun e he => hsolid e (List.mem_cons_of_mem c he))
        (List.cons_ne_nil d word)]
      rfl

theorem blank_of_no_words {s : Str} (h : splitWhitespace s = []) : ∀ c ∈ s, isWhitespace c = true := by
  induction s with
  | nil => exact fun c hc => absurd hc List.not_mem_nil
  | cons c s ih =>
    cases hc : isWhitespace c with
    | false =>
      obtain ⟨word, words, hword⟩ := first_word hc s
      rw [hword] at h
      cases h
    | true =>
      rw [splitWhitespace_blank hc] at h
      exact List.forall_mem_cons.mpr ⟨hc, ih h⟩

/-- The first word of a text, with the blanks before it and the text after it. -/
structure FirstWord (s word : Str) (words : List Str) (before after : Str) : Prop where
  text : s = before ++ (word ++ after)
  blank : ∀ c ∈ before, isWhitespace c = true
  solid : Solid word
  nonempty : word ≠ []
  ends : after.head?.all isWhitespace = true
  words : splitWhitespace after = words

theorem firstWord_of_words {s word : Str} {words : List Str} (h : splitWhitespace s = word :: words) :
    ∃ before after, FirstWord s word words before after := by
  induction s generalizing word words with
  | nil => cases h
  | cons c s ih =>
    cases hc : isWhitespace c with
    | true =>
      rw [splitWhitespace_blank hc] at h
      obtain ⟨before, after, hfirst⟩ := ih h
      refine ⟨c :: before, after, ?_, List.forall_mem_cons.mpr ⟨hc, hfirst.blank⟩, hfirst.solid,
        hfirst.nonempty, hfirst.ends, hfirst.words⟩
      rw [hfirst.text, List.cons_append]
    | false =>
      rw [splitWhitespace, if_neg (by simp [hc])] at h
      split at h
      · rename_i hends
        obtain ⟨rfl, hwords⟩ := List.cons.inj h
        exact ⟨[], s, rfl, fun d hd => absurd hd List.not_mem_nil,
          fun d hd => List.mem_singleton.mp hd ▸ hc, List.cons_ne_nil _ _, hends, hwords⟩
      · rename_i hgoes
        cases s with
        | nil => simp at hgoes
        | cons d s =>
          have hd : isWhitespace d = false := by simpa using hgoes
          obtain ⟨word', words', hword'⟩ := first_word hd s
          rw [hword'] at h
          obtain ⟨rfl, rfl⟩ := List.cons.inj h
          obtain ⟨before, after, hfirst⟩ := ih hword'
          have hbefore : before = [] := by
            cases before with
            | nil => rfl
            | cons e before =>
              obtain ⟨rfl, -⟩ := List.cons.inj hfirst.text
              have he := hfirst.blank d List.mem_cons_self
              rw [hd] at he
              cases he
          subst hbefore
          exact ⟨[], after, congrArg (c :: ·) hfirst.text, fun e he => absurd he List.not_mem_nil,
            List.forall_mem_cons.mpr ⟨hc, hfirst.solid⟩, List.cons_ne_nil _ _, hfirst.ends, hfirst.words⟩

/-! ## Texts with the same words -/

/-- A text that goes on after a word goes on with a blank. -/
def Continues (before s : Str) : Prop := before = [] ∨ s.head?.all isWhitespace = true

theorem eq_of_words_after {β : Type*} (f : Str → β)
    (hf : ∀ x g w y : Str, Gap x g y → Gap x w y → f (x ++ (g ++ y)) = f (x ++ (w ++ y)))
    {words : List Str} {before s t : Str} (hs : splitWhitespace s = words)
    (ht : splitWhitespace t = words) (hs' : Continues before s) (ht' : Continues before t) :
    f (before ++ s) = f (before ++ t) := by
  induction words generalizing before s t with
  | nil =>
    have h := hf before s t [] ⟨blank_of_no_words hs, .inr (.inr rfl)⟩
      ⟨blank_of_no_words ht, .inr (.inr rfl)⟩
    simpa using h
  | cons word words ih =>
    obtain ⟨g, s', hfirst⟩ := firstWord_of_words hs
    obtain ⟨w, t', hfirst'⟩ := firstWord_of_words ht
    -- a blank stands before the word unless the text begins with it
    have hgap {r g r' : Str} (h : FirstWord r word words g r') (hr : Continues before r) (y : Str) :
        Gap before g y := by
      refine ⟨h.blank, ?_⟩
      rcases hr with hr | hr
      · exact .inr (.inl hr)
      · refine .inl fun hg => ?_
        obtain ⟨c, word, rfl⟩ := List.exists_cons_of_ne_nil h.nonempty
        rw [h.text, hg] at hr
        have hc := h.solid c List.mem_cons_self
        rw [show isWhitespace c = true from hr] at hc
        cases hc
    rw [hfirst.text, hfirst'.text, hf _ _ w _ (hgap hfirst hs' _) (hgap hfirst' ht' _)]
    have hrest := @ih (before ++ (w ++ word)) s' t' hfirst.words hfirst'.words (.inr hfirst.ends)
      (.inr hfirst'.ends)
    simpa using hrest

/-- What no single gap changes is the same for texts with the same words. -/
theorem eq_of_words {β : Type*} (f : Str → β)
    (hf : ∀ x g w y : Str, Gap x g y → Gap x w y → f (x ++ (g ++ y)) = f (x ++ (w ++ y)))
    {s t : Str} (h : splitWhitespace s = splitWhitespace t) : f s = f t :=
  @eq_of_words_after _ f hf _ [] s t rfl h.symm (.inl rfl) (.inl rfl)

/-! ## Joined words -/

theorem splitWhitespace_joinWords {words : List Str} (h : ∀ word ∈ words, Solid word ∧ word ≠ []) :
    splitWhitespace (joinWords words) = words := by
  unfold joinWords
  induction words with
  | nil => rfl
  | cons word words ih =>
    obtain ⟨hsolid, hne⟩ := h word List.mem_cons_self
    have ih := ih fun word' hword' => h word' (List.mem_cons_of_mem _ hword')
    cases words with
    | nil =>
      simpa [List.intercalate] using words_solid hsolid hne
    | cons word' words =>
      have hgap : Gap word [' '] ([' '].intercalate (word' :: words)) :=
        ⟨List.forall_mem_singleton.mpr rfl, .inl (List.cons_ne_nil _ _)⟩
      rw [List.intercalate_cons_cons, List.append_assoc, words_gap hgap, words_solid hsolid hne, ih]
      rfl

theorem words_of_split (s : Str) : ∀ word ∈ splitWhitespace s, Solid word ∧ word ≠ [] := by
  induction hn : (splitWhitespace s).length generalizing s with
  | zero =>
    rw [List.eq_nil_of_length_eq_zero hn]
    exact fun word hword => absurd hword List.not_mem_nil
  | succ n ih =>
    cases hs : splitWhitespace s with
    | nil => exact fun word hword => absurd hword List.not_mem_nil
    | cons word words =>
      obtain ⟨before, after, hfirst⟩ := firstWord_of_words hs
      rw [hs, List.length_cons] at hn
      have hrest := ih after (by rw [hfirst.words]; omega)
      rw [hfirst.words] at hrest
      exact List.forall_mem_cons.mpr ⟨⟨hfirst.solid, hfirst.nonempty⟩, hrest⟩

/-- Sources with one normal form have the same words. -/
theorem words_of_joined {s t : Str}
    (h : joinWords (splitWhitespace s) = joinWords (splitWhitespace t)) :
    splitWhitespace s = splitWhitespace t := by
  have hwords := congrArg splitWhitespace h
  rwa [splitWhitespace_joinWords (words_of_split s), splitWhitespace_joinWords (words_of_split t)]
    at hwords

end LinguaMesh
