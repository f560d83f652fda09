import LinguaMesh.Document.Xhtml

/-!
# The language of a book

`rewrite_language` looks in the package document for the first tag that opens
`dc:language`, and puts the target locale in the place of all that stands before the next
`</dc:language>`. The tags are found as in the chapters, so that the search sees nothing of
what was written: the last locale is the one that stays (`rewriteLanguage_again`).
-/

namespace LinguaMesh.Epub

open Search Run

def opensLanguage (raw : Str) : Bool :=
  (elementName raw).any (eqIgnoreAsciiCase · "dc:language".toList) && !isClosing raw &&
    !"/>".toList.isSuffixOf (trimEnd raw)

def languageClose : Str := "</dc:language>".toList

/-- A turn of the loop of `rewrite_language`. -/
def languageTurn [QuickXml] (xml targetLocale : Str) (cursor : Nat) :
    Run DocumentError (Turn Nat Str) :=
  match find ['<'] (xml.drop cursor) with
  | none => .ok (.done xml)
  | some relative => do
    let start := cursor + relative
    let length ← tagEnd (xml.drop start)
    let stop := start + length
    if opensLanguage (slice xml start stop) then do
      let offset ← ofOption .invalidStructure (find languageClose (xml.drop stop))
      .ok (.done (xml.take stop ++ QuickXml.escape targetLocale ++ xml.drop (stop + offset)))
    else .ok (.next stop)

def rewriteLanguage [QuickXml] (xml : Str) (targetLocale : Option Str) : Run DocumentError Str := do
  validateXml xml
  match targetLocale.filter (· ≠ []) with
  | none => .ok xml
  | some targetLocale => loop (languageTurn xml targetLocale) (xml.length + 1) 0

/-! ## Where the language stands -/

/-- No tag of the text opens the language. -/
inductive NoLanguage : Str → Prop where
  | rest {t : Str} : '<' ∉ t → NoLanguage t
  | tag {gap tag t : Str} : '<' ∉ gap → IsTag tag → opensLanguage tag = false → NoLanguage t →
    NoLanguage (gap ++ tag ++ t)

/-- `lead` ends with the first tag that opens the language, and `back` begins with the closing tag. -/
inductive FirstLanguage : Str → Str → Str → Prop where
  | here {gap tag content back : Str} : '<' ∉ gap → IsTag tag → opensLanguage tag = true →
    find languageClose (content ++ back) = some content.length → FirstLanguage (gap ++ tag) content back
  | tag {gap tag lead content back : Str} : '<' ∉ gap → IsTag tag → opensLanguage tag = false →
    FirstLanguage lead content back → FirstLanguage (gap ++ tag ++ lead) content back

section Language

variable {lead content back : Str}

theorem FirstLanguage.back_eq (h : FirstLanguage lead content back) : ∃ rest, back = languageClose ++ rest := by
  induction h with
  | here _ _ _ hfind =>
    obtain ⟨⟨a, b, hsplit, hlen⟩, -⟩ := find_eq_some hfind
    rw [List.append_assoc] at hsplit
    exact ⟨b, (append_length_inj hsplit hlen.symm).2⟩
  | tag _ _ _ _ ih => exact ih

/-- Any text without markup may be the language. -/
theorem FirstLanguage.replace (h : FirstLanguage lead content back) {new : Str} (hnew : '<' ∉ new) :
    FirstLanguage lead new back := by
  obtain ⟨rest, hback⟩ := h.back_eq
  induction h with
  | here hgap htag hopens =>
    refine .here hgap htag hopens ?_
    rw [hback, ← List.append_assoc]
    exact find_past hnew rest
  | tag hgap htag hnot _ ih => exact .tag hgap htag hnot (ih hback)

end Language

/-! ## The loop -/

section Turn

variable [QuickXml] {front gap tag rest l : Str}

theorem languageTurn_none (h : '<' ∉ rest) : languageTurn (front ++ rest) l front.length = .ok (.done (front ++ rest)) := by
  unfold languageTurn
  rw [List.drop_left, find_singleton_none.mpr h]

theorem languageTurn_tag (hgap : '<' ∉ gap) (htag : IsTag tag) :
    languageTurn (front ++ (gap ++ tag ++ rest)) l front.length =
      if opensLanguage tag then do
        let offset ← ofOption .invalidStructure (find languageClose rest)
        .ok (.done (front ++ (gap ++ tag) ++ QuickXml.escape l ++ rest.drop offset))
      else .ok (.next (front ++ (gap ++ tag)).length) := by
  obtain ⟨body, hbody, -⟩ := id htag
  have hfind : find ['<'] ((front ++ (gap ++ tag ++ rest)).drop front.length) = some gap.length := by
    rw [List.drop_left, hbody]
    exact find_singleton.mpr ⟨gap, body ++ rest, by simp, hgap, rfl⟩
  have htail : (front ++ (gap ++ tag ++ rest)).drop (front.length + gap.length) = tag ++ rest := by
    rw [← List.length_append, List.append_assoc gap, ← List.append_assoc, List.drop_left]
  have hlen : front.length + gap.length + tag.length = (front ++ (gap ++ tag)).length := by
    simp only [List.length_append]
    omega
  have hassoc : front ++ (gap ++ tag ++ rest) = front ++ (gap ++ tag) ++ rest := by simp
  have hraw : slice (front ++ (gap ++ tag ++ rest)) (front.length + gap.length)
      (front.length + gap.length + tag.length) = tag := by
    rw [← List.length_append, ← List.append_assoc, ← List.append_assoc]
    exact slice_append (front ++ gap) tag rest
  unfold languageTurn
  rw [hfind]
  dsimp only
  rw [htail, tagEnd_tag htag, Except.ok_bind, hraw, hlen, hassoc, List.drop_left, List.take_left]
  simp only [← List.drop_drop, List.drop_left]

/-- What a turn can do. -/
theorem languageTurn_ok {tail : Str} {t : Turn Nat Str}
    (h : languageTurn (front ++ tail) l front.length = .ok t) :
    ('<' ∉ tail ∧ t = .done (front ++ tail)) ∨
    ∃ gap tag rest, tail = gap ++ tag ++ rest ∧ '<' ∉ gap ∧ IsTag tag ∧
      ((opensLanguage tag = true ∧ ∃ content back, rest = content ++ back ∧
          find languageClose (content ++ back) = some content.length ∧
          t = .done (front ++ (gap ++ tag) ++ QuickXml.escape l ++ back)) ∨
        (opensLanguage tag = false ∧ t = .next (front ++ (gap ++ tag)).length)) := by
  cases hfind : find ['<'] tail with
  | none =>
    have hnot := find_singleton_none.mp hfind
    rw [languageTurn_none hnot] at h
    exact .inl ⟨hnot, (Except.ok.inj h).symm⟩
  | some n =>
    obtain ⟨gap, body, rfl, hgap, rfl⟩ := find_singleton.mp hfind
    have htag : ∃ tag rest, '<' :: body = tag ++ rest ∧ IsTag tag := by
      unfold languageTurn at h
      rw [List.drop_left, hfind] at h
      obtain ⟨n, hn, -⟩ := Except.bind_ok.mp h
      rw [← List.drop_drop, List.drop_left, List.drop_left] at hn
      obtain ⟨tag, rest, hbody, -, htag⟩ := (tagEnd_ok rfl).mp hn
      exact ⟨tag, rest, hbody, htag⟩
    obtain ⟨tag, rest, hbody, htag⟩ := htag
    rw [hbody, ← List.append_assoc gap] at h ⊢
    rw [languageTurn_tag hgap htag] at h
    refine .inr ⟨gap, tag, rest, rfl, hgap, htag, ?_⟩
    split at h
    · rename_i hopens
      obtain ⟨offset, hoffset, h⟩ := Except.bind_ok.mp h
      cases h
      rw [ofOption_eq_ok] at hoffset
      obtain ⟨⟨content, back, rfl, rfl⟩, -⟩ := find_eq_some hoffset
      rw [List.append_assoc, List.drop_left]
      rw [List.append_assoc] at hoffset
      exact .inl ⟨hopens, content, _, rfl, hoffset, rfl⟩
    · rename_i hnot
      cases h
      exact .inr ⟨Bool.eq_false_iff.mpr hnot, rfl⟩

/-- What the loop makes of the text behind `front`. -/
def Localized (l front tail out : Str) : Prop :=
  NoLanguage tail ∧ out = front ++ tail ∨ ∃ lead content back, FirstLanguage lead content back ∧
    tail = lead ++ content ++ back ∧ out = front ++ lead ++ QuickXml.escape l ++ back

theorem Localized.past {tail out : Str} (hgap : '<' ∉ gap) (htag : IsTag tag)
    (hnot : opensLanguage tag = false) (h : Localized l (front ++ (gap ++ tag)) tail out) :
    Localized l front (gap ++ tag ++ tail) out := by
  rcases h with ⟨hno, rfl⟩ | ⟨lead, content, back, hfirst, rfl, rfl⟩
  · exact .inl ⟨.tag hgap htag hnot hno, by simp⟩
  · exact .inr ⟨_, content, back, .tag hgap htag hnot hfirst, by simp, by simp⟩

theorem localized_of_loop {xml out : Str} {n cursor : Nat}
    (h : loop (languageTurn xml l) n cursor = .ok out) :
    ∀ front tail, xml = front ++ tail → cursor = front.length → Localized l front tail out := by
  refine loop_ok (P := fun cursor out => ∀ front tail, xml = front ++ tail → cursor = front.length →
    Localized l front tail out) (fun cursor out ht front tail hxml hcursor => ?_)
    (fun cursor cursor' out ht ih front tail hxml hcursor => ?_) h
  · subst hxml hcursor
    rcases languageTurn_ok ht with ⟨hnot, hout⟩ | ⟨gap, tag, rest, rfl, hgap, htag, hturn⟩
    · cases hout
      exact .inl ⟨.rest hnot, rfl⟩
    · rcases hturn with ⟨hopens, content, back, rfl, hfind, hout⟩ | ⟨-, hout⟩
      · cases hout
        exact .inr ⟨gap ++ tag, content, back, .here hgap htag hopens hfind, by simp, by simp⟩
      · cases hout
  · subst hxml hcursor
    rcases languageTurn_ok ht with ⟨-, hnext⟩ | ⟨gap, tag, rest, rfl, hgap, htag, hturn⟩
    · cases hnext
    · rcases hturn with ⟨-, content, back, -, -, hnext⟩ | ⟨hnot, hnext⟩
      · cases hnext
      · cases hnext
        exact (ih (front ++ (gap ++ tag)) rest (by simp) rfl).past hgap htag hnot

theorem loop_of_noLanguage {tail : Str} (h : NoLanguage tail) (front : Str) {n : Nat} (hn : tail.length < n) :
    loop (languageTurn (front ++ tail) l) n front.length = .ok (front ++ tail) := by
  obtain ⟨n, rfl⟩ := Nat.exists_eq_succ_of_ne_zero (Nat.ne_of_gt (Nat.zero_lt_of_lt hn))
  induction h generalizing front n with
  | rest hnot => exact loop_done (languageTurn_none hnot)
  | @tag gap tag t hgap htag hnot _ ih =>
    have htwo := htag.two_le
    simp only [List.length_append] at hn
    obtain ⟨n, rfl⟩ := Nat.exists_eq_succ_of_ne_zero (n := n) (by omega)
    have hturn : languageTurn (front ++ (gap ++ tag ++ t)) l front.length = _ := languageTurn_tag hgap htag
    rw [hnot, if_neg Bool.false_ne_true] at hturn
    have hrest := ih (front ++ (gap ++ tag)) n (by omega)
    rw [List.append_assoc front] at hrest
    rw [loop_next hturn, hrest]

theorem loop_of_firstLanguage {lead content back : Str} (h : FirstLanguage lead content back) (front : Str)
    {n : Nat} (hn : lead.length < n) :
    loop (languageTurn (front ++ (lead ++ content ++ back)) l) n front.length =
      .ok (front ++ lead ++ QuickXml.escape l ++ back) := by
  obtain ⟨n, rfl⟩ := Nat.exists_eq_succ_of_ne_zero (Nat.ne_of_gt (Nat.zero_lt_of_lt hn))
  induction h generalizing front n with
  | @here gap tag content back hgap htag hopens hfind =>
    refine loop_done ?_
    rw [List.append_assoc (gap ++ tag), languageTurn_tag hgap htag, if_pos hopens, hfind]
    simp only [ofOption, Except.ok_bind, List.drop_left]
  | @tag gap tag lead content back hgap htag hnot _ ih =>
    have htwo := htag.two_le
    simp only [List.length_append] at hn
    obtain ⟨n, rfl⟩ := Nat.exists_eq_succ_of_ne_zero (n := n) (by omega)
    have hturn : languageTurn (front ++ (gap ++ tag ++ (lead ++ content ++ back))) l front.length = _ :=
      languageTurn_tag hgap htag
    rw [hnot, if_neg Bool.false_ne_true] at hturn
    have hrest := ih (front ++ (gap ++ tag)) n (by omega)
    have hassoc : front ++ (gap ++ tag ++ lead ++ content ++ back) =
        front ++ (gap ++ tag ++ (lead ++ content ++ back)) := by simp
    rw [List.append_assoc front] at hrest
    rw [hassoc, loop_next hturn, hrest]
    simp

end Turn

/-! ## The language that a book gets -/

section Locale

variable [QuickXml] {xml out a b : Str}

theorem rewriteLanguage_ok (hb : b ≠ []) : rewriteLanguage xml (some b) = .ok out ↔
    QuickXml.reads xml = true ∧ Localized b [] xml out := by
  have hfilter : (some b).filter (· ≠ []) = some b := by simp [hb]
  unfold rewriteLanguage validateXml
  rw [hfilter]
  constructor
  · intro h
    split at h
    · rename_i hreads
      rw [Except.ok_bind] at h
      exact ⟨hreads, localized_of_loop h [] xml rfl rfl⟩
    · cases h
  · rintro ⟨hreads, hlocal⟩
    rw [if_pos hreads, Except.ok_bind]
    rcases hlocal with ⟨hno, rfl⟩ | ⟨lead, content, back, hfirst, rfl, rfl⟩
    · exact loop_of_noLanguage hno [] (Nat.lt_succ_self _)
    · refine loop_of_firstLanguage hfirst [] ?_
      simp only [List.length_append]
      omega

/-- A second locale takes the place of the first and of nothing else: the book is as if it had only been
given the second. -/
theorem rewriteLanguage_again (laws : QuickXml.Lawful) (hnul : '\x00' ∉ a) (hb : b ≠ [])
    (h : rewriteLanguage xml (some a) = .ok out) (hreads : QuickXml.reads out = true) :
    rewriteLanguage out (some b) = rewriteLanguage xml (some b) := by
  by_cases ha : a = []
  · have hsame : rewriteLanguage xml (some []) = (validateXml xml).bind fun _ => .ok xml := rfl
    rw [ha, hsame] at h
    obtain ⟨-, -, h⟩ := Except.bind_ok.mp h
    rw [Except.ok.inj h]
  obtain ⟨hxml, hlocal⟩ := (rewriteLanguage_ok ha).mp h
  rcases hlocal with ⟨-, rfl⟩ | ⟨lead, content, back, hfirst, rfl, rfl⟩
  · rfl
  have hplain := (laws.escape_plain a hnul).1
  have hleft : rewriteLanguage (lead ++ QuickXml.escape a ++ back) (some b) =
      .ok (lead ++ QuickXml.escape b ++ back) :=
    (rewriteLanguage_ok hb).mpr ⟨hreads, .inr ⟨lead, _, back, hfirst.replace hplain, rfl, rfl⟩⟩
  have hright : rewriteLanguage (lead ++ content ++ back) (some b) =
      .ok (lead ++ QuickXml.escape b ++ back) :=
    (rewriteLanguage_ok hb).mpr ⟨hxml, .inr ⟨lead, content, back, hfirst, rfl, rfl⟩⟩
  exact hleft.trans hright.symm

end Locale

def helloOpf : String := "<package><dc:language>en</dc:language></package>"

theorem rewriteLanguage_again_hello :
    letI := PlainXml.plainXml
    rewriteLanguage "<package><dc:language>zh</dc:language></package>".toList (some "fr".toList) =
      rewriteLanguage helloOpf.toList (some "fr".toList) := by
  let _ : QuickXml := PlainXml.plainXml
  exact rewriteLanguage_again (a := "zh".toList) PlainXml.lawful_plainXml (by decide) (by decide) (by decide +kernel)
    (by decide +kernel)

end LinguaMesh.Epub
