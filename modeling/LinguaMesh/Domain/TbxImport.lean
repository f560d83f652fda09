import LinguaMesh.Domain.Tbx

/-!
# What a TBX import reads

The pass of `fromTbx` over the forest that the events write: in a term it only
takes text (`inTerm`), in an entry it collects the `langSet` elements with their
terms and keeps the text of the last `descrip` (`Reads`), and outside of entries
it appends the rules of each entry. An import is therefore what the file means if
and only if the last `descrip` of every entry reads as its first.
-/

namespace LinguaMesh.GlossaryTbx

open Nesting

/-! ## One event -/

section Events

variable [XmlEvents] {r r' : TbxReading}

/-- The reading with a text: in the term that it is in, or else in the note. -/
def TbxReading.withText (r : TbxReading) (chars : Str) : TbxReading :=
  match r.currentTerm with
  | some term => { r with currentTerm := some (term ++ chars) }
  | none =>
    if 0 < r.noteDepth then { r with currentNote := r.currentNote.map (· ++ chars) } else r

omit [XmlEvents] in
theorem withText_nil (r : TbxReading) : r.withText [] = r := by
  obtain ⟨entry, currentLang, currentTerm, currentNote, noteDepth, entries⟩ := r
  unfold TbxReading.withText
  cases currentTerm with
  | some term => simp
  | none => simp

omit [XmlEvents] in
theorem appendText_ok {chars : Option Str} (h : r.appendText chars = .ok r') :
    ∃ t, chars = some t ∧ r' = r.withText t := by
  unfold TbxReading.appendText at h
  unfold TbxReading.withText
  cases chars with
  | none => cases h
  | some t =>
    refine ⟨t, rfl, ?_⟩
    cases hterm : r.currentTerm with
    | some term =>
      simp only [hterm] at h ⊢
      exact (Except.ok.inj h).symm
    | none =>
      simp only [hterm] at h ⊢
      by_cases hdepth : 0 < r.noteDepth
      · rw [if_pos hdepth] at h ⊢
        cases hnote : r.currentNote with
        | none =>
          rw [hnote] at h
          cases h
        | some note =>
          rw [hnote] at h
          exact (Except.ok.inj h).symm
      · rw [if_neg hdepth] at h ⊢
        exact (Except.ok.inj h).symm

/-- An event without an end adds its text. -/
theorem leaf_ok {event : XmlLeaf} (h : r.leaf event = .ok r') : r' = r.withText event.chars := by
  cases event with
  | empty name =>
    unfold TbxReading.leaf at h
    dsimp only at h
    split at h
    · cases h
    · cases h
    · cases h
    · exact (Except.ok.inj h).symm.trans (withText_nil r).symm
  | text raw =>
    obtain ⟨t, ht, rfl⟩ := appendText_ok h
    rw [XmlLeaf.chars, ht, Option.getD_some]
  | cData raw =>
    obtain ⟨t, ht, rfl⟩ := appendText_ok (show r.appendText (some raw) = .ok r' from h)
    cases ht
    rfl
  | generalRef entity =>
    obtain ⟨t, ht, rfl⟩ := appendText_ok h
    rw [XmlLeaf.chars, ht, Option.getD_some]
  | comment | decl | pi => exact (Except.ok.inj h).symm.trans (withText_nil r).symm
  | docType | error => cases h

end Events

/-! ## In a term -/

section InTerm

variable [XmlEvents]

/-- The content of a term is text: a `langSet` in it leaves the pass outside of one. -/
theorem inTerm {f : XmlForest} {r r' : TbxReading} {term : Str} (hentry : r.entry.isSome)
    (hterm : r.currentTerm = some term) (h : f.tokens.foldlM TbxReading.step r = .ok r') :
    closedDescrips f = [] ∧ r'.entry.isSome ∧ r'.currentTerm.isSome ∧
      (langSets f = [] ∧ terms f = [] ∧ r' = { r with currentTerm := some (term ++ text f) } ∨
        r'.currentLang = none) := by
  induction f generalizing r r' term with
  | nil =>
    cases h
    refine ⟨rfl, hentry, by rw [hterm]; rfl, .inl ⟨rfl, rfl, ?_⟩⟩
    obtain ⟨entry, currentLang, currentTerm, currentNote, noteDepth, entries⟩ := r
    cases hterm
    simp [text]
  | leaf event rest ih =>
    obtain ⟨r1, h1, h⟩ := run_leaf.mp h
    have hr1 : r1 = { r with currentTerm := some (term ++ event.chars) } := by
      rw [leaf_ok h1]
      unfold TbxReading.withText
      rw [hterm]
    subst hr1
    obtain ⟨hclosed, hentry', hterm', hend⟩ := ih (r := { r with currentTerm := some (term ++ event.chars) }) hentry rfl h
    refine ⟨hclosed, hentry', hterm', hend.imp_left ?_⟩
    rintro ⟨hsets, hterms, rfl⟩
    exact ⟨hsets, hterms, by rw [text, List.append_assoc]⟩
  | element name attributes content rest ihContent ihRest =>
    obtain ⟨r1, r2, r3, h1, h2, h3, h⟩ := run_element.mp h
    have h1 : r.start name attributes = .ok r1 := h1
    have h3 : r2.stop name = .ok r3 := h3
    unfold TbxReading.start at h1
    unfold TbxReading.stop at h3
    unfold closedDescrips langSets terms text
    cases hname : tbxName name with
    | termEntry =>
      rw [hname] at h1
      simp [hentry] at h1
    | term =>
      rw [hname] at h1
      simp [hterm] at h1
    | descrip =>
      rw [hname] at h1
      simp [hterm] at h1
    | langSet =>
      rw [hname] at h1 h3
      obtain ⟨entry, hsome⟩ := Option.isSome_iff_exists.mp hentry
      dsimp only at h1 h3 ⊢
      rw [hsome] at h1
      obtain ⟨locale, -, h1⟩ := Except.bind_ok.mp h1
      cases h1
      obtain ⟨hclosed, hentry2, hterm2, -⟩ := ihContent (r := { r with
        entry := some { entry with langSets := entry.langSets ++ [⟨locale, []⟩] }
        currentLang := some entry.langSets.length }) rfl hterm h2
      cases h3
      obtain ⟨term2, hterm2⟩ := Option.isSome_iff_exists.mp hterm2
      obtain ⟨hclosed', hentry', hterm', hend⟩ := ihRest (r := { r2 with currentLang := none }) hentry2 hterm2 h
      refine ⟨by rw [hclosed, hclosed']; rfl, hentry', hterm', .inr ?_⟩
      rcases hend with ⟨-, -, rfl⟩ | hend
      · rfl
      · exact hend
    | other =>
      rw [hname] at h1 h3
      dsimp only at h1 h3 ⊢
      cases h3
      have hr1 : r1.entry = r.entry ∧ r1.currentTerm = some term ∧
          ({ r1 with noteDepth := r1.noteDepth - 1 } : TbxReading) = r := by
        cases h1
        split
        · exact ⟨rfl, hterm, rfl⟩
        · rename_i hdepth
          refine ⟨rfl, hterm, ?_⟩
          rw [Nat.eq_zero_of_not_pos hdepth]
          conv_rhs => rw [← show ({ r with noteDepth := 0 } : TbxReading) = r by
            rw [← Nat.eq_zero_of_not_pos hdepth]]
      obtain ⟨hentry1, hterm1, hback⟩ := hr1
      obtain ⟨hclosed, hentry2, hterm2, hcontent⟩ := ihContent (by rw [hentry1]; exact hentry) hterm1 h2
      obtain ⟨term2, hsome2⟩ := Option.isSome_iff_exists.mp hterm2
      obtain ⟨hclosed', hentry', hterm', hend⟩ := ihRest (r := { r2 with noteDepth := r2.noteDepth - 1 }) hentry2 hsome2 h
      refine ⟨by rw [hclosed, hclosed']; rfl, hentry', hterm', ?_⟩
      rcases hcontent with ⟨hsets, hterms, rfl⟩ | hnone
      · cases hsome2
        refine hend.imp_left ?_
        rintro ⟨hsets', hterms', rfl⟩
        refine ⟨by rw [hsets, hsets']; rfl, by rw [hterms, hterms']; rfl, ?_⟩
        rw [← hback, List.append_assoc]
      · right
        rcases hend with ⟨-, -, rfl⟩ | hend
        · exact hnone
        · exact hend

end InTerm

/-! ## In an entry -/

/-- The sets with further terms in the one that is open. -/
def withTerms (lang : Option Nat) (sets : List TbxLangSet) (newTerms : List Str) :
    List TbxLangSet :=
  match lang with
  | none => sets
  | some index =>
    sets.modify index fun langSet => { langSet with terms := langSet.terms ++ newTerms }

/-- Terms are added to the set that is open, and sets behind it. A new set closes it for good. -/
structure Collected (lang : Option Nat) (sets : List TbxLangSet) (newTerms : List Str)
    (newSets : List TbxLangSet) (lang' : Option Nat) (sets' : List TbxLangSet) : Prop where
  added : sets' = withTerms lang sets newTerms ++ newSets
  opened : lang' = if newSets = [] then lang else none
  closed : lang = none → newTerms = []

section Collect

variable {lang lang1 lang' : Option Nat} {sets sets1 sets' newSets newSets' : List TbxLangSet}
  {newTerms newTerms' : List Str}

theorem length_withTerms : (withTerms lang sets newTerms).length = sets.length := by
  cases lang with
  | none => rfl
  | some index => exact List.length_modify _ _ _

theorem withTerms_nil : withTerms lang sets [] = sets := by
  cases lang with
  | none => rfl
  | some index =>
    refine List.ext_getElem? fun i => ?_
    unfold withTerms
    dsimp only
    rw [List.getElem?_modify]
    cases sets[i]? <;> simp

theorem withTerms_append :
    withTerms lang (withTerms lang sets newTerms) newTerms' =
      withTerms lang sets (newTerms ++ newTerms') := by
  cases lang with
  | none => rfl
  | some index =>
    refine List.ext_getElem? fun i => ?_
    unfold withTerms
    dsimp only
    rw [List.getElem?_modify, List.getElem?_modify, List.getElem?_modify]
    cases sets[i]? with
    | none => rfl
    | some langSet => by_cases hi : index = i <;> simp [hi]

/-- The terms of the set that was added last. -/
theorem withTerms_last {langSet : TbxLangSet} :
    withTerms (some sets.length) (sets ++ [langSet]) newTerms =
      sets ++ [{ langSet with terms := langSet.terms ++ newTerms }] := by
  unfold withTerms
  dsimp only
  induction sets with
  | nil => rfl
  | cons first sets ih => rw [List.length_cons, List.cons_append, List.modify_succ_cons, ih, List.cons_append]

theorem Collected.refl : Collected lang sets [] [] lang sets :=
  ⟨by rw [withTerms_nil, List.append_nil], rfl, fun _ => rfl⟩

theorem Collected.trans (h : Collected lang sets newTerms newSets lang1 sets1)
    (h' : Collected lang1 sets1 newTerms' newSets' lang' sets') :
    Collected lang sets (newTerms ++ newTerms') (newSets ++ newSets') lang' sets' := by
  obtain ⟨rfl, hlang1, hclosed⟩ := h
  obtain ⟨rfl, rfl, hclosed'⟩ := h'
  cases newSets with
  | nil =>
    rw [if_pos rfl] at hlang1
    subst hlang1
    refine ⟨?_, rfl, fun hnone => ?_⟩
    · rw [List.append_nil, withTerms_append, List.nil_append]
    · rw [hclosed hnone, hclosed' hnone, List.append_nil]
  | cons first newSets =>
    rw [if_neg (List.cons_ne_nil first newSets)] at hlang1
    subst hlang1
    have hnone := hclosed' rfl
    subst hnone
    refine ⟨?_, ?_, fun hnone => ?_⟩
    · rw [withTerms_nil, List.append_nil, List.append_assoc]
    · rw [List.cons_append, if_neg (List.cons_ne_nil first (newSets ++ newSets'))]
      split <;> rfl
    · rw [hclosed hnone, List.append_nil]

end Collect

/-- What the pass has made of an entry: the terms and sets it has collected, and the note. In a
`descrip` it has added to the text; else it has kept the text of the last one that it passed. -/
structure Reads [XmlEvents] (newTerms : List Str) (newSets : List TbxLangSet)
    (passed : List XmlForest) (chars : Str) (r : TbxReading) (e : TbxEntry) (r' : TbxReading)
    (e' : TbxEntry) : Prop where
  entry : r'.entry = some e'
  term : r'.currentTerm = none
  entries : r'.entries = r.entries
  depth : r'.noteDepth = r.noteDepth
  collected : Collected r.currentLang e.langSets newTerms newSets r'.currentLang e'.langSets
  outside : r.noteDepth = 0 → e'.note = (passed.getLast?.map textOutsideTerms).or e.note
  inside : 0 < r.noteDepth →
    passed = [] ∧ e'.note = e.note ∧ r'.currentNote = r.currentNote.map (· ++ chars)

section InEntry

variable [XmlEvents] {newTerms newTerms' : List Str} {newSets newSets' : List TbxLangSet}
  {passed passed' : List XmlForest} {chars chars' : Str} {r r1 r' : TbxReading}
  {e e1 e' : TbxEntry}

theorem Reads.trans (h : Reads newTerms newSets passed chars r e r1 e1)
    (h' : Reads newTerms' newSets' passed' chars' r1 e1 r' e') :
    Reads (newTerms ++ newTerms') (newSets ++ newSets') (passed ++ passed') (chars ++ chars') r e
      r' e' := by
  refine ⟨h'.entry, h'.term, h'.entries.trans h.entries, h'.depth.trans h.depth,
    h.collected.trans h'.collected, fun hdepth => ?_, fun hdepth => ?_⟩
  · rw [h'.outside (h.depth.trans hdepth), h.outside hdepth, List.getLast?_append]
    cases passed'.getLast? <;> rfl
  · obtain ⟨hpassed, hnote, hcurrent⟩ := h.inside hdepth
    obtain ⟨hpassed', hnote', hcurrent'⟩ := h'.inside (by rw [h.depth]; exact hdepth)
    refine ⟨by rw [hpassed, hpassed']; rfl, hnote'.trans hnote, ?_⟩
    rw [hcurrent', hcurrent, Option.map_map]
    congr 1
    funext note
    exact List.append_assoc note chars chars'

theorem reads_refl (hentry : r.entry = some e) (hterm : r.currentTerm = none) :
    Reads [] [] [] [] r e r e := by
  refine ⟨hentry, hterm, rfl, rfl, .refl, fun _ => rfl, fun _ => ⟨rfl, rfl, ?_⟩⟩
  cases r.currentNote <;> simp

theorem reads_leaf {event : XmlLeaf} (hentry : r.entry = some e) (hterm : r.currentTerm = none)
    (h : r.leaf event = .ok r') : Reads [] [] [] event.chars r e r' e := by
  have hr' := leaf_ok h
  unfold TbxReading.withText at hr'
  rw [hterm] at hr'
  dsimp only at hr'
  split at hr'
  · rename_i hdepth
    subst hr'
    exact ⟨hentry, rfl, rfl, rfl, .refl, fun _ => rfl, fun _ => ⟨rfl, rfl, rfl⟩⟩
  · rename_i hdepth
    subst hr'
    exact ⟨hentry, hterm, rfl, rfl, .refl, fun _ => rfl, fun hpos => absurd hpos hdepth⟩

/-- A term goes to the set that is open. -/
theorem reads_term {name : Str} {attributes : List (Option XmlAttribute)} {content : XmlForest}
    {r2 r3 : TbxReading} (hname : tbxName name = .term) (hentry : r.entry = some e)
    (h1 : r.start name attributes = .ok r1) (h2 : content.tokens.foldlM TbxReading.step r1 = .ok r2)
    (h3 : r2.stop name = .ok r3) :
    closedDescrips content = [] ∧ langSets content = [] ∧
      ∃ e3, Reads [trim (text content)] [] [] [] r e r3 e3 := by
  unfold TbxReading.start at h1
  unfold TbxReading.stop TbxReading.endTerm at h3
  rw [hname] at h1 h3
  dsimp only at h1 h3
  split at h1
  · cases h1
  rename_i hopen
  rw [not_or] at hopen
  cases h1
  have hterm : r.currentTerm = none := by simpa using hopen.2
  obtain ⟨hclosed, -, -, hend⟩ := inTerm (r := { r with currentTerm := some [] })
    (by rw [hentry]; rfl) rfl h2
  rcases hend with ⟨hsets, -, rfl⟩ | hnone
  · dsimp only at h3
    rw [List.nil_append] at h3
    split at h3
    · cases h3
    split at h3
    · rename_i index entry hlang hsome
      cases h3
      cases hentry.symm.trans hsome
      refine ⟨hclosed, hsets, _, rfl, rfl, rfl, rfl, ⟨?_, rfl, ?_⟩, fun _ => rfl, fun _ => ?_⟩
      · rw [hlang, List.append_nil]
        rfl
      · intro hnone
        rw [hlang] at hnone
        cases hnone
      · refine ⟨rfl, rfl, ?_⟩
        cases r.currentNote <;> simp
    · cases h3
  · -- a `langSet` in the term has closed the one around it
    rw [hnone] at h3
    split at h3
    · cases h3
    split at h3 <;> cases h3

/-- A set is added, with the terms of its content. -/
theorem reads_langSet {name : Str} {attributes : List (Option XmlAttribute)} {r2 r3 : TbxReading}
    (hname : tbxName name = .langSet) (hentry : r.entry = some e) (hterm : r.currentTerm = none)
    (h1 : r.start name attributes = .ok r1)
    (hcontent : ∀ e1, r1.entry = some e1 → r1.currentTerm = none →
      (∀ index ∈ r1.currentLang, index < e1.langSets.length) →
      ∃ e2, Reads newTerms newSets passed chars r1 e1 r2 e2)
    (h3 : r2.stop name = .ok r3) :
    ∃ e3, Reads [] (⟨(tbxAttribute "lang".toList attributes).toOption.join, newTerms⟩ :: newSets)
      passed chars r e r3 e3 := by
  unfold TbxReading.start at h1
  unfold TbxReading.stop at h3
  rw [hname] at h1 h3
  dsimp only at h1 h3
  rw [hentry] at h1
  obtain ⟨locale, hlocale, h1⟩ := Except.bind_ok.mp h1
  cases h1
  cases h3
  obtain ⟨e2, h⟩ := hcontent _ rfl hterm fun index hindex => by
    cases hindex
    simp
  refine ⟨e2, h.entry, h.term, h.entries, h.depth, ⟨?_, rfl, fun _ => rfl⟩, h.outside, h.inside⟩
  rw [h.collected.added, hlocale, withTerms_nil, withTerms_last, List.append_assoc]
  rfl

/-- A `descrip` is in no other, and its text is kept as the note. -/
theorem reads_descrip {name : Str} {attributes : List (Option XmlAttribute)} {content : XmlForest}
    {r2 r3 : TbxReading} (hname : tbxName name = .descrip) (hentry : r.entry = some e)
    (hterm : r.currentTerm = none)
    (hlang : ∀ index ∈ r.currentLang, index < e.langSets.length)
    (h1 : r.start name attributes = .ok r1)
    (hcontent : ∀ e1, r1.entry = some e1 → r1.currentTerm = none →
      (∀ index ∈ r1.currentLang, index < e1.langSets.length) →
      ∃ e2, Reads newTerms newSets passed (textOutsideTerms content) r1 e1 r2 e2)
    (h3 : r2.stop name = .ok r3) :
    ∃ e3, Reads newTerms newSets (content :: passed) chars r e r3 e3 := by
  unfold TbxReading.start at h1
  unfold TbxReading.stop TbxReading.endNote at h3
  rw [hname] at h1 h3
  dsimp only at h1 h3
  split at h1
  · cases h1
  rename_i hopen
  rw [not_or, not_or] at hopen
  have hdepth : r.noteDepth = 0 := Nat.eq_zero_of_not_pos hopen.2.2
  cases h1
  obtain ⟨e2, h⟩ := hcontent e hentry hterm hlang
  obtain ⟨hpassed, hnote, hcurrent⟩ := h.inside Nat.one_pos
  have hdepth2 : r2.noteDepth = 1 := h.depth
  rw [hdepth2, if_pos Nat.one_pos, if_pos rfl, h.entry] at h3
  cases h3
  refine ⟨_, rfl, h.term, h.entries, hdepth.symm, ?_, fun _ => ?_, fun hpos => ?_⟩
  · exact ⟨h.collected.added, h.collected.opened, h.collected.closed⟩
  · rw [hpassed, hcurrent]
    rfl
  · rw [hdepth] at hpos
    exact absurd hpos (Nat.lt_irrefl 0)

/-- Any other element is its content. -/
theorem reads_other {name : Str} {attributes : List (Option XmlAttribute)} {r2 r3 : TbxReading}
    (hname : tbxName name = .other) (hentry : r.entry = some e) (hterm : r.currentTerm = none)
    (hlang : ∀ index ∈ r.currentLang, index < e.langSets.length)
    (h1 : r.start name attributes = .ok r1)
    (hcontent : ∀ e1, r1.entry = some e1 → r1.currentTerm = none →
      (∀ index ∈ r1.currentLang, index < e1.langSets.length) →
      ∃ e2, Reads newTerms newSets passed chars r1 e1 r2 e2)
    (h3 : r2.stop name = .ok r3) : ∃ e3, Reads newTerms newSets passed chars r e r3 e3 := by
  unfold TbxReading.start at h1
  unfold TbxReading.stop at h3
  rw [hname] at h1 h3
  dsimp only at h1 h3
  cases h1
  cases h3
  split at hcontent
  · rename_i hdepth
    obtain ⟨e2, h⟩ := hcontent e hentry hterm hlang
    refine ⟨e2, h.entry, h.term, h.entries, ?_, h.collected, ?_, fun _ => h.inside (Nat.succ_pos _)⟩
    · rw [h.depth]
      rfl
    · intro hzero
      rw [hzero] at hdepth
      exact absurd hdepth (Nat.lt_irrefl 0)
  · rename_i hdepth
    obtain ⟨e2, h⟩ := hcontent e hentry hterm hlang
    refine ⟨e2, h.entry, h.term, h.entries, ?_, h.collected, h.outside, h.inside⟩
    rw [h.depth, Nat.eq_zero_of_not_pos hdepth]

/-- The content of an entry: its terms and sets are collected, and the text of its last `descrip`. -/
theorem reads_forest {f : XmlForest} (hentry : r.entry = some e) (hterm : r.currentTerm = none)
    (hlang : ∀ index ∈ r.currentLang, index < e.langSets.length)
    (h : f.tokens.foldlM TbxReading.step r = .ok r') :
    ∃ e', Reads (terms f) (langSets f) (closedDescrips f) (textOutsideTerms f) r e r' e' := by
  have bounded {r1 : TbxReading} {e1 : TbxEntry} {newTerms : List Str} {newSets : List TbxLangSet}
      {passed : List XmlForest} {chars : Str} {r : TbxReading} {e : TbxEntry}
      (hlang : ∀ index ∈ r.currentLang, index < e.langSets.length)
      (h : Reads newTerms newSets passed chars r e r1 e1) :
      ∀ index ∈ r1.currentLang, index < e1.langSets.length := by
    intro index hindex
    rw [h.collected.opened] at hindex
    rw [h.collected.added, List.length_append, length_withTerms]
    split at hindex
    · have := hlang index hindex
      omega
    · cases hindex
  induction f generalizing r e r' with
  | nil =>
    cases h
    exact ⟨e, reads_refl hentry hterm⟩
  | leaf event rest ih =>
    obtain ⟨r1, h1, h⟩ := run_leaf.mp h
    have hread := reads_leaf hentry hterm h1
    obtain ⟨e', hrest⟩ := ih hread.entry hread.term (bounded hlang hread) h
    exact ⟨e', hread.trans hrest⟩
  | element name attributes content rest ihContent ihRest =>
    obtain ⟨r1, r2, r3, h1, h2, h3, h⟩ := run_element.mp h
    have hcontent (e1 : TbxEntry) (hentry1 : r1.entry = some e1) (hterm1 : r1.currentTerm = none)
        (hlang1 : ∀ index ∈ r1.currentLang, index < e1.langSets.length) :=
      ihContent hentry1 hterm1 hlang1 h2
    have continued {newTerms : List Str} {newSets : List TbxLangSet} {passed : List XmlForest}
        {chars : Str} (hread : ∃ e3, Reads newTerms newSets passed chars r e r3 e3) :
        ∃ e', Reads (newTerms ++ terms rest) (newSets ++ langSets rest)
          (passed ++ closedDescrips rest) (chars ++ textOutsideTerms rest) r e r' e' := by
      obtain ⟨e3, hread⟩ := hread
      obtain ⟨e', hrest⟩ := ihRest hread.entry hread.term (bounded hlang hread) h
      exact ⟨e', hread.trans hrest⟩
    unfold terms langSets closedDescrips textOutsideTerms
    cases hname : tbxName name with
    | termEntry =>
      have h1 : r.start name attributes = .ok r1 := h1
      unfold TbxReading.start at h1
      rw [hname, hentry] at h1
      cases h1
    | langSet => exact continued (reads_langSet hname hentry hterm h1 hcontent h3)
    | term =>
      obtain ⟨hpassed, hsets, hread⟩ := reads_term hname hentry h1 h2 h3
      dsimp only
      rw [hpassed, hsets]
      exact continued hread
    | descrip => exact continued (reads_descrip hname hentry hterm hlang h1 hcontent h3)
    | other => exact continued (reads_other hname hentry hterm hlang h1 hcontent h3)

end InEntry

/-! ## The rules of an entry -/

theorem appendTerm_ok {source target : TbxLangSet} {note : Option Str} {sourceTerm targetTerm : Str}
    {entries entries' : List GlossaryEntry} (hsource : source.terms.headD [] = sourceTerm)
    (h : appendTerm source target note sourceTerm entries targetTerm = .ok entries') :
    entries' = entries ++ [tbxRule source target (noteOf note) targetTerm] := by
  unfold appendTerm at h
  split at h
  · cases h
  obtain ⟨entry, hentry, h⟩ := Except.bind_ok.mp h
  have hnew : entry = {
      sourceTerm, targetTerm, sourceLocale := none, targetLocale := none, caseSensitive := true,
      wholeWord := true, immutable := false, domain := none, priority := 0, notes := none,
      enabled := true } := by
    obtain ⟨-, hentry⟩ := Except.check_ok.mp (Except.mapError_ok.mp hentry)
    exact (Except.ok.inj hentry).symm
  have hnote : (note.filter fun note => !(trim note).isEmpty).map trim = noteOf note := by
    unfold noteOf
    cases note with
    | none => rfl
    | some note => cases hn : trim note <;> simp [Option.filter, hn]
  cases h
  subst hnew hsource
  rw [hnote]
  simp [tbxRule]

theorem appendTerms_ok {source target : TbxLangSet} {note : Option Str} {sourceTerm : Str}
    {targetTerms : List Str} {entries entries' : List GlossaryEntry}
    (hsource : source.terms.headD [] = sourceTerm)
    (h : targetTerms.foldlM (appendTerm source target note sourceTerm) entries = .ok entries') :
    entries' = entries ++ targetTerms.map (tbxRule source target (noteOf note)) := by
  induction targetTerms generalizing entries with
  | nil =>
    cases h
    exact (List.append_nil _).symm
  | cons targetTerm targetTerms ih =>
    rw [List.foldlM_cons] at h
    obtain ⟨entries1, h1, h⟩ := Except.bind_ok.mp h
    rw [ih h, appendTerm_ok hsource h1, List.append_assoc]
    rfl

theorem appendTargets_ok {source : TbxLangSet} {note : Option Str} {sourceTerm : Str}
    {targets : List TbxLangSet} {entries entries' : List GlossaryEntry}
    (hsource : source.terms.headD [] = sourceTerm)
    (h : targets.foldlM (appendTarget source note sourceTerm) entries = .ok entries') :
    entries' = entries ++ (targets.flatMap fun target =>
        target.terms.map (tbxRule source target (noteOf note))) ∧
      ∀ target ∈ targets, target.terms ≠ [] := by
  induction targets generalizing entries with
  | nil =>
    cases h
    exact ⟨(List.append_nil _).symm, fun target ht => absurd ht List.not_mem_nil⟩
  | cons target targets ih =>
    rw [List.foldlM_cons] at h
    obtain ⟨entries1, h1, h⟩ := Except.bind_ok.mp h
    unfold appendTarget at h1
    split at h1
    · cases h1
    rename_i hterms
    obtain ⟨rfl, hrest⟩ := ih h
    refine ⟨?_, fun other hother => ?_⟩
    · rw [appendTerms_ok hsource h1, List.append_assoc]
      rfl
    · rcases List.mem_cons.mp hother with rfl | hother
      · exact hterms
      · exact hrest other hother

/-- A completed entry adds its rules, of which there is one at least. -/
theorem appendTbxEntries_ok {entry : TbxEntry} {entries entries' : List GlossaryEntry}
    (h : appendTbxEntries entries entry = .ok entries') :
    entries' = entries ++ entryRules (noteOf entry.note) entry.langSets ∧
      entryRules (noteOf entry.note) entry.langSets ≠ [] := by
  unfold appendTbxEntries at h
  split at h
  · cases h
  rename_i source targets hsets
  split at h
  · cases h
  rename_i sourceTerm more hterms
  split at h
  · cases h
  rename_i htargets
  obtain ⟨rfl, hfilled⟩ := appendTargets_ok (by rw [hterms]; rfl) h
  rw [hsets]
  refine ⟨rfl, ?_⟩
  obtain ⟨target, targets, rfl⟩ := List.exists_cons_of_ne_nil htargets
  obtain ⟨term, later, hterm⟩ := List.exists_cons_of_ne_nil (hfilled target List.mem_cons_self)
  unfold entryRules
  dsimp only
  rw [List.flatMap_cons, hterm]
  exact List.cons_ne_nil _ _

theorem entryRules_note (note : Option Str) (sets : List TbxLangSet) :
    entryRules note sets = (entryRules none sets).map fun rule => { rule with notes := note } := by
  cases sets with
  | nil => rfl
  | cons source targets =>
    unfold entryRules
    rw [List.map_flatMap]
    refine List.flatMap_congr fun target _ => ?_
    rw [List.map_map]
    rfl

/-- The rules of an entry tell its note. -/
theorem entryRules_inj {note note' : Option Str} {sets : List TbxLangSet}
    (hne : entryRules note sets ≠ []) :
    entryRules note sets = entryRules note' sets ↔ note = note' := by
  refine ⟨fun h => ?_, fun h => h ▸ rfl⟩
  rw [entryRules_note note, entryRules_note note'] at h
  rw [entryRules_note] at hne
  cases hrules : entryRules none sets with
  | nil =>
    rw [hrules] at hne
    exact absurd rfl hne
  | cons rule rules =>
    rw [hrules] at h
    exact congrArg GlossaryEntry.notes (List.cons.inj h).1

theorem length_entryRules (note note' : Option Str) (sets : List TbxLangSet) :
    (entryRules note sets).length = (entryRules note' sets).length := by
  rw [entryRules_note note, entryRules_note note', List.length_map, List.length_map]

/-! ## The document -/

section Document

variable [XmlEvents]

/-- The pass is in no entry. -/
structure TbxReading.Outside (r : TbxReading) : Prop where
  entry : r.entry = none
  lang : r.currentLang = none
  term : r.currentTerm = none
  depth : r.noteDepth = 0

/-- The rules that the pass makes of the entries. -/
def lastRules (entry : XmlForest) : List GlossaryEntry := entryRules (lastNote entry) (langSets entry)

/-- An entry is over, and its rules are there. -/
theorem reads_termEntry {name : Str} {attributes : List (Option XmlAttribute)} {content : XmlForest}
    {r r1 r2 r3 : TbxReading} (hname : tbxName name = .termEntry) (hr : r.Outside)
    (h1 : r.start name attributes = .ok r1) (h2 : content.tokens.foldlM TbxReading.step r1 = .ok r2)
    (h3 : r2.stop name = .ok r3) :
    r3.Outside ∧ r3.entries = r.entries ++ lastRules content ∧ lastRules content ≠ [] := by
  unfold TbxReading.start at h1
  unfold TbxReading.stop at h3
  rw [hname] at h1 h3
  dsimp only at h1 h3
  rw [hr.entry] at h1
  cases h1
  obtain ⟨e, h⟩ := reads_forest (r := { r with entry := some ⟨[], none⟩ }) rfl hr.term
    (fun index hindex => by
      have hindex : index ∈ r.currentLang := hindex
      rw [hr.lang] at hindex
      cases hindex) h2
  have hdepth : r2.noteDepth = 0 := h.depth.trans hr.depth
  have hsets : e.langSets = langSets content := by
    rw [h.collected.added, hr.lang]
    rfl
  have hnote : noteOf e.note = lastNote content := by
    rw [h.outside hr.depth, Option.or_none]
    rfl
  split at h3
  · cases h3
  rw [h.entry] at h3
  obtain ⟨entries, hentries, h3⟩ := Except.bind_ok.mp h3
  cases h3
  obtain ⟨rfl, hne⟩ := appendTbxEntries_ok hentries
  rw [hsets, hnote] at hne
  refine ⟨⟨rfl, ?_, h.term, hdepth⟩, ?_, hne⟩
  · have hlang : r2.currentLang = if langSets content = [] then r.currentLang else none :=
      h.collected.opened
    rw [hlang, hr.lang]
    split <;> rfl
  · rw [hsets, hnote, h.entries]
    rfl

theorem reads_document {f : XmlForest} {r r' : TbxReading} (hr : r.Outside)
    (h : f.tokens.foldlM TbxReading.step r = .ok r') :
    r'.Outside ∧ r'.entries = r.entries ++ (termEntries f).flatMap lastRules ∧
      ∀ entry ∈ termEntries f, lastRules entry ≠ [] := by
  induction f generalizing r r' with
  | nil =>
    cases h
    exact ⟨hr, (List.append_nil _).symm, fun entry he => absurd he List.not_mem_nil⟩
  | leaf event rest ih =>
    obtain ⟨r1, h1, hrest⟩ := run_leaf.mp h
    have hr1 : r1 = r := by
      rw [leaf_ok h1]
      unfold TbxReading.withText
      rw [hr.term]
      dsimp only
      rw [hr.depth, if_neg (Nat.lt_irrefl 0)]
    subst hr1
    exact ih hr hrest
  | element name attributes content rest ihContent ihRest =>
    obtain ⟨r1, r2, r3, h1, h2, h3, h⟩ := run_element.mp h
    have h1 : r.start name attributes = .ok r1 := h1
    have h3 : r2.stop name = .ok r3 := h3
    unfold termEntries
    cases hname : tbxName name with
    | termEntry =>
      obtain ⟨hr3, hentries, hne⟩ := reads_termEntry hname hr h1 h2 h3
      obtain ⟨hr', hentries', hne'⟩ := ihRest hr3 h
      refine ⟨hr', ?_, fun entry hentry => ?_⟩
      · rw [hentries', hentries, List.append_assoc]
        rfl
      · rcases List.mem_cons.mp hentry with rfl | hentry
        · exact hne
        · exact hne' entry hentry
    | langSet =>
      unfold TbxReading.start at h1
      rw [hname, hr.entry] at h1
      cases h1
    | term =>
      unfold TbxReading.start at h1
      rw [hname] at h1
      simp [hr.lang] at h1
    | descrip =>
      unfold TbxReading.start at h1
      rw [hname] at h1
      simp [hr.entry] at h1
    | other =>
      unfold TbxReading.start at h1
      unfold TbxReading.stop at h3
      rw [hname] at h1 h3
      dsimp only at h1 h3 ⊢
      rw [hr.depth, if_neg (Nat.lt_irrefl 0)] at h1
      cases h1
      obtain ⟨hr2, hentries2, hne2⟩ := ihContent hr h2
      cases h3
      obtain ⟨hr', hentries', hne'⟩ := ihRest (r := { r2 with noteDepth := r2.noteDepth - 1 })
        ⟨hr2.entry, hr2.lang, hr2.term, by rw [hr2.depth]⟩ h
      refine ⟨hr', ?_, fun entry hentry => ?_⟩
      · rw [hentries', List.flatMap_append, ← List.append_assoc, ← hentries2]
      · exact (List.mem_append.mp hentry).elim (hne2 entry) (hne' entry)

end Document

/-! ## The import -/

section Import

variable [XmlEvents] {s s' : TbxState} {events : List XmlEvent}

/-- One event moves the reading, and the count of the open elements. -/
theorem step_ok {event : XmlEvent} (h : s.step event = .ok s') :
    s.reading.step event = .ok s'.reading ∧
      match event with
      | .opening _ _ => s'.depth = s.depth + 1
      | .closing _ => s'.depth + 1 = s.depth
      | .leaf _ => s'.depth = s.depth := by
  cases event with
  | opening name attributes =>
    obtain ⟨s1, henter, h⟩ := Except.bind_ok.mp h
    obtain ⟨reading, hreading, h⟩ := Except.bind_ok.mp h
    cases h
    unfold TbxState.enter at henter
    split at henter
    · rename_i hdepth
      split at henter
      · cases henter
      · cases henter
        exact ⟨hreading, by rw [hdepth]⟩
    · split at henter
      · cases henter
      · cases henter
        exact ⟨hreading, rfl⟩
  | closing name =>
    unfold TbxState.step at h
    dsimp only at h
    split at h
    · cases h
    rename_i hdepth
    obtain ⟨reading, hreading, h⟩ := Except.bind_ok.mp h
    cases h
    exact ⟨hreading, Nat.succ_pred_eq_of_ne_zero hdepth⟩
  | leaf event =>
    obtain ⟨reading, hreading, h⟩ := Except.bind_ok.mp h
    cases h
    exact ⟨hreading, rfl⟩

theorem reading_run (h : events.foldlM TbxState.step s = .ok s') :
    events.foldlM TbxReading.step s.reading = .ok s'.reading := by
  induction events generalizing s with
  | nil =>
    cases h
    rfl
  | cons event events ih =>
    rw [List.foldlM_cons] at h ⊢
    obtain ⟨s1, h1, h⟩ := Except.bind_ok.mp h
    rw [(step_ok h1).1]
    exact ih h

theorem error_not_mem (h : events.foldlM TbxState.step s = .ok s') : .leaf .error ∉ events := by
  induction events generalizing s with
  | nil => exact List.not_mem_nil
  | cons event events ih =>
    rw [List.foldlM_cons] at h
    obtain ⟨s1, h1, h⟩ := Except.bind_ok.mp h
    intro hmem
    rcases List.mem_cons.mp hmem with rfl | hmem
    · cases (step_ok h1).1
    · exact ih h hmem

theorem depth_run {opened opened' : List Str} (h : events.foldlM TbxState.step s = .ok s')
    (hopened : unclosed opened events = some opened') (hdepth : s.depth = opened.length) :
    s'.depth = opened'.length := by
  induction events generalizing s opened with
  | nil =>
    cases h
    cases hopened
    exact hdepth
  | cons event events ih =>
    rw [List.foldlM_cons] at h
    obtain ⟨s1, h1, hrest⟩ := Except.bind_ok.mp h
    have hcount := (step_ok h1).2
    cases event with
    | leaf event => exact ih hrest (by simpa only [unclosed] using hopened) (hcount.trans hdepth)
    | opening name attributes =>
      exact ih hrest (by simpa only [unclosed] using hopened) (by rw [hcount, hdepth]; rfl)
    | closing name =>
      cases opened with
      | nil => cases hopened
      | cons innermost opened =>
        unfold unclosed at hopened
        split at hopened
        · refine ih hrest hopened ?_
          rw [List.length_cons, ← hcount] at hdepth
          exact Nat.succ.inj hdepth
        · cases hopened

omit [XmlEvents] in
theorem flatMap_eq_iff {α β : Type} {f g : α → List β} {l : List α}
    (hlength : ∀ a ∈ l, (f a).length = (g a).length) :
    l.flatMap f = l.flatMap g ↔ ∀ a ∈ l, f a = g a := by
  induction l with
  | nil => exact ⟨fun _ a ha => absurd ha List.not_mem_nil, fun _ => rfl⟩
  | cons a l ih =>
    rw [List.flatMap_cons, List.flatMap_cons, List.forall_mem_cons,
      ← ih fun b hb => hlength b (List.mem_cons_of_mem a hb)]
    constructor
    · exact fun h => List.append_inj h (hlength a List.mem_cons_self)
    · rintro ⟨ha, hl⟩
      rw [ha, hl]

/-- The events of an accepted file write a document, and the glossary is what the document means if
and only if the last `descrip` with an end tag reads as the first in every entry. -/
theorem fromTbx_iff (hlawful : XmlEvents.Lawful) {source : Str} {glossary : Glossary}
    (h : fromTbx source = .ok glossary) :
    (∃ doc : XmlForest, doc.tokens = XmlEvents.events source) ∧
      ∀ doc : XmlForest, doc.tokens = XmlEvents.events source →
        (glossary.entries = tbxRules doc ↔
          ∀ entry ∈ termEntries doc, lastNote entry = firstNote entry) := by
  unfold fromTbx at h
  split at h
  · cases h
  obtain ⟨s, hrun, h⟩ := Except.bind_ok.mp h
  split at h
  · cases h
  rename_i hdone
  split at h
  · cases h
  have hentries : glossary.entries = s.reading.entries := by
    obtain ⟨-, h⟩ := Except.check_ok.mp (Except.mapError_ok.mp h)
    cases h
    rfl
  refine ⟨?_, fun doc hdoc => ?_⟩
  · obtain ⟨opened, hopened⟩ :=
      Option.isSome_iff_exists.mp (hlawful.matched source (error_not_mem hrun))
    have hdepth := depth_run hrun hopened rfl
    have hzero : s.depth = 0 := by
      simp only [not_or, not_not] at hdone
      exact hdone.2.2.1
    rw [hzero] at hdepth
    rw [List.length_eq_zero_iff.mp hdepth.symm] at hopened
    exact exists_forest hopened
  · have hread := reading_run hrun
    rw [← hdoc] at hread
    obtain ⟨-, hall, hne⟩ := reads_document ⟨rfl, rfl, rfl, rfl⟩ hread
    rw [hentries, hall]
    unfold tbxRules
    rw [show TbxState.initial.reading.entries = [] from rfl, List.nil_append, flatMap_eq_iff]
    · exact forall₂_congr fun entry hentry => entryRules_inj (hne entry hentry)
    · exact fun entry _ => length_entryRules _ _ _

end Import

/-! ## One note and two -/

/-- An element of a name without a prefix. -/
def plainElement (name : String) (content rest : XmlForest) : XmlForest :=
  .element name.toList [] content rest

def plainText (chars : String) : XmlForest := .leaf (.text chars.toList) .nil

def langSetElement (locale term : String) (rest : XmlForest) : XmlForest :=
  .element "langSet".toList [some ⟨"xml:lang".toList, some locale.toList⟩]
    (plainElement "term" (plainText term) .nil) rest

/-- An entry with the notes in front. -/
def sampleDoc (notes : List String) : XmlForest :=
  plainElement "martif"
    (plainElement "termEntry"
      (notes.foldr (fun note => plainElement "descrip" (plainText note))
        (langSetElement "en" "mesh" (langSetElement "de" "Netz" .nil)))
      .nil)
    .nil

def oneNoteTbx : Str :=
  ("<martif><termEntry><descrip>UI</descrip>" ++
    "<langSet xml:lang=\"en\"><term>mesh</term></langSet>" ++
    "<langSet xml:lang=\"de\"><term>Netz</term></langSet></termEntry></martif>").toList

def twoNotesTbx : Str :=
  ("<martif><termEntry><descrip>UI</descrip><descrip>draft</descrip>" ++
    "<langSet xml:lang=\"en\"><term>mesh</term></langSet>" ++
    "<langSet xml:lang=\"de\"><term>Netz</term></langSet></termEntry></martif>").toList

/-- The events of the two files; it has no others. -/
@[reducible] def sampleEvents : XmlEvents where
  events source :=
    if source = oneNoteTbx then (sampleDoc ["UI"]).tokens
    else if source = twoNotesTbx then (sampleDoc ["UI", "draft"]).tokens
    else [.leaf .error]
  unescape raw := if '&' ∈ raw then none else some raw

def meshRule (note : String) : GlossaryEntry :=
  tbxRule ⟨some "en".toList, ["mesh".toList]⟩ ⟨some "de".toList, ["Netz".toList]⟩ (some note.toList)
    "Netz".toList

section Samples

local instance tbxSampleEvents : XmlEvents := sampleEvents

theorem lawful_sampleEvents : XmlEvents.Lawful := by
  refine ⟨fun source herror => ?_⟩
  unfold XmlEvents.events at herror ⊢
  dsimp only [tbxSampleEvents] at herror ⊢
  split
  · decide +kernel
  split
  · decide +kernel
  · rename_i h1 h2
    rw [if_neg h1, if_neg h2] at herror
    exact absurd List.mem_cons_self herror

theorem utf8Len_oneNoteTbx : utf8Len oneNoteTbx = 161 := by
  unfold oneNoteTbx
  rw [String.toList_append, String.toList_append, String.toList_ofList, String.toList_ofList,
    String.toList_ofList]
  decide +kernel

theorem utf8Len_twoNotesTbx : utf8Len twoNotesTbx = 185 := by
  unfold twoNotesTbx
  rw [String.toList_append, String.toList_append, String.toList_ofList, String.toList_ofList,
    String.toList_ofList]
  decide +kernel

theorem events_oneNoteTbx : XmlEvents.events oneNoteTbx = (sampleDoc ["UI"]).tokens := if_pos rfl

theorem events_twoNotesTbx : XmlEvents.events twoNotesTbx = (sampleDoc ["UI", "draft"]).tokens := by
  have hne : twoNotesTbx ≠ oneNoteTbx := fun h => by
    have hlen := congrArg utf8Len h
    rw [utf8Len_oneNoteTbx, utf8Len_twoNotesTbx] at hlen
    omega
  exact (if_neg hne).trans (if_pos rfl)

theorem fromTbx_oneNote : fromTbx oneNoteTbx = .ok ⟨[meshRule "UI"]⟩ := by
  unfold fromTbx
  rw [utf8Len_oneNoteTbx, events_oneNoteTbx]
  decide +kernel

theorem fromTbx_iff_oneNote :
    (∃ doc : XmlForest, doc.tokens = XmlEvents.events oneNoteTbx) ∧
      ∀ doc : XmlForest, doc.tokens = XmlEvents.events oneNoteTbx →
        ([meshRule "UI"] = tbxRules doc ↔
          ∀ entry ∈ termEntries doc, lastNote entry = firstNote entry) :=
  fromTbx_iff lawful_sampleEvents fromTbx_oneNote

/-- Of two `descrip` elements the second becomes the note. -/
theorem note_of_second_descrip :
    XmlEvents.Lawful ∧ (sampleDoc ["UI", "draft"]).tokens = XmlEvents.events twoNotesTbx ∧
      fromTbx twoNotesTbx = .ok ⟨[meshRule "draft"]⟩ ∧
      tbxRules (sampleDoc ["UI", "draft"]) = [meshRule "UI"] ∧ [meshRule "draft"] ≠ [meshRule "UI"] := by
  refine ⟨lawful_sampleEvents, events_twoNotesTbx.symm, ?_, ?_, ?_⟩
  · unfold fromTbx
    rw [utf8Len_twoNotesTbx, events_twoNotesTbx]
    decide +kernel
  · decide +kernel
  · decide +kernel

end Samples

end LinguaMesh.GlossaryTbx
