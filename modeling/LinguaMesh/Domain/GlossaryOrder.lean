import LinguaMesh.Domain.Choice

/-!
# The order of a glossary

Whether the order of the rules matters for a source and a pair of locales. The check for
conflicts compares the source terms, scopes and targets of rules as they are written; the sort
compares the matches by place and priority. Where two matches of one taken place have different
replacements (`Contested`), the rule that comes first wins; nowhere else does the order matter
(`order_immaterial_iff`).
-/

namespace LinguaMesh

/-! ## Validation -/

theorem anyConflict_eq_false {entries : List GlossaryEntry} : anyConflict entries = false ↔
    entries.Pairwise fun left right => (left.enabled && conflicts left right) = false := by
  induction entries with
  | nil => exact ⟨fun _ => List.Pairwise.nil, fun _ => rfl⟩
  | cons left rest ih =>
    rw [anyConflict, Bool.or_eq_false_iff, ih, List.pairwise_cons]
    refine and_congr_left fun _ => ?_
    cases left.enabled <;> simp

theorem conflicts_comm {a b : GlossaryEntry} (h : (a.enabled && conflicts a b) = true) :
    (b.enabled && conflicts b a) = true := by
  simp only [conflicts, Bool.and_eq_true, beq_iff_eq, bne_iff_ne] at *
  obtain ⟨ha, ⟨⟨⟨⟨⟨hb, hterm⟩, hcase⟩, hsource⟩, htarget⟩, hdomain⟩, hne⟩ := h
  exact ⟨hb, ⟨⟨⟨⟨⟨ha, hterm.symm⟩, hcase.symm⟩, hsource.symm⟩, htarget.symm⟩, hdomain.symm⟩, hne.symm⟩

theorem glossary_validate_iff {g : Glossary} : g.validate = .ok () ↔
    g.entries.length ≤ maxGlossaryEntries ∧ (∀ e ∈ g.entries, e.validate = .ok ()) ∧
      anyConflict g.entries = false := by
  unfold Glossary.validate
  by_cases hlen : maxGlossaryEntries < g.entries.length
  · simp only [hlen, if_true]
    exact ⟨nofun, fun h => absurd h.1 (by omega)⟩
  simp only [hlen, if_false]
  refine Iff.trans (Except.check_ok (x := g.entries.forM GlossaryEntry.validate)) ?_
  rw [Except.forM_ok]
  cases anyConflict g.entries with
  | false => exact ⟨fun h => ⟨by omega, h.1, rfl⟩, fun h => ⟨h.2.1, rfl⟩⟩
  | true =>
    constructor
    · rintro ⟨-, h⟩
      cases h
    · rintro ⟨-, -, h⟩
      cases h

theorem validate_perm_entries {g g' : Glossary} (hg : g.validate = .ok ())
    (h : g'.entries.Perm g.entries) : g'.validate = .ok () := by
  rw [glossary_validate_iff, anyConflict_eq_false] at *
  refine ⟨h.length_eq ▸ hg.1, fun e he => hg.2.1 e (h.mem_iff.mp he), ?_⟩
  refine (h.pairwise_iff fun hab => ?_).mpr hg.2.2
  rw [← Bool.not_eq_true] at *
  exact fun hba => hab (conflicts_comm hba)

/-! ## What is inserted -/

/-- What is inserted tells the replacements. -/
theorem insertTokens_replacements (source : Str) (index cursor : Nat) (cs : List ProtectedCandidate) :
    (insertTokens source index cursor cs).2.map ProtectedSpan.replacement =
      cs.map ProtectedCandidate.replacement := by
  induction cs generalizing index cursor with
  | nil => rfl
  | cons c cs ih =>
    rw [insertTokens, List.map_cons, List.map_cons, ih]

theorem eq_of_place {c d : ProtectedCandidate} (hplace : c.place = d.place)
    (h : c.replacement = d.replacement) : c = d := by
  obtain ⟨start, stop, replacement, priority⟩ := c
  obtain ⟨start', stop', replacement', priority'⟩ := d
  obtain ⟨rfl, rfl, rfl⟩ := Place.mk.inj hplace
  obtain rfl : replacement = replacement' := h
  rfl

theorem eq_of_places {cs cs' : List ProtectedCandidate} (hplaces : places cs' = places cs)
    (h : cs'.map ProtectedCandidate.replacement = cs.map ProtectedCandidate.replacement) :
    cs' = cs := by
  induction cs' generalizing cs with
  | nil =>
    cases cs with
    | nil => rfl
    | cons c cs => cases h
  | cons c' cs' ih =>
    cases cs with
    | nil => cases h
    | cons c cs =>
      obtain ⟨hplace, hrest⟩ := List.cons.inj hplaces
      obtain ⟨hreplacement, hrest'⟩ := List.cons.inj h
      rw [eq_of_place hplace hreplacement, ih hrest hrest']

/-- The source with the chosen candidates replaced. -/
def replaced (source : Str) (cs : List ProtectedCandidate) : ProtectedSource :=
  ⟨(insertTokens source 0 0 cs).1, (insertTokens source 0 0 cs).2⟩

/-! ## Candidates of a glossary -/

section

variable [UnicodeTables] {source : Str} {sourceLocale : Option Str} {targetLocale : Str}
  {g g' : Glossary}

theorem nonempty_all (source : Str) (sourceLocale : Option Str) (targetLocale : Str) (g : Glossary) :
    NonemptyPlaces (allCandidates source sourceLocale (some targetLocale) (some g)) := by
  intro c hc
  rcases List.mem_append.mp hc with hc | hc
  · obtain ⟨span, hspan, rfl⟩ := List.mem_map.mp hc
    exact (automatic_spec hspan).1.1
  · exact (glossary_within hc).1

theorem collect_perm (h : g'.entries.Perm g.entries) :
    (collectGlossaryCandidates source sourceLocale targetLocale g').Perm
      (collectGlossaryCandidates source sourceLocale targetLocale g) :=
  (h.filter _).flatMap_right _

theorem all_perm (h : g'.entries.Perm g.entries) :
    (allCandidates source sourceLocale (some targetLocale) (some g')).Perm
      (allCandidates source sourceLocale (some targetLocale) (some g)) :=
  (collect_perm h).append_left _

theorem protect_valid (hg : g.validate = .ok ()) :
    protectSourceTextWithGlossary source sourceLocale targetLocale (some g) =
      .ok (replaced source
        (chosen (allCandidates source sourceLocale (some targetLocale) (some g)))) := by
  unfold protectSourceTextWithGlossary buildProtectedSource
  simp only [hg]
  rfl

/-- Two orders of the rules protect a source alike if they choose the same candidates. -/
theorem protect_eq_iff (hg : g.validate = .ok ()) (h : g'.entries.Perm g.entries) :
    protectSourceTextWithGlossary source sourceLocale targetLocale (some g') =
        protectSourceTextWithGlossary source sourceLocale targetLocale (some g) ↔
      chosen (allCandidates source sourceLocale (some targetLocale) (some g')) =
        chosen (allCandidates source sourceLocale (some targetLocale) (some g)) := by
  rw [protect_valid hg, protect_valid (validate_perm_entries hg h)]
  constructor
  · intro heq
    have hspans := congrArg ProtectedSource.spans (Except.ok.inj heq)
    refine eq_of_places (places_perm (nonempty_all _ _ _ _) (all_perm h)) ?_
    rw [← insertTokens_replacements source 0 0, ← insertTokens_replacements source 0 0]
    exact congrArg (List.map ProtectedSpan.replacement) hspans
  · intro heq
    rw [heq]

/-- Two matches of rules have one taken place, which no automatic candidate has, and different
replacements. -/
def Contested (source : Str) (sourceLocale : Option Str) (targetLocale : Str) (g : Glossary) : Prop :=
  ∃ c ∈ collectGlossaryCandidates source sourceLocale targetLocale g,
    ∃ d ∈ collectGlossaryCandidates source sourceLocale targetLocale g,
      c.place = d.place ∧ c.replacement ≠ d.replacement ∧
      (∀ span ∈ automaticCandidates source, (automaticCandidate source span).place ≠ c.place) ∧
      Taken (allCandidates source sourceLocale (some targetLocale) (some g)) c.place

theorem firstAt_all (source : Str) (sourceLocale : Option Str) (targetLocale : Str) (g : Glossary)
    (k : Place) :
    firstAt (allCandidates source sourceLocale (some targetLocale) (some g)) k =
      (firstAt ((automaticCandidates source).map (automaticCandidate source)) k).or
        (firstAt (collectGlossaryCandidates source sourceLocale targetLocale g) k) :=
  List.find?_append ..

/-- Where nothing is contested, a taken place has the same first candidate in every order. -/
theorem firstAt_uncontested (hfree : ¬ Contested source sourceLocale targetLocale g)
    (h : g'.entries.Perm g.entries) {k : Place}
    (hk : Taken (allCandidates source sourceLocale (some targetLocale) (some g)) k) :
    firstAt (allCandidates source sourceLocale (some targetLocale) (some g')) k =
      firstAt (allCandidates source sourceLocale (some targetLocale) (some g)) k := by
  have hperm := @collect_perm _ source sourceLocale targetLocale _ _ h
  rw [firstAt_all, firstAt_all]
  cases hauto : firstAt ((automaticCandidates source).map (automaticCandidate source)) k with
  | some c => rfl
  | none =>
    rw [Option.none_or, Option.none_or]
    cases hc : firstAt (collectGlossaryCandidates source sourceLocale targetLocale g') k with
    | none =>
      rw [firstAt_none] at hc
      exact (firstAt_none.mpr fun c hmem => hc c (hperm.mem_iff.mpr hmem)).symm
    | some c =>
      obtain ⟨hmem', rfl⟩ := firstAt_some hc
      have hmem := hperm.mem_iff.mp hmem'
      cases hd : firstAt (collectGlossaryCandidates source sourceLocale targetLocale g) c.place with
      | none => exact absurd rfl (firstAt_none.mp hd c hmem)
      | some d =>
        obtain ⟨hmemd, hplace⟩ := firstAt_some hd
        by_contra hne
        refine hfree ⟨c, hmem, d, hmemd, hplace.symm, fun hsame => ?_, fun span hspan => ?_, hk⟩
        · exact hne (congrArg some (eq_of_place hplace.symm hsame))
        · exact firstAt_none.mp hauto _ (List.mem_map_of_mem hspan)

/-- The rules with one of them first. -/
def Glossary.withFirst (g : Glossary) (e : GlossaryEntry) : Glossary := ⟨e :: g.entries.erase e⟩

/-- A rule matches once at a start. -/
theorem firstAt_filterMap {e : GlossaryEntry} {c : ProtectedCandidate} {starts : List Nat}
    (hc : c ∈ starts.filterMap (glossaryCandidateAt source e)) :
    firstAt (starts.filterMap (glossaryCandidateAt source e)) c.place = some c := by
  have hstart {start : Nat} {d : ProtectedCandidate}
      (h : glossaryCandidateAt source e start = some d) : d.start = start := by
    unfold glossaryCandidateAt at h
    split at h
    · cases h
    · simp only [Option.ite_none_left_eq_some, Option.some.injEq] at h
      rw [← h.2]
  cases hd : firstAt (starts.filterMap (glossaryCandidateAt source e)) c.place with
  | none => exact absurd rfl (firstAt_none.mp hd c hc)
  | some d =>
    obtain ⟨hmem, hplace⟩ := firstAt_some hd
    obtain ⟨start, -, hat⟩ := List.mem_filterMap.mp hc
    obtain ⟨start', -, hat'⟩ := List.mem_filterMap.mp hmem
    have heq : d.start = c.start := congrArg Place.start hplace
    rw [hstart hat, hstart hat'] at heq
    rw [heq, hat] at hat'
    rw [Option.some.inj hat']

/-- Every match is the first of its place in some order of the rules. -/
theorem firstAt_withFirst {c : ProtectedCandidate}
    (hc : c ∈ collectGlossaryCandidates source sourceLocale targetLocale g) :
    ∃ e ∈ g.entries,
      firstAt (collectGlossaryCandidates source sourceLocale targetLocale (g.withFirst e)) c.place =
        some c := by
  unfold collectGlossaryCandidates at hc
  obtain ⟨e, he, hc⟩ := List.mem_flatMap.mp hc
  obtain ⟨hmem, happlies⟩ := List.mem_filter.mp he
  refine ⟨e, hmem, ?_⟩
  unfold collectGlossaryCandidates Glossary.withFirst firstAt
  simp only [List.filter_cons, happlies, if_true, List.flatMap_cons, List.find?_append]
  split at hc
  · cases hc
  · rename_i hterm
    have hfirst := firstAt_filterMap hc
    unfold firstAt at hfirst
    rw [if_neg hterm, hfirst]
    rfl

/-- The order of a validated glossary is immaterial for a source and a pair of locales if and only if
nothing is contested there. -/
theorem order_immaterial_iff (g : Glossary) (hg : g.validate = .ok ()) (source : Str)
    (sourceLocale : Option Str) (targetLocale : Str) :
    (∀ g' : Glossary, g'.entries.Perm g.entries → g'.validate = .ok () →
        protectSourceTextWithGlossary source sourceLocale targetLocale (some g') =
          protectSourceTextWithGlossary source sourceLocale targetLocale (some g)) ↔
      ¬ Contested source sourceLocale targetLocale g := by
  have hall := nonempty_all source sourceLocale targetLocale g
  constructor
  · rintro hsame ⟨c, hc, d, hd, hplace, hne, hauto, htaken⟩
    have hk := (mem_places_iff hall).mpr htaken
    have hnone : firstAt ((automaticCandidates source).map (automaticCandidate source)) c.place =
        none := by
      refine firstAt_none.mpr fun a ha => ?_
      obtain ⟨span, hspan, rfl⟩ := List.mem_map.mp ha
      exact hauto span hspan
    have hfirst {b : ProtectedCandidate} (hplace : b.place = c.place)
        (hb : b ∈ collectGlossaryCandidates source sourceLocale targetLocale g) :
        firstAt (allCandidates source sourceLocale (some targetLocale) (some g)) c.place = some b := by
      obtain ⟨e, he, hat⟩ := firstAt_withFirst hb
      have hperm : (g.withFirst e).entries.Perm g.entries := (List.perm_cons_erase he).symm
      have heq := (protect_eq_iff hg hperm).mp (hsame _ hperm (validate_perm_entries hg hperm))
      rw [← (chosen_eq_iff (places_perm hall (all_perm hperm))).mp heq _ hk, firstAt_all, hnone,
        Option.none_or, ← hplace, hat]
    have hcd := (hfirst rfl hc).symm.trans (hfirst hplace.symm hd)
    exact hne (congrArg ProtectedCandidate.replacement (Option.some.inj hcd))
  · intro hfree g' hperm _
    rw [protect_eq_iff hg hperm, chosen_eq_iff (places_perm hall (all_perm hperm))]
    exact fun k hk => firstAt_uncontested hfree hperm ((mem_places_iff hall).mp hk)

end

def bankEntry (domain targetTerm : String) : GlossaryEntry where
  sourceTerm := "Bank".toList
  targetTerm := targetTerm.toList
  sourceLocale := none
  targetLocale := none
  caseSensitive := true
  wholeWord := true
  immutable := false
  domain := some domain.toList
  priority := 0
  notes := none
  enabled := true

/-- Two translations of a word that the check for conflicts keeps apart by their domains. -/
def banks : Glossary := ⟨[bankEntry "river" "Ufer", bankEntry "finance" "Kasse"]⟩

theorem banks_valid : banks.validate = .ok () := by decide +kernel

theorem order_immaterial_banks :
    (∀ g' : Glossary, g'.entries.Perm banks.entries → g'.validate = .ok () →
        @protectSourceTextWithGlossary asciiTables "Bank".toList none "de".toList (some g') =
          @protectSourceTextWithGlossary asciiTables "Bank".toList none "de".toList (some banks)) ↔
      ¬ @Contested asciiTables "Bank".toList none "de".toList banks :=
  @order_immaterial_iff asciiTables banks banks_valid _ _ _

/-- Both orders are valid and give one word two translations. -/
theorem order_matters :
    banks.validate = .ok () ∧ (⟨banks.entries.reverse⟩ : Glossary).validate = .ok () ∧
      banks.entries.reverse.Perm banks.entries ∧
      @protectSourceTextWithGlossary asciiTables "Bank".toList none "de".toList
          (some ⟨banks.entries.reverse⟩) ≠
        @protectSourceTextWithGlossary asciiTables "Bank".toList none "de".toList (some banks) :=
  ⟨banks_valid, by decide +kernel, List.reverse_perm _, by decide +kernel⟩

end LinguaMesh
