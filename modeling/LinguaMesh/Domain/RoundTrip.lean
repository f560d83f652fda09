import LinguaMesh.Domain.Split

/-!
# Protecting and restoring

On a source without the marker prefix the markers come out where they were put
in: `protect_restore` follows one push and one `finish`.
-/

namespace LinguaMesh

open Search

theorem restore_single {r : ProtectedTextRestorer} {M out : Str} : r.restore [M] = .ok out ↔
    ∃ out₁ r₁ out₂ r₂, r.push M = .ok (out₁, r₁) ∧ r₁.finish = .ok (out₂, r₂) ∧
      out = out₁ ++ out₂ := by
  simp only [ProtectedTextRestorer.restore, Except.bind_ok, Prod.exists, Except.ok.injEq]
  constructor
  · rintro ⟨out₁, r₁, hp, _, ⟨out₂, r₂, hf, rfl⟩, rfl⟩
    exact ⟨out₁, r₁, out₂, r₂, hp, hf, rfl⟩
  · rintro ⟨out₁, r₁, out₂, r₂, hp, hf, rfl⟩
    exact ⟨out₁, r₁, hp, out₂, ⟨out₂, r₂, hf, rfl⟩, rfl⟩

theorem pushLoop_seen {spans : List ProtectedSpan} {fuel : Nat} {pending output o H : Str}
    {seen s : List Bool} (h : pushLoop spans fuel pending seen output = .ok (o, H, s)) :
    s.length = seen.length := by
  fun_induction pushLoop spans fuel pending seen output with
  | case1 =>
    obtain ⟨_, -, h⟩ := Except.bind_ok.mp h
    cases h
    rfl
  | case2 => cases h
  | case3 _ _ _ _ _ _ _ _ _ _ ih =>
    obtain ⟨_, -, h⟩ := Except.bind_ok.mp h
    rw [ih _ h, List.length_set]
  | case4 => cases h

theorem push_seen {r r' : ProtectedTextRestorer} {delta out : Str}
    (h : r.push delta = .ok (out, r')) : r'.seen.length = r.seen.length := by
  unfold ProtectedTextRestorer.push at h
  simp only at h
  split at h
  · cases h
    rfl
  · obtain ⟨⟨o, H, s⟩, hl, h⟩ := Except.bind_ok.mp h
    cases h
    exact pushLoop_seen hl

/-- After `finish` every span was restored. -/
theorem finish_seen {r r' : ProtectedTextRestorer} {out : Str} (h : r.finish = .ok (out, r')) :
    r'.seen = List.replicate r.seen.length true := by
  unfold ProtectedTextRestorer.finish at h
  obtain ⟨⟨o, r₁⟩, hp, h⟩ := Except.bind_ok.mp h
  obtain ⟨_, h⟩ : ∃ rest, (if r₁.seen.any (!·) then .error .missingMarker
      else .ok (rest, { r₁ with pending := [] }) : Except ProtectedTextError _) = .ok (out, r') := by
    simp only at h
    split at h
    · exact ⟨_, h⟩
    · obtain ⟨rest, -, h⟩ := Except.bind_ok.mp h
      exact ⟨rest, h⟩
  split at h
  · cases h
  · rename_i hs
    cases h
    rw [← push_seen hp, List.eq_replicate_iff]
    refine ⟨rfl, fun b hb => ?_⟩
    have := List.any_eq_false.mp (Bool.eq_false_of_not_eq_true hs) b hb
    simpa using this

/-- The markers put in for disjoint candidates are taken out again for their replacements. -/
theorem restore_inserted {source : Str} (hsource : contains source protectedTokenPrefix = false)
    (cs : List ProtectedCandidate) :
    (ProtectedTextRestorer.mk (insertTokens source 0 0 cs).2 []
      (List.replicate (insertTokens source 0 0 cs).2.length false)).restore
        [(insertTokens source 0 0 cs).1] = .ok (replaceSpans source 0 cs) := by
  have hlen : (insertTokens source 0 0 cs).2.length = cs.length := spans_length 0 0
  have htext : (insertedReading source 0 0 cs).text (insertTokens source 0 0 cs).2 =
      (insertTokens source 0 0 cs).1 :=
    text_inserted fun k hk => by rw [Nat.zero_add, tokenAt_inserted hk, Nat.zero_add]
  have hout : (insertedReading source 0 0 cs).restored (insertTokens source 0 0 cs).2 =
      replaceSpans source 0 cs :=
    restored_inserted fun k hk => by rw [Nat.zero_add, replacementAt_inserted hk]
  by_cases hn : cs = []
  · subst hn
    rw [show (insertTokens source 0 0 []).2 = [] from rfl, List.length_nil, List.replicate_zero,
      restore_no_spans _ _ _ rfl]
    simp [insertTokens, replaceSpans]
  · have hpos : 0 < (insertTokens source 0 0 cs).2.length := by
      rw [hlen]
      exact List.length_pos_iff.mpr hn
    refine (restore_iff (inserted_marked 0) hpos (List.length_replicate ..) [] _ _).mpr ?_
    rw [List.nil_append, List.flatten_singleton]
    refine ⟨insertedReading source 0 0 cs, htext, hlen ▸ completes_inserted 0, ?_, hout.symm⟩
    exact (accepted_whole _ _).mpr (hidden_inserted hsource 0 0)

section
variable [UnicodeTables]

theorem protectSource_ok (source : Str) (sourceLocale targetLocale : Option Str)
    {glossary : Option Glossary} (hg : ∀ g, glossary = some g → g.validate = .ok ()) :
    ∃ p, buildProtectedSource source sourceLocale targetLocale glossary = .ok p := by
  unfold buildProtectedSource
  cases glossary with
  | none => exact ⟨_, rfl⟩
  | some g =>
    simp only [bind, Except.bind, hg g rfl]
    exact ⟨_, rfl⟩

/-- On a source without the marker prefix the markers of a validated glossary and of the automatic
candidates are put in for the selected spans and taken out again, one for each span. -/
theorem protect_restore {source : Str} (hsource : contains source protectedTokenPrefix = false)
    (sourceLocale : Option Str) (targetLocale : Str) {glossary : Option Glossary}
    (hg : ∀ g, glossary = some g → g.validate = .ok ()) :
    ∃ p, protectSourceTextWithGlossary source sourceLocale targetLocale glossary = .ok p ∧
      let selected := selectedCandidates source sourceLocale (some targetLocale) glossary
      selected.Pairwise (fun a b => a.stop ≤ b.start) ∧
      (∀ c ∈ selected, c.start < c.stop ∧ c.stop ≤ source.length) ∧
      ∃ out₁ r₁ out₂ r₂, p.restorer.push p.text = .ok (out₁, r₁) ∧
        r₁.finish = .ok (out₂, r₂) ∧ out₁ ++ out₂ = replaceSpans source 0 selected ∧
        p.spans.length = selected.length ∧ r₂.seen = List.replicate selected.length true ∧
        (glossary = none → out₁ ++ out₂ = source) := by
  obtain ⟨p, hp⟩ := protectSource_ok source sourceLocale (some targetLocale) hg
  refine ⟨p, hp, ?_⟩
  obtain rfl := buildProtectedSource_eq hp
  have hlaid := selectedCandidates_laid source sourceLocale (some targetLocale) glossary
  have hself : glossary = none →
      ∀ c ∈ selectedCandidates source sourceLocale (some targetLocale) glossary,
        c.replacement = slice source c.start c.stop := by
    rintro rfl c hc
    exact (automatic_self hc).1
  dsimp only
  generalize selectedCandidates source sourceLocale (some targetLocale) glossary = cs
    at hlaid hself ⊢
  obtain ⟨hpair, hwithin⟩ := hlaid.pairwise
  refine ⟨hpair, fun c hc => (hwithin c hc).2, ?_⟩
  have hlen : (insertTokens source 0 0 cs).2.length = cs.length := spans_length 0 0
  have hrestore := restore_inserted hsource cs
  obtain ⟨out₁, r₁, out₂, r₂, h1, h2, h3⟩ := restore_single.mp hrestore
  refine ⟨out₁, r₁, out₂, r₂, h1, h2, h3.symm, hlen, ?_, fun hnone => ?_⟩
  · have hs := push_seen h1
    rw [List.length_replicate, hlen] at hs
    rw [finish_seen h2, hs]
  · rw [← h3, replaceSpans_self hlaid (hself hnone), List.drop_zero]

end

/-- One rule and a code span. -/
theorem protect_restore_acme : ∃ p,
    @protectSourceTextWithGlossary asciiTables "Acme `x`".toList none "de".toList
      (some ⟨[⟨"Acme".toList, "Akme".toList, none, some "de".toList, true, true, false, none, 0,
        none, true⟩]⟩) = .ok p ∧
    ∃ out₁ r₁ out₂ r₂, p.restorer.push p.text = .ok (out₁, r₁) ∧ r₁.finish = .ok (out₂, r₂) ∧
      out₁ ++ out₂ = "Akme `x`".toList := by
  obtain ⟨p, hp, -, -, out₁, r₁, out₂, r₂, h1, h2, h3, -⟩ :=
    @protect_restore asciiTables "Acme `x`".toList (by decide) none "de".toList
      (some ⟨[⟨"Acme".toList, "Akme".toList, none, some "de".toList, true, true, false, none, 0,
        none, true⟩]⟩) (by rintro g ⟨⟩; decide)
  exact ⟨p, hp, out₁, r₁, out₂, r₂, h1, h2, h3.trans (by decide)⟩

end LinguaMesh
