import LinguaMesh.Domain.RoundTrip

/-!
# Spans that survive the glossary

Automatic candidates carry the lowest priority, and the greedy choice takes the
leftmost candidate first. So the only candidates that can take the place of an
automatic span are those that cover its first character (`select_covering`): a
rule that matches there wins, however short its match is, and a rule that
matches further inside the span does not.
-/

namespace LinguaMesh

open Search

/-- Restore the text as it is. -/
def ProtectedSource.restoreIdentity (p : ProtectedSource) : Except ProtectedTextError Str :=
  p.restorer.restore [p.text]

/-- Two spans without a common character. -/
def Apart (a b : Nat × Nat) : Prop := a.2 ≤ b.1 ∨ b.2 ≤ a.1

instance (a b : Nat × Nat) : Decidable (Apart a b) := inferInstanceAs (Decidable (_ ∨ _))

/-- An automatic span that overlaps no other one. -/
def Isolated (source : Str) (span : Nat × Nat) : Prop :=
  span ∈ automaticCandidates source ∧
    ∀ other ∈ automaticCandidates source, other ≠ span → Apart span other

instance (source : Str) (span : Nat × Nat) : Decidable (Isolated source span) :=
  inferInstanceAs (Decidable (_ ∧ _))

def ProtectedCandidate.Covers (c : ProtectedCandidate) (position : Nat) : Prop :=
  c.start ≤ position ∧ position < c.stop

instance (c : ProtectedCandidate) (position : Nat) : Decidable (c.Covers position) :=
  inferInstanceAs (Decidable (_ ∧ _))

/-! ## The order of the candidates -/

theorem candidateLe_iff {a b : ProtectedCandidate} : candidateLe a b = true ↔
    a.start < b.start ∨ (a.start = b.start ∧ (b.priority < a.priority ∨
      (a.priority = b.priority ∧ b.stop - b.start ≤ a.stop - a.start))) := by
  simp [candidateLe]

theorem candidateLe_start {a b : ProtectedCandidate} (h : candidateLe a b = true) :
    a.start ≤ b.start := by
  have := candidateLe_iff.mp h
  omega

instance : Std.Total (fun left right => candidateLe left right = true) where
  total a b := by
    simp only [candidateLe_iff]
    omega

instance : IsTrans ProtectedCandidate (fun left right => candidateLe left right = true) where
  trans a b c hab hbc := by
    simp only [candidateLe_iff] at *
    omega

theorem sorted_candidates (cs : List ProtectedCandidate) :
    (cs.insertionSort fun left right => candidateLe left right).Pairwise
      fun a b => a.start ≤ b.start :=
  (List.pairwise_insertionSort _ cs).imp candidateLe_start

/-- The greedy choice takes a candidate when no other one covers its first character. -/
theorem select_covering {cs : List ProtectedCandidate} {c : ProtectedCandidate}
    (hs : cs.Pairwise fun a b => a.start ≤ b.start) (hc : c ∈ cs) (hlt : c.start < c.stop)
    (hd : ∀ d ∈ cs, d.Covers c.start → d = c) {previous : Option Nat}
    (hp : ∀ stop, previous = some stop → stop ≤ c.start) : c ∈ selectCandidates previous cs := by
  induction cs generalizing previous with
  | nil => cases hc
  | cons d ds ih =>
    have hds := List.pairwise_cons.mp hs
    have hd' : ∀ e ∈ ds, e.Covers c.start → e = c := fun e he => hd e (List.mem_cons_of_mem _ he)
    rw [selectCandidates]
    by_cases hcd : d = c
    · subst hcd
      have htake : (decide (d.start < d.stop) && previous.all (· ≤ d.start)) = true := by
        cases previous with
        | none => simp [hlt]
        | some stop => simp [hlt, hp stop rfl]
      rw [if_pos htake]
      exact List.mem_cons_self ..
    · have hc' : c ∈ ds := (List.mem_cons.mp hc).resolve_left (Ne.symm hcd)
      split
      · -- a candidate taken before `c` ends where `c` starts, or sooner
        refine List.mem_cons_of_mem _ (ih hds.2 hc' hd' fun stop hstop => ?_)
        cases hstop
        have hle := hds.1 c hc'
        by_contra hgt
        exact hcd (hd d (List.mem_cons_self ..) ⟨hle, by omega⟩)
      · exact ih hds.2 hc' hd' hp

/-! ## Replacing around a candidate -/

theorem Laid.append {source : Str} {cursor : Nat} {before after : List ProtectedCandidate}
    {c : ProtectedCandidate} (h : Laid source cursor (before ++ c :: after)) :
    cursor ≤ c.start ∧ ∀ d ∈ before, d.stop ≤ c.start := by
  induction before generalizing cursor with
  | nil => exact ⟨h.1, by simp⟩
  | cons d before ih =>
    obtain ⟨h1, h2, h3⟩ := h
    obtain ⟨h4, h5⟩ := ih h3
    refine ⟨by have := h2.1; omega, fun e he => ?_⟩
    rcases List.mem_cons.mp he with rfl | he
    · exact h4
    · exact h5 e he

theorem slice_take {source : Str} {start stop n : Nat} (h : stop ≤ n) :
    slice (source.take n) start stop = slice source start stop := by
  rw [slice, List.take_take, Nat.min_eq_left h, ← slice]

/-- The text before a candidate, its replacement and the text after it. -/
theorem replaceSpans_split {source : Str} {cursor : Nat} {before after : List ProtectedCandidate}
    {c : ProtectedCandidate} (h : Laid source cursor (before ++ c :: after)) :
    replaceSpans source cursor (before ++ c :: after) =
      replaceSpans (source.take c.start) cursor before ++ c.replacement ++
        replaceSpans source c.stop after := by
  induction before generalizing cursor with
  | nil =>
    simp only [List.nil_append, replaceSpans, List.append_assoc]
    rw [slice]
  | cons d before ih =>
    have hd := h.append.2 d (List.mem_cons_self ..)
    obtain ⟨h1, h2, h3⟩ := h
    have hs : slice (source.take c.start) cursor d.start = slice source cursor d.start :=
      slice_take (by have := h2.1; omega)
    simp only [List.cons_append, replaceSpans, ih h3, hs, List.append_assoc]

/-! ## The result -/

section
variable [UnicodeTables]

/-- The matches of the rules that apply. -/
def applicableMatches (source : Str) (sourceLocale : Option Str) (targetLocale : Str)
    (glossary : Option Glossary) : List ProtectedCandidate :=
  match glossary with
  | some glossary => collectGlossaryCandidates source sourceLocale targetLocale glossary
  | none => []

theorem allCandidates_eq (source : Str) (sourceLocale : Option Str) (targetLocale : Str)
    (glossary : Option Glossary) :
    allCandidates source sourceLocale (some targetLocale) glossary =
      (automaticCandidates source).map (automaticCandidate source) ++
        applicableMatches source sourceLocale targetLocale glossary := by
  cases glossary <;> rfl

theorem isolated_selected {source : Str} {sourceLocale : Option Str} {targetLocale : Str}
    {glossary : Option Glossary} {span : Nat × Nat} (hi : Isolated source span)
    (hm : ∀ m ∈ applicableMatches source sourceLocale targetLocale glossary, ¬ m.Covers span.1) :
    automaticCandidate source span ∈
      selectedCandidates source sourceLocale (some targetLocale) glossary := by
  have hw := (automatic_spec hi.1).1
  refine select_covering (sorted_candidates _) ?_ hw.1 ?_ (by simp)
  · rw [(List.perm_insertionSort ..).mem_iff, allCandidates_eq]
    exact List.mem_append_left _ (List.mem_map_of_mem hi.1)
  · intro d hd hcover
    rw [(List.perm_insertionSort ..).mem_iff, allCandidates_eq, List.mem_append] at hd
    rcases hd with hd | hd
    · obtain ⟨other, ho, rfl⟩ := List.mem_map.mp hd
      by_contra hne
      have hneq : other ≠ span := fun e => hne (congrArg _ e)
      have := hi.2 other ho hneq
      simp only [Apart, ProtectedCandidate.Covers, automaticCandidate] at this hcover
      have := hw.1
      omega
    · exact absurd hcover (hm d hd)

/-- Restored unchanged, an isolated automatic span stands at its place between what precedes it
and what follows it, unless a rule matches over its first character. -/
theorem isolated_restored {source : Str} (hsource : contains source protectedTokenPrefix = false)
    (sourceLocale : Option Str) (targetLocale : Str) {glossary : Option Glossary}
    (hg : ∀ g, glossary = some g → g.validate = .ok ()) :
    ∃ p out, protectSourceTextWithGlossary source sourceLocale targetLocale glossary = .ok p ∧
      p.restoreIdentity = .ok out ∧
      ∀ span, Isolated source span →
        (∀ m ∈ applicableMatches source sourceLocale targetLocale glossary, ¬ m.Covers span.1) →
        ∃ before after,
          selectedCandidates source sourceLocale (some targetLocale) glossary =
            before ++ automaticCandidate source span :: after ∧
          out = replaceSpans (source.take span.1) 0 before ++ slice source span.1 span.2 ++
            replaceSpans source span.2 after := by
  obtain ⟨p, hp⟩ := protectSource_ok source sourceLocale (some targetLocale) hg
  obtain rfl := buildProtectedSource_eq hp
  refine ⟨_, _, hp, restore_inserted hsource _, fun span hi hm => ?_⟩
  obtain ⟨before, after, he⟩ := List.append_of_mem (isolated_selected hi hm)
  have hlaid := selectedCandidates_laid source sourceLocale (some targetLocale) glossary
  rw [he] at hlaid
  exact ⟨before, after, he, by rw [he, replaceSpans_split hlaid]; rfl⟩

end

/-- A rule for a word inside an address that does not begin with it. -/
def insideRule : Glossary :=
  ⟨[⟨"acme".toList, "Akme".toList, none, some "de".toList, true, true, false, none, 0, none, true⟩]⟩

/-- A rule for the word that an address begins with. -/
def schemeRule : Glossary :=
  ⟨[⟨"https".toList, "TLS".toList, none, some "de".toList, true, true, false, none, 0, none, true⟩]⟩

/-- A rule that matches inside an address leaves it alone. -/
theorem isolated_restored_inside : ∃ p out before after,
    @protectSourceTextWithGlossary asciiTables "acme: https://acme.io".toList none "de".toList
      (some insideRule) = .ok p ∧ p.restoreIdentity = .ok out ∧
    out = before ++ "https://acme.io".toList ++ after := by
  obtain ⟨p, out, hp, ho, hs⟩ := @isolated_restored asciiTables "acme: https://acme.io".toList
    (by decide) none "de".toList (some insideRule) (by rintro g ⟨⟩; decide)
  obtain ⟨before, after, -, rfl⟩ := hs (6, 21) (by decide) (by decide)
  exact ⟨p, _, _, _, hp, ho, rfl⟩

/-- A rule that matches at the start of an address takes the place of the address, which its match
does not cover. -/
theorem isolated_lost : ∃ p out,
    @protectSourceTextWithGlossary asciiTables "https://acme.io".toList none "de".toList
      (some schemeRule) = .ok p ∧ p.restoreIdentity = .ok out ∧
    schemeRule.validate = .ok () ∧
    contains "https://acme.io".toList protectedTokenPrefix = false ∧
    Isolated "https://acme.io".toList (0, 15) ∧
    (∀ m ∈ @applicableMatches asciiTables "https://acme.io".toList none "de".toList
      (some schemeRule), ¬ (m.start ≤ 0 ∧ 15 ≤ m.stop)) ∧
    out = "TLS://acme.io".toList ∧
    ¬ slice "https://acme.io".toList 0 15 <:+: out := by
  refine ⟨_, _, rfl, rfl, ?_⟩
  decide

end LinguaMesh
