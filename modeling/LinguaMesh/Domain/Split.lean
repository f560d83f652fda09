import LinguaMesh.Domain.Insert

/-!
# Cutting the model output

When does restoring a stream agree with restoring the whole text at once?
`restore_split_iff` answers it for every protected source and every way of
cutting the text into deltas, through the readings of the text.
-/

namespace LinguaMesh

open Search

/-- Both runs fail, or both succeed with one text. -/
def Agree (a b : Except ProtectedTextError Str) : Prop := ∀ out, a = .ok out ↔ b = .ok out

/-- Where the cuts between deltas do no harm: in a complete reading of the text that is accepted
without cuts none falls between the closing underscores of a marker after the first, and a cut
hides no prefix that the end of the text does not hide. -/
def SplitSafe (spans : List ProtectedSpan) (deltas : List Str) : Prop :=
  spans = [] ∨ ∀ r : Reading, r.text spans = deltas.flatten →
    r.Completes (List.replicate spans.length false) →
    (r.PrefixHidden spans [[]] → r.TailsWhole spans (boundaries deltas)) ∧
    (r.PrefixHidden spans (boundaries deltas) → r.TailsWhole spans (boundaries deltas) →
      r.PrefixHidden spans [[]])

section

variable {spans : List ProtectedSpan}

theorem Reading.PrefixHidden.of_cuts {cuts cuts' : List Str} (hc : ∀ S ∈ cuts, S ∈ cuts')
    {r : Reading} (h : r.PrefixHidden spans cuts) : r.PrefixHidden spans cuts' := by
  induction r with
  | last plain => exact HiddenIn.of_cuts hc h
  | part plain i rest ih => exact ⟨HiddenIn.of_cuts hc h.1, ih h.2⟩

theorem nil_mem_boundaries (deltas : List Str) : [] ∈ boundaries deltas := by
  induction deltas with
  | nil => exact List.mem_cons_self ..
  | cons delta deltas ih => exact List.mem_cons_of_mem _ ih

/-- A cut at the end of the text opens no marker. -/
theorem Reading.tailsWhole_end {cuts : List Str} (hc : ∀ S ∈ cuts, S = []) (r : Reading) :
    r.TailsWhole spans cuts := by
  induction r with
  | last plain => trivial
  | part plain i rest ih =>
    exact ⟨fun u w _ hw _ hS => hw (List.append_eq_nil_iff.mp (hc _ hS)).1, ih⟩

theorem accepted_whole (M : Str) (r : Reading) :
    r.Accepted spans (boundaries [M]) ↔ r.PrefixHidden spans [[]] := by
  have hc : ∀ S ∈ boundaries [M], S = [] := by simp [boundaries]
  refine ⟨fun h => h.1.of_cuts (by simpa using hc), fun h => ⟨h.of_cuts ?_, r.tailsWhole_end hc⟩⟩
  simp [boundaries]

theorem agree_iff (hm : Marked spans) (deltas : List Str) :
    Agree (ProtectedTextRestorer.restore ⟨spans, [], List.replicate spans.length false⟩ deltas)
      (ProtectedTextRestorer.restore ⟨spans, [], List.replicate spans.length false⟩
        [deltas.flatten]) ↔ SplitSafe spans deltas := by
  by_cases hn : spans = []
  · subst hn
    refine ⟨fun _ => .inl rfl, fun _ out => ?_⟩
    rw [List.length_nil, List.replicate_zero, restore_no_spans _ _ _ rfl,
      restore_no_spans _ _ _ rfl, List.flatten_singleton]
  · have hpos := List.length_pos_iff.mpr hn
    have hr := restore_iff hm hpos (List.length_replicate (n := spans.length) (a := false)) []
    have hs := hr deltas
    have hw := hr [deltas.flatten]
    rw [List.nil_append] at hs hw
    rw [List.flatten_singleton] at hw
    simp only [Restores, accepted_whole] at hs hw
    have lt : ∀ {r : Reading}, r.Completes (List.replicate spans.length false) →
        ∀ k ∈ r.indices, k < spans.length :=
      fun hr k hk => (completes_replicate.mp hr).2 k |>.mp hk
    constructor
    · intro h
      refine .inr fun r ht hcomp => ⟨fun hp => ?_, fun hp hw' => ?_⟩
      · obtain ⟨r', ht', hcomp', hacc', -⟩ :=
          (hs _).mp ((h _).mpr ((hw _).mpr ⟨r, ht, hcomp, hp, rfl⟩))
        rw [Reading.unique hm hp hacc'.1 (lt hcomp) (lt hcomp') (ht.trans ht'.symm)]
        exact hacc'.2
      · obtain ⟨r', ht', hcomp', hp', -⟩ :=
          (hw _).mp ((h _).mp ((hs _).mpr ⟨r, ht, hcomp, ⟨hp, hw'⟩, rfl⟩))
        rw [Reading.unique hm hp hp' (lt hcomp) (lt hcomp') (ht.trans ht'.symm)]
        exact hp'
    · rintro (h | h)
      · exact absurd h hn
      · intro out
        rw [hs, hw]
        constructor
        · rintro ⟨r, ht, hcomp, hacc, rfl⟩
          exact ⟨r, ht, hcomp, (h r ht hcomp).2 hacc.1 hacc.2, rfl⟩
        · rintro ⟨r, ht, hcomp, hp, rfl⟩
          refine ⟨r, ht, hcomp, ⟨hp.of_cuts ?_, (h r ht hcomp).1 hp⟩, rfl⟩
          intro S hS
          rw [List.mem_singleton.mp hS]
          exact nil_mem_boundaries deltas

end

/-- Cut into deltas the text restores as it does uncut exactly when the cuts are safe. -/
theorem restore_split_iff [UnicodeTables] {source : Str} {sourceLocale targetLocale : Option Str}
    {glossary : Option Glossary} {p : ProtectedSource}
    (h : buildProtectedSource source sourceLocale targetLocale glossary = .ok p)
    (deltas : List Str) :
    Agree (p.restorer.restore deltas) (p.restorer.restore [deltas.flatten]) ↔
      SplitSafe p.spans deltas := by
  obtain rfl := buildProtectedSource_eq h
  have hm : Marked (insertTokens source 0 0
      (selectedCandidates source sourceLocale targetLocale glossary)).2 := inserted_marked 0
  exact agree_iff hm deltas

/-- The first of two markers, cut between its closing underscores: that is safe. -/
theorem restore_split_first :
    Agree ((@protectSourceText asciiTables "`a` `b`".toList).restorer.restore
        ["__LINGUAMESH_PROTECTED_0_".toList, "_ __LINGUAMESH_PROTECTED_1__".toList])
      ((@protectSourceText asciiTables "`a` `b`".toList).restorer.restore
        [["__LINGUAMESH_PROTECTED_0_".toList, "_ __LINGUAMESH_PROTECTED_1__".toList].flatten]) ↔
    SplitSafe (@protectSourceText asciiTables "`a` `b`".toList).spans
      ["__LINGUAMESH_PROTECTED_0_".toList, "_ __LINGUAMESH_PROTECTED_1__".toList] :=
  @restore_split_iff asciiTables "`a` `b`".toList none none none _
    (@protectSourceText_ok asciiTables _) _

/-- The second one, cut at the same place: its prefix is returned as plain text. -/
theorem restore_split_second : ∃ p,
    @buildProtectedSource asciiTables "`a` `b`".toList none none none = .ok p ∧
    ¬ Agree (p.restorer.restore
        ["__LINGUAMESH_PROTECTED_0__ __LINGUAMESH_PROTECTED_1_".toList, "_".toList])
      (p.restorer.restore
        [["__LINGUAMESH_PROTECTED_0__ __LINGUAMESH_PROTECTED_1_".toList, "_".toList].flatten]) := by
  refine ⟨_, @protectSourceText_ok asciiTables _, fun h => ?_⟩
  have hw : (@protectSourceText asciiTables "`a` `b`".toList).restorer.restore
      [["__LINGUAMESH_PROTECTED_0__ __LINGUAMESH_PROTECTED_1_".toList, "_".toList].flatten] =
      .ok "`a` `b`".toList := by decide
  have hs : (@protectSourceText asciiTables "`a` `b`".toList).restorer.restore
      ["__LINGUAMESH_PROTECTED_0__ __LINGUAMESH_PROTECTED_1_".toList, "_".toList] =
      .error .invalidMarker := by decide
  have := (h _).mpr hw
  rw [hs] at this
  cases this

end LinguaMesh
