import LinguaMesh.Domain.Stream

/-!
# What `buildProtectedSource` inserts

The selected candidates lie in the source one after the other (`Laid`), so the
protected text is the source with a marker in place of each of them. Its
`insertedReading` reads every marker where it was inserted.
-/

namespace LinguaMesh

open Search

/-! ## The selection -/

/-- Candidates in increasing order from `cursor` on, disjoint and inside the source. -/
def Laid (source : Str) : Nat → List ProtectedCandidate → Prop
  | cursor, [] => cursor ≤ source.length
  | cursor, c :: cs => cursor ≤ c.start ∧ Within source c.start c.stop ∧ Laid source c.stop cs

theorem selectCandidates_mem {previous : Option Nat} {cs : List ProtectedCandidate}
    {c : ProtectedCandidate} (h : c ∈ selectCandidates previous cs) : c ∈ cs := by
  induction cs generalizing previous with
  | nil => exact h
  | cons d ds ih =>
    rw [selectCandidates] at h
    split at h
    · rcases List.mem_cons.mp h with rfl | h
      · exact List.mem_cons_self ..
      · exact List.mem_cons_of_mem _ (ih h)
    · exact List.mem_cons_of_mem _ (ih h)

theorem selectCandidates_laid {source : Str} (previous : Option Nat) {cs : List ProtectedCandidate}
    (hp : previous.getD 0 ≤ source.length) (hcs : ∀ c ∈ cs, Within source c.start c.stop) :
    Laid source (previous.getD 0) (selectCandidates previous cs) := by
  induction cs generalizing previous with
  | nil => exact hp
  | cons c cs ih =>
    have hc := hcs c (List.mem_cons_self ..)
    have hcs' : ∀ d ∈ cs, Within source d.start d.stop :=
      fun d hd => hcs d (List.mem_cons_of_mem _ hd)
    rw [selectCandidates]
    split
    · rename_i h
      simp only [Bool.and_eq_true, decide_eq_true_eq] at h
      refine ⟨?_, hc, ih (some c.stop) hc.2 hcs'⟩
      cases previous with
      | none => exact Nat.zero_le _
      | some p => simpa using h.2
    · exact ih previous hp hcs'

theorem Laid.pairwise {source : Str} {cursor : Nat} {cs : List ProtectedCandidate}
    (h : Laid source cursor cs) : cs.Pairwise (fun a b => a.stop ≤ b.start) ∧
      ∀ c ∈ cs, cursor ≤ c.start ∧ Within source c.start c.stop := by
  induction cs generalizing cursor with
  | nil => simp
  | cons c cs ih =>
    obtain ⟨h1, h2, h3⟩ := h
    obtain ⟨hp, hc⟩ := ih h3
    refine ⟨List.pairwise_cons.mpr ⟨fun d hd => (hc d hd).1, hp⟩, fun d hd => ?_⟩
    rcases List.mem_cons.mp hd with rfl | hd
    · exact ⟨h1, h2⟩
    · obtain ⟨h4, h5⟩ := hc d hd
      obtain ⟨h6, -⟩ := h2
      exact ⟨by omega, h5⟩

section
variable [UnicodeTables]

theorem selectedCandidates_mem {source : Str} {sourceLocale targetLocale : Option Str}
    {glossary : Option Glossary} {c : ProtectedCandidate}
    (h : c ∈ selectedCandidates source sourceLocale targetLocale glossary) :
    c ∈ allCandidates source sourceLocale targetLocale glossary :=
  (List.perm_insertionSort ..).mem_iff.mp (selectCandidates_mem h)

theorem allCandidates_within {source : Str} {sourceLocale targetLocale : Option Str}
    {glossary : Option Glossary} {c : ProtectedCandidate}
    (h : c ∈ allCandidates source sourceLocale targetLocale glossary) :
    Within source c.start c.stop := by
  rcases List.mem_append.mp h with h | h
  · obtain ⟨span, hs, rfl⟩ := List.mem_map.mp h
    exact (automatic_spec hs).1
  · split at h
    · exact glossary_within h
    · cases h

theorem selectedCandidates_laid (source : Str) (sourceLocale targetLocale : Option Str)
    (glossary : Option Glossary) :
    Laid source 0 (selectedCandidates source sourceLocale targetLocale glossary) := by
  refine selectCandidates_laid none (Nat.zero_le _) fun c hc => ?_
  exact allCandidates_within ((List.perm_insertionSort ..).mem_iff.mp hc)

theorem automatic_of_selected {source : Str} {c : ProtectedCandidate}
    (h : c ∈ selectedCandidates source none none none) :
    ∃ span ∈ automaticCandidates source, c = automaticCandidate source span := by
  have h := selectedCandidates_mem h
  simp only [allCandidates, List.append_nil, List.mem_map] at h
  obtain ⟨span, hs, rfl⟩ := h
  exact ⟨span, hs, rfl⟩

theorem automatic_self {source : Str} {c : ProtectedCandidate}
    (h : c ∈ selectedCandidates source none none none) :
    c.replacement = slice source c.start c.stop ∧ (source[c.start]? ≠ some '_' ∨
      ∀ d, (source.take c.start).getLast? = some d → isEmailLocal d = false) := by
  obtain ⟨span, hs, rfl⟩ := automatic_of_selected h
  exact ⟨rfl, (automatic_spec hs).2⟩

theorem buildProtectedSource_eq {source : Str} {sourceLocale targetLocale : Option Str}
    {glossary : Option Glossary} {p : ProtectedSource}
    (h : buildProtectedSource source sourceLocale targetLocale glossary = .ok p) :
    p = ⟨(insertTokens source 0 0
          (selectedCandidates source sourceLocale targetLocale glossary)).1,
        (insertTokens source 0 0
          (selectedCandidates source sourceLocale targetLocale glossary)).2⟩ := by
  unfold buildProtectedSource at h
  cases glossary with
  | none => exact (Except.ok.inj h).symm
  | some g =>
    cases hv : g.validate with
    | error e => simp only [bind, Except.bind, hv] at h; cases h
    | ok u => simp only [bind, Except.bind, hv] at h; exact (Except.ok.inj h).symm

end

/-! ## Pieces of the source -/

theorem drop_slice {source : Str} {cursor start : Nat} (h : cursor ≤ start) :
    source.drop cursor = slice source cursor start ++ source.drop start := by
  unfold slice
  have := List.take_append_drop (start - cursor) (source.drop cursor)
  rw [List.drop_drop, Nat.add_sub_cancel' h, ← List.drop_take] at this
  exact this.symm

theorem take_slice {source : Str} {cursor start : Nat} (h : cursor ≤ start) :
    source.take start = source.take cursor ++ slice source cursor start := by
  unfold slice
  have := List.take_append_drop cursor (source.take start)
  rw [List.take_take, Nat.min_eq_left h] at this
  exact this.symm

theorem infix_slice (source : Str) (start stop : Nat) : slice source start stop <:+: source :=
  (List.drop_suffix ..).isInfix.trans (List.take_prefix ..).isInfix

/-! ## The inserted reading -/

/-- The source from `cursor` on with the spans of the candidates replaced. -/
def replaceSpans (source : Str) : Nat → List ProtectedCandidate → Str
  | cursor, [] => source.drop cursor
  | cursor, c :: cs => slice source cursor c.start ++ (c.replacement ++ replaceSpans source c.stop cs)

/-- The markers read where they were inserted. -/
def insertedReading (source : Str) : Nat → Nat → List ProtectedCandidate → Reading
  | _, cursor, [] => .last (source.drop cursor)
  | index, cursor, c :: cs =>
    .part (slice source cursor c.start) index (insertedReading source (index + 1) c.stop cs)

theorem insertTokens_spans (source : Str) (index cursor : Nat) (cs : List ProtectedCandidate) :
    (insertTokens source index cursor cs).2 = (cs.zipIdx index).map fun (c, k) =>
      ⟨tokenFor source k, slice source c.start c.stop, c.replacement⟩ := by
  induction cs generalizing index cursor with
  | nil => rfl
  | cons c cs ih => simp only [insertTokens, ih, List.zipIdx_cons, List.map_cons]

section Inserted

variable {source : Str} {cs : List ProtectedCandidate} {spans : List ProtectedSpan}

theorem tokenAt_inserted {index cursor i : Nat} (hi : i < cs.length) :
    tokenAt (insertTokens source index cursor cs).2 i = tokenFor source (index + i) := by
  rw [insertTokens_spans, tokenAt, List.getElem?_map, List.getElem?_zipIdx,
    List.getElem?_eq_getElem hi]
  rfl

theorem replacementAt_inserted {index cursor i : Nat} (hi : i < cs.length) :
    replacementAt (insertTokens source index cursor cs).2 i = (cs[i]).replacement := by
  rw [insertTokens_spans, replacementAt, List.getElem?_map, List.getElem?_zipIdx,
    List.getElem?_eq_getElem hi]
  rfl

theorem spans_length (index cursor : Nat) :
    (insertTokens source index cursor cs).2.length = cs.length := by
  rw [insertTokens_spans, List.length_map, List.length_zipIdx]

theorem inserted_marked (cursor : Nat) : Marked (insertTokens source 0 cursor cs).2 := by
  intro i hi
  rw [spans_length] at hi
  rw [tokenAt_inserted hi, Nat.zero_add]
  exact tokenFor_marker source i

theorem text_inserted {index cursor : Nat}
    (ht : ∀ k < cs.length, tokenAt spans (index + k) = tokenFor source (index + k)) :
    (insertedReading source index cursor cs).text spans =
      (insertTokens source index cursor cs).1 := by
  induction cs generalizing index cursor with
  | nil => rfl
  | cons c cs ih =>
    have h0 := ht 0 (by simp)
    rw [Nat.add_zero] at h0
    rw [insertedReading, Reading.text, h0, ih]
    · simp only [insertTokens, List.append_assoc]
    · intro k hk
      have := ht (k + 1) (by simpa using hk)
      rwa [show index + (k + 1) = index + 1 + k by omega] at this

theorem restored_inserted {index cursor : Nat}
    (ht : ∀ (k : Nat) (hk : k < cs.length), replacementAt spans (index + k) = (cs[k]).replacement) :
    (insertedReading source index cursor cs).restored spans = replaceSpans source cursor cs := by
  induction cs generalizing index cursor with
  | nil => rfl
  | cons c cs ih =>
    have h0 := ht 0 (by simp)
    rw [Nat.add_zero] at h0
    rw [insertedReading, Reading.restored, h0, ih]
    · rfl
    · intro k hk
      have := ht (k + 1) (by simpa using hk)
      rwa [show index + (k + 1) = index + 1 + k by omega] at this

theorem indices_inserted (index cursor : Nat) :
    (insertedReading source index cursor cs).indices = List.range' index cs.length := by
  induction cs generalizing index cursor with
  | nil => rfl
  | cons c cs ih => rw [insertedReading, Reading.indices, ih, List.length_cons, List.range'_succ]

theorem completes_replicate {n : Nat} {r : Reading} :
    r.Completes (List.replicate n false) ↔ r.indices.Nodup ∧ ∀ i, i ∈ r.indices ↔ i < n := by
  simp only [Reading.Completes, List.getElem?_replicate, Option.ite_none_right_eq_some, and_true]

theorem completes_inserted (cursor : Nat) :
    (insertedReading source 0 cursor cs).Completes (List.replicate cs.length false) := by
  rw [completes_replicate, indices_inserted]
  exact ⟨List.nodup_range', fun i => by simp [List.mem_range'_1]⟩

theorem hidden_inserted {cuts : List Str} (h : contains source protectedTokenPrefix = false)
    (index cursor : Nat) :
    (insertedReading source index cursor cs).PrefixHidden spans cuts := by
  induction cs generalizing index cursor with
  | nil => exact hiddenIn_of_clean (infix_contains (List.drop_suffix ..).isInfix h)
  | cons c cs ih => exact ⟨hiddenIn_of_clean (infix_contains (infix_slice ..) h), ih _ _⟩

/-- Spans restored to themselves give the source back. -/
theorem replaceSpans_self {cursor : Nat} (hl : Laid source cursor cs)
    (hc : ∀ c ∈ cs, c.replacement = slice source c.start c.stop) :
    replaceSpans source cursor cs = source.drop cursor := by
  induction cs generalizing cursor with
  | nil => rfl
  | cons c cs ih =>
    obtain ⟨h1, h2, h3⟩ := hl
    rw [replaceSpans, ih h3 (fun d hd => hc d (List.mem_cons_of_mem _ hd)),
      hc c (List.mem_cons_self ..), drop_slice h1, drop_slice h2.1.le]

end Inserted

end LinguaMesh
