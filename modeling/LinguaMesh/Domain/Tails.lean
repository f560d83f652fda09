import LinguaMesh.Domain.Chunks

/-!
# The last chunk

A text that fits the limit is one chunk; the loop of `split_protected_text` does not
ask that of what is left of a longer text. A round whose rest fits takes it up to its
last break (`splitStep_fits`), so a tail with a break that does not end with one is cut
once more. `chunks_needed_iff`: this is the only way in which a rest that fits is cut.
-/

namespace LinguaMesh

open Search

/-- The text has no break, or ends with one. -/
def BreaksAtEnd (rest : Str) : Prop :=
  (∀ c ∈ rest, isBreak c = false) ∨ rest.getLast?.any isBreak = true

/-- What is left of the text at the start of a round of the loop. -/
inductive Remains (maxBytes : Nat) (tokens : List Str) (text : Str) : Str → Prop
  | start : Remains maxBytes tokens text text
  | next {rest : Str} {n : Nat} (h : Remains maxBytes tokens text rest) (hne : rest ≠ [])
      (hstep : splitStep maxBytes tokens rest = .ok n) : Remains maxBytes tokens text (rest.drop n)

/-- A chunk at whose start the rest of the text fits is the last one and has all of it. -/
def ChunksNeeded (text : Str) (maxBytes : Nat) (pieces : List Str) : Prop :=
  ∀ before piece after, pieces = before ++ piece :: after →
    utf8Len (text.drop before.flatten.length) ≤ maxBytes →
    after = [] ∧ piece = text.drop before.flatten.length

/-! ## A round whose rest fits -/

section Round

variable {maxBytes : Nat} {tokens : List Str} {rest : Str}

theorem byteLimit_fits (h : utf8Len rest ≤ maxBytes) : byteLimit maxBytes rest = rest.length :=
  Nat.le_antisymm (byteLimit_le _ _).1 (le_byteLimit List.prefix_rfl h)

/-- A token in the rest ends in it. -/
theorem crossingSpan_end : crossingSpan tokens rest rest.length = none := by
  refine List.findSome?_eq_none_iff.mpr fun token _ => ?_
  cases hfind : find token rest with
  | none => rfl
  | some tokenStart =>
    obtain ⟨⟨before, after, hrest, hlength⟩, -⟩ := find_eq_some hfind
    have htotal := congrArg List.length hrest
    simp only [List.length_append] at htotal
    have hend : ¬ rest.length < tokenStart + token.length := by omega
    simp [hend]

theorem splitStep_fits (hne : rest ≠ []) (h : utf8Len rest ≤ maxBytes) :
    splitStep maxBytes tokens rest = .ok (semanticBoundary rest rest.length) := by
  have hpos := List.length_pos_iff.mpr hne
  have hboundary : semanticBoundary rest rest.length ≠ 0 := by
    rcases semanticBoundary_spec (Nat.le_refl rest.length) with heq | ⟨hlt, -, -⟩ <;> omega
  rw [splitStep, byteLimit_fits h, spanLimit, crossingSpan_end, Except.ok_bind]
  exact if_neg hboundary

theorem semanticBoundary_end (hne : rest ≠ []) :
    semanticBoundary rest rest.length = rest.length ↔ BreaksAtEnd rest := by
  unfold semanticBoundary
  rw [List.take_length]
  constructor
  · intro h
    split at h
    · rename_i hnone
      refine .inl fun c hc => ?_
      have hall := List.rdropWhile_eq_nil_iff.mp hnone c hc
      exact Bool.not_eq_true' _ ▸ hall
    · -- the part up to the last break is all of the rest
      have hkept := List.IsPrefix.eq_of_length (List.rdropWhile_prefix (!isBreak ·) rest) h
      have hne' : rest.rdropWhile (!isBreak ·) ≠ [] := by
        rw [hkept]
        exact hne
      have hlast := List.rdropWhile_last_not (!isBreak ·) rest hne'
      refine .inr ?_
      rw [← hkept, List.getLast?_eq_some_getLast hne']
      simpa using hlast
  · intro h
    rcases h with h | h
    · have hnone : rest.rdropWhile (!isBreak ·) = [] :=
        List.rdropWhile_eq_nil_iff.mpr fun c hc => by simp [h c hc]
      rw [hnone]
    · have hkept : rest.rdropWhile (!isBreak ·) = rest := by
        rw [List.rdropWhile_eq_self_iff]
        intro hne
        rw [List.getLast?_eq_some_getLast hne] at h
        simpa using h
      rw [hkept]
      cases rest with
      | nil => exact absurd rfl hne
      | cons c rest => rfl

end Round

/-! ## The rounds of a run -/

section Run

variable {maxBytes fuel : Nat} {tokens pieces after : List Str} {text rest rest' piece : Str}

theorem Remains.trans (h : Remains maxBytes tokens text rest)
    (h' : Remains maxBytes tokens rest rest') : Remains maxBytes tokens text rest' := by
  induction h' with
  | start => exact h
  | next _ hne hstep ih => exact .next ih hne hstep

theorem drop_length_take (n : Nat) (rest : Str) : rest.drop (rest.take n).length = rest.drop n := by
  rcases Nat.le_total n rest.length with h | h
  · rw [List.length_take_of_le h]
  · rw [List.take_of_length_le h, List.drop_length, List.drop_of_length_le h]

theorem splitFrom_nil (hfuel : rest.length ≤ fuel)
    (h : splitFrom maxBytes tokens fuel rest = .ok []) : rest = [] := by
  cases fuel with
  | zero => exact List.length_eq_zero_iff.mp (Nat.le_zero.mp hfuel)
  | succ fuel =>
    by_contra hne
    rw [splitFrom, if_neg hne] at h
    obtain ⟨n, -, h⟩ := Except.bind_ok.mp h
    obtain ⟨pieces, -, h⟩ := Except.bind_ok.mp h
    cases h

/-- The first piece of a run is what its round takes, and a run over the rest gives the others. -/
theorem splitFrom_cons (hfuel : rest.length ≤ fuel)
    (h : splitFrom maxBytes tokens fuel rest = .ok (piece :: after)) :
    rest ≠ [] ∧ ∃ n fuel', splitStep maxBytes tokens rest = .ok n ∧ piece = rest.take n ∧
      (rest.drop n).length ≤ fuel' ∧ splitFrom maxBytes tokens fuel' (rest.drop n) = .ok after := by
  cases fuel with
  | zero => cases h
  | succ fuel =>
    rw [splitFrom] at h
    split at h
    · cases h
    · rename_i hne
      obtain ⟨n, hn, h⟩ := Except.bind_ok.mp h
      obtain ⟨pieces, hpieces, h⟩ := Except.bind_ok.mp h
      cases h
      have hpos := splitStep_pos hn
      have hlength := List.length_pos_iff.mpr hne
      exact ⟨hne, n, fuel, hn, rfl, by rw [List.length_drop]; omega, hpieces⟩

/-- After some of its pieces a run is at what they left of the text. -/
theorem splitFrom_append {before : List Str} (hfuel : rest.length ≤ fuel)
    (h : splitFrom maxBytes tokens fuel rest = .ok (before ++ after)) :
    Remains maxBytes tokens rest (rest.drop before.flatten.length) ∧
      ∃ fuel', (rest.drop before.flatten.length).length ≤ fuel' ∧
        splitFrom maxBytes tokens fuel' (rest.drop before.flatten.length) = .ok after := by
  induction before generalizing fuel rest with
  | nil => exact ⟨.start, fuel, hfuel, h⟩
  | cons piece before ih =>
    obtain ⟨hne, n, fuel', hn, rfl, hfuel', hrun⟩ := splitFrom_cons hfuel h
    have hdrop : rest.drop (rest.take n :: before).flatten.length =
        (rest.drop n).drop before.flatten.length := by
      rw [List.flatten_cons, List.length_append, ← List.drop_drop, drop_length_take]
    obtain ⟨hremains, hafter⟩ := ih hfuel' hrun
    rw [hdrop]
    exact ⟨(Remains.next .start hne hn).trans hremains, hafter⟩

/-- Every round of a run is at what some of its pieces left. -/
theorem Remains.split (h : Remains maxBytes tokens text rest) (hfuel : text.length ≤ fuel)
    (hrun : splitFrom maxBytes tokens fuel text = .ok pieces) :
    ∃ before after fuel', pieces = before ++ after ∧ rest = text.drop before.flatten.length ∧
      rest.length ≤ fuel' ∧ splitFrom maxBytes tokens fuel' rest = .ok after := by
  induction h with
  | start => exact ⟨[], pieces, fuel, rfl, rfl, hfuel, hrun⟩
  | @next rest n _ hne hstep ih =>
    obtain ⟨before, after, fuel', rfl, hrest, hfuel', hrun'⟩ := ih
    cases after with
    | nil => exact absurd (splitFrom_nil hfuel' hrun') hne
    | cons piece after =>
      obtain ⟨-, m, fuel'', hm, rfl, hfuel'', hrun''⟩ := splitFrom_cons hfuel' hrun'
      obtain rfl := Except.ok.inj (hstep.symm.trans hm)
      refine ⟨before ++ [rest.take n], after, fuel'', by simp, ?_, hfuel'', hrun''⟩
      rw [List.flatten_append, List.length_append, ← List.drop_drop, ← hrest,
        List.flatten_singleton, drop_length_take]

/-- In a run no rest that fits is cut exactly when every one has no break or ends with one. -/
theorem splitFrom_needed_iff (hfuel : text.length ≤ fuel)
    (hrun : splitFrom maxBytes tokens fuel text = .ok pieces) :
    ChunksNeeded text maxBytes pieces ↔
      ∀ rest, Remains maxBytes tokens text rest → utf8Len rest ≤ maxBytes → BreaksAtEnd rest := by
  constructor
  · intro hneeded rest hrest hfits
    obtain ⟨before, after, fuel', rfl, rfl, hfuel', hrun'⟩ := hrest.split hfuel hrun
    cases after with
    | nil =>
      rw [splitFrom_nil hfuel' hrun']
      exact .inl (List.forall_mem_nil _)
    | cons piece after =>
      obtain ⟨hne, n, -, hn, hpiece, -⟩ := splitFrom_cons hfuel' hrun'
      obtain ⟨-, hwhole⟩ := hneeded before piece after rfl hfits
      rw [splitStep_fits hne hfits] at hn
      obtain rfl := Except.ok.inj hn
      refine (semanticBoundary_end hne).mp (Nat.le_antisymm ?_ ?_)
      · rcases semanticBoundary_spec (Nat.le_refl (text.drop before.flatten.length).length) with
          heq | ⟨-, hle, -⟩
        · exact heq.le
        · exact hle
      · have hlength := congrArg List.length (hpiece.symm.trans hwhole)
        rw [List.length_take] at hlength
        omega
  · rintro hbreaks before piece after rfl hfits
    obtain ⟨hremains, fuel', hfuel', hrun'⟩ := splitFrom_append hfuel hrun
    obtain ⟨hne, n, fuel'', hn, rfl, hfuel'', hrun''⟩ := splitFrom_cons hfuel' hrun'
    have hwhole := (semanticBoundary_end hne).mpr (hbreaks _ hremains hfits)
    rw [splitStep_fits hne hfits, hwhole] at hn
    obtain rfl := Except.ok.inj hn
    rw [List.drop_length] at hrun''
    refine ⟨?_, List.take_length⟩
    cases after with
    | nil => rfl
    | cons piece after => exact absurd rfl (splitFrom_cons (Nat.zero_le _) hrun'').1

end Run

/-! ## The chunks of a source -/

theorem collectChunks_text {spans : List ProtectedSpan} {used : List Bool} {pieces : List Str}
    {chunks : List ProtectedSource} (h : collectChunks spans used pieces = .ok chunks) :
    chunks.map (·.text) = pieces := by
  induction pieces generalizing used chunks with
  | nil =>
    rw [collectChunks] at h
    split at h
    · cases h
    · cases h
      rfl
  | cons piece pieces ih =>
    rw [collectChunks] at h
    obtain ⟨taken, -, h⟩ := Except.bind_ok.mp h
    obtain ⟨rest, hrest, h⟩ := Except.bind_ok.mp h
    cases h
    rw [List.map_cons, ih hrest]

/-- The chunks of a source cut no rest that fits exactly when the whole text fits, or when every
rest that fits has no break or ends with one. -/
theorem chunks_needed_iff {p : ProtectedSource} {maxBytes : Nat} {chunks : List ProtectedSource}
    (h : p.chunks maxBytes = .ok chunks) :
    ChunksNeeded p.text maxBytes (chunks.map (·.text)) ↔
      utf8Len p.text ≤ maxBytes ∨ ∀ rest, Remains maxBytes (p.spans.map (·.token)) p.text rest →
        utf8Len rest ≤ maxBytes → BreaksAtEnd rest := by
  obtain ⟨pieces, hpieces, hchunks⟩ := Except.bind_ok.mp h
  rw [collectChunks_text hchunks]
  unfold splitProtectedText at hpieces
  split at hpieces
  · cases hpieces
  have hsingle (htext : pieces = [p.text]) : ChunksNeeded p.text maxBytes pieces := by
    rintro before piece after hsplit -
    rw [htext] at hsplit
    cases before with
    | nil =>
      obtain ⟨rfl, rfl⟩ := List.cons.inj hsplit
      exact ⟨rfl, rfl⟩
    | cons first before => simp at hsplit
  split at hpieces
  · rename_i hnil
    refine iff_of_true (hsingle ?_) (.inl (by rw [hnil]; exact Nat.zero_le _))
    rw [hnil, Except.ok.inj hpieces]
  split at hpieces
  · rename_i hfits
    exact iff_of_true (hsingle (Except.ok.inj hpieces).symm) (.inl hfits)
  · rename_i hlong
    rw [splitFrom_needed_iff (Nat.le_refl _) hpieces]
    exact ⟨.inr, fun h => h.resolve_left hlong⟩

def twoSentences : ProtectedSource := ⟨"One two. Six ten".toList, []⟩

theorem twoSentences_chunks : twoSentences.chunks 10 =
    .ok [⟨"One two. ".toList, []⟩, ⟨"Six ".toList, []⟩, ⟨"ten".toList, []⟩] := by decide +kernel

theorem chunks_needed_iff_twoSentences :
    ∃ chunks, twoSentences.chunks 10 = .ok chunks ∧
      (ChunksNeeded twoSentences.text 10 (chunks.map (·.text)) ↔
        utf8Len twoSentences.text ≤ 10 ∨
          ∀ rest, Remains 10 (twoSentences.spans.map (·.token)) twoSentences.text rest →
            utf8Len rest ≤ 10 → BreaksAtEnd rest) :=
  ⟨_, twoSentences_chunks, chunks_needed_iff twoSentences_chunks⟩

/-- The last seven bytes fit the limit, and are two chunks. -/
theorem chunks_cut_tail :
    @protectSourceText asciiTables "One two. Six ten".toList = twoSentences ∧
    ∃ chunks, twoSentences.chunks 10 = .ok chunks ∧
      ¬ ChunksNeeded twoSentences.text 10 (chunks.map (·.text)) := by
  refine ⟨by decide +kernel, _, twoSentences_chunks, fun hneeded => ?_⟩
  have htail := hneeded ["One two. ".toList] "Six ".toList ["ten".toList] rfl (by decide)
  exact absurd htail.1 (List.cons_ne_nil _ _)

end LinguaMesh
