import LinguaMesh.Domain.Survival
import LinguaMesh.Lib.Weave

/-!
# Protected sources as woven texts

A protected text is the source with an index in place of each selected span,
spelled with the tokens (`inserted`). If the characters of a woven text nowhere
spell `LINGUAMESH_PROTECTED`, its tokens stand where its indices are and
nowhere else (`token_at`). Every piece of a woven text is woven, and its markers
are restored to their replacements (`restore_woven`).
-/

namespace LinguaMesh

open Search Weave

/-- The name in every marker. -/
def markerName : Str := "LINGUAMESH_PROTECTED".toList

abbrev Woven := List (Char ⊕ Nat)

/-- The characters nowhere spell the name of the markers. -/
def Unnamed (w : Woven) : Prop := ∀ u v, w ≠ u ++ markerName.map .inl ++ v

theorem Unnamed.of_infix {v w : Woven} (hw : Unnamed w) (h : v <:+: w) : Unnamed v := by
  rintro a b rfl
  obtain ⟨c, d, rfl⟩ := h
  exact hw (c ++ a) (b ++ d) (by simp only [List.append_assoc])

theorem unnamed_plain {s : Str} : Unnamed (s.map .inl) ↔ contains s markerName = false := by
  rw [contains_eq_false]
  constructor
  · rintro h A B rfl
    exact h (A.map .inl) (B.map .inl) (by simp)
  · intro h u v e
    obtain ⟨s₁, s₂, rfl, h1, -⟩ := List.map_eq_append_iff.mp e
    obtain ⟨s₃, s₄, rfl, -, h2⟩ := List.map_eq_append_iff.mp h1
    exact h s₃ s₂ (by rw [Sum.inl_injective.list_map h2])

theorem prefix_name : protectedTokenPrefix = ['_', '_'] ++ markerName ++ ['_'] := by decide

theorem Unnamed.clean {s : Str} (h : Unnamed (s.map .inl)) :
    contains s protectedTokenPrefix = false := by
  rw [unnamed_plain, contains_eq_false] at h
  rw [contains_eq_false]
  rintro A B rfl
  exact h (A ++ ['_', '_']) (['_'] ++ B) (by rw [prefix_name]; simp)

/-! ## Where the tokens stand -/

theorem Stemmed.ell {x a b : Str} (hx : Stemmed x) (e : x = a ++ 'L' :: b) : a = ['_', '_'] := by
  obtain ⟨rest, rfl, hn⟩ := hx
  match a, e with
  | [], e => simp at e
  | [c], e => simp at e
  | [c, d], e => simp only [List.cons_append, List.cons.injEq] at e; simp [← e.1, ← e.2.1]
  | c :: d :: f :: a, e =>
    simp only [List.cons_append, List.cons.injEq] at e
    exact absurd (e.2.2.2 ▸ by simp) hn

theorem marker_named (i e : Nat) : ∃ rest, marker i e = ['_', '_'] ++ (markerName ++ rest) :=
  ⟨['_'] ++ (Nat.toDigits 10 i ++ List.replicate (e + 2) '_'), by
    rw [marker, prefix_name]; simp only [List.append_assoc]⟩

/-- The end of the name does not run into the two underscores of a marker. -/
theorem name_overlap : ∀ k < markerName.length,
    (markerName.drop k).take 2 ≠ ['_'] ∧ (markerName.drop k).take 2 ≠ ['_', '_'] := by decide

section Aligned

variable {token : Nat → Str} {w : Woven}

theorem name_not_spelled (hm : ∀ i, ∃ e, token i = marker i e) (hw : Unnamed w) (B : Str) :
    spell token w ≠ markerName ++ B := by
  intro h
  have hs : ∀ {s : Str} {v : Woven}, w = s.map .inl ++ v → ∀ m, s ≠ markerName ++ m := by
    rintro s v rfl m rfl
    exact hw [] (m.map .inl ++ v) (by simp)
  rcases plain_or_mark w with ⟨s, rfl⟩ | ⟨s, i, v, rfl⟩
  · rw [spell_plain] at h
    exact hs (v := []) (by simp) B h
  · rw [spell_append, spell_plain, spell_inr] at h
    rcases overlap h with ⟨m, h1, h2⟩ | ⟨m, -, h1, -⟩
    · -- the name ends in the marker
      have hlt : s.length < markerName.length := by
        by_contra hge
        have hl := congrArg List.length h1
        rw [List.length_append] at hl
        obtain rfl : m = [] := List.length_eq_zero_iff.mp (by omega)
        exact hs rfl [] (by rw [h1, List.append_nil, List.append_nil])
      obtain ⟨h3, h4⟩ := name_overlap s.length hlt
      have hd : markerName.drop s.length = m := by rw [h1, List.drop_left]
      rw [hd] at h3 h4
      obtain ⟨e, he⟩ := hm i
      obtain ⟨rest, hr⟩ := marker_named i e
      rw [he, hr] at h2
      match m, h2 with
      | [], _ =>
        rw [List.append_nil] at h1
        rw [h1] at hlt
        exact Nat.lt_irrefl _ hlt
      | [c], h2 =>
        simp only [List.cons_append, List.cons.injEq] at h2
        exact h3 (by rw [← h2.1]; rfl)
      | c :: d :: m, h2 =>
        simp only [List.cons_append, List.cons.injEq] at h2
        exact h4 (by rw [← h2.1, ← h2.2.1]; rfl)
    · exact hs rfl m h1

/-- A token in the spelled text is the token of an index. -/
theorem token_at (hm : ∀ i, ∃ e, token i = marker i e) (hw : Unnamed w) {i : Nat} {A B : Str}
    (h : spell token w = A ++ (token i ++ B)) :
    ∃ u v, w = u ++ .inr i :: v ∧ A = spell token u ∧ B = spell token v := by
  obtain ⟨e, he⟩ := hm i
  obtain ⟨rest, hr⟩ := marker_named i e
  have h' : spell token w = (A ++ ['_', '_']) ++ (markerName ++ (rest ++ B)) := by
    rw [h, he, hr]
    simp only [List.append_assoc]
  rcases spell_cut h' with ⟨u, v, rfl, -, hv⟩ | ⟨u, j, v, a, b, rfl, hj, -, hb, hA, hB⟩
  · exact absurd hv.symm (name_not_spelled hm (hw.of_infix (List.suffix_append u v).isInfix) _)
  · -- the name begins in the marker `j`, so it is the name of `j`
    obtain ⟨c, b, rfl⟩ := List.exists_cons_of_ne_nil hb
    obtain rfl : 'L' = c := (List.cons.inj (show 'L' :: _ = c :: _ from hB)).1
    obtain ⟨e', hj'⟩ := hm j
    obtain rfl := (stemmed_marker j e').ell (hj'.symm.trans hj)
    obtain rfl := List.append_cancel_right hA
    have hT : token i ++ B = token j ++ spell token v := by
      rw [hj, he, hr, List.append_assoc, List.append_assoc, List.append_assoc, hB]
    obtain rfl : i = j := by
      refine stub_inj (T := token i ++ B) ?_ ?_
      · rw [he]; exact (stub_starts_marker i e).trans (List.prefix_append ..)
      · rw [hT, hj']; exact (stub_starts_marker j e').trans (List.prefix_append ..)
    exact ⟨u, v, rfl, rfl, List.append_cancel_left hT⟩

theorem contains_token (hm : ∀ i, ∃ e, token i = marker i e) (hw : Unnamed w) {i : Nat} :
    contains (spell token w) (token i) = true ↔ i ∈ marks w := by
  rw [contains_iff]
  constructor
  · rintro ⟨A, B, h⟩
    rw [List.append_assoc] at h
    obtain ⟨u, v, rfl, -⟩ := token_at hm hw h
    simp
  · intro hi
    obtain ⟨u, v, rfl⟩ := List.append_of_mem (mem_marks.mp hi)
    exact ⟨spell token u, spell token v, by simp⟩

end Aligned

/-! ## Restoring -/

/-- The protected source that a woven text spells. -/
def sourceOf (span : Nat → ProtectedSpan) (w : Woven) : ProtectedSource :=
  ⟨spell (fun i => (span i).token) w, (marks w).map span⟩

section Restore

variable {span : Nat → ProtectedSpan} {is : List Nat} {w : Woven}

theorem tokenAt_map {k i : Nat} (h : is[k]? = some i) :
    tokenAt (is.map span) k = (span i).token := by
  simp [tokenAt, h]

theorem nextMarker_plain (hm : ∀ i, ∃ e, (span i).token = marker i e) {s : Str}
    (hs : Unnamed (s.map .inl)) : nextMarker s (is.map span) = none := by
  cases h : nextMarker s (is.map span) with
  | none => rfl
  | some x =>
    obtain ⟨hk, A, B, he, -⟩ := nextMarker_some (p := x.1) (i := x.2) h
    rw [List.length_map] at hk
    rw [tokenAt_map (List.getElem?_eq_getElem hk)] at he
    have := (contains_token hm hs (i := is[x.2])).mp
      (contains_iff.mpr ⟨A, B, by rw [spell_plain, he, List.append_assoc]⟩)
    simp at this

/-- The next marker is that of the first index. -/
theorem nextMarker_woven (hm : ∀ i, ∃ e, (span i).token = marker i e) (hn : is.Nodup) {s : Str}
    {i k : Nat} {v : Woven} (hw : Unnamed (s.map .inl ++ .inr i :: v)) (hk : is[k]? = some i) :
    nextMarker (spell (fun i => (span i).token) (s.map .inl ++ .inr i :: v)) (is.map span) =
      some (s.length, k) := by
  have hi : k < is.length := (List.getElem?_eq_some_iff.mp hk).1
  have hpos : spell (fun i => (span i).token) (s.map .inl ++ .inr i :: v) =
      s ++ (tokenAt (is.map span) k ++ spell (fun i => (span i).token) v) := by
    rw [spell_append, spell_plain, spell_inr, tokenAt_map hk]
  cases h : nextMarker (spell (fun i => (span i).token) (s.map .inl ++ .inr i :: v))
      (is.map span) with
  | none => exact absurd hpos (nextMarker_none h k (by rw [List.length_map]; exact hi) _ _)
  | some x =>
    obtain ⟨j, l⟩ := x
    obtain ⟨hl, A, B, he, rfl, hfirst⟩ := nextMarker_some h
    rw [List.length_map] at hl
    have hl' := List.getElem?_eq_getElem hl
    have he' := he
    rw [tokenAt_map hl'] at he'
    obtain ⟨u, v', hu, rfl, -⟩ := token_at hm hw he'
    -- the marker found is at an index of the text, and no index comes before `i`
    rcases overlap hu with ⟨m, rfl, hv⟩ | ⟨m, hm0, hs, hv⟩
    · cases m with
      | nil =>
        rw [List.nil_append, List.cons.injEq, Sum.inr.injEq] at hv
        rw [List.append_nil, spell_plain]
        rw [(List.getElem?_inj hl hn).mp (hl'.trans (hv.1 ▸ hk.symm))]
      | cons x m =>
        exfalso
        obtain ⟨rfl, -⟩ := List.cons.inj hv
        have := hfirst k (by rw [List.length_map]; exact hi) s
          (spell (fun i => (span i).token) m ++ tokenAt (is.map span) l) (by
            rw [tokenAt_map hk]
            simp)
        simp only [spell_append, spell_plain, spell_inr, List.length_append] at this
        obtain ⟨e, he⟩ := hm i
        have hlen := congrArg List.length he
        simp only [marker, List.length_append, tokenPrefix_length] at hlen
        omega
    · exfalso
      obtain ⟨y, m, rfl⟩ := List.exists_cons_of_ne_nil hm0
      obtain ⟨rfl, -⟩ := List.cons.inj hv
      have : Sum.inr is[l] ∈ s.map (Sum.inl : Char → Char ⊕ Nat) := by rw [hs]; simp
      simp at this

/-- The last round: no marker is left. -/
theorem pushLoop_plain (is : List Nat) (hm : ∀ i, ∃ e, (span i).token = marker i e) {s : Str}
    (hs : Unnamed (s.map .inl)) (fuel : Nat) (seen : List Bool) (output : Str) :
    ∃ a b, s = a ++ b ∧ Unnamed (b.map .inl) ∧
      pushLoop (is.map span) fuel s seen output = .ok (output ++ a, b, seen) := by
  refine ⟨s.take (s.length - longestMarkerPrefixSuffix s (is.map span)), _,
    (List.take_append_drop _ s).symm, ?_, ?_⟩
  · rw [unnamed_plain] at hs ⊢
    exact infix_contains (List.drop_suffix _ s).isInfix hs
  · rw [pushLoop, nextMarker_plain hm hs]
    simp only [appendPlainText, infix_contains (List.take_prefix _ s).isInfix hs.clean]
    rfl

/-- The index `i` is seen, and those still to come are not. -/
theorem seen_set (hn : is.Nodup) {i k : Nat} {todo : List Nat} (hk : is[k]? = some i)
    (hi : i ∉ todo) : (is.map fun j => decide (¬ (j = i ∨ j ∈ todo))).set k true =
      is.map fun j => decide (j ∉ todo) := by
  have hlt := (List.getElem?_eq_some_iff.mp hk).1
  refine List.ext_getElem? fun n => ?_
  rw [List.getElem?_set, List.getElem?_map, List.getElem?_map, List.length_map]
  by_cases hnk : k = n
  · subst hnk
    rw [if_pos rfl, if_pos hlt, hk, Option.map_some, decide_eq_true hi]
  · rw [if_neg hnk]
    cases hj : is[n]? with
    | none => rfl
    | some j =>
      have hji : j ≠ i := by
        rintro rfl
        exact hnk ((List.getElem?_inj hlt hn).mp (hk.trans hj.symm))
      simp [hji]

/-- One round for each marker. -/
theorem pushLoop_woven (hm : ∀ i, ∃ e, (span i).token = marker i e) (hn : is.Nodup)
    (hw : Unnamed w) (hnw : (marks w).Nodup) (hsub : ∀ i ∈ marks w, i ∈ is) {fuel : Nat}
    (hfuel : (marks w).length ≤ fuel) (output : Str) :
    ∃ a b, spell (fun i => (span i).replacement) w = a ++ b ∧ Unnamed (b.map .inl) ∧
      pushLoop (is.map span) fuel (spell (fun i => (span i).token) w)
        (is.map fun i => decide (i ∉ marks w)) output =
        .ok (output ++ a, b, List.replicate is.length true) := by
  induction fuel generalizing w output with
  | zero =>
    rcases plain_or_mark w with ⟨s, rfl⟩ | ⟨s, i, v, rfl⟩
    · simpa using pushLoop_plain is hm hw 0 (List.replicate is.length true) output
    · simp at hfuel
  | succ fuel ih =>
    rcases plain_or_mark w with ⟨s, rfl⟩ | ⟨s, i, v, rfl⟩
    · simpa using pushLoop_plain is hm hw (fuel + 1) (List.replicate is.length true) output
    · have hs : Unnamed (s.map .inl) := hw.of_infix (List.prefix_append ..).isInfix
      have hv : Unnamed v := hw.of_infix ⟨s.map .inl ++ [.inr i], [], by simp⟩
      simp only [marks_append, marks_plain, marks_inr, List.nil_append, List.nodup_cons,
        List.length_cons, List.mem_cons] at hnw hfuel hsub
      obtain ⟨k, hki⟩ := List.mem_iff_getElem?.mp (hsub i (.inl rfl))
      have hk := (List.getElem?_eq_some_iff.mp hki).1
      obtain ⟨a, b, hab, hb, h⟩ := ih hv hnw.2 (fun j hj => hsub j (.inr hj)) (by omega)
        (output ++ s ++ (span i).replacement)
      refine ⟨s ++ ((span i).replacement ++ a), b, by simp [hab], hb, ?_⟩
      have hdrop : (spell (fun i => (span i).token) (s.map .inl ++ .inr i :: v)).drop
          (s.length + (span i).token.length) = spell (fun i => (span i).token) v := by
        rw [spell_append, spell_plain, spell_inr, ← List.append_assoc, ← List.length_append,
          List.drop_left]
      have htake : (spell (fun i => (span i).token) (s.map .inl ++ .inr i :: v)).take s.length =
          s := by
        rw [spell_append, spell_plain, List.take_left]
      rw [pushLoop, nextMarker_woven hm hn hw hki]
      simp only [List.getElem?_map, hki, Option.map_some, marks_append, marks_plain, marks_inr,
        List.nil_append, List.mem_cons, true_or, not_true, decide_false, Option.getD_some,
        Bool.false_eq_true, ↓reduceIte, htake, hdrop, appendPlainText, hs.clean]
      rw [seen_set hn hki hnw.1, Except.ok_bind]
      simpa only [List.append_assoc] using h

/-- The markers of a woven text are replaced, and each is found once. -/
theorem restore_woven (hm : ∀ i, ∃ e, (span i).token = marker i e) (hw : Unnamed w)
    (hn : (marks w).Nodup) :
    (sourceOf span w).restoreIdentity = .ok (spell (fun i => (span i).replacement) w) := by
  rw [ProtectedSource.restoreIdentity, ProtectedSource.restorer, sourceOf]
  by_cases h0 : marks w = []
  · rcases plain_or_mark w with ⟨s, rfl⟩ | ⟨s, i, v, rfl⟩
    · rw [marks_plain, List.map_nil, restore_no_spans _ _ _ rfl]
      simp
    · simp at h0
  have hlen : 0 < (marks w).length := List.length_pos_iff.mpr h0
  obtain ⟨a, b, hab, hb, hpush⟩ := pushLoop_woven hm hn hw hn (fun i hi => hi) (Nat.le_refl _) []
  obtain ⟨c, d, rfl, -, hlast⟩ := pushLoop_plain (marks w) hm hb (marks w).length
    (List.replicate (marks w).length true) []
  have hseen : List.replicate (marks w).length false =
      (marks w).map fun i => decide (i ∉ marks w) :=
    (List.eq_replicate_iff.mpr ⟨by simp, by simp⟩).symm
  have hspans : ((marks w).map span).isEmpty = false := by simpa using h0
  rw [List.nil_append] at hpush hlast
  rw [restore_single]
  refine ⟨a, ⟨(marks w).map span, c ++ d, List.replicate (marks w).length true⟩, c ++ d,
    ⟨(marks w).map span, [], List.replicate (marks w).length true⟩, ?_, ?_, hab⟩
  · simp only [ProtectedTextRestorer.push, hspans, List.length_map, hseen, List.nil_append, hpush]
    rfl
  · simp only [ProtectedTextRestorer.finish, ProtectedTextRestorer.push, hspans, List.length_map,
      List.append_nil, hlast]
    cases d with
    | nil => simp [bind, Except.bind]
    | cons x d =>
      have hd : contains (x :: d) protectedTokenPrefix = false :=
        infix_contains (List.suffix_append c (x :: d)).isInfix hb.clean
      simp [bind, Except.bind, appendPlainText, hd]

end Restore

/-! ## The text that is inserted into -/

theorem unnamed_mark {s : Str} {i : Nat} {w : Woven} (hs : Unnamed (s.map .inl)) (hw : Unnamed w) :
    Unnamed (s.map .inl ++ .inr i :: w) := by
  intro u v h
  rw [List.append_assoc] at h
  have hmark : ∀ m m' : Woven, markerName.map .inl ≠ m ++ .inr i :: m' := by
    intro m m' e
    have : Sum.inr i ∈ markerName.map (Sum.inl : Char → Char ⊕ Nat) := by rw [e]; simp
    simp at this
  rcases overlap h with ⟨m, -, h1⟩ | ⟨m, -, h1, h2⟩
  · cases m with
    | nil => cases (List.cons.inj h1).1
    | cons x m =>
      rw [List.cons_append, List.cons.injEq] at h1
      exact hw m v (by rw [h1.2, List.append_assoc])
  · rcases overlap h2 with ⟨m', rfl, -⟩ | ⟨m', hm0, h3, h4⟩
    · exact hs u m' (by rw [h1, List.append_assoc])
    · obtain ⟨x, m', rfl⟩ := List.exists_cons_of_ne_nil hm0
      obtain ⟨rfl, -⟩ := List.cons.inj h4
      exact hmark m m' h3

/-- The source from `cursor` on, with an index for each candidate. -/
def inserted (source : Str) : Nat → Nat → List ProtectedCandidate → Woven
  | _, cursor, [] => (source.drop cursor).map .inl
  | index, cursor, c :: cs =>
    (slice source cursor c.start).map .inl ++ .inr index :: inserted source (index + 1) c.stop cs

/-- The span of an index, with its token in any case. -/
def spanFor (source : Str) (cs : List ProtectedCandidate) (index : Nat) : ProtectedSpan :=
  match cs[index]? with
  | some c => ⟨tokenFor source index, slice source c.start c.stop, c.replacement⟩
  | none => ⟨tokenFor source index, [], []⟩

section Inserted

variable {source : Str} {cs : List ProtectedCandidate}

@[simp] theorem spanFor_token (index : Nat) :
    (spanFor source cs index).token = tokenFor source index := by
  unfold spanFor
  split <;> rfl

theorem spanFor_marker (index : Nat) : ∃ e, (spanFor source cs index).token = marker index e := by
  rw [spanFor_token]
  exact tokenFor_marker source index

theorem inserted_text (index cursor : Nat) :
    spell (tokenFor source) (inserted source index cursor cs) =
      (insertTokens source index cursor cs).1 := by
  induction cs generalizing index cursor with
  | nil => exact spell_plain ..
  | cons c cs ih =>
    simp only [inserted, insertTokens, spell_append, spell_plain, spell_inr, ih, List.append_assoc]

theorem inserted_marks (index cursor : Nat) :
    marks (inserted source index cursor cs) = List.range' index cs.length := by
  induction cs generalizing index cursor with
  | nil => exact marks_plain _
  | cons c cs ih =>
    simp only [inserted, marks_append, marks_plain, marks_inr, ih, List.length_cons,
      List.range'_succ, List.nil_append]

theorem inserted_spans : (insertTokens source 0 0 cs).2 =
    (marks (inserted source 0 0 cs)).map (spanFor source cs) := by
  rw [insertTokens_spans, inserted_marks]
  refine List.ext_getElem? fun n => ?_
  simp only [List.getElem?_map, List.getElem?_zipIdx, Nat.zero_add]
  by_cases hn : n < cs.length
  · rw [List.getElem?_range' hn, List.getElem?_eq_getElem hn]
    simp [spanFor, hn]
  · rw [List.getElem?_eq_none (by omega), List.getElem?_eq_none (by simpa using hn)]
    rfl

theorem inserted_unnamed (hsource : contains source markerName = false) (index cursor : Nat) :
    Unnamed (inserted source index cursor cs) := by
  induction cs generalizing index cursor with
  | nil => exact unnamed_plain.mpr (infix_contains (List.drop_suffix ..).isInfix hsource)
  | cons c cs ih =>
    exact unnamed_mark (unnamed_plain.mpr (infix_contains (infix_slice ..) hsource)) (ih _ _)

end Inserted

end LinguaMesh
