import LinguaMesh.Domain.Split

/-!
# Restoring the protected text itself

A marker that the source already has the beginning of can be completed by the
first underscores of the marker inserted after it, and is then read one marker
too early. `restore_source_iff`: restoring the protected text gives nothing but
the source exactly when it cannot be read so.
-/

namespace LinguaMesh

open Search

section

variable {spans : List ProtectedSpan} {cuts : List Str}

/-- The text ends with a token that lacks its last one or two characters. -/
def Runs (spans : List ProtectedSpan) (X : Str) : Prop :=
  ∃ i < spans.length, ∃ m b, tokenAt spans i = m ++ b ∧ m ≠ [] ∧ b ≠ [] ∧ b.length ≤ 2 ∧ m <:+ X

/-- A token that is read before the place of another one ends before it or runs into it. -/
theorem before_token (hm : Marked spans) {i j : Nat} (hi : i < spans.length)
    (hj : j < spans.length) {plain Z X Y : Str}
    (e : plain ++ (tokenAt spans i ++ Z) = X ++ (tokenAt spans j ++ Y))
    (hl : plain.length < X.length) :
    (∃ X', Z = X' ++ (tokenAt spans j ++ Y) ∧ X' <:+ X) ∨ Runs spans X := by
  rcases overlap e with ⟨x, h1, h2⟩ | ⟨x, -, h1, -⟩
  · have hx0 : x ≠ [] := by
      rintro rfl
      rw [h1, List.append_nil] at hl
      exact Nat.lt_irrefl _ hl
    rcases overlap h2 with ⟨X', h3, h4⟩ | ⟨b, hb0, h3, h4⟩
    · exact .inl ⟨X', h4, by rw [h1, h3, ← List.append_assoc]; exact List.suffix_append ..⟩
    · refine .inr ⟨i, hi, x, b, h3, hx0, hb0, ?_, ⟨plain, h1.symm⟩⟩
      by_cases hlen : b.length ≤ (tokenAt spans j).length
      · have hb : b <+: tokenAt spans j := prefix_of_le ⟨Z, h4.symm⟩ (List.prefix_append ..) hlen
        rcases hm.overlap hi hj h3 hx0 hb with rfl | rfl | rfl
        · exact absurd rfl hb0
        · simp
        · simp
      · exfalso
        obtain ⟨w, hw⟩ : tokenAt spans j <+: b :=
          prefix_of_le (List.prefix_append ..) ⟨Z, h4.symm⟩ (by omega)
        obtain ⟨p, hp⟩ := hm.prefix_starts hj
        exact hx0 (hm.prefix_at (A := x) (B := p ++ w) ⟨i, hi, List.prefix_rfl⟩
          (by rw [h3, ← hw, ← hp]; simp)).1
  · rw [h1, List.length_append] at hl
    omega

/-- A token that a reading does not read has another one running into it. -/
theorem Reading.runs_of_notMem (hm : Marked spans) {r : Reading} (hp : r.PrefixHidden spans cuts)
    (hr : ∀ k ∈ r.indices, k < spans.length) {j : Nat} (hj : j < spans.length)
    (hn : j ∉ r.indices) {X Y : Str} (e : r.text spans = X ++ (tokenAt spans j ++ Y)) :
    Runs spans X := by
  induction r generalizing X with
  | last plain => exact absurd e (hp.no_last hm hj)
  | part plain i rest ih =>
    have hi : i < spans.length := hr i (by simp [indices])
    have hle := hp.1.le_marker hm hj hi e
    by_cases hl : plain.length < X.length
    · rcases before_token hm hi hj e hl with ⟨X', h1, h2⟩ | h
      · obtain ⟨k, hk, m, b, h3, h4, h5, h6, h7⟩ :=
          ih hp.2 (fun k hk => hr k (by simp [indices, hk])) (fun h => hn (by simp [indices, h])) h1
        exact ⟨k, hk, m, b, h3, h4, h5, h6, h7.trans h2⟩
      · exact h
    · obtain ⟨rfl, et⟩ := append_length_inj e (by omega)
      have hij : i = j := hm.inj hi hj ⟨_, et⟩ (List.prefix_append ..)
      exact absurd (by simp [indices, hij]) hn

theorem marker_emailLocal {i e : Nat} {c : Char} (h : c ∈ marker i e) : isEmailLocal c = true := by
  simp only [marker, List.mem_append] at h
  rcases h with (h | h) | h
  · have : protectedTokenPrefix.all isEmailLocal = true := by decide
    exact List.all_eq_true.mp this c h
  · have := Nat.isDigit_of_mem_toDigits (by decide) (by decide) h
    simp [isEmailLocal, Char.isAlphanum, this]
  · rw [List.eq_of_mem_replicate h]
    decide

theorem Runs.emailLocal (hm : Marked spans) {X : Str} (h : Runs spans X) :
    ∃ c, X.getLast? = some c ∧ isEmailLocal c = true := by
  obtain ⟨i, hi, m, b, h1, h2, -, -, ⟨a, rfl⟩⟩ := h
  refine ⟨m.getLast h2, ?_, ?_⟩
  · rw [List.getLast?_append_of_ne_nil _ h2, List.getLast?_eq_some_getLast h2]
  · obtain ⟨e, he⟩ := hm i hi
    refine marker_emailLocal (i := i) (e := e) ?_
    rw [← he, h1]
    exact List.mem_append_left _ (List.getLast_mem h2)

theorem Runs.no_token (hm : Marked spans) {X : Str} (h : Runs spans X) {j : Nat}
    (hj : j < spans.length) : ¬ tokenAt spans j <:+ X := by
  intro ht
  obtain ⟨i, hi, m, b, h1, -, h3, h4, h5⟩ := h
  have hl := hm.length_lt hi
  have hlen := congrArg List.length h1
  rw [List.length_append] at hlen
  have hst : Stemmed m := (hm.stemmed hi).starts ⟨b, h1.symm⟩ (by omega)
  have heq : m = tokenAt spans j := by
    rcases Nat.le_total m.length (tokenAt spans j).length with hle | hle
    · obtain ⟨a, ha⟩ := suffix_of_le h5 ht hle
      rw [← ha, (hm.stemmed hj).unique ha.symm hst.stem, List.nil_append]
    · obtain ⟨a, ha⟩ := suffix_of_le ht h5 hle
      rw [← ha, hst.unique ha.symm (hm.stemmed hj).stem, List.nil_append]
  have hij : i = j := hm.inj hi hj (T := tokenAt spans i) List.prefix_rfl ⟨b, by rw [← heq, h1]⟩
  subst hij
  rw [heq] at h1
  exact h3 (List.append_cancel_left (h1.symm.trans (List.append_nil _).symm))

/-- Where the token of the candidate `c` was inserted: after a piece of the source, after another
token or at the start. -/
theorem inserted_at {source : Str} {cursor : Nat} {cs : List ProtectedCandidate} (index k : Nat)
    (hl : Laid source cursor cs) (hn : index + cs.length ≤ spans.length)
    (hk : k < cs.length) :
    ∃ X Y, (insertedReading source index cursor cs).text spans =
        X ++ (tokenAt spans (index + k) ++ Y) ∧
      slice source cursor (cs.head (List.ne_nil_of_length_pos (by omega))).start <+: X ∧
      (X = [] ∨ X.getLast? = (source.take (cs[k]).start).getLast? ∨
        ∃ i < spans.length, tokenAt spans i <:+ X) := by
  induction cs generalizing index cursor k with
  | nil => cases hk
  | cons c cs ih =>
    obtain ⟨h1, -, h3⟩ := hl
    rw [List.length_cons] at hn hk
    cases k with
    | zero =>
      refine ⟨slice source cursor c.start, _, rfl, List.prefix_rfl, ?_⟩
      by_cases hs : slice source cursor c.start = []
      · exact .inl hs
      · refine .inr (.inl ?_)
        rw [List.getElem_cons_zero, take_slice h1, List.getLast?_append_of_ne_nil _ hs]
    | succ k =>
      obtain ⟨X, Y, e, -, hX⟩ := ih (index + 1) k h3 (by omega) (by omega)
      refine ⟨slice source cursor c.start ++ (tokenAt spans index ++ X), Y, ?_,
        List.prefix_append .., .inr ?_⟩
      · rw [insertedReading, Reading.text, e, show index + (k + 1) = index + 1 + k by omega]
        simp only [List.append_assoc]
      · rw [← List.append_assoc]
        by_cases hX0 : X = []
        · subst hX0
          rw [List.append_nil]
          exact .inr ⟨index, by omega, List.suffix_append ..⟩
        · rcases hX with h | h | ⟨i, hi, h⟩
          · exact absurd h hX0
          · refine .inl ?_
            rw [List.getLast?_append_of_ne_nil _ hX0, h, List.getElem_cons_succ]
          · exact .inr ⟨i, hi, h.trans (List.suffix_append ..)⟩

/-- A reading that restores to the source has every marker where it was inserted. At the first other
marker the source goes on with an underscore and the output with a candidate; what runs into that
candidate's marker keeps it from beginning with one. -/
theorem inserted_of_restored (hm : Marked spans) {source : Str} (index : Nat) {cursor : Nat}
    {cs : List ProtectedCandidate} (hl : Laid source cursor cs)
    (hn : index + cs.length = spans.length)
    (hrep : ∀ (k : Nat) (hk : k < cs.length),
      replacementAt spans (index + k) = slice source (cs[k]).start (cs[k]).stop)
    (hloc : ∀ c ∈ cs, source[c.start]? ≠ some '_' ∨
      ∀ d, (source.take c.start).getLast? = some d → isEmailLocal d = false)
    {r : Reading} (hp : r.PrefixHidden spans cuts) (hnd : r.indices.Nodup)
    (hidx : ∀ k ∈ r.indices, index ≤ k ∧ k < spans.length)
    (ht : r.text spans = (insertedReading source index cursor cs).text spans)
    (hout : r.restored spans = source.drop cursor) :
    r = insertedReading source index cursor cs := by
  induction cs generalizing index cursor r with
  | nil =>
    cases r with
    | last plain => exact congrArg Reading.last ht
    | part plain j rest =>
      have := hidx j (by simp [Reading.indices])
      simp only [List.length_nil] at hn
      omega
  | cons c cs ih =>
    have hlaid := hl
    obtain ⟨h1, h2, h3⟩ := hl
    have hi : index < spans.length := by
      simp only [List.length_cons] at hn
      omega
    cases r with
    | last plain => exact absurd ht (hp.no_last hm hi)
    | part plain j rest =>
      obtain ⟨hij, hj⟩ := hidx j (by simp [Reading.indices])
      have hnj : j ∉ rest.indices := (List.nodup_cons.mp hnd).1
      have hle := hp.1.le_marker hm hi hj ht
      by_cases hlt : plain.length < (slice source cursor c.start).length
      · exfalso
        have hk : j - index < (c :: cs).length := by omega
        obtain ⟨X, Y, e, hs, hX⟩ := inserted_at index (j - index) hlaid (Nat.le_of_eq hn) hk
        rw [Nat.add_sub_cancel' hij] at e
        have hruns : Runs spans X := by
          rcases before_token hm hj hj (ht.trans e) (hlt.trans_le hs.length_le) with
            ⟨X', h4, h5⟩ | h
          · obtain ⟨i, hi, m, b, h6, h7, h8, h9, h10⟩ := Reading.runs_of_notMem hm hp.2
              (fun k hk => (hidx k (by simp [Reading.indices, hk])).2) hj hnj h4
            exact ⟨i, hi, m, b, h6, h7, h8, h9, h10.trans h5⟩
          · exact h
        obtain ⟨d, hd, hdl⟩ := hruns.emailLocal hm
        have hlast : (source.take ((c :: cs)[j - index]).start).getLast? = some d := by
          rcases hX with h | h | ⟨i, hi, h⟩
          · rw [h] at hd
            cases hd
          · rw [← h, hd]
          · exact absurd h (hruns.no_token hm hi)
        -- the candidate `j` would begin with an underscore
        have hw := (hlaid.pairwise.2 _ (List.getElem_mem hk)).2
        have hrj := hrep (j - index) hk
        rw [Nat.add_sub_cancel' hij] at hrj
        obtain ⟨x, hx⟩ : plain <+: slice source cursor c.start :=
          prefix_of_le ⟨_, rfl⟩ ⟨_, ht.symm⟩ hle
        have hx0 : x ≠ [] := by
          rintro rfl
          rw [← hx, List.append_nil] at hlt
          exact Nat.lt_irrefl _ hlt
        obtain ⟨y, x, rfl⟩ := List.exists_cons_of_ne_nil hx0
        have hy : y = '_' := by
          obtain ⟨t, htok⟩ := hm.head_two hj
          have ht' := ht
          rw [insertedReading, Reading.text, Reading.text, ← hx, htok, List.append_assoc] at ht'
          have := List.append_cancel_left ht'
          simp only [List.cons_append, List.cons.injEq] at this
          exact this.1.symm
        rw [Reading.restored, hrj, drop_slice h1, ← hx, List.append_assoc] at hout
        have hhead := congrArg List.head? (List.append_cancel_left hout)
        rw [hy, List.cons_append, List.head?_cons] at hhead
        have hstart : source[((c :: cs)[j - index]).start]? = some '_' := by
          rw [← List.head?_drop, drop_slice (Nat.le_of_lt hw.1)]
          have hne : slice source ((c :: cs)[j - index]).start ((c :: cs)[j - index]).stop ≠ [] := by
            intro h
            have := congrArg List.length h
            have hw2 := hw.2
            have hw1 := hw.1
            simp only [slice, List.length_drop, List.length_take, List.length_nil] at this
            omega
          rw [List.head?_append_of_ne_nil _ hne] at hhead ⊢
          exact hhead
        rcases hloc _ (List.getElem_mem hk) with h | h
        · exact h hstart
        · rw [h d hlast] at hdl
          cases hdl
      · obtain ⟨rfl, et⟩ := append_length_inj ht (by omega)
        obtain rfl : j = index := hm.inj hj hi ⟨_, et⟩ (List.prefix_append ..)
        have h0 := hrep 0 (by simp)
        rw [Nat.add_zero, List.getElem_cons_zero] at h0
        rw [insertedReading, ih (j + 1) h3 (by simp only [List.length_cons] at hn; omega)
          ?_ (fun d hd => hloc d (List.mem_cons_of_mem _ hd)) hp.2 (List.nodup_cons.mp hnd).2 ?_
          (List.append_cancel_left et) ?_]
        · intro k hk
          have := hrep (k + 1) (by simpa using hk)
          rwa [show j + (k + 1) = j + 1 + k by omega] at this
        · intro k hk
          have := hidx k (by simp [Reading.indices, hk])
          have hne : k ≠ j := fun h => hnj (h ▸ hk)
          omega
        · rw [Reading.restored, h0, drop_slice h1, drop_slice h2.1.le] at hout
          exact List.append_cancel_left (List.append_cancel_left hout)

end

section
variable [UnicodeTables]

/-- The protected text cannot be read otherwise: its only complete reading without a prefix in the
plain pieces, but one that runs into the end of the text, has the markers where they were
inserted. -/
def NotMisread (source : Str) : Prop :=
  let cs := selectedCandidates source none none none
  let spans := (insertTokens source 0 0 cs).2
  ∀ r : Reading, r.text spans = (insertedReading source 0 0 cs).text spans →
    r.Completes (List.replicate cs.length false) → r.PrefixHidden spans [[]] →
    r = insertedReading source 0 0 cs

theorem restored_source (source : Str) :
    (insertedReading source 0 0 (selectedCandidates source none none none)).restored
      (insertTokens source 0 0 (selectedCandidates source none none none)).2 = source := by
  rw [restored_inserted, replaceSpans_self (selectedCandidates_laid ..)
    fun c hc => (automatic_self hc).1, List.drop_zero]
  intro k hk
  rw [Nat.zero_add, replacementAt_inserted hk]

/-- Its own protected text restores to the source, or to nothing, exactly when it cannot be
misread. -/
theorem restore_source_iff (source : Str) :
    (∀ out, (protectSourceText source).restorer.restore [(protectSourceText source).text] =
      .ok out → out = source) ↔ NotMisread source := by
  have hp : protectSourceText source = _ := buildProtectedSource_eq (protectSourceText_ok source)
  have hlaid := selectedCandidates_laid source none none none
  rw [hp]
  unfold NotMisread
  dsimp only
  have hself := restored_source source
  have hcand : ∀ c ∈ selectedCandidates source none none none, _ := fun c => automatic_self
  generalize selectedCandidates source none none none = cs at hself hcand hlaid ⊢
  have hm : Marked (insertTokens source 0 0 cs).2 := inserted_marked 0
  have hlen : (insertTokens source 0 0 cs).2.length = cs.length := spans_length 0 0
  have htext : (insertedReading source 0 0 cs).text (insertTokens source 0 0 cs).2 =
      (insertTokens source 0 0 cs).1 :=
    text_inserted fun k hk => by rw [Nat.zero_add, tokenAt_inserted hk, Nat.zero_add]
  have hr : ∀ {r : Reading}, r.Completes (List.replicate cs.length false) →
      ∀ k ∈ r.indices, 0 ≤ k ∧ k < (insertTokens source 0 0 cs).2.length :=
    fun h k hk => ⟨Nat.zero_le k, hlen ▸ ((completes_replicate.mp h).2 k).mp hk⟩
  by_cases hn : cs = []
  · subst hn
    constructor
    · intro _ r ht hcomp _
      cases r with
      | last plain => exact congrArg Reading.last ht
      | part plain i rest =>
        have := (hr hcomp i (by simp [Reading.indices])).2
        cases this
    · intro _ out h
      have h' : ProtectedTextRestorer.restore ⟨[], [], []⟩ [source.drop 0] = .ok out := h
      rw [restore_no_spans _ _ _ rfl] at h'
      simpa using h'.symm
  · have hpos : 0 < (insertTokens source 0 0 cs).2.length := by
      rw [hlen]
      exact List.length_pos_iff.mpr hn
    have hres := restore_iff hm hpos (List.length_replicate (a := false)) []
      [(insertTokens source 0 0 cs).1]
    simp only [Restores, accepted_whole, List.flatten_singleton, List.nil_append] at hres
    rw [htext, ← hlen]
    constructor
    · intro h r ht hcomp hpre
      have hout := h _ ((hres _).mpr ⟨r, ht, hcomp, hpre, rfl⟩)
      refine inserted_of_restored hm 0 hlaid (by rw [hlen, Nat.zero_add]) (fun k hk => ?_)
        (fun c hc => (hcand c hc).2) hpre hcomp.1 (hr (hlen ▸ hcomp)) (by rw [htext]; exact ht) hout
      rw [Nat.zero_add, replacementAt_inserted hk]
      exact (hcand _ (List.getElem_mem hk)).1
    · intro h out hout
      obtain ⟨r, ht, hcomp, hpre, rfl⟩ := (hres out).mp hout
      rw [h r ht hcomp hpre, hself]

end

/-- A source that ends in a marker short of one underscore just before a code span: the inserted
marker completes it. -/
theorem restore_misread : ∃ out,
    (@protectSourceText asciiTables "__LINGUAMESH_PROTECTED_0_`a`".toList).restorer.restore
      [(@protectSourceText asciiTables "__LINGUAMESH_PROTECTED_0_`a`".toList).text] = .ok out ∧
    out ≠ "__LINGUAMESH_PROTECTED_0_`a`".toList :=
  ⟨"`a`_LINGUAMESH_PROTECTED_0__".toList, by decide, by decide⟩

end LinguaMesh
