import LinguaMesh.Domain.Reading

/-!
# What the restorer accepts

`push` cuts off the leading marker of the pending text until there is none,
then returns what is left up to a held-back suffix. `restore_iff` says which
outputs that gives over all deltas: those of the accepted readings of the text.

The held-back suffix is the longest start of a token among the suffixes of the
pending text, except that the search stops at the first span with any match
(`Held`): a text that ends inside the closing underscores of a marker keeps
only what the first span's token matches.
-/

namespace LinguaMesh

open Search

/-! ## The held-back suffix -/

/-- The longest start of `token` that ends `text`. -/
def longestStart (text token : Str) : Option Nat :=
  (List.range' 1 (min token.length text.length)).reverse.findSome? fun size =>
    if (token.take size).isSuffixOf text then some size else none

theorem longestMarkerPrefixSuffix_eq (text : Str) (spans : List ProtectedSpan) :
    longestMarkerPrefixSuffix text spans =
      (spans.findSome? fun span => longestStart text span.token).getD 0 := by
  unfold longestMarkerPrefixSuffix
  congr 1
  induction spans with
  | nil => rfl
  | cons span spans ih =>
    rw [List.flatMap_cons, List.findSome?_append, List.findSome?_map, ih, List.findSome?_cons]
    show (longestStart text span.token).or _ = _
    cases longestStart text span.token <;> rfl

/-- `h` ends `text` and starts `token`. -/
def Match (text token h : Str) : Prop := h <:+ text ∧ h <+: token

theorem Match.take {text token h : Str} (hm : Match text token h) :
    token.take h.length = h := (List.prefix_iff_eq_take.mp hm.2).symm

theorem match_take {text token : Str} {size : Nat} :
    Match text token (token.take size) ↔ (token.take size).isSuffixOf text = true := by
  rw [List.isSuffixOf_iff_suffix]
  exact ⟨fun h => h.1, fun h => ⟨h, List.take_prefix ..⟩⟩

theorem findSome_sizes (text token : Str) (n : Nat) :
    match (List.range' 1 n).reverse.findSome? fun size =>
      if (token.take size).isSuffixOf text then some size else none with
    | none => ∀ h, h ≠ [] → h.length ≤ n → ¬ Match text token h
    | some m => 1 ≤ m ∧ m ≤ n ∧ Match text token (token.take m) ∧
        ∀ h, Match text token h → h.length ≤ n → h.length ≤ m := by
  induction n with
  | zero =>
    intro h hne hl
    exact absurd (List.length_eq_zero_iff.mp (by omega)) hne
  | succ n ih =>
    rw [List.range'_concat, List.reverse_append, List.reverse_singleton, List.singleton_append,
      List.findSome?_cons]
    by_cases hs : (token.take (1 + 1 * n)).isSuffixOf text = true
    · simp only [hs, ↓reduceIte]
      exact ⟨by omega, by omega, match_take.mpr hs, fun h _ hl => by omega⟩
    · simp only [hs, Bool.false_eq_true, ↓reduceIte]
      have top : ∀ h, Match text token h → h.length ≤ n + 1 → h.length ≤ n := by
        intro h hm hl
        by_contra hn
        have : h.length = 1 + 1 * n := by omega
        rw [← match_take, ← this, hm.take] at hs
        exact hs hm
      split at ih <;> rename_i hf
      · simp only [hf]
        exact fun h hne hl hm => ih h hne (top h hm hl) hm
      · simp only [hf]
        exact ⟨ih.1, by omega, ih.2.2.1, fun h hm hl => ih.2.2.2 h hm (top h hm hl)⟩

theorem Match.length_le {text token h : Str} (hm : Match text token h) :
    h.length ≤ min token.length text.length :=
  Nat.le_min.mpr ⟨hm.2.length_le, hm.1.length_le⟩

theorem longestStart_none {text token h : Str} (hs : longestStart text token = none)
    (hne : h ≠ []) : ¬ Match text token h := by
  intro hm
  have := findSome_sizes text token (min token.length text.length)
  rw [show List.findSome? _ _ = none from hs] at this
  exact this h hne hm.length_le hm

theorem longestStart_some {text token : Str} {n : Nat} (hs : longestStart text token = some n) :
    1 ≤ n ∧ n ≤ min token.length text.length ∧ Match text token (token.take n) ∧
      ∀ h, Match text token h → h.length ≤ n := by
  have := findSome_sizes text token (min token.length text.length)
  rw [show List.findSome? _ _ = some n from hs] at this
  exact ⟨this.1, this.2.1, this.2.2.1, fun h hm => this.2.2.2 h hm hm.length_le⟩

/-- What is known of the held-back suffix `H` of a text. -/
structure Held (spans : List ProtectedSpan) (text H : Str) : Prop where
  ends : H <:+ text
  starts : H ≠ [] → StartsToken spans H
  first : ∀ t, t ≠ [] → Match text (tokenAt spans 0) t →
    H <+: tokenAt spans 0 ∧ t.length ≤ H.length
  other : ∀ i t, t ≠ [] → i < spans.length → Match text (tokenAt spans i) t → H ≠ []

theorem held (text : Str) (spans : List ProtectedSpan) :
    Held spans text (text.drop (text.length - longestMarkerPrefixSuffix text spans)) := by
  rw [longestMarkerPrefixSuffix_eq]
  have get : ∀ {i}, i < spans.length → ∃ span, spans[i]? = some span ∧ span ∈ spans ∧
      tokenAt spans i = span.token := fun {i} hi =>
    ⟨spans[i], List.getElem?_eq_getElem hi, List.getElem_mem hi,
      tokenAt_eq (List.getElem?_eq_getElem hi)⟩
  cases hf : spans.findSome? fun span => longestStart text span.token with
  | none =>
    have none : ∀ i t, t ≠ [] → i < spans.length → ¬ Match text (tokenAt spans i) t := by
      intro i t ht hi
      obtain ⟨span, -, hmem, he⟩ := get hi
      rw [he]
      exact longestStart_none (List.findSome?_eq_none_iff.mp hf span hmem) ht
    simp only [Option.getD_none, Nat.sub_zero, List.drop_length]
    refine ⟨List.nil_suffix, fun h => absurd rfl h, fun t ht hmt => ?_, fun i t ht hi hmt =>
      absurd hmt (none i t ht hi)⟩
    by_cases h0 : 0 < spans.length
    · exact absurd hmt (none 0 t ht h0)
    · have : tokenAt spans 0 = [] := by simp [tokenAt, List.getElem?_eq_none (Nat.le_of_not_lt h0)]
      rw [this] at hmt
      exact absurd (List.prefix_nil.mp hmt.2) ht
  | some n =>
    obtain ⟨before, span, after, rfl, hs, hb⟩ := List.findSome?_eq_some_iff.mp hf
    obtain ⟨h1, h2, h3, hmax⟩ := longestStart_some hs
    have hn : (span.token.take n).length = n := by
      rw [List.length_take]
      omega
    have hH : text.drop (text.length - (some n).getD 0) = span.token.take n := by
      have hd := List.suffix_iff_eq_drop.mp h3.1
      rw [hn] at hd
      exact hd.symm
    rw [hH]
    have hne : span.token.take n ≠ [] := by
      intro h
      rw [h] at hn
      simp at hn
      omega
    have hspan : tokenAt (before ++ span :: after) before.length = span.token :=
      tokenAt_eq (by simp)
    refine ⟨h3.1, fun _ => ⟨before.length, by simp, ?_⟩, fun t ht hmt => ?_, fun _ _ _ _ _ => hne⟩
    · rw [hspan]
      exact List.take_prefix ..
    · cases before with
      | nil =>
        simp only [List.nil_append, List.length_nil] at hspan hmt ⊢
        rw [hspan] at hmt ⊢
        refine ⟨List.take_prefix .., ?_⟩
        rw [hn]
        exact hmax t hmt
      | cons x before =>
        exact absurd hmt (longestStart_none (hb x (by simp)) ht)

section Held

variable {spans : List ProtectedSpan} {text H : Str}

/-- The text ends inside the closing underscores of a marker that is not the first. -/
def OpenTail (spans : List ProtectedSpan) (text : Str) : Prop :=
  ∃ i u, i ≠ 0 ∧ i < spans.length ∧ Match text (tokenAt spans i) (stub i ++ u)

/-- No start of the marker prefix gets lost. -/
theorem Held.of_prefix (h : Held spans text H) (hm : Marked spans) (hn : 0 < spans.length) {t : Str}
    (ht : t <:+ text) (hp : t <+: protectedTokenPrefix) : t.length ≤ H.length := by
  by_cases ht0 : t = []
  · simp [ht0]
  · exact (h.first t ht0 ⟨ht, hp.trans (hm.prefix_starts hn)⟩).2

theorem Held.of_underscore (h : Held spans text H) (hm : Marked spans) (hn : 0 < spans.length)
    (hu : H.getLast? = some '_') : H <+: tokenAt spans 0 := by
  obtain ⟨ys, rfl⟩ := List.getLast?_eq_some_iff.mp hu
  refine (h.first ['_'] (by simp) ⟨(List.suffix_append ys ['_']).trans h.ends, ?_⟩).1
  obtain ⟨d, hd⟩ := hm.head_two hn
  exact ⟨'_' :: d, hd.symm⟩

/-- Outside closing underscores the held-back suffix is the longest start of any token. -/
theorem Held.max (h : Held spans text H) (hm : Marked spans) (hn : 0 < spans.length)
    (ho : ¬ OpenTail spans text) {t : Str} (ht : t <:+ text) (hs : StartsToken spans t) :
    t.length ≤ H.length := by
  obtain ⟨i, hi, hs⟩ := hs
  by_contra hlt
  have ht0 : t ≠ [] := by
    rintro rfl
    simp at hlt
  have hH0 : H ≠ [] := h.other i t ht0 hi ⟨ht, hs⟩
  have hl : protectedTokenPrefix.length < t.length := by
    by_contra hle
    exact hlt (h.of_prefix hm hn ht (prefix_of_le hs (hm.prefix_starts hi) (by omega)))
  obtain ⟨a, rfl⟩ := suffix_of_le h.ends ht (by omega)
  have ha : a ≠ [] := by
    rintro rfl
    simp at hlt
  have hu : H.getLast? = some '_' := by
    obtain ⟨j, hj, hHj⟩ := h.starts hH0
    have hst := (hm.stemmed hi).starts hs (by rw [tokenPrefix_length] at hl; omega)
    rcases hst.overlap (hm.stemmed hj) rfl ha hHj with h' | h' | h'
    · exact absurd h' hH0
    · rw [h']; rfl
    · rw [h']; rfl
  obtain ⟨e, he⟩ := hm i hi
  obtain ⟨u, hu'⟩ := stub_starts (he ▸ hs) hl (by rw [List.getLast?_append_of_ne_nil _ hH0, hu])
  by_cases hi0 : i = 0
  · subst hi0
    exact hlt (h.first _ ht0 ⟨ht, hs⟩).2
  · exact ho ⟨i, u, hi0, hi, hu' ▸ ⟨ht, hs⟩⟩

end Held

/-! ## One round: a leading marker -/

section Rounds

variable {spans : List ProtectedSpan} {cuts : List Str}

/-- No token begins in `text` before `position`. -/
def FirstAt (spans : List ProtectedSpan) (text : Str) (position : Nat) : Prop :=
  ∀ j < spans.length, ∀ X Y, text = X ++ (tokenAt spans j ++ Y) → position ≤ X.length

/-- A piece before which a cut would have to lie is not hidden. -/
theorem HiddenIn.clean (hm : Marked spans) {i : Nat} (hi : i < spans.length) {A W : Str}
    (hcuts : ∀ S ∈ cuts, S.length ≤ W.length) (h : HiddenIn spans cuts A (tokenAt spans i ++ W)) :
    contains A protectedTokenPrefix = false := by
  rw [contains_eq_false]
  intro a b e
  obtain ⟨t, S, ht, hS, -, hs⟩ := h a b e
  have hSW := hcuts S hS
  rw [← List.append_assoc, ← List.cons_append] at ht
  obtain ⟨p, hp⟩ := hm.prefix_starts hi
  rcases overlap ht with ⟨m, h1, -⟩ | ⟨m, hm0, -, h2⟩
  · have := (hm.prefix_at hs (A := '_' :: b) (B := p ++ m) (by rw [h1, ← hp]; simp)).1
    cases this
  · have := congrArg List.length h2
    have := List.length_pos_iff.mpr hm0
    simp only [List.length_append] at *
    omega

theorem hiddenIn_of_clean {A Z : Str} (h : contains A protectedTokenPrefix = false) :
    HiddenIn spans cuts A Z := fun B C e => absurd e (contains_eq_false.mp h B C)

theorem FirstAt.le_part (hm : Marked spans) {i j : Nat} (hi : i < spans.length)
    (hj : j < spans.length) {A W plain Z : Str}
    (hfirst : FirstAt spans (A ++ tokenAt spans i) A.length)
    (e : plain ++ (tokenAt spans j ++ Z) = A ++ (tokenAt spans i ++ W)) :
    A.length ≤ plain.length := by
  by_contra hlt
  rcases overlap e with ⟨m, h1, h2⟩ | ⟨m, -, h1, -⟩
  · -- the token `j` begins before the token `i`: it ends inside `A ++ tokenAt spans i` or contains
    -- the token `i`
    rw [← List.append_assoc] at h2
    rcases overlap h2.symm with ⟨x, h3, -⟩ | ⟨x, -, h3, -⟩
    · refine hlt ?_
      have hA : m = [] := by
        obtain ⟨p, hp⟩ := hm.prefix_starts hi
        exact (hm.prefix_at (A := m) (B := p ++ x) ⟨j, hj, List.prefix_rfl⟩
          (by rw [h3, ← hp]; simp)).1
      rw [h1, hA, List.append_nil]
    · refine hlt (hfirst j hj plain x ?_)
      rw [h1, List.append_assoc, h3]
  · rw [h1, List.length_append] at hlt
    omega

theorem accepted_marker (hm : Marked spans) {i : Nat} (hi : i < spans.length) {A W : Str}
    (hfirst : FirstAt spans (A ++ tokenAt spans i) A.length)
    (hcuts : ∀ S ∈ cuts, S.length ≤ W.length) {r : Reading}
    (hr : ∀ k ∈ r.indices, k < spans.length) (e : r.text spans = A ++ (tokenAt spans i ++ W)) :
    r.Accepted spans cuts ↔ ∃ rest, r = .part A i rest ∧
      contains A protectedTokenPrefix = false ∧ rest.text spans = W ∧ rest.Accepted spans cuts := by
  constructor
  · rintro ⟨hp, ht⟩
    cases r with
    | last plain => exact absurd e (hp.no_last hm hi)
    | part plain j rest =>
      have hj : j < spans.length := hr j (by simp [Reading.indices])
      have h1 := hp.1.le_marker hm hi hj e
      have h2 := hfirst.le_part hm hi hj e
      obtain ⟨rfl, et⟩ := append_length_inj e (by omega)
      obtain rfl : j = i := hm.inj hj hi ⟨_, et⟩ (List.prefix_append ..)
      have hW := List.append_cancel_left et
      subst hW
      exact ⟨rest, rfl, hp.1.clean hm hj hcuts, rfl, hp.2, ht.2⟩
  · rintro ⟨rest, rfl, hA, rfl, hp, ht⟩
    refine ⟨⟨hiddenIn_of_clean hA, hp⟩, fun u w hu hw hi0 hS => ?_, ht⟩
    have := hcuts _ hS
    have := List.length_pos_iff.mpr hw
    simp only [List.length_append] at *
    omega

/-! ## The last round: no marker left -/

/-- No token lies in `text`. -/
def NoToken (spans : List ProtectedSpan) (text : Str) : Prop :=
  ∀ j < spans.length, ∀ X Y, text ≠ X ++ (tokenAt spans j ++ Y)

/-- A token that is not complete in `P` leaves a start of itself at the end of `P`. -/
theorem NoToken.split {P W Z plain : Str} (hP : NoToken spans P) {j : Nat} (hj : j < spans.length)
    (e : plain ++ (tokenAt spans j ++ Z) = P ++ W) (hl : plain.length < P.length) :
    ∃ m v, P = plain ++ m ∧ tokenAt spans j = m ++ v ∧ v ≠ [] ∧ W = v ++ Z := by
  rcases overlap e with ⟨m, h1, h2⟩ | ⟨m, -, h1, -⟩
  · rcases overlap h2.symm with ⟨v, h3, h4⟩ | ⟨v, -, h3, -⟩
    · refine ⟨m, v, h1, h3, ?_, h4⟩
      rintro rfl
      refine hP j hj plain [] ?_
      rw [h1, h3, List.append_nil, List.append_nil]
    · exact absurd (by rw [h1, h3]) (hP j hj plain v)
  · rw [h1, List.length_append] at hl
    omega

variable {P A H Z₀ : Str}

/-- A reading that goes on over an open tail is not accepted. -/
theorem Reading.Accepted.closed (hm : Marked spans) (hP : NoToken spans P) {r : Reading}
    (h : r.Accepted spans (Z₀ :: cuts)) (hr : ∀ k ∈ r.indices, k < spans.length)
    (e : r.text spans = P ++ Z₀) : ¬ OpenTail spans P := by
  rintro ⟨i, u, hi0, hi, ⟨a, ha⟩, w, hw⟩
  have e' : r.text spans = a ++ (stub i ++ (u ++ Z₀)) := by
    rw [e, ← ha]
    simp only [List.append_assoc]
  cases r with
  | last plain => exact h.1.no_stub hm e'
  | part plain j rest =>
    have hj : j < spans.length := hr j (by simp [indices])
    have hle := h.1.1.le_stub hm hj e'
    have hlt : plain.length < P.length := by
      have := (prefix_starts_stub i).length_le
      rw [tokenPrefix_length] at this
      rw [← ha]
      simp only [List.length_append]
      omega
    obtain ⟨m, v, h1, h2, hv, h3⟩ := hP.split hj e hlt
    obtain ⟨x, rfl⟩ : plain <+: a := prefix_of_le ⟨m, h1.symm⟩ ⟨_, ha⟩ hle
    rw [h1, List.append_assoc] at ha
    have h4 := List.append_cancel_left ha
    obtain ⟨p, hp⟩ := prefix_starts_stub i
    obtain rfl : x = [] := (hm.prefix_at (A := x) (B := p ++ u) ⟨j, hj, ⟨v, h2.symm⟩⟩
      (by rw [← h4, ← hp]; simp)).1
    rw [List.nil_append] at h4
    obtain rfl : i = j := stub_inj (T := tokenAt spans j)
      ⟨u ++ v, by rw [h2, ← h4, List.append_assoc]⟩ (hm.stub_starts hj)
    exact h.2.1 u v (by rw [h2, ← h4]) hv hi0 (by rw [← h3]; exact List.mem_cons_self ..)

/-- The text that is returned before the held-back suffix is clean. -/
theorem Held.clean (hm : Marked spans) (hn : 0 < spans.length) (hH : Held spans (A ++ H) H)
    (hcuts : ∀ S ∈ cuts, S.length ≤ Z₀.length) (ho : ¬ OpenTail spans (A ++ H)) {h Z : Str}
    (hp : HiddenIn spans (Z₀ :: cuts) (A ++ h) Z) (e : h ++ Z = H ++ Z₀) :
    contains A protectedTokenPrefix = false := by
  rw [contains_eq_false]
  intro a b hA
  obtain ⟨t, S, ht, hS, -, i, hi, hs⟩ := hp a (b ++ h) (by rw [hA]; simp)
  have hSl : S.length ≤ Z₀.length := by
    rcases List.mem_cons.mp hS with rfl | hS
    · exact Nat.le_refl _
    · exact hcuts S hS
  -- the piece that hides the prefix ends in the held-back suffix or after it
  have e' : ('_' :: (b ++ H)) ++ Z₀ = t ++ S := by
    rw [← ht, List.append_assoc b h Z, e]
    simp
  have hstart : StartsToken spans ('_' :: (b ++ H)) := by
    refine ⟨i, hi, (prefix_of_le ⟨Z₀, e'⟩ ⟨S, rfl⟩ ?_).trans hs⟩
    have := congrArg List.length e'
    simp only [List.length_append] at this
    omega
  have hend : '_' :: (b ++ H) <:+ A ++ H := by
    refine ⟨a ++ "__LINGUAMESH_PROTECTED".toList, ?_⟩
    rw [hA, show protectedTokenPrefix = "__LINGUAMESH_PROTECTED".toList ++ ['_'] by decide]
    simp
  have := hH.max hm hn ho hend hstart
  simp only [List.length_cons, List.length_append] at this
  omega

/-- Without its front a hidden piece stays hidden: no cut is needed inside the held-back suffix. -/
theorem HiddenIn.drop_front (hm : Marked spans) (hH : Held spans (A ++ H) H) {h Z : Str}
    (hp : HiddenIn spans (Z₀ :: cuts) (A ++ h) Z) (e : h ++ Z = H ++ Z₀) :
    HiddenIn spans cuts h Z := by
  intro a b hab
  obtain ⟨t, S, ht, hS, hl, hs⟩ := hp (A ++ a) b (by rw [hab]; simp)
  rcases List.mem_cons.mp hS with rfl | hS
  · exfalso
    match t, hl with
    | c :: d :: t, _ =>
      simp only [List.cons_append, List.cons.injEq] at ht
      have hHe : H = a ++ protectedTokenPrefix ++ (d :: t) := by
        refine (List.append_left_inj S).mp ?_
        rw [← e, hab, List.append_assoc _ b, ht.2]
        simp
      have hd := (hm.prefix_at (hH.starts (by rw [hHe]; simp)) hHe).2
      obtain ⟨i, hi, hs⟩ := hs
      obtain ⟨r, hr⟩ := hm.head_two hi
      rw [hr, List.cons_prefix_cons, List.cons_prefix_cons] at hs
      exact hd (by rw [hs.2.1, List.head?_cons])
  · exact ⟨t, S, ht, hS, hl, hs⟩

/-- A clean front hides nothing new: a prefix over the border has its last underscore at the start
of the held-back suffix. -/
theorem HiddenIn.add_front (hm : Marked spans) (hn : 0 < spans.length) (hH : Held spans (A ++ H) H)
    (hA : contains A protectedTokenPrefix = false) {h Z : Str}
    (hp : HiddenIn spans cuts h Z) (e : h ++ Z = H ++ Z₀) :
    HiddenIn spans (Z₀ :: cuts) (A ++ h) Z := by
  intro a b hab
  rw [List.append_assoc] at hab
  rcases overlap hab with ⟨m, -, h1⟩ | ⟨m, hm0, h1, h2⟩
  · rw [← List.append_assoc] at h1
    obtain ⟨t, S, ht, hS, hl, hs⟩ := hp m b h1
    exact ⟨t, S, ht, List.mem_cons_of_mem _ hS, hl, hs⟩
  rcases overlap h2 with ⟨v, h3, h4⟩ | ⟨v, hv0, h3, h4⟩
  · exact absurd (by rw [h1, h3, List.append_assoc]) (contains_eq_false.mp hA a v)
  · rw [h4, List.append_assoc] at e
    have hover : ∀ x, v = H ++ x → False := by
      rintro x rfl
      have := hH.of_prefix hm hn (t := m ++ H) ⟨a, by rw [h1, List.append_assoc]⟩
        ⟨x, by rw [h3, List.append_assoc]⟩
      have := List.length_pos_iff.mpr hm0
      simp only [List.length_append] at *
      omega
    rcases overlap e with ⟨x, hx, hbZ⟩ | ⟨x, -, hx, -⟩
    · have hH0 : H ≠ [] := by
        rw [hx]
        exact List.append_ne_nil_of_left_ne_nil hv0 x
      obtain ⟨j, hj, hHj⟩ := hH.starts hH0
      have hv : v = ['_'] :=
        prefix_overlap (hm.stemmed hj) h3 hm0 hv0 (List.IsPrefix.trans ⟨x, hx.symm⟩ hHj)
      subst hv
      refine ⟨H, Z₀, by rw [hx, hbZ]; simp, List.mem_cons_self .., ?_, j, hj, hHj⟩
      cases x with
      | nil => exact (hover [] (by rw [hx]; simp)).elim
      | cons y x => simp [hx]
    · exact (hover x hx).elim

theorem WholeTail.add_cut (hm : Marked spans) (hn : 0 < spans.length) (hH : Held spans (A ++ H) H)
    {h Z : Str} {j : Nat} (hj : j < spans.length) (hw : WholeTail spans cuts j Z)
    (e : h ++ (tokenAt spans j ++ Z) = H ++ Z₀) : WholeTail spans (Z₀ :: cuts) j Z := by
  intro u w hu hw0 hj0 hS
  rcases List.mem_cons.mp hS with hS | hS
  · have hHe : H = h ++ (stub j ++ u) := by
      refine (List.append_left_inj Z₀).mp ?_
      rw [← e, hu, ← hS]
      simp only [List.append_assoc]
    obtain ⟨p, hp⟩ := prefix_starts_stub j
    have hst := hH.starts (by rw [hHe, ← hp]; simp [prefix_eq])
    obtain rfl : h = [] := (hm.prefix_at (B := p ++ u) hst (by rw [hHe, ← hp]; simp)).1
    rw [List.nil_append] at hHe
    -- it ends with an underscore, so the first token has it too
    have hlast : H.getLast? = some '_' := by
      rw [hHe]
      obtain ⟨e', he⟩ := hm j hj
      rw [he, marker_eq_stub, List.append_assoc] at hu
      have hu := List.append_cancel_left hu
      by_cases hu0 : u = []
      · subst hu0
        simp [stub]
      · rw [List.getLast?_append_of_ne_nil _ hu0, List.getLast?_eq_some_getLast hu0]
        refine congrArg some (List.eq_of_mem_replicate (n := e' + 1) ?_)
        rw [hu]
        exact List.mem_append_left _ (List.getLast_mem hu0)
    have h0 := hH.of_underscore hm hn hlast
    exact hj0 (stub_inj (T := tokenAt spans 0) (List.IsPrefix.trans ⟨u, hHe.symm⟩ h0)
      (hm.stub_starts hn))
  · exact hw u w hu hw0 hj0 hS

/-- After the last round the reading goes on from the held-back suffix. -/
theorem accepted_held (hm : Marked spans) (hn : 0 < spans.length) (hP : NoToken spans (A ++ H))
    (hH : Held spans (A ++ H) H) (hcuts : ∀ S ∈ cuts, S.length ≤ Z₀.length) {r : Reading}
    (hr : ∀ k ∈ r.indices, k < spans.length) (e : r.text spans = A ++ H ++ Z₀) :
    r.Accepted spans (Z₀ :: cuts) ↔ ∃ r' : Reading, r = r'.prepend A ∧
      contains A protectedTokenPrefix = false ∧ r'.text spans = H ++ Z₀ ∧
      r'.Accepted spans cuts := by
  -- the markers after the first cut
  have short : ∀ {h : Str} {j : Nat} {Z : Str}, j < spans.length →
      h ++ (tokenAt spans j ++ Z) = H ++ Z₀ → Z.length ≤ Z₀.length := by
    intro h j Z hj e
    by_contra hlt
    rw [← List.append_assoc] at e
    rcases overlap e with ⟨x, h1, -⟩ | ⟨x, -, -, h2⟩
    · exact hP j hj (A ++ h) x (by rw [h1]; simp)
    · rw [h2, List.length_append] at hlt
      omega
  constructor
  · intro h
    have ho := h.closed hm hP hr e
    cases r with
    | last plain =>
      rw [Reading.text, List.append_assoc] at e
      subst e
      have hp := h.1
      refine ⟨.last (H ++ Z₀), rfl, hH.clean hm hn hcuts ho hp (List.append_nil _), rfl,
        hp.drop_front hm hH (List.append_nil _), trivial⟩
    | part plain j rest =>
      have hj : j < spans.length := hr j (by simp [Reading.indices])
      have hle : A.length ≤ plain.length := by
        by_contra hlt
        obtain ⟨m, v, h1, h2, -, -⟩ := hP.split hj e (by rw [List.length_append]; omega)
        have := hH.max hm hn ho ⟨plain, h1.symm⟩ ⟨j, hj, ⟨v, h2.symm⟩⟩
        have := congrArg List.length h1
        simp only [List.length_append] at this
        omega
      rw [Reading.text, List.append_assoc] at e
      obtain ⟨h', rfl⟩ : A <+: plain := prefix_of_le ⟨_, rfl⟩ ⟨_, e⟩ hle
      rw [List.append_assoc] at e
      have e := List.append_cancel_left e
      have hrest := (Reading.accepted_cons (short hj e)).mp ⟨h.1.2, h.2.2⟩
      refine ⟨.part h' j rest, rfl, hH.clean hm hn hcuts ho h.1.1 e, e,
        ⟨h.1.1.drop_front hm hH e, hrest.1⟩, fun u w hu hw hj0 hS => ?_, hrest.2⟩
      exact h.2.1 u w hu hw hj0 (List.mem_cons_of_mem _ hS)
  · rintro ⟨r', rfl, hA, e', h⟩
    cases r' with
    | last plain =>
      exact ⟨h.1.add_front hm hn hH hA (by rw [List.append_nil]; exact e'), trivial⟩
    | part plain j rest =>
      have hj : j < spans.length := hr j (by simp [Reading.indices])
      have hrest := (Reading.accepted_cons (short hj e')).mpr ⟨h.1.2, h.2.2⟩
      exact ⟨⟨h.1.1.add_front hm hn hH hA e', hrest.1⟩, h.2.1.add_cut hm hn hH hj e', hrest.2⟩

end Rounds

end LinguaMesh
