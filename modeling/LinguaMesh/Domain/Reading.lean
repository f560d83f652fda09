import LinguaMesh.Domain.Marker

/-!
# Readings of a model output

A `Reading` cuts a text into plain pieces and markers. The deltas of a stream
are known by their cuts: a cut is what is still to come after it
(`boundaries`). A restorer accepts the reading that has no marker prefix in its
plain pieces, up to two effects of the held-back suffix, which both depend on
the cuts:

* a prefix followed by an underscore goes unseen when a cut makes its last
  underscore the start of a held-back piece (`HiddenIn`);
* a marker other than the first is not recognized when a cut falls between its
  closing underscores (`WholeTail`).

A text has at most one accepted reading (`Reading.unique`).
-/

namespace LinguaMesh

open Search

def tokenAt (spans : List ProtectedSpan) (index : Nat) : Str :=
  (spans[index]?.map (·.token)).getD []

def replacementAt (spans : List ProtectedSpan) (index : Nat) : Str :=
  (spans[index]?.map (·.replacement)).getD []

/-- Every span's token is a marker with the span's index. -/
def Marked (spans : List ProtectedSpan) : Prop :=
  ∀ i < spans.length, ∃ e, tokenAt spans i = marker i e

/-- The text is the start of some token. -/
def StartsToken (spans : List ProtectedSpan) (t : Str) : Prop :=
  ∃ i < spans.length, t <+: tokenAt spans i

inductive Reading where
  | last (plain : Str)
  | part (plain : Str) (index : Nat) (rest : Reading)

/-- What is still to come after each delta, and after the last one. -/
def boundaries : List Str → List Str
  | [] => [[]]
  | _ :: deltas => deltas.flatten :: boundaries deltas

/-- Every prefix in `plain`, which `Z` follows, has its last underscore at the start of a piece
that looks like a token and ends at a cut. -/
def HiddenIn (spans : List ProtectedSpan) (cuts : List Str) (plain Z : Str) : Prop :=
  ∀ A B, plain = A ++ protectedTokenPrefix ++ B →
    ∃ t S, '_' :: (B ++ Z) = t ++ S ∧ S ∈ cuts ∧ 2 ≤ t.length ∧ StartsToken spans t

/-- No cut falls between the closing underscores of the token `i` that `Z` follows. -/
def WholeTail (spans : List ProtectedSpan) (cuts : List Str) (i : Nat) (Z : Str) : Prop :=
  ∀ u w, tokenAt spans i = stub i ++ u ++ w → w ≠ [] → i ≠ 0 → w ++ Z ∉ cuts

namespace Reading

def indices : Reading → List Nat
  | last _ => []
  | part _ i rest => i :: rest.indices

/-- The text that is read. -/
def text (spans : List ProtectedSpan) : Reading → Str
  | last plain => plain
  | part plain i rest => plain ++ (tokenAt spans i ++ rest.text spans)

/-- The text with each marker replaced. -/
def restored (spans : List ProtectedSpan) : Reading → Str
  | last plain => plain
  | part plain i rest => plain ++ (replacementAt spans i ++ rest.restored spans)

def PrefixHidden (spans : List ProtectedSpan) (cuts : List Str) : Reading → Prop
  | last plain => HiddenIn spans cuts plain []
  | part plain i rest =>
    HiddenIn spans cuts plain (tokenAt spans i ++ rest.text spans) ∧ rest.PrefixHidden spans cuts

def TailsWhole (spans : List ProtectedSpan) (cuts : List Str) : Reading → Prop
  | last _ => True
  | part _ i rest => WholeTail spans cuts i (rest.text spans) ∧ rest.TailsWhole spans cuts

/-- The markers read are those not seen yet, each once. -/
def Completes (seen : List Bool) (r : Reading) : Prop :=
  r.indices.Nodup ∧ ∀ i, i ∈ r.indices ↔ seen[i]? = some false

def Accepted (spans : List ProtectedSpan) (cuts : List Str) (r : Reading) : Prop :=
  r.PrefixHidden spans cuts ∧ r.TailsWhole spans cuts

end Reading

/-! ## More plain text in front, more cuts behind -/

namespace Reading

/-- The reading with `A` in front. -/
def prepend (A : Str) : Reading → Reading
  | last plain => last (A ++ plain)
  | part plain i rest => part (A ++ plain) i rest

@[simp] theorem text_prepend (spans : List ProtectedSpan) (A : Str) (r : Reading) :
    (r.prepend A).text spans = A ++ r.text spans := by
  cases r <;> simp [prepend, text]

@[simp] theorem restored_prepend (spans : List ProtectedSpan) (A : Str) (r : Reading) :
    (r.prepend A).restored spans = A ++ r.restored spans := by
  cases r <;> simp [prepend, restored]

@[simp] theorem indices_prepend (A : Str) (r : Reading) : (r.prepend A).indices = r.indices := by
  cases r <;> rfl

end Reading

section Cuts

variable {spans : List ProtectedSpan} {cuts : List Str} {S : Str}

theorem HiddenIn.of_cuts {plain Z : Str} {cuts' : List Str} (hc : ∀ S ∈ cuts, S ∈ cuts')
    (h : HiddenIn spans cuts plain Z) : HiddenIn spans cuts' plain Z := by
  intro A B e
  obtain ⟨t, S, ht, hS, hl, hs⟩ := h A B e
  exact ⟨t, S, ht, hc S hS, hl, hs⟩

/-- A cut before the text does not matter. -/
theorem hiddenIn_cons {plain Z : Str} (hl : (plain ++ Z).length ≤ S.length) :
    HiddenIn spans (S :: cuts) plain Z ↔ HiddenIn spans cuts plain Z := by
  refine ⟨fun h A B e => ?_, HiddenIn.of_cuts fun _ => List.mem_cons_of_mem S⟩
  obtain ⟨t, S', ht, hS, htl, hs⟩ := h A B e
  rcases List.mem_cons.mp hS with rfl | hS
  · exfalso
    have := congrArg List.length ht
    subst e
    simp only [List.length_cons, List.length_append] at this hl
    have : protectedTokenPrefix.length = 23 := by decide
    omega
  · exact ⟨t, S', ht, hS, htl, hs⟩

theorem wholeTail_cons {i : Nat} {Z : Str} (hl : (tokenAt spans i ++ Z).length ≤ S.length) :
    WholeTail spans (S :: cuts) i Z ↔ WholeTail spans cuts i Z := by
  refine ⟨fun h u w e hw hi hS => h u w e hw hi (List.mem_cons_of_mem S hS), ?_⟩
  intro h u w e hw hi hS
  rcases List.mem_cons.mp hS with rfl | hS
  · have : (stub i).length = 0 := by
      rw [e] at hl
      simp only [List.length_append] at hl
      omega
    simp [stub] at this
  · exact h u w e hw hi hS

theorem Reading.accepted_cons {r : Reading} (hl : (r.text spans).length ≤ S.length) :
    r.Accepted spans (S :: cuts) ↔ r.Accepted spans cuts := by
  induction r with
  | last plain =>
    simp only [Accepted, PrefixHidden, TailsWhole, and_true]
    exact hiddenIn_cons (by rw [List.append_nil]; exact hl)
  | part plain i rest ih =>
    have h1 : (tokenAt spans i ++ rest.text spans).length ≤ S.length := by
      simp only [text, List.length_append] at hl ⊢
      omega
    have h2 : (rest.text spans).length ≤ S.length := by
      simp only [List.length_append] at h1
      omega
    have ih := ih h2
    simp only [Accepted, PrefixHidden, TailsWhole] at ih ⊢
    rw [hiddenIn_cons hl, wholeTail_cons h1]
    constructor
    · rintro ⟨⟨h, hp⟩, hw, ht⟩
      exact ⟨⟨h, (ih.mp ⟨hp, ht⟩).1⟩, hw, (ih.mp ⟨hp, ht⟩).2⟩
    · rintro ⟨⟨h, hp⟩, hw, ht⟩
      exact ⟨⟨h, (ih.mpr ⟨hp, ht⟩).1⟩, hw, (ih.mpr ⟨hp, ht⟩).2⟩

end Cuts

/-! ## Tokens of marked spans -/

section Tokens

variable {spans : List ProtectedSpan}

theorem tokenAt_eq {i : Nat} {span : ProtectedSpan} (h : spans[i]? = some span) :
    tokenAt spans i = span.token := by
  simp [tokenAt, h]

theorem Marked.stemmed (hm : Marked spans) {i : Nat} (hi : i < spans.length) :
    Stemmed (tokenAt spans i) := by
  obtain ⟨e, he⟩ := hm i hi
  rw [he]
  exact stemmed_marker i e

theorem Marked.stub_starts (hm : Marked spans) {i : Nat} (hi : i < spans.length) :
    stub i <+: tokenAt spans i := by
  obtain ⟨e, he⟩ := hm i hi
  rw [he]
  exact stub_starts_marker i e

theorem Marked.prefix_starts (hm : Marked spans) {i : Nat} (hi : i < spans.length) :
    protectedTokenPrefix <+: tokenAt spans i :=
  (prefix_starts_stub i).trans (hm.stub_starts hi)

theorem Marked.length_lt (hm : Marked spans) {i : Nat} (hi : i < spans.length) :
    23 < (tokenAt spans i).length := by
  have h := (hm.stub_starts hi).length_le
  have hd : Nat.toDigits 10 i ≠ [] := Nat.toDigits_ne_nil
  have := List.length_pos_iff.mpr hd
  simp only [stub, List.length_append, tokenPrefix_length, List.length_singleton] at h
  omega

theorem Marked.inj (hm : Marked spans) {i j : Nat} (hi : i < spans.length) (hj : j < spans.length)
    {T : Str} (h1 : tokenAt spans i <+: T) (h2 : tokenAt spans j <+: T) : i = j :=
  stub_inj ((hm.stub_starts hi).trans h1) ((hm.stub_starts hj).trans h2)

/-- A prefix inside the start of a token is at its start, and a digit follows. -/
theorem Marked.prefix_at (hm : Marked spans) {t A B : Str} (ht : StartsToken spans t)
    (e : t = A ++ protectedTokenPrefix ++ B) : A = [] ∧ B.head? ≠ some '_' := by
  obtain ⟨i, hi, ht⟩ := ht
  have hA : A = [] := by
    refine ((hm.stemmed hi).starts ht ?_).unique (y := protectedTokenPrefix ++ B) (by simp [e]) ?_
    · rw [e]
      simp only [List.length_append, tokenPrefix_length]
      omega
    · exact stemmed_tokenPrefix.stem.trans (List.prefix_append ..)
  refine ⟨hA, fun hB => ?_⟩
  subst hA
  cases B with
  | nil => cases hB
  | cons c B =>
    simp only [List.head?_cons, Option.some.injEq] at hB
    subst hB
    obtain ⟨c, d, hs, hc⟩ := stub_eq i
    have hp : protectedTokenPrefix ++ '_' :: B <+: tokenAt spans i := by
      simpa [e] using ht
    obtain ⟨Z, hZ⟩ := hp
    obtain ⟨Z', hZ'⟩ := hm.stub_starts hi
    rw [← hZ', hs, List.append_assoc, List.append_assoc] at hZ
    have h := List.append_cancel_left hZ
    simp only [List.cons_append, List.cons.injEq] at h
    exact hc h.1.symm

/-- Two tokens overlap in at most two underscores. -/
theorem Marked.overlap (hm : Marked spans) {i j : Nat} (hi : i < spans.length)
    (hj : j < spans.length) {a b : Str} (e : tokenAt spans i = a ++ b) (ha : a ≠ [])
    (hb : b <+: tokenAt spans j) : b = [] ∨ b = ['_'] ∨ b = ['_', '_'] :=
  (hm.stemmed hi).overlap (hm.stemmed hj) e ha hb

theorem Marked.head_two (hm : Marked spans) {i : Nat} (hi : i < spans.length) :
    ∃ d, tokenAt spans i = '_' :: '_' :: d := by
  obtain ⟨rest, h, -⟩ := hm.stemmed hi
  exact ⟨_, h⟩

end Tokens

/-! ## A reading has its markers where the text has them -/

section Unique

variable {spans : List ProtectedSpan} {cuts cuts' : List Str}

theorem HiddenIn.next (hm : Marked spans) {plain Z A B : Str} (h : HiddenIn spans cuts plain Z)
    (e : plain = A ++ protectedTokenPrefix ++ B) : (B ++ Z).head? = some '_' := by
  obtain ⟨t, S, ht, -, hl, i, hi, hs⟩ := h A B e
  obtain ⟨d, hd⟩ := hm.head_two hi
  rw [hd] at hs
  match t, hl with
  | a :: b :: t, _ =>
    simp only [List.cons_prefix_cons] at hs
    obtain ⟨rfl, rfl, -⟩ := hs
    simp only [List.cons_append, List.cons.injEq, true_and] at ht
    rw [ht, List.head?_cons]

/-- A plain piece does not reach over the prefix of a marker. -/
theorem HiddenIn.lt_stub (hm : Marked spans) {i : Nat} {plain Z A B : Str}
    (h : HiddenIn spans cuts plain Z) (e : plain ++ Z = A ++ (stub i ++ B)) :
    plain.length < A.length + 23 := by
  by_contra hn
  obtain ⟨c, d, hd, hc⟩ := stub_eq i
  rw [hd, List.append_assoc, ← List.append_assoc] at e
  rcases overlap e with ⟨m, h1, -⟩ | ⟨m, -, h1, h2⟩
  · have hl := congrArg List.length h1
    simp only [List.length_append, tokenPrefix_length] at hl
    obtain rfl : m = [] := List.length_eq_zero_iff.mp (by omega)
    rw [List.append_nil] at h1
    subst h1
    have hx := h.next hm (B := []) (by rw [List.append_nil])
    rw [List.append_cancel_left e, List.nil_append, List.cons_append, List.head?_cons,
      Option.some.injEq] at hx
    exact hc hx
  · have hx := h.next hm h1
    rw [← h2, List.cons_append, List.head?_cons, Option.some.injEq] at hx
    exact hc hx

/-- A plain piece before a marker ends at the latest where the first marker begins. -/
theorem HiddenIn.le_stub (hm : Marked spans) {i j : Nat} (hj : j < spans.length)
    {plain Z A B : Str} (h : HiddenIn spans cuts plain (tokenAt spans j ++ Z))
    (e : plain ++ (tokenAt spans j ++ Z) = A ++ (stub i ++ B)) : plain.length ≤ A.length := by
  have hl := h.lt_stub hm e
  rcases overlap e with ⟨m, h1, -⟩ | ⟨m, hm0, h1, h2⟩
  · rw [h1, List.length_append]
    omega
  · exfalso
    obtain ⟨c, d, hd, hc⟩ := stub_eq i
    rw [hd, List.append_assoc] at h2
    rw [h1, List.length_append] at hl
    rcases overlap h2 with ⟨b, h3, h4⟩ | ⟨b, hb0, h3, h4⟩
    · have := congrArg List.length h3
      simp only [List.length_append, tokenPrefix_length] at this
      omega
    · -- the prefix of the marker runs into the token by one underscore
      have hb : b <+: tokenAt spans j := by
        refine prefix_of_le (t := tokenAt spans j ++ Z) ⟨_, h4.symm⟩ (List.prefix_append ..) ?_
        have := congrArg List.length h3
        have := hm.length_lt hj
        simp only [List.length_append, tokenPrefix_length] at *
        omega
      have hb1 := prefix_overlap (hm.stemmed hj) h3 hm0 hb0 hb
      obtain ⟨r, hr⟩ := hm.head_two hj
      rw [hb1, hr] at h4
      simp only [List.cons_append, List.nil_append, List.cons.injEq, true_and] at h4
      exact hc h4.1.symm

theorem HiddenIn.no_stub (hm : Marked spans) {i : Nat} {plain A B : Str}
    (h : HiddenIn spans cuts plain []) : plain ≠ A ++ (stub i ++ B) := by
  intro e
  have hl := h.lt_stub hm (by rw [List.append_nil]; exact e)
  have := (prefix_starts_stub i).length_le
  rw [tokenPrefix_length] at this
  rw [e] at hl
  simp only [List.length_append] at hl
  omega

theorem Marked.stub_append (hm : Marked spans) {i : Nat} (hi : i < spans.length) (B : Str) :
    ∃ B', tokenAt spans i ++ B = stub i ++ B' := by
  obtain ⟨w, hw⟩ := hm.stub_starts hi
  exact ⟨w ++ B, by rw [← hw, List.append_assoc]⟩

theorem HiddenIn.le_marker (hm : Marked spans) {i j : Nat} (hi : i < spans.length)
    (hj : j < spans.length) {plain Z A B : Str} (h : HiddenIn spans cuts plain (tokenAt spans j ++ Z))
    (e : plain ++ (tokenAt spans j ++ Z) = A ++ (tokenAt spans i ++ B)) :
    plain.length ≤ A.length := by
  obtain ⟨B', hB⟩ := hm.stub_append hi B
  exact h.le_stub hm hj (hB ▸ e)

theorem HiddenIn.no_last (hm : Marked spans) {i : Nat} (hi : i < spans.length)
    {plain A B : Str} (h : HiddenIn spans cuts plain []) :
    plain ≠ A ++ (tokenAt spans i ++ B) := by
  obtain ⟨B', hB⟩ := hm.stub_append hi B
  rw [hB]
  exact h.no_stub hm

/-- Whatever the cuts, a text has one reading. -/
theorem Reading.unique (hm : Marked spans) {r r' : Reading} (h : r.PrefixHidden spans cuts)
    (h' : r'.PrefixHidden spans cuts') (hr : ∀ i ∈ r.indices, i < spans.length)
    (hr' : ∀ i ∈ r'.indices, i < spans.length) (e : r.text spans = r'.text spans) : r = r' := by
  induction r generalizing r' with
  | last plain =>
    cases r' with
    | last plain' => exact congrArg Reading.last e
    | part plain' j rest' => exact absurd e (h.no_last hm (hr' j (by simp [indices])))
  | part plain i rest ih =>
    have hi : i < spans.length := hr i (by simp [indices])
    cases r' with
    | last plain' => exact absurd e.symm (h'.no_last hm hi)
    | part plain' j rest' =>
      have hj : j < spans.length := hr' j (by simp [indices])
      have h1 := h.1.le_marker hm hj hi e
      have h2 := h'.1.le_marker hm hi hj e.symm
      obtain ⟨rfl, et⟩ := append_length_inj e (by omega)
      have hij : i = j := hm.inj hi hj ⟨_, et⟩ (List.prefix_append ..)
      subst hij
      rw [ih h.2 h'.2 (fun k hk => hr k (by simp [indices, hk]))
        (fun k hk => hr' k (by simp [indices, hk])) (List.append_cancel_left et)]

end Unique

end LinguaMesh
