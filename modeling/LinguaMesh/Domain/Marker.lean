import LinguaMesh.Domain.Protect

/-!
# The shape of a marker

A marker is the common prefix `__LINGUAMESH_PROTECTED_`, the decimal index and
at least two underscores. Its letter `L` stands at position two and nowhere
else, so two markers, or a marker and the prefix, can overlap in at most two
underscores (`Stemmed.overlap`), and a marker read from its start gives its
index (`stub_inj`).
-/

namespace LinguaMesh

open Search

def marker (index extra : Nat) : Str :=
  protectedTokenPrefix ++ Nat.toDigits 10 index ++ List.replicate (extra + 2) '_'

/-- A marker up to its first closing underscore. -/
def stub (index : Nat) : Str := protectedTokenPrefix ++ Nat.toDigits 10 index ++ ['_']

/-- The text begins with `__L` and has no other `L`. -/
def Stemmed (x : Str) : Prop := ∃ rest, x = '_' :: '_' :: 'L' :: rest ∧ 'L' ∉ rest

theorem prefix_eq : protectedTokenPrefix =
    '_' :: '_' :: 'L' :: "INGUAMESH_PROTECTED_".toList := by decide

theorem tokenPrefix_length : protectedTokenPrefix.length = 23 := by decide

theorem ell_notMem_digits (i : Nat) : 'L' ∉ Nat.toDigits 10 i := by
  intro h
  have := Nat.isDigit_of_mem_toDigits (by decide) (by decide) h
  exact absurd this (by decide)

theorem underscore_notMem_digits (i : Nat) : '_' ∉ Nat.toDigits 10 i :=
  Nat.underscore_not_in_toDigits

theorem ell_notMem_underscores (n : Nat) : 'L' ∉ List.replicate n '_' := by
  intro h
  exact absurd (List.eq_of_mem_replicate h) (by decide)

theorem stemmed_tokenPrefix : Stemmed protectedTokenPrefix :=
  ⟨"INGUAMESH_PROTECTED_".toList, prefix_eq, by decide⟩

theorem stemmed_marker (i e : Nat) : Stemmed (marker i e) := by
  refine ⟨"INGUAMESH_PROTECTED_".toList ++ Nat.toDigits 10 i ++ List.replicate (e + 2) '_', ?_, ?_⟩
  · rw [marker, prefix_eq]; simp
  · simp only [List.mem_append, not_or]
    exact ⟨⟨by decide, ell_notMem_digits i⟩, ell_notMem_underscores _⟩

theorem Stemmed.starts {x t : Str} (hx : Stemmed x) (ht : t <+: x) (hl : 3 ≤ t.length) :
    Stemmed t := by
  obtain ⟨rest, rfl, hn⟩ := hx
  match t, ht, hl with
  | a :: b :: c :: t, ht, _ =>
    simp only [List.cons_prefix_cons] at ht
    obtain ⟨rfl, rfl, rfl, ht⟩ := ht
    exact ⟨t, rfl, fun h => hn (ht.subset h)⟩

theorem Stemmed.stem {x : Str} (hx : Stemmed x) : ['_', '_', 'L'] <+: x := by
  obtain ⟨rest, rfl, -⟩ := hx
  exact ⟨rest, rfl⟩

/-- The stem is at the start only. -/
theorem Stemmed.unique {x A y : Str} (hx : Stemmed x) (e : x = A ++ y)
    (hy : ['_', '_', 'L'] <+: y) : A = [] := by
  obtain ⟨rest, rfl, hn⟩ := hx
  obtain ⟨rest', rfl⟩ := hy
  match A, e with
  | [], _ => rfl
  | [a], e => simp at e
  | [a, b], e => simp at e
  | a :: b :: c :: A, e =>
    simp only [List.cons_append, List.cons.injEq] at e
    exact absurd (e.2.2.2 ▸ by simp) hn

/-- What ends one stemmed text and begins another is at most two underscores. -/
theorem Stemmed.overlap {x y a b : Str} (hx : Stemmed x) (hy : Stemmed y) (e : x = a ++ b)
    (ha : a ≠ []) (hb : b <+: y) : b = [] ∨ b = ['_'] ∨ b = ['_', '_'] := by
  by_cases hl : 3 ≤ b.length
  · exact absurd (hx.unique e (hy.starts hb hl).stem) ha
  · obtain ⟨rest, rfl, -⟩ := hy
    match b, hb, hl with
    | [], _, _ => exact .inl rfl
    | [c], hb, _ =>
      simp only [List.cons_prefix_cons] at hb
      obtain ⟨rfl, -⟩ := hb
      exact .inr (.inl rfl)
    | [c, d], hb, _ =>
      simp only [List.cons_prefix_cons] at hb
      obtain ⟨rfl, rfl, -⟩ := hb
      exact .inr (.inr rfl)
    | _ :: _ :: _ :: _, _, hl => simp at hl

/-- The prefix runs into a following stemmed text by its last underscore only. -/
theorem prefix_overlap {y a b : Str} (hy : Stemmed y) (e : protectedTokenPrefix = a ++ b)
    (ha : a ≠ []) (hb0 : b ≠ []) (hb : b <+: y) : b = ['_'] := by
  rcases stemmed_tokenPrefix.overlap hy e ha hb with h | h | h
  · exact absurd h hb0
  · exact h
  · subst h
    have hl := congrArg List.length e
    have : a = protectedTokenPrefix.take 21 := by
      rw [e, List.take_append_of_le_length, List.take_of_length_le]
      · rw [tokenPrefix_length] at hl; simp at hl; omega
      · rw [tokenPrefix_length] at hl; simp at hl; omega
    subst this
    exact absurd e (by decide)

theorem marker_eq_stub (i e : Nat) : marker i e = stub i ++ List.replicate (e + 1) '_' := by
  simp [marker, stub, List.replicate_succ]

theorem stub_starts_marker (i e : Nat) : stub i <+: marker i e :=
  ⟨_, (marker_eq_stub i e).symm⟩

theorem prefix_starts_stub (i : Nat) : protectedTokenPrefix <+: stub i :=
  ⟨_, by rw [stub, List.append_assoc]⟩

/-- After the prefix a stub has a digit. -/
theorem stub_eq (i : Nat) : ∃ c d, stub i = protectedTokenPrefix ++ c :: d ∧ c ≠ '_' := by
  cases hd : Nat.toDigits 10 i with
  | nil => exact absurd hd Nat.toDigits_ne_nil
  | cons c d =>
    refine ⟨c, d ++ ['_'], by simp [stub, hd], ?_⟩
    rintro rfl
    exact underscore_notMem_digits i (by simp [hd])

/-- Digits up to the first underscore. -/
theorem digits_cut (i : Nat) (Z : Str) :
    (Nat.toDigits 10 i ++ '_' :: Z).takeWhile (· ≠ '_') = Nat.toDigits 10 i := by
  rw [List.takeWhile_append_of_pos]
  · simp
  · intro c hc
    simp only [ne_eq, decide_not, Bool.not_eq_true', decide_eq_false_iff_not]
    rintro rfl
    exact underscore_notMem_digits i hc

theorem stub_inj {i j : Nat} {T : Str} (hi : stub i <+: T) (hj : stub j <+: T) : i = j := by
  obtain ⟨A, rfl⟩ := hi
  obtain ⟨B, hB⟩ := hj
  simp only [stub, List.append_assoc, List.singleton_append] at hB
  have h := congrArg (List.takeWhile (· ≠ '_')) (List.append_cancel_left hB)
  rw [digits_cut, digits_cut] at h
  have := congrArg (fun l => Nat.ofDigitChars 10 l 0) h
  simpa [Nat.ofDigitChars_ten_toDigits] using this.symm

/-- A start of a marker longer than the prefix that ends with an underscore has all the digits. -/
theorem stub_starts {i e : Nat} {t : Str} (ht : t <+: marker i e)
    (hl : protectedTokenPrefix.length < t.length) (hu : t.getLast? = some '_') : stub i <+: t := by
  refine prefix_of_le (stub_starts_marker i e) ht ?_
  by_contra hs
  have h1 : t <+: protectedTokenPrefix ++ Nat.toDigits 10 i := by
    refine prefix_of_le ht ⟨List.replicate (e + 2) '_', by rw [marker]⟩ ?_
    simp only [stub, List.length_append, List.length_singleton] at hs ⊢
    omega
  obtain ⟨d, rfl⟩ := prefix_of_le (prefix_starts_stub i)
    (h1.trans ⟨['_'], rfl⟩) (Nat.le_of_lt hl)
  have hd := (List.prefix_append_right_inj _).mp h1
  have hd0 : d ≠ [] := by
    rintro rfl
    simp at hl
  rw [List.getLast?_append_of_ne_nil _ hd0] at hu
  exact underscore_notMem_digits i (hd.subset (List.mem_of_getLast? hu))

/-! ## Tokens of a protected source -/

theorem extendToken_eq (source : Str) (fuel : Nat) (token : Str) :
    ∃ e, extendToken source fuel token = token ++ List.replicate e '_' := by
  induction fuel generalizing token with
  | zero => exact ⟨0, by simp [extendToken]⟩
  | succ fuel ih =>
    rw [extendToken]
    split
    · obtain ⟨e, he⟩ := ih (token ++ ['_'])
      exact ⟨e + 1, by rw [he]; simp [List.replicate_succ]⟩
    · exact ⟨0, by simp⟩

theorem extendToken_fresh {source : Str} {fuel : Nat} {token : Str}
    (h : source.length < token.length + fuel) :
    contains source (extendToken source fuel token) = false := by
  induction fuel generalizing token with
  | zero =>
    rw [extendToken, contains_eq_false]
    rintro A B rfl
    simp only [List.length_append] at h
    omega
  | succ fuel ih =>
    rw [extendToken]
    split
    · exact ih (by simp only [List.length_append, List.length_singleton]; omega)
    · rename_i hc
      simpa using hc

theorem tokenFor_marker (source : Str) (index : Nat) :
    ∃ e, tokenFor source index = marker index e := by
  obtain ⟨e, he⟩ := extendToken_eq source (source.length + 1)
    (protectedTokenPrefix ++ Nat.toDigits 10 index ++ protectedTokenSuffix)
  refine ⟨e, ?_⟩
  rw [tokenFor, he, marker, Nat.add_comm e 2, List.replicate_add]
  simp only [List.append_assoc]
  rfl

theorem tokenFor_fresh (source : Str) (index : Nat) :
    contains source (tokenFor source index) = false :=
  extendToken_fresh (by omega)

end LinguaMesh
