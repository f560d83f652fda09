import Mathlib.Data.List.Infix
import Mathlib.Data.List.DropRight
import Mathlib.Data.List.Sort

/-!
# Searching a list for a pattern

`find pat t` is the position of the first occurrence of `pat` in `t`. An
occurrence is written as a split `t = A ++ pat ++ B`, its position is the
length of `A`; so facts about occurrences are facts about appends.
`overlap` gives the ways two splits of one list can lie.
-/

namespace LinguaMesh.Search

variable {α : Type*}

/-- Two splits of one list: the left parts agree up to a middle piece. -/
theorem overlap {A B C D : List α} (h : A ++ B = C ++ D) :
    (∃ m, C = A ++ m ∧ B = m ++ D) ∨ (∃ m, m ≠ [] ∧ A = C ++ m ∧ D = m ++ B) := by
  rcases List.append_eq_append_iff.mp h with ⟨m, h1, h2⟩ | ⟨m, h1, h2⟩
  · exact .inl ⟨m, h1, h2⟩
  · by_cases hm : m = []
    · subst hm
      exact .inl ⟨[], by simpa using h1.symm, by simpa using h2.symm⟩
    · exact .inr ⟨m, hm, h1, h2⟩

theorem append_length_inj {A B C D : List α} (h : A ++ B = C ++ D) (hl : A.length = C.length) :
    A = C ∧ B = D := List.append_inj h hl

/-- Two lists that start one list: the shorter starts the longer. -/
theorem prefix_of_le {a b t : List α} (ha : a <+: t) (hb : b <+: t) (hl : a.length ≤ b.length) :
    a <+: b := List.prefix_of_prefix_length_le ha hb hl

theorem suffix_of_le {a b t : List α} (ha : a <:+ t) (hb : b <:+ t) (hl : a.length ≤ b.length) :
    a <:+ b := List.suffix_of_suffix_length_le ha hb hl

/-- A pattern whose first item is not in it again does not overlap itself. -/
theorem unlapped {x : α} {p m U V : List α} (hx : x ∉ p) (hm : m ≠ [])
    (h : x :: p ++ U = m ++ (x :: p ++ V)) : ∃ c, m = x :: p ++ c ∧ U = c ++ (x :: p ++ V) := by
  rcases overlap h with ⟨c, hc, hU⟩ | ⟨c, hc, hm', hV⟩
  · exact ⟨c, hc, hU⟩
  · obtain ⟨y, m, rfl⟩ := List.exists_cons_of_ne_nil hm
    obtain ⟨z, c, rfl⟩ := List.exists_cons_of_ne_nil hc
    obtain ⟨-, htail⟩ := List.cons.inj hm'
    obtain ⟨rfl, -⟩ := List.cons.inj hV
    exact absurd (htail ▸ List.mem_append_right _ List.mem_cons_self) hx

section Find

variable [DecidableEq α]

/-- The position of the first occurrence of `pat`. -/
def find (pat : List α) : List α → Option Nat
  | [] => if pat = [] then some 0 else none
  | c :: cs => if pat.isPrefixOf (c :: cs) then some 0 else (find pat cs).map (· + 1)

/-- Whether `pat` occurs. -/
def contains (t pat : List α) : Bool := (find pat t).isSome

theorem find_eq_none {pat t : List α} : find pat t = none ↔ ∀ A B, t ≠ A ++ pat ++ B := by
  induction t with
  | nil =>
    simp only [find]
    split
    · rename_i h
      subst h
      simp
    · rename_i h
      simp only [true_iff]
      intro A B e
      simp_all
  | cons c cs ih =>
    simp only [find]
    split
    · rename_i h
      obtain ⟨B, hB⟩ := List.isPrefixOf_iff_prefix.mp h
      simp only [reduceCtorEq, false_iff, not_forall, not_not]
      exact ⟨[], B, by simpa using hB.symm⟩
    · rename_i h
      simp only [Option.map_eq_none_iff, ih]
      constructor
      · intro hn A B e
        cases A with
        | nil => exact h (List.isPrefixOf_iff_prefix.mpr ⟨B, by simpa using e.symm⟩)
        | cons a A =>
          simp only [List.cons_append, List.cons.injEq] at e
          exact hn A B e.2
      · intro hn A B e
        exact hn (c :: A) B (by simp [e])

theorem find_eq_some {pat t : List α} {p : Nat} (h : find pat t = some p) :
    (∃ A B, t = A ++ pat ++ B ∧ A.length = p) ∧ ∀ A B, t = A ++ pat ++ B → p ≤ A.length := by
  induction t generalizing p with
  | nil =>
    simp only [find] at h
    split at h
    · rename_i hp
      cases h
      exact ⟨⟨[], [], by simp [hp], rfl⟩, fun _ _ _ => Nat.zero_le _⟩
    · cases h
  | cons c cs ih =>
    simp only [find] at h
    split at h
    · rename_i hp
      cases h
      obtain ⟨B, hB⟩ := List.isPrefixOf_iff_prefix.mp hp
      exact ⟨⟨[], B, by simpa using hB.symm, rfl⟩, fun _ _ _ => Nat.zero_le _⟩
    · rename_i hp
      simp only [Option.map_eq_some_iff] at h
      obtain ⟨q, hq, rfl⟩ := h
      obtain ⟨⟨A, B, e, hA⟩, hmin⟩ := ih hq
      refine ⟨⟨c :: A, B, by simp [e], by simp [hA]⟩, fun A' B' e' => ?_⟩
      cases A' with
      | nil => exact absurd (List.isPrefixOf_iff_prefix.mpr ⟨B', by simpa using e'.symm⟩) hp
      | cons a A' =>
        simp only [List.cons_append, List.cons.injEq] at e'
        have := hmin A' B' e'.2
        simp only [List.length_cons]
        omega

/-- The first occurrence is the one no other occurrence precedes. -/
theorem find_first {pat A B : List α} (h : ∀ A' B', A ++ pat ++ B = A' ++ pat ++ B' →
    A.length ≤ A'.length) : find pat (A ++ pat ++ B) = some A.length := by
  cases hf : find pat (A ++ pat ++ B) with
  | none => exact absurd rfl (find_eq_none.mp hf A B)
  | some p =>
    obtain ⟨⟨A', B', e, hp⟩, hmin⟩ := find_eq_some hf
    have h1 := h A' B' e
    have h2 := hmin A B rfl
    rw [show p = A.length by omega]

/-- A pattern is found behind a text without its first item. -/
theorem find_past {x : α} {p a : List α} (ha : x ∉ a) (b : List α) :
    find (x :: p) (a ++ (x :: p) ++ b) = some a.length := by
  refine find_first fun A B h => ?_
  rw [List.append_assoc, List.append_assoc] at h
  rcases overlap h with ⟨m, rfl, -⟩ | ⟨m, hm, rfl, hstart⟩
  · simp
  · obtain ⟨y, m, rfl⟩ := List.exists_cons_of_ne_nil hm
    obtain ⟨rfl, -⟩ := List.cons.inj hstart
    exact absurd (by simp) ha

theorem find_singleton {x : α} {t : List α} {n : Nat} :
    find [x] t = some n ↔ ∃ a b, t = a ++ x :: b ∧ x ∉ a ∧ a.length = n := by
  constructor
  · intro h
    obtain ⟨⟨a, b, rfl, rfl⟩, hmin⟩ := find_eq_some h
    refine ⟨a, b, by simp, fun hx => ?_, rfl⟩
    obtain ⟨u, v, rfl⟩ := List.append_of_mem hx
    have := hmin u (v ++ [x] ++ b) (by simp)
    simp only [List.length_append, List.length_cons] at this
    omega
  · rintro ⟨a, b, rfl, ha, rfl⟩
    simpa using find_past (p := []) ha b

theorem find_singleton_none {x : α} {t : List α} : find [x] t = none ↔ x ∉ t := by
  rw [find_eq_none]
  constructor
  · intro h hx
    obtain ⟨a, b, rfl⟩ := List.append_of_mem hx
    exact h a b (by simp)
  · rintro h a b rfl
    exact h (by simp)

theorem find_le_length {pat t : List α} {p : Nat} (h : find pat t = some p) :
    p + pat.length ≤ t.length := by
  obtain ⟨⟨A, B, rfl, rfl⟩, -⟩ := find_eq_some h
  simp only [List.length_append]
  omega

theorem contains_iff {t pat : List α} : contains t pat = true ↔ ∃ A B, t = A ++ pat ++ B := by
  unfold contains
  cases h : find pat t with
  | none => simpa using find_eq_none.mp h
  | some p =>
    obtain ⟨⟨A, B, e, -⟩, -⟩ := find_eq_some h
    simpa using ⟨A, B, by simpa using e⟩

theorem contains_eq_false {t pat : List α} :
    contains t pat = false ↔ ∀ A B, t ≠ A ++ pat ++ B := by
  rw [← Bool.not_eq_true, contains_iff]
  simp

theorem infix_contains {s t pat : List α} (hs : s <:+: t) (h : contains t pat = false) :
    contains s pat = false := by
  rw [contains_eq_false] at h ⊢
  rintro A B rfl
  obtain ⟨C, D, rfl⟩ := hs
  exact h (C ++ A) (B ++ D) (by simp)

/-- Dropping items that the pattern does not begin with keeps its occurrences. -/
theorem contains_dropWhile {p : α → Bool} {x : α} {pat s : List α} (hx : p x = false)
    (h : contains s (x :: pat) = true) : contains (s.dropWhile p) (x :: pat) = true := by
  induction s with
  | nil => exact h
  | cons c s ih =>
    rw [List.dropWhile_cons]
    split
    · rename_i hc
      refine ih ?_
      obtain ⟨A, B, hs⟩ := contains_iff.mp h
      cases A with
      | nil =>
        obtain ⟨rfl, -⟩ := List.cons.inj hs
        exact absurd hc (by simp [hx])
      | cons a A => exact contains_iff.mpr ⟨A, B, (List.cons.inj hs).2⟩
    · exact h

theorem contains_reverse {s pat : List α} : contains s.reverse pat.reverse = contains s pat := by
  rw [Bool.eq_iff_iff, contains_iff, contains_iff]
  constructor
  · rintro ⟨A, B, h⟩
    exact ⟨B.reverse, A.reverse, by simpa using congrArg List.reverse h⟩
  · rintro ⟨A, B, rfl⟩
    exact ⟨B.reverse, A.reverse, by simp⟩

theorem find_none_mono {s t pat : List α} (hs : s <:+: t) (h : find pat t = none) :
    find pat s = none := by
  have := infix_contains hs (Option.isSome_eq_false_iff.mpr (Option.isNone_iff_eq_none.mpr h))
  exact Option.isNone_iff_eq_none.mp (Option.isSome_eq_false_iff.mp this)

/-- The first occurrence is found as soon as it is there. -/
theorem find_take {pat t : List α} {p n : Nat} (h : find pat t = some p)
    (hn : p + pat.length ≤ n) : find pat (t.take n) = some p := by
  obtain ⟨⟨A, B, e, rfl⟩, hmin⟩ := find_eq_some h
  have ht : t.take n = A ++ pat ++ B.take (n - (A ++ pat).length) := by
    rw [e, List.take_append, List.take_of_length_le (by rw [List.length_append]; exact hn)]
  rw [ht]
  refine find_first fun A' B' e' => hmin A' (B' ++ t.drop n) ?_
  rw [← List.append_assoc, ← e', ← ht, List.take_append_drop]

/-- A pattern that occurs across a part without its items occurs on one side of the part. -/
theorem contains_beside {a mid b pat : List α} (hmid : mid ≠ []) (hpat : ∀ c ∈ mid, c ∉ pat)
    (h : contains (a ++ (mid ++ b)) pat = true) :
    contains a pat = true ∨ contains b pat = true := by
  obtain ⟨A, B, h⟩ := contains_iff.mp h
  rcases overlap h with ⟨m, hm, hrest⟩ | ⟨m, -, hm, -⟩
  · rcases overlap hm with ⟨k, rfl, hk⟩ | ⟨k, -, rfl, hk⟩
    · subst hk
      cases m with
      | nil => exact .inl (contains_iff.mpr ⟨A, [], by simp⟩)
      | cons x m =>
        obtain ⟨y, mid, rfl⟩ := List.exists_cons_of_ne_nil hmid
        obtain ⟨rfl, -⟩ := List.cons.inj hrest
        exact absurd (by simp) (hpat y List.mem_cons_self)
    · subst hk
      rw [List.append_assoc] at hrest
      rcases overlap hrest with ⟨j, rfl, hj⟩ | ⟨j, hj, rfl, hb⟩
      · exact .inr (contains_iff.mpr ⟨j, B, by rw [hj, List.append_assoc]⟩)
      · cases pat with
        | nil => exact .inl (contains_iff.mpr ⟨a, [], by simp⟩)
        | cons x pat =>
          obtain ⟨y, j, rfl⟩ := List.exists_cons_of_ne_nil hj
          obtain ⟨rfl, -⟩ := List.cons.inj hb
          exact absurd List.mem_cons_self (hpat x (by simp))
  · exact .inl (contains_iff.mpr ⟨A, m, hm⟩)

/-- The first occurrence of a pattern that does not overlap itself splits a text in one way. -/
theorem split_unique {x : α} {p A B A' B' : List α} (hx : x ∉ p)
    (h : A ++ (x :: p ++ B) = A' ++ (x :: p ++ B')) (hA : contains A (x :: p) = false)
    (hA' : contains A' (x :: p) = false) : A = A' ∧ B = B' := by
  have aux {A B A' B' : List α} (h : A ++ (x :: p ++ B) = A' ++ (x :: p ++ B'))
      (hA' : contains A' (x :: p) = false) {m : List α} (hm : A' = A ++ m) : m = [] := by
    by_contra hne
    rw [hm, List.append_assoc] at h
    obtain ⟨c, rfl, -⟩ := unlapped hx hne (List.append_cancel_left h)
    exact contains_eq_false.mp hA' A c (by rw [hm, List.append_assoc])
  rcases overlap h with ⟨m, hm, -⟩ | ⟨m, hne, hm, -⟩
  · obtain rfl := aux h hA' hm
    rw [List.append_nil] at hm
    subst hm
    exact ⟨rfl, List.append_cancel_left (List.append_cancel_left h)⟩
  · exact absurd (aux h.symm hA hm) hne

theorem find_eq_zero {pat t : List α} : find pat t = some 0 ↔ pat <+: t := by
  constructor
  · intro h
    obtain ⟨⟨A, B, rfl, hA⟩, -⟩ := find_eq_some h
    rw [List.eq_nil_of_length_eq_zero hA]
    exact ⟨B, rfl⟩
  · rintro ⟨B, rfl⟩
    exact find_first (A := []) fun _ _ _ => Nat.zero_le _

/-- What follows the first occurrence has no part in it. -/
theorem find_append {pat t : List α} {p : Nat} (h : find pat t = some p) (u : List α) :
    find pat (t ++ u) = some p := by
  obtain ⟨⟨A, B, rfl, rfl⟩, hmin⟩ := find_eq_some h
  rw [List.append_assoc]
  refine find_first fun A' B' e => ?_
  by_contra hlt
  have hle : (A' ++ pat).length ≤ (A ++ pat ++ B).length := by
    simp only [List.length_append]
    omega
  have e' : A ++ pat ++ B ++ u = A' ++ pat ++ B' := by
    rw [← e, List.append_assoc]
  obtain ⟨C, hC⟩ := prefix_of_le (t := A ++ pat ++ B ++ u) ⟨B', e'.symm⟩ ⟨u, rfl⟩ hle
  exact hlt (hmin A' C hC.symm)

end Find

end LinguaMesh.Search
