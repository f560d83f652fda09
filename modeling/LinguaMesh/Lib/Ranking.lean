import Mathlib.Data.List.Sort

/-!
# Ranks in a sorted list

An element is among the first `n` of a sorted list if fewer than `n` others are
before it, and that can be counted in the list as it was before sorting. Sorting keeps the order of elements that tie
(`filter_insertionSort`).
-/

namespace LinguaMesh.Ranking

variable {α : Type*} [DecidableEq α] {r : α → α → Prop} [DecidableRel r] {l : List α} {x : α} {n : Nat}

/-- The elements that are before `x`. -/
def ahead (r : α → α → Prop) [DecidableRel r] (x : α) (l : List α) : List α :=
  l.filter fun y => r y x ∧ y ≠ x

theorem mem_take_sorted (hs : l.Pairwise r) (hl : l.Nodup)
    (hanti : ∀ a ∈ l, ∀ b ∈ l, r a b → r b a → a = b) (hx : x ∈ l) :
    x ∈ l.take n ↔ (ahead r x l).length < n := by
  obtain ⟨before, after, rfl⟩ := List.append_of_mem hx
  obtain ⟨hs₁, hs₂, hs₃⟩ := List.pairwise_append.mp hs
  obtain ⟨hl₁, hl₂, hl₃⟩ := List.nodup_append.mp hl
  have hbefore : ahead r x before = before := by
    refine List.filter_eq_self.mpr fun y hy => decide_eq_true ⟨?_, ?_⟩
    · exact hs₃ y hy x List.mem_cons_self
    · exact hl₃ y hy x List.mem_cons_self
  have hafter : ahead r x (x :: after) = [] := by
    refine List.filter_eq_nil_iff.mpr fun y hy => ?_
    simp only [decide_eq_true_eq, not_and, not_not]
    intro hyx
    rcases List.mem_cons.mp hy with rfl | hy'
    · rfl
    · exact hanti y (List.mem_append_right _ hy) x hx hyx ((List.pairwise_cons.mp hs₂).1 y hy')
  have hlength : (ahead r x (before ++ x :: after)).length = before.length := by
    have hsplit : ahead r x (before ++ x :: after) = ahead r x before ++ ahead r x (x :: after) :=
      List.filter_append ..
    rw [hsplit, hbefore, hafter, List.append_nil]
  have hfresh : x ∉ before := fun h => hl₃ x h x List.mem_cons_self rfl
  rw [hlength]
  constructor
  · intro h
    by_contra hn
    rw [List.take_append_of_le_length (by omega)] at h
    exact hfresh (List.mem_of_mem_take h)
  · intro h
    rw [List.take_append, List.mem_append]
    refine .inr ?_
    obtain ⟨k, hk⟩ : ∃ k, n - before.length = k + 1 := ⟨n - before.length - 1, by omega⟩
    rw [hk, List.take_succ_cons]
    exact List.mem_cons_self

theorem mem_take_insertionSort [Std.Total r] [IsTrans α r] (hl : l.Nodup)
    (hanti : ∀ a ∈ l, ∀ b ∈ l, r a b → r b a → a = b) (hx : x ∈ l) :
    x ∈ (l.insertionSort r).take n ↔ (ahead r x l).length < n := by
  have hperm := List.perm_insertionSort r l
  have hcount : (ahead r x (l.insertionSort r)).length = (ahead r x l).length :=
    (hperm.filter _).length_eq
  rw [← hcount]
  refine mem_take_sorted (List.pairwise_insertionSort r l) (hperm.nodup_iff.mpr hl) ?_
    (hperm.mem_iff.mpr hx)
  intro a ha b hb
  exact hanti a (hperm.mem_iff.mp ha) b (hperm.mem_iff.mp hb)

/-! ## Stability -/

omit [DecidableEq α] in
theorem filter_insertionSort [Std.Total r] [IsTrans α r] {p : α → Bool}
    (h : ∀ a b, p a = true → p b = true → r a b) (l : List α) :
    (l.insertionSort r).filter p = l.filter p := by
  have hpair : (l.filter p).Pairwise r :=
    List.pairwise_of_forall_mem_list fun a ha b hb =>
      h a b (List.mem_filter.mp ha).2 (List.mem_filter.mp hb).2
  have hsub := (List.sublist_insertionSort hpair List.filter_sublist).filter p
  simp only [List.filter_filter, Bool.and_self] at hsub
  exact (hsub.eq_of_length ((List.perm_insertionSort r l).filter p).length_eq.symm).symm

omit [DecidableEq α] in
theorem find?_insertionSort [Std.Total r] [IsTrans α r] {p : α → Bool}
    (h : ∀ a b, p a = true → p b = true → r a b) (l : List α) :
    (l.insertionSort r).find? p = l.find? p := by
  rw [← List.head?_filter, ← List.head?_filter, filter_insertionSort h]

end LinguaMesh.Ranking
