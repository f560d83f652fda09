import LinguaMesh.Lib.Search

/-!
# Woven texts

A text that marks stand in is written as a list of its characters and labels.
`spell` writes each label out as its mark; `marks` are the labels in order. A
list of characters and labels can be cut anywhere; a text it spells can also be
cut inside a mark (`spell_cut`).
-/

namespace LinguaMesh.Weave

variable {α ι : Type*} (mark : ι → List α)

def spell (w : List (α ⊕ ι)) : List α := w.flatMap (Sum.elim (fun c => [c]) mark)

def marks (w : List (α ⊕ ι)) : List ι := w.filterMap Sum.getRight?

@[simp] theorem spell_nil : spell mark [] = [] := rfl

@[simp] theorem spell_append (v w : List (α ⊕ ι)) :
    spell mark (v ++ w) = spell mark v ++ spell mark w := List.flatMap_append

@[simp] theorem spell_inl (c : α) (w : List (α ⊕ ι)) :
    spell mark (.inl c :: w) = c :: spell mark w := rfl

@[simp] theorem spell_inr (i : ι) (w : List (α ⊕ ι)) :
    spell mark (.inr i :: w) = mark i ++ spell mark w := rfl

@[simp] theorem spell_plain (s : List α) : spell mark (s.map .inl) = s := by
  induction s with
  | nil => rfl
  | cons c s ih => rw [List.map_cons, spell_inl, ih]

@[simp] theorem marks_nil : marks ([] : List (α ⊕ ι)) = [] := rfl

@[simp] theorem marks_append (v w : List (α ⊕ ι)) : marks (v ++ w) = marks v ++ marks w :=
  List.filterMap_append

@[simp] theorem marks_inl (c : α) (w : List (α ⊕ ι)) : marks (.inl c :: w) = marks w := rfl

@[simp] theorem marks_inr (i : ι) (w : List (α ⊕ ι)) : marks (.inr i :: w) = i :: marks w := rfl

@[simp] theorem marks_plain (s : List α) : marks (s.map .inl : List (α ⊕ ι)) = [] := by
  induction s with
  | nil => rfl
  | cons c s ih => rw [List.map_cons, marks_inl, ih]

theorem marks_flatten (ws : List (List (α ⊕ ι))) : marks ws.flatten = ws.flatMap marks := by
  induction ws with
  | nil => rfl
  | cons w ws ih => rw [List.flatten_cons, marks_append, ih, List.flatMap_cons]

theorem spell_flatten (ws : List (List (α ⊕ ι))) :
    spell mark ws.flatten = ws.flatMap (spell mark) := by
  induction ws with
  | nil => rfl
  | cons w ws ih => rw [List.flatten_cons, spell_append, ih, List.flatMap_cons]

theorem mem_marks {i : ι} {w : List (α ⊕ ι)} : i ∈ marks w ↔ .inr i ∈ w := by
  simp only [marks, List.mem_filterMap, Sum.getRight?_eq_some_iff, exists_eq_right]

variable {mark}

/-- A cut of the spelled text is a cut of the list, or it falls inside a mark. -/
theorem spell_cut {w : List (α ⊕ ι)} {A B : List α} (h : spell mark w = A ++ B) :
    (∃ u v, w = u ++ v ∧ A = spell mark u ∧ B = spell mark v) ∨
    ∃ u i v a b, w = u ++ .inr i :: v ∧ mark i = a ++ b ∧ a ≠ [] ∧ b ≠ [] ∧
      A = spell mark u ++ a ∧ B = b ++ spell mark v := by
  induction w generalizing A with
  | nil =>
    obtain ⟨rfl, rfl⟩ := List.append_eq_nil_iff.mp h.symm
    exact .inl ⟨[], [], rfl, rfl, rfl⟩
  | cons x w ih =>
    by_cases hA : A = []
    · subst hA
      exact .inl ⟨[], x :: w, rfl, rfl, h.symm⟩
    cases x with
    | inl c =>
      obtain ⟨d, A, rfl⟩ := List.exists_cons_of_ne_nil hA
      rw [spell_inl, List.cons_append, List.cons.injEq] at h
      obtain ⟨rfl, h⟩ := h
      rcases ih h with ⟨u, v, rfl, rfl, rfl⟩ | ⟨u, i, v, a, b, rfl, hm, ha, hb, rfl, rfl⟩
      · exact .inl ⟨.inl c :: u, v, rfl, rfl, rfl⟩
      · exact .inr ⟨.inl c :: u, i, v, a, b, rfl, hm, ha, hb, rfl, rfl⟩
    | inr i =>
      rw [spell_inr] at h
      rcases Search.overlap h with ⟨m, rfl, hw⟩ | ⟨m, hm, hi, rfl⟩
      · rcases ih hw with ⟨u, v, rfl, rfl, rfl⟩ | ⟨u, j, v, a, b, rfl, hm, ha, hb, rfl, rfl⟩
        · exact .inl ⟨.inr i :: u, v, rfl, rfl, rfl⟩
        · exact .inr ⟨.inr i :: u, j, v, a, b, rfl, hm, ha, hb, by simp, rfl⟩
      · exact .inr ⟨[], i, w, A, m, rfl, hi, hA, hm, rfl, rfl⟩

/-- Up to its first mark a list is plain. -/
theorem plain_or_mark (w : List (α ⊕ ι)) :
    (∃ s : List α, w = s.map .inl) ∨ ∃ (s : List α) (i : ι) (v : List (α ⊕ ι)),
      w = s.map .inl ++ .inr i :: v := by
  induction w with
  | nil => exact .inl ⟨[], rfl⟩
  | cons x w ih =>
    cases x with
    | inr i => exact .inr ⟨[], i, w, rfl⟩
    | inl c =>
      rcases ih with ⟨s, rfl⟩ | ⟨s, i, v, rfl⟩
      · exact .inl ⟨c :: s, rfl⟩
      · exact .inr ⟨c :: s, i, v, rfl⟩

/-- Without repeated labels the list has a label at one place. -/
theorem split_unique {u u' v v' : List (α ⊕ ι)} {i : ι}
    (h : u ++ .inr i :: v = u' ++ .inr i :: v') (hn : (marks (u ++ .inr i :: v)).Nodup) :
    u = u' ∧ v = v' := by
  have hn' := hn
  rw [h] at hn'
  simp only [marks_append, marks_inr, List.nodup_append, List.nodup_cons, List.mem_cons] at hn hn'
  rcases Search.overlap h with ⟨m, rfl, hm⟩ | ⟨m, hm0, rfl, hm⟩
  · cases m with
    | nil => simpa using hm
    | cons x m =>
      rw [List.cons_append, List.cons.injEq] at hm
      obtain ⟨rfl, rfl⟩ := hm
      exact absurd rfl (hn'.2.2 i (by simp) i (.inl rfl))
  · cases m with
    | nil => exact absurd rfl hm0
    | cons x m =>
      rw [List.cons_append, List.cons.injEq] at hm
      obtain ⟨rfl, rfl⟩ := hm
      exact absurd rfl (hn.2.2 i (by simp) i (.inl rfl))

end LinguaMesh.Weave
