import Mathlib.Data.List.Permutation

/-!
# Linearizability

A history lists the beginnings and the returns of concurrent calls. It is
linearizable when its returned calls, put into some order that keeps the order of
calls that do not overlap, are a run of the sequential specification with the same
results. Where every call takes its effect in the step in which it returns, the
order of the returns will do (`linearizable_of_follow`).
-/

namespace LinguaMesh.Linearize

universe u v w

variable {C : Type u} {R : Type v} {σ : Type w}

inductive Event (C : Type u) (R : Type v) where
  | began (k : C)
  | returned (k : C) (r : R)

/-- The calls that have returned, in the order of their returns. -/
def returns (history : List (Event C R)) : List (C × R) :=
  history.filterMap fun
    | .began _ => none
    | .returned k r => some (k, r)

/-- `k` returned before `k'` began. -/
def Precedes (history : List (Event C R)) (k k' : C) : Prop :=
  ∃ before after, history = before ++ after ∧ (∃ r, .returned k r ∈ before) ∧ .began k' ∉ before

/-- `k` stands before `k'`, if that is there. -/
def Before (order : List (C × R)) (k k' : C) : Prop :=
  ∃ l₁ l₂, order = l₁ ++ l₂ ∧ k ∈ l₁.map Prod.fst ∧ k' ∉ l₁.map Prod.fst

/-- The calls one after the other, as the specification has them. -/
def follow (spec : σ → C → R → Option σ) (s : σ) : List (C × R) → Option σ
  | [] => some s
  | (k, r) :: order => (spec s k r).bind fun t => follow spec t order

def Linearizable (spec : σ → C → R → Option σ) (s : σ) (history : List (Event C R)) : Prop :=
  ∃ order, order.Perm (returns history) ∧ (follow spec s order).isSome ∧
    ∀ k k', Precedes history k k' → Before order k k'

/-- A call returns after it has begun. -/
def WellFormed (history : List (Event C R)) : Prop :=
  ∀ before after k r, history = before ++ .returned k r :: after → .began k ∈ before

variable {spec : σ → C → R → Option σ} {s t : σ} {history : List (Event C R)} {k k' : C} {r : R}

@[simp] theorem returns_append (h h' : List (Event C R)) : returns (h ++ h') = returns h ++ returns h' :=
  List.filterMap_append

@[simp] theorem returns_began : returns [(.began k : Event C R)] = [] := rfl

@[simp] theorem returns_returned : returns [.returned k r] = [(k, r)] := rfl

theorem mem_returns : (k, r) ∈ returns history ↔ .returned k r ∈ history := by
  unfold returns
  rw [List.mem_filterMap]
  constructor
  · rintro ⟨event, he, heq⟩
    cases event <;> cases heq
    exact he
  · exact fun h => ⟨_, h, rfl⟩

theorem follow_append (order order' : List (C × R)) :
    follow spec s (order ++ order') = (follow spec s order).bind fun t => follow spec t order' := by
  induction order generalizing s with
  | nil => rfl
  | cons kr order ih =>
    obtain ⟨k, r⟩ := kr
    show (spec s k r).bind _ = ((spec s k r).bind _).bind _
    rw [Option.bind_assoc]
    exact Option.bind_congr fun _ _ => ih

theorem WellFormed.nil : WellFormed ([] : List (Event C R)) := by
  intro before after k r h
  cases before <;> cases h

theorem WellFormed.began (h : WellFormed history) (k : C) : WellFormed (history ++ [.began k]) := by
  intro before after k' r heq
  rcases List.eq_nil_or_concat after with rfl | ⟨after, last, rfl⟩
  · have := List.append_inj_right' heq rfl
    cases this
  · rw [List.concat_eq_append, ← List.cons_append, ← List.append_assoc] at heq
    exact h before after k' r (List.append_inj_left' heq rfl)

theorem WellFormed.returned (h : WellFormed history) (hk : .began k ∈ history) (r : R) :
    WellFormed (history ++ [.returned k r]) := by
  intro before after k' r' heq
  rcases List.eq_nil_or_concat after with rfl | ⟨after, last, rfl⟩
  · have hlast := List.append_inj_right' heq rfl
    have hfirst := List.append_inj_left' heq rfl
    cases hlast
    exact hfirst ▸ hk
  · rw [List.concat_eq_append, ← List.cons_append, ← List.append_assoc] at heq
    exact h before after k' r' (List.append_inj_left' heq rfl)

/-- The calls take their effects in the order of their returns. -/
theorem linearizable_of_follow (hw : WellFormed history)
    (h : (follow spec s (returns history)).isSome) : Linearizable spec s history := by
  refine ⟨returns history, .refl _, h, fun k k' => ?_⟩
  rintro ⟨before, after, rfl, ⟨r, hr⟩, hk'⟩
  refine ⟨returns before, returns after, returns_append .., ?_, fun hmem => ?_⟩
  · exact List.mem_map_of_mem (f := Prod.fst) (mem_returns.mpr hr)
  · -- what has returned has begun
    obtain ⟨⟨k'', r'⟩, hret, rfl⟩ := List.mem_map.mp hmem
    obtain ⟨l, l', rfl⟩ := List.append_of_mem (mem_returns.mp hret)
    refine hk' (List.mem_append_left _ (hw l (l' ++ after) k'' r' ?_))
    rw [List.append_assoc]
    rfl

/-- No order of the calls that have returned is a run of the specification. -/
theorem not_linearizable
    (h : ∀ order ∈ (returns history).permutations', (follow spec s order).isSome = false) :
    ¬ Linearizable spec s history := by
  rintro ⟨order, hperm, hfollow, -⟩
  rw [h order (List.mem_permutations'.mpr hperm)] at hfollow
  cases hfollow

end LinguaMesh.Linearize
