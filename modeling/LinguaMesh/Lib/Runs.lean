/-!
# Runs of a step function

A system is a function `step` that gives the next state of an action, or `none`
where the action is not enabled. `Reach step ok s t`: some run from `s` ends in
`t`, and each of its actions meets the condition `ok` in the state it is taken
in. The rule for a claim about every state of every such run is
`Reach.invariant`.
-/

namespace LinguaMesh.Runs

universe u v w

variable {σ : Type u} {α : Type v}

inductive Reach (step : σ → α → Option σ) (ok : σ → α → Prop) (s : σ) : σ → Prop
  | refl : Reach step ok s s
  | next {t t' : σ} {a : α} :
    Reach step ok s t → ok t a → step t a = some t' → Reach step ok s t'

variable {step : σ → α → Option σ} {ok : σ → α → Prop} {s t : σ}

theorem Reach.invariant {I : σ → Prop} (h : Reach step ok s t) (h0 : I s)
    (hstep : ∀ t a t', I t → ok t a → step t a = some t' → I t') : I t := by
  induction h with
  | refl => exact h0
  | next _ hok ht ih => exact hstep _ _ _ ih hok ht

/-- A system refines a design when each of its steps is one of the design, seen through `abs`, or is not
seen there. What the steps of the design keep holds in the system then; `I` is an invariant of its own. -/
theorem Reach.refines {τ : Type w} (abs : σ → τ) {R : τ → τ → Prop} {I : σ → Prop} {J : τ → Prop}
    (h : Reach step ok s t) (hI : I s) (hJ : J (abs s)) (hdesign : ∀ x y, J x → R x y → J y)
    (hstep : ∀ t a t', I t → ok t a → step t a = some t' → I t' ∧ (R (abs t) (abs t') ∨ abs t' = abs t)) :
    I t ∧ J (abs t) := by
  refine h.invariant (I := fun t => I t ∧ J (abs t)) ⟨hI, hJ⟩ fun t a t' ⟨hI, hJ⟩ hok ht => ?_
  obtain ⟨hI', hmoves | hsame⟩ := hstep t a t' hI hok ht
  · exact ⟨hI', hdesign _ _ hJ hmoves⟩
  · exact ⟨hI', hsame ▸ hJ⟩

/-- The actions of a run, one after the other. -/
def run (step : σ → α → Option σ) (s : σ) : List α → Option σ
  | [] => some s
  | a :: as => (step s a).bind fun t => run step t as

theorem Reach.trans {r : σ} (h : Reach step ok r s) (h' : Reach step ok s t) : Reach step ok r t := by
  induction h' with
  | refl => exact h
  | next _ hok ht ih => exact .next ih hok ht

/-- Whether each action of a run meets the condition. -/
def Meets (step : σ → α → Option σ) (ok : σ → α → Prop) (s : σ) : List α → Prop
  | [] => True
  | a :: as => ok s a ∧ ∀ t, step s a = some t → Meets step ok t as

/-- A condition that each of the actions meets wherever it is taken. -/
theorem meets_of_mem {as : List α} (h : ∀ a ∈ as, ∀ s, ok s a) : Meets step ok s as := by
  induction as generalizing s with
  | nil => trivial
  | cons a as ih =>
    obtain ⟨ha, has⟩ := List.forall_mem_cons.mp h
    exact ⟨ha s, fun _ _ => ih has⟩

/-- A condition that always holds. -/
theorem meets_of_forall (h : ∀ s a, ok s a) (as : List α) : Meets step ok s as := by
  induction as generalizing s with
  | nil => trivial
  | cons a as ih => exact ⟨h s a, fun _ _ => ih⟩

instance decidableMeets [∀ s a, Decidable (ok s a)] (s : σ) :
    (as : List α) → Decidable (Meets step ok s as)
  | [] => isTrue trivial
  | a :: as =>
    match h : step s a with
    | none => decidable_of_iff (ok s a) (by simp [Meets, h])
    | some t =>
      have := decidableMeets t as
      decidable_of_iff (ok s a ∧ Meets step ok t as) (by simp [Meets, h])

theorem Reach.of_run {as : List α} (h : run step s as = some t) (hm : Meets step ok s as) :
    Reach step ok s t := by
  induction as generalizing s with
  | nil =>
    cases h
    exact .refl
  | cons a as ih =>
    obtain ⟨s', hs', h⟩ := Option.bind_eq_some_iff.mp h
    exact (Reach.next .refl hm.1 hs').trans (ih h (hm.2 s' hs'))

end LinguaMesh.Runs
