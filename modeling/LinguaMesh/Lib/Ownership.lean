import Mathlib.Data.Option.Basic
import Mathlib.Logic.Function.Basic

/-!
# Owners

Objects that own resources, as `std::unique_ptr` does: an object holds one resource or none (`hold`).
`Custody`: the resources that are live are those that some object holds, and no two objects hold the same
one. Then none leaks, and none is given back twice. Taking a new one, giving one back, moving one and
losing all of a kind keep it so.
-/

namespace LinguaMesh.Ownership

variable {O R : Type}

structure Custody (hold : O → Option R) (live : R → Prop) : Prop where
  unique : ∀ {o o' r}, hold o = some r → hold o' = some r → o = o'
  exact : ∀ r, live r ↔ ∃ o, hold o = some r

variable {hold : O → Option R} {live : R → Prop} {o o' : O} {r : R}

theorem Custody.held (h : Custody hold live) (ho : hold o = some r) : live r := (h.exact r).mpr ⟨o, ho⟩

/-- When no object holds a resource, none is live. -/
theorem Custody.none_live (h : Custody hold live) (hnone : ∀ o, hold o = none) : ¬ live r := by
  intro hr
  obtain ⟨o, ho⟩ := (h.exact r).mp hr
  rw [hnone o] at ho
  cases ho

theorem Custody.congr {hold' : O → Option R} {live' : R → Prop} (h : Custody hold live)
    (hhold : ∀ o, hold' o = hold o) (hlive : ∀ r, live' r ↔ live r) : Custody hold' live' := by
  refine ⟨fun {o o' r} ho ho' => ?_, fun r => (hlive r).trans ((h.exact r).trans ?_)⟩
  · rw [hhold] at ho ho'
    exact h.unique ho ho'
  · exact exists_congr fun o => by rw [hhold]

/-- An object that holds nothing takes a resource that is not live. -/
theorem Custody.acquire [DecidableEq O] (h : Custody hold live) (ho : hold o = none) (hr : ¬ live r) :
    Custody (Function.update hold o (some r)) fun x => live x ∨ x = r := by
  have hother {o' : O} {x : R} (hne : o' ≠ o) :
      Function.update hold o (some r) o' = some x ↔ hold o' = some x := by
    rw [Function.update_of_ne hne]
  have hnew {o' : O} (ho' : hold o' = some r) : False := hr (h.held ho')
  refine ⟨fun {a b x} ha hb => ?_, fun x => ?_⟩
  · by_cases hao : a = o <;> by_cases hbo : b = o
    · rw [hao, hbo]
    · rw [hao, Function.update_self] at ha
      rw [hother hbo, ← ha] at hb
      exact absurd hb hnew
    · rw [hbo, Function.update_self] at hb
      rw [hother hao, ← hb] at ha
      exact absurd ha hnew
    · rw [hother hao] at ha
      rw [hother hbo] at hb
      exact h.unique ha hb
  · rw [h.exact x]
    constructor
    · rintro (⟨a, ha⟩ | rfl)
      · refine ⟨a, (hother fun hao => ?_).mpr ha⟩
        rw [hao, ho] at ha
        cases ha
      · exact ⟨o, Function.update_self ..⟩
    · rintro ⟨a, ha⟩
      by_cases hao : a = o
      · rw [hao, Function.update_self] at ha
        exact .inr (Option.some.inj ha).symm
      · exact .inl ⟨a, (hother hao).mp ha⟩

/-- An object gives its resource back. -/
theorem Custody.release [DecidableEq O] (h : Custody hold live) (ho : hold o = some r) :
    Custody (Function.update hold o none) fun x => live x ∧ x ≠ r := by
  have hsome {a : O} {x : R} (ha : Function.update hold o none a = some x) : a ≠ o ∧ hold a = some x := by
    by_cases hao : a = o
    · rw [hao, Function.update_self] at ha
      cases ha
    · rw [Function.update_of_ne hao] at ha
      exact ⟨hao, ha⟩
  refine ⟨fun {a b x} ha hb => h.unique (hsome ha).2 (hsome hb).2, fun x => ?_⟩
  rw [h.exact x]
  constructor
  · rintro ⟨⟨a, ha⟩, hne⟩
    refine ⟨a, ?_⟩
    rw [Function.update_of_ne, ha]
    rintro rfl
    exact hne (Option.some.inj (ha.symm.trans ho))
  · rintro ⟨a, ha⟩
    obtain ⟨hao, ha⟩ := hsome ha
    refine ⟨⟨a, ha⟩, ?_⟩
    rintro rfl
    exact hao (h.unique ha ho)

/-- An object that holds nothing takes what another one holds. -/
theorem Custody.transfer [DecidableEq O] (h : Custody hold live) (hne : o ≠ o') (ho' : hold o' = none) :
    Custody (Function.update (Function.update hold o none) o' (hold o)) live := by
  cases ho : hold o with
  | none =>
    refine h.congr (fun a => ?_) fun r => Iff.rfl
    by_cases ha : a = o'
    · rw [ha, Function.update_self, ho']
    · rw [Function.update_of_ne ha]
      by_cases hao : a = o
      · rw [hao, Function.update_self, ho]
      · rw [Function.update_of_ne hao]
  | some r =>
    have hfree : Function.update hold o none o' = none := by rw [Function.update_of_ne hne.symm, ho']
    have hmoved := (h.release ho).acquire hfree fun hr => hr.2 rfl
    refine ⟨hmoved.unique, fun x => (?_ : live x ↔ _).trans (hmoved.exact x)⟩
    by_cases hx : x = r
    · rw [hx]
      exact ⟨fun _ => .inr rfl, fun _ => h.held ho⟩
    · exact ⟨fun hlive => .inl ⟨hlive, hx⟩, fun hlive => (hlive.resolve_right hx).1⟩

/-- All the resources of a kind are gone, and what was held of it is held no more. -/
theorem Custody.lose (h : Custody hold live) (p : R → Bool) :
    Custody (fun o => (hold o).filter fun r => !p r) fun r => live r ∧ p r = false := by
  refine ⟨fun {a b x} ha hb => ?_, fun x => ?_⟩
  · exact h.unique (Option.filter_eq_some_iff.mp ha).1 (Option.filter_eq_some_iff.mp hb).1
  · rw [h.exact x]
    constructor
    · rintro ⟨⟨a, ha⟩, hp⟩
      exact ⟨a, Option.filter_eq_some_iff.mpr ⟨ha, by rw [hp]; rfl⟩⟩
    · rintro ⟨a, ha⟩
      obtain ⟨ha, hp⟩ := Option.filter_eq_some_iff.mp ha
      exact ⟨⟨a, ha⟩, by simpa using hp⟩

end LinguaMesh.Ownership
