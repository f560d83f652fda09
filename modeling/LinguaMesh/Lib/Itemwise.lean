import Mathlib.Data.List.Chain
import Mathlib.Data.List.Forall2

/-!
# Lists that change item by item

`List.Forall₂ R l m` says that `m` is `l` with each item changed as `R` allows.
A change of one item is such a change (`forall₂_set`), changes compose
(`forall₂_trans`), and what `R` leaves alone is the same over the whole list.
-/

namespace LinguaMesh

variable {α β : Type} {R : α → α → Prop} {l m : List α}

theorem forall₂_trans {γ : Type} {R : α → β → Prop} {S : β → γ → Prop} {T : α → γ → Prop} {l : List α}
    {m : List β} {n : List γ} (hT : ∀ a b c, R a b → S b c → T a c) (h : List.Forall₂ R l m)
    (h' : List.Forall₂ S m n) : List.Forall₂ T l n := by
  induction h generalizing n with
  | nil =>
    cases h'
    exact .nil
  | cons hab _ ih =>
    cases h' with
    | cons hbc h' => exact .cons (hT _ _ _ hab hbc) (ih h')

theorem forall₂_set (hR : ∀ a, R a a) {i : Nat} {a b : α} (hi : l[i]? = some a) (hab : R a b) :
    List.Forall₂ R l (l.set i b) := by
  induction l generalizing i with
  | nil => cases hi
  | cons c l ih =>
    cases i with
    | zero =>
      cases hi
      exact .cons hab (List.forall₂_same.mpr fun x _ => hR x)
    | succ i => exact .cons (hR c) (ih hi)

theorem forall₂_mem (h : List.Forall₂ R l m) :
    List.Forall₂ (fun a b => a ∈ l ∧ b ∈ m ∧ R a b) l m := by
  induction h with
  | nil => exact .nil
  | cons hab _ ih =>
    refine .cons ⟨List.mem_cons_self, List.mem_cons_self, hab⟩ (ih.imp fun a b hr => ?_)
    exact ⟨List.mem_cons_of_mem _ hr.1, List.mem_cons_of_mem _ hr.2.1, hr.2.2⟩

/-- What the change made of an item. -/
theorem exists_of_forall₂ {R : α → β → Prop} {l : List α} {m : List β} (h : List.Forall₂ R l m) {b : β}
    (hb : b ∈ m) : ∃ a ∈ l, R a b := by
  induction h with
  | nil => exact absurd hb List.not_mem_nil
  | cons hab _ ih =>
    rcases List.mem_cons.mp hb with rfl | hb
    · exact ⟨_, List.mem_cons_self, hab⟩
    · exact (ih hb).imp fun _ ha => ⟨List.mem_cons_of_mem _ ha.1, ha.2⟩

/-- A list that is changed item by item is cut where the list is. -/
theorem forall₂_append_left {R : α → β → Prop} {l l' : List α} {m : List β}
    (h : List.Forall₂ R (l ++ l') m) :
    ∃ a b, m = a ++ b ∧ List.Forall₂ R l a ∧ List.Forall₂ R l' b := by
  induction l generalizing m with
  | nil => exact ⟨[], m, rfl, .nil, h⟩
  | cons x l ih =>
    cases h with
    | cons hx h =>
      obtain ⟨a, b, rfl, ha, hb⟩ := ih h
      exact ⟨_ :: a, b, rfl, .cons hx ha, hb⟩

/-- A chain, read by the places in the list. -/
theorem isChain_iff_getElem? : l.IsChain R ↔
    ∀ i a b, l[i]? = some a → l[i + 1]? = some b → R a b := by
  rw [List.isChain_iff_getElem]
  refine ⟨fun h i a b ha hb => ?_, fun h i hi => ?_⟩
  · obtain ⟨_, rfl⟩ := List.getElem?_eq_some_iff.mp ha
    obtain ⟨hi, rfl⟩ := List.getElem?_eq_some_iff.mp hb
    exact h i hi
  · exact h i _ _ (List.getElem?_eq_getElem (Nat.lt_of_succ_lt hi)) (List.getElem?_eq_getElem hi)

theorem map_eq_of_forall₂ {f g : α → β} (hf : ∀ a b, R a b → g b = f a) (h : List.Forall₂ R l m) :
    m.map g = l.map f := by
  induction h with
  | nil => rfl
  | cons hab _ ih => rw [List.map_cons, List.map_cons, hf _ _ hab, ih]

theorem length_flatMap_le {f g : α → List β} (hle : ∀ a ∈ l, (g a).length ≤ (f a).length) :
    (l.flatMap g).length ≤ (l.flatMap f).length := by
  induction l with
  | nil => exact Nat.le_refl _
  | cons a l ih =>
    rw [List.flatMap_cons, List.flatMap_cons, List.length_append, List.length_append]
    exact Nat.add_le_add (hle a List.mem_cons_self) (ih fun b hb => hle b (List.mem_cons_of_mem a hb))

/-- Where no item gets shorter, the whole stays the same only if each item does. -/
theorem flatMap_eq_iff {f g : α → List β} (hle : ∀ a ∈ l, (g a).length ≤ (f a).length) :
    l.flatMap f = l.flatMap g ↔ ∀ a ∈ l, f a = g a := by
  refine ⟨fun h => ?_, List.flatMap_congr⟩
  induction l with
  | nil => exact fun a ha => absurd ha List.not_mem_nil
  | cons a l ih =>
    have hle' : ∀ b ∈ l, (g b).length ≤ (f b).length := fun b hb => hle b (List.mem_cons_of_mem a hb)
    have hrest := length_flatMap_le hle'
    rw [List.flatMap_cons, List.flatMap_cons] at h
    have hlen : (f a).length = (g a).length := by
      have h1 := congrArg List.length h
      have h2 := hle a List.mem_cons_self
      rw [List.length_append, List.length_append] at h1
      omega
    obtain ⟨ha, hl⟩ := List.append_inj h hlen
    intro b hb
    rcases List.mem_cons.mp hb with rfl | hb
    · exact ha
    · exact ih hle' hl b hb

end LinguaMesh
