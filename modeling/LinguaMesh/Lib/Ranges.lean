import LinguaMesh.Lib.Loop
import Mathlib.Data.List.Basic

/-!
# Ranges of a buffer

Items that each cover a range of a buffer, in order and without overlap
(`Ordered`). Such items can be copied out from left to right with a cursor, and
replaced from right to left by splices: the part of the buffer a splice needs is
the part that the splices before it left alone.
-/

namespace LinguaMesh

open Run

universe u

variable {α : Type u} {start stop : α → Nat} {size : Nat} {l : List α} {a : α}

/-- Two items of a list are one, or they stand in the list one before the other. -/
theorem pairwise_cases {R : α → α → Prop} (h : l.Pairwise R) {a b : α} (ha : a ∈ l) (hb : b ∈ l) :
    a = b ∨ R a b ∨ R b a := by
  induction h with
  | nil => exact absurd ha List.not_mem_nil
  | cons hc _ ih =>
    rcases List.mem_cons.mp ha with rfl | ha' <;> rcases List.mem_cons.mp hb with rfl | hb'
    · exact .inl rfl
    · exact .inr (.inl (hc b hb'))
    · exact .inr (.inr (hc a ha'))
    · exact ih ha' hb'

/-- Ranges in order, without overlap, within `size`. -/
structure Ordered (start stop : α → Nat) (size : Nat) (l : List α) : Prop where
  apart : l.Pairwise fun a b => stop a ≤ start b
  bounds : ∀ a ∈ l, start a ≤ stop a ∧ stop a ≤ size

namespace Ordered

theorem nil : Ordered start stop size ([] : List α) :=
  ⟨List.Pairwise.nil, fun _ h => absurd h List.not_mem_nil⟩

theorem snoc (h : Ordered start stop size l) (hl : ∀ b ∈ l, stop b ≤ start a)
    (h1 : start a ≤ stop a) (h2 : stop a ≤ size) : Ordered start stop size (l ++ [a]) := by
  refine ⟨List.pairwise_append.mpr ⟨h.apart, List.pairwise_singleton _ _, ?_⟩, ?_⟩
  · intro b hb c hc
    rw [List.mem_singleton.mp hc]
    exact hl b hb
  · intro b hb
    rcases List.mem_append.mp hb with hb | hb
    · exact h.bounds b hb
    · rw [List.mem_singleton.mp hb]
      exact ⟨h1, h2⟩

theorem tail (h : Ordered start stop size (a :: l)) : Ordered start stop size l :=
  ⟨(List.pairwise_cons.mp h.apart).2, fun b hb => h.bounds b (List.mem_cons_of_mem a hb)⟩

theorem head_le (h : Ordered start stop size (a :: l)) {b : α} (hb : b ∈ l) : stop a ≤ start b :=
  (List.pairwise_cons.mp h.apart).1 b hb

/-- Two items of the list are one, or one lies before the other. -/
theorem disjoint (h : Ordered start stop size l) {a b : α} (ha : a ∈ l) (hb : b ∈ l) :
    a = b ∨ stop a ≤ start b ∨ stop b ≤ start a := pairwise_cases h.apart ha hb

end Ordered

/-- Ranges in falling order: each ends where the one before it starts, or sooner. -/
def Falling (start stop : α → Nat) (l : List α) : Prop :=
  l.Pairwise fun a b => stop b ≤ start a

/-- Splices from right to left stay in range. -/
theorem post_splices {ε β : Type u} {f : α → List β} {buffer : List β}
    (hl : Falling start stop l) (hb : ∀ a ∈ l, start a ≤ stop a ∧ stop a ≤ buffer.length) :
    Post (l.foldlM (fun out a => splice out (start a) (stop a) (f a)) buffer : Run ε (List β))
      fun _ => True := by
  induction l generalizing buffer with
  | nil => trivial
  | cons a l ih =>
    have hla := List.pairwise_cons.mp hl
    have ha := hb a (by simp)
    rw [List.foldlM_cons, splice_ok ha.1 ha.2]
    refine ih hla.2 fun b hb' => ⟨(hb b (by simp [hb'])).1, ?_⟩
    have h1 : stop b ≤ start a := hla.1 b hb'
    simp only [List.length_append, List.length_take]
    omega

end LinguaMesh
