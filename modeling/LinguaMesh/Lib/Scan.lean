import LinguaMesh.Lib.Loop

/-!
# Cutting a text into pieces

A scanner looks at a text in a state and cuts a piece off its front: `Piece` is
the length of the piece, its label and the state after it. `Scans` is a whole
scan. The rule for texts that are changed piece by piece is `Scans.replace`:
where each cut only depends on what the change leaves alone, the changed text is
cut at the changed pieces.
-/

namespace LinguaMesh

universe u

variable {ε σ α β : Type u}

structure Piece (σ β : Type u) where
  length : Nat
  label : β
  state : σ
  deriving DecidableEq, Repr

/-- The scan of a text from a state: the pieces with their labels. -/
inductive Scans (cut : σ → List α → Run ε (Piece σ β)) (final : σ → Prop) :
    σ → List α → List (List α × β) → Prop where
  | nil {s : σ} : final s → Scans cut final s [] []
  | cons {s s' : σ} {piece rest : List α} {label : β} {ps : List (List α × β)} :
    piece ≠ [] → cut s (piece ++ rest) = .ok ⟨piece.length, label, s'⟩ →
    Scans cut final s' rest ps → Scans cut final s (piece ++ rest) ((piece, label) :: ps)

namespace Scans

variable {cut : σ → List α → Run ε (Piece σ β)} {final : σ → Prop} {s : σ} {text : List α}
  {ps ps' : List (List α × β)}

/-- The pieces spell the text. -/
theorem spelled (h : Scans cut final s text ps) : ps.flatMap Prod.fst = text := by
  induction h with
  | nil => rfl
  | cons _ _ _ ih => rw [List.flatMap_cons, ih]

theorem nil_iff (h : Scans cut final s text ps) : ps = [] ↔ text = [] := by
  cases h with
  | nil => simp
  | cons hne => simp [hne]

/-- The rule of replacement. `Same s text text'` says of a text and the changed text what the cut
before them looks at. -/
theorem replace {Kept : List α × β → List α × β → Prop} {Same : σ → List α → List α → Prop}
    (hnil : ∀ s, Same s [] [])
    (hcut : ∀ {s s' piece rest rest' label} {p : List α × β}, piece ≠ [] →
      cut s (piece ++ rest) = .ok ⟨piece.length, label, s'⟩ → Same s' rest rest' →
      Kept (piece, label) p →
      p.1 ≠ [] ∧ cut s (p.1 ++ rest') = .ok ⟨p.1.length, p.2, s'⟩ ∧
        Same s (piece ++ rest) (p.1 ++ rest'))
    (h : Scans cut final s text ps) (hk : List.Forall₂ Kept ps ps') :
    Scans cut final s (ps'.flatMap Prod.fst) ps' ∧ Same s text (ps'.flatMap Prod.fst) := by
  induction h generalizing ps' with
  | nil hf =>
    cases hk
    exact ⟨.nil hf, hnil _⟩
  | cons hne hc _ ih =>
    cases hk with
    | cons hp hps =>
      obtain ⟨hrest, hsame⟩ := ih hps
      obtain ⟨hne', hc', hsame'⟩ := hcut hne hc hsame hp
      rw [List.flatMap_cons]
      exact ⟨.cons hne' hc' hrest, hsame'⟩

end Scans

end LinguaMesh
