import LinguaMesh.Domain.Protect
import LinguaMesh.Lib.Greedy
import LinguaMesh.Lib.Ranking

/-!
# The chosen candidates

Which candidates of a source are replaced is decided by their places alone: where they
start and stop, and their priority (`mem_places_iff`). Of the candidates of a chosen place
the first one collected is taken (`chosen_find?`).
-/

namespace LinguaMesh

open Greedy Ranking

/-- What the sort and the choice look at. -/
structure Place where
  start : Nat
  stop : Nat
  priority : Int
  deriving DecidableEq, Repr

def ProtectedCandidate.place (c : ProtectedCandidate) : Place := ⟨c.start, c.stop, c.priority⟩

/-- `candidateLe` of places. -/
def placeLe (left right : Place) : Bool :=
  left.start < right.start || (left.start == right.start &&
    (right.priority < left.priority || (left.priority == right.priority &&
      right.stop - right.start ≤ left.stop - left.start)))

theorem placeLe_place (a b : ProtectedCandidate) : placeLe a.place b.place = candidateLe a b := rfl

theorem placeLe_iff {a b : Place} : placeLe a b = true ↔ a.start < b.start ∨ a.start = b.start ∧
    (b.priority < a.priority ∨ a.priority = b.priority ∧ b.stop - b.start ≤ a.stop - a.start) := by
  simp [placeLe]

instance total_placeLe : Std.Total fun a b => placeLe a b = true := by
  refine ⟨fun a b => ?_⟩
  simp only [placeLe_iff]
  omega

instance trans_placeLe : IsTrans Place fun a b => placeLe a b = true := by
  refine ⟨fun a b c hab hbc => ?_⟩
  rw [placeLe_iff] at *
  omega

instance total_candidateLe : Std.Total fun a b => candidateLe a b = true :=
  ⟨fun a b => total_placeLe.total a.place b.place⟩

instance trans_candidateLe : IsTrans ProtectedCandidate fun a b => candidateLe a b = true :=
  ⟨fun a b c => trans_placeLe.trans a.place b.place c.place⟩

/-! ## The choice of a list -/

variable {l l' : List ProtectedCandidate} {k : Place}

def places (l : List ProtectedCandidate) : List Place := l.map ProtectedCandidate.place

def sortedPlaces (l : List ProtectedCandidate) : List Place :=
  (places l).insertionSort fun a b => placeLe a b

/-- The candidates that are replaced, in their order in the source. -/
def chosen (l : List ProtectedCandidate) : List ProtectedCandidate :=
  selectCandidates none (l.insertionSort fun a b => candidateLe a b)

/-- No candidate is empty. -/
def NonemptyPlaces (l : List ProtectedCandidate) : Prop := ∀ c ∈ l, c.start < c.stop

/-- A place that is replaced: it has a candidate, no candidate with its start has a higher priority
or the same one and a greater length, and no replaced place that starts earlier reaches into it. -/
abbrev Taken (l : List ProtectedCandidate) : Place → Prop :=
  Prevails Place.start Place.stop (fun a b => placeLe a b = true) (places l)

theorem selectCandidates_eq (previous : Option Nat) (l : List ProtectedCandidate) :
    selectCandidates previous l =
      choose ProtectedCandidate.start ProtectedCandidate.stop previous l := by
  induction l generalizing previous with
  | nil => rfl
  | cons c cs ih =>
    rw [selectCandidates, choose, ih, ih]

theorem places_chosen (l : List ProtectedCandidate) :
    places (chosen l) = choose Place.start Place.stop none (sortedPlaces l) := by
  unfold sortedPlaces places chosen
  rw [← List.map_insertionSort (fun a b => candidateLe a b = true) (fun a b => placeLe a b = true)
    ProtectedCandidate.place l fun a _ b _ => Iff.rfl, choose_map, selectCandidates_eq]
  rfl

theorem sorted_places (l : List ProtectedCandidate) :
    (sortedPlaces l).Pairwise fun a b => placeLe a b = true :=
  List.pairwise_insertionSort _ _

theorem ranked_places (h : NonemptyPlaces l) :
    Ranked Place.start Place.stop (fun a b => placeLe a b = true) (sortedPlaces l) := by
  have hmem : ∀ k ∈ sortedPlaces l, k.start < k.stop := by
    intro k hk
    obtain ⟨c, hc, rfl⟩ := List.mem_map.mp (List.mem_insertionSort _ |>.mp hk)
    exact h c hc
  refine ⟨hmem, fun a _ b _ hab => ?_, fun a _ => ?_, fun a ha b hb hab hba => ?_⟩
  · rw [placeLe_iff] at hab
    omega
  · rw [placeLe_iff]
    omega
  · have hlt := hmem a ha
    have hlt' := hmem b hb
    rw [placeLe_iff] at hab hba
    obtain ⟨start, stop, priority⟩ := a
    obtain ⟨start', stop', priority'⟩ := b
    simp only at *
    obtain rfl : start = start' := by omega
    obtain rfl : priority = priority' := by omega
    obtain rfl : stop = stop' := by omega
    rfl

theorem mem_places_iff (h : NonemptyPlaces l) : k ∈ places (chosen l) ↔ Taken l k := by
  rw [places_chosen, mem_choose_iff (sorted_places l) (ranked_places h)]
  exact prevails_congr fun a => List.mem_insertionSort _

/-- Candidates in another order have the same chosen places. -/
theorem places_perm (h : NonemptyPlaces l) (hl : l'.Perm l) :
    places (chosen l') = places (chosen l) := by
  have h' : NonemptyPlaces l' := fun c hc => h c (hl.mem_iff.mp hc)
  rw [places_chosen, places_chosen]
  refine choose_congr (sorted_places l') (sorted_places l) (ranked_places h') fun a => ?_
  unfold sortedPlaces
  rw [List.mem_insertionSort, List.mem_insertionSort]
  exact (hl.map _).mem_iff

/-! ## The first candidate of a place -/

def firstAt (l : List ProtectedCandidate) (k : Place) : Option ProtectedCandidate :=
  l.find? (·.place = k)

theorem firstAt_none :
    firstAt l k = none ↔ ∀ c ∈ l, c.place ≠ k := by
  unfold firstAt
  rw [List.find?_eq_none]
  simp

theorem firstAt_some {c : ProtectedCandidate}
    (h : firstAt l k = some c) : c ∈ l ∧ c.place = k :=
  ⟨List.mem_of_find?_eq_some h, by simpa using List.find?_some h⟩

theorem chosen_first {c : ProtectedCandidate} (hc : c ∈ chosen l) : firstAt l c.place = some c := by
  have htie : ∀ a b : ProtectedCandidate, decide (a.place = c.place) = true →
      decide (b.place = c.place) = true → candidateLe a b = true := by
    intro a b ha hb
    rw [decide_eq_true_eq] at ha hb
    rw [← placeLe_place, ha, hb, placeLe_iff]
    omega
  unfold firstAt
  rw [← find?_insertionSort htie]
  unfold chosen at hc
  rw [selectCandidates_eq] at hc
  refine find?_choose (fun a _ ha => ?_) (decide_eq_true rfl) hc
  rw [decide_eq_true_eq] at ha
  exact ⟨congrArg Place.start ha, congrArg Place.stop ha⟩

theorem chosen_find? (l : List ProtectedCandidate) :
    (chosen l).map some = (places (chosen l)).map (firstAt l) := by
  unfold places
  rw [List.map_map]
  exact List.map_congr_left fun c hc => (chosen_first hc).symm

/-- Two lists of one choice of places give one choice if each place has one first candidate. -/
theorem chosen_eq_iff (hplaces : places (chosen l') = places (chosen l)) :
    chosen l' = chosen l ↔ ∀ k ∈ places (chosen l), firstAt l' k = firstAt l k := by
  constructor
  · intro h k hk
    obtain ⟨c, hc, rfl⟩ := List.mem_map.mp hk
    rw [chosen_first hc, chosen_first (h ▸ hc)]
  · intro h
    have hsome : (chosen l').map some = (chosen l).map some := by
      rw [chosen_find?, chosen_find?, hplaces]
      exact List.map_congr_left h
    exact (Option.some_injective _).list_map hsome

end LinguaMesh
