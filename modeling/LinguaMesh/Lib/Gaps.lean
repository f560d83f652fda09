import LinguaMesh.Lib.Search

/-!
# Gaps

A list `x ++ (g ++ y)` in which the items of the gap `g` stop every search: no pattern
has one of them. Then what is found lies in `x` or in `y`, so another gap in its place
moves positions in `y` and changes nothing else (`find_gap`, `findFrom_moved`).
-/

namespace LinguaMesh.Search

variable {α : Type*} {x g w y u v pat : List α} {p : α → Bool}

/-- The gap keeps its sides apart. -/
def Apart (x g y : List α) : Prop := g ≠ [] ∨ x = [] ∨ y = []

theorem Apart.of_ne_nil (h : Apart x g y) (hu : u ≠ []) (hx : u <:+: x) : g ≠ [] ∨ y = [] := by
  rcases h with h | rfl | h
  · exact .inl h
  · exact absurd (List.infix_nil.mp hx) hu
  · exact .inr h

theorem prefix_gap (hpat : ∀ c ∈ g, c ∉ pat) (h : g ≠ [] ∨ v = []) :
    pat <+: u ++ (g ++ v) ↔ pat <+: u := by
  constructor
  · intro hp
    by_cases hle : pat.length ≤ u.length
    · exact prefix_of_le hp (List.prefix_append _ _) hle
    obtain ⟨m, rfl⟩ := prefix_of_le (List.prefix_append u (g ++ v)) hp (by omega)
    cases g with
    | nil =>
      obtain rfl := h.resolve_left (by simp)
      simpa using hp
    | cons c g =>
      cases m with
      | nil => simp at hle
      | cons d m =>
        obtain ⟨w, hw⟩ := hp
        rw [List.append_assoc] at hw
        have hcd := (List.cons.inj (List.append_cancel_left hw)).1
        exact absurd (by simp [hcd]) (hpat c List.mem_cons_self)
  · exact fun hp => hp.trans (List.prefix_append _ _)

theorem takeWhile_gap (hp : ∀ c ∈ g, p c = false) (h : g ≠ [] ∨ v = []) :
    (u ++ (g ++ v)).takeWhile p = u.takeWhile p := by
  induction u with
  | nil =>
    cases g with
    | nil =>
      obtain rfl := h.resolve_left (by simp)
      rfl
    | cons c g => exact List.takeWhile_cons_of_neg (by simp [hp c List.mem_cons_self])
  | cons c u ih => rw [List.cons_append, List.takeWhile_cons, List.takeWhile_cons, ih]

theorem rtakeWhile_gap (hp : ∀ c ∈ g, p c = false) (h : g ≠ [] ∨ u = []) :
    (u ++ (g ++ v)).rtakeWhile p = v.rtakeWhile p := by
  unfold List.rtakeWhile
  rw [List.reverse_append, List.reverse_append, List.append_assoc, takeWhile_gap]
  · exact fun c hc => hp c (List.mem_reverse.mp hc)
  · exact h.imp (fun hg => by simpa using hg) fun hu => by rw [hu, List.reverse_nil]

/-! ## Positions -/

/-- Where a position of `x ++ (g ++ y)` before an item is after the gap has changed. -/
def movedStart (x g w : List α) (i : Nat) : Nat :=
  if i < x.length then i else i - g.length + w.length

/-- Where a position after an item is. -/
def movedStop (x g w : List α) (i : Nat) : Nat :=
  if i ≤ x.length then i else i - g.length + w.length

/-- The position is not in the gap. -/
def StartsBeside (x g : List α) (i : Nat) : Prop := i < x.length ∨ x.length + g.length ≤ i

def StopsBeside (x g : List α) (i : Nat) : Prop := i ≤ x.length ∨ x.length + g.length < i

theorem drop_before_gap {i : Nat} (hi : i ≤ x.length) :
    (x ++ (g ++ y)).drop i = x.drop i ++ (g ++ y) :=
  List.drop_append_of_le_length hi

theorem drop_after_gap (k : Nat) : (x ++ (g ++ y)).drop (x.length + g.length + k) = y.drop k := by
  rw [Nat.add_assoc, List.drop_length_add_append, List.drop_length_add_append]

theorem movedStart_before {i : Nat} (hi : i < x.length) : movedStart x g w i = i := if_pos hi

theorem movedStart_after (k : Nat) :
    movedStart x g w (x.length + g.length + k) = x.length + w.length + k := by
  unfold movedStart
  rw [if_neg (by omega)]
  omega

theorem movedStop_before {i : Nat} (hi : i ≤ x.length) : movedStop x g w i = i := if_pos hi

theorem movedStop_after {k : Nat} (hk : 0 < k) :
    movedStop x g w (x.length + g.length + k) = x.length + w.length + k := by
  unfold movedStop
  rw [if_neg (by omega)]
  omega

/-- The end of something that was found. -/
theorem movedStop_add {i n : Nat} (hn : 0 < n) (hi : i + n ≤ x.length ∨ x.length + g.length ≤ i) :
    movedStop x g w (i + n) = movedStart x g w i + n ∧ StartsBeside x g i ∧
      StopsBeside x g (i + n) := by
  unfold movedStop movedStart StartsBeside StopsBeside
  split <;> split <;> omega

section Find

variable [DecidableEq α]

theorem find_gap (hpat : ∀ c ∈ g, c ∉ pat) (hne : pat ≠ []) (h : Apart u g v) :
    find pat (u ++ (g ++ v)) =
      (find pat u).or ((find pat v).map (· + (u.length + g.length))) := by
  induction u with
  | nil =>
    have hnil : find pat [] = none := by simp [find, hne]
    rw [hnil, List.nil_append, Option.none_or]
    clear h
    induction g with
    | nil => simp
    | cons c g ih =>
      have hstart : ¬ pat.isPrefixOf (c :: (g ++ v)) = true := by
        rw [List.isPrefixOf_iff_prefix]
        intro hp
        obtain ⟨d, pat, rfl⟩ := List.exists_cons_of_ne_nil hne
        obtain ⟨rfl, -⟩ := List.cons_prefix_cons.mp hp
        exact hpat d List.mem_cons_self List.mem_cons_self
      rw [List.cons_append, find, if_neg hstart, ih fun d hd => hpat d (List.mem_cons_of_mem c hd),
        Option.map_map]
      refine congrArg (Option.map · (find pat v)) (funext fun n => ?_)
      simp only [Function.comp_apply, List.length_cons, List.length_nil]
      omega
  | cons c u ih =>
    have hapart : g ≠ [] ∨ v = [] := h.of_ne_nil (List.cons_ne_nil c u) (List.infix_refl _)
    have hprefix : pat.isPrefixOf (c :: (u ++ (g ++ v))) = pat.isPrefixOf (c :: u) := by
      rw [Bool.eq_iff_iff, List.isPrefixOf_iff_prefix, List.isPrefixOf_iff_prefix]
      exact prefix_gap (u := c :: u) hpat hapart
    rw [List.cons_append, find, find, hprefix]
    split
    · rfl
    · rw [ih (hapart.imp_right .inr)]
      cases find pat u with
      | some n => rfl
      | none =>
        rw [Option.none_or, Option.map_none, Option.none_or, Option.map_map]
        refine congrArg (Option.map · (find pat v)) (funext fun n => ?_)
        simp only [Function.comp_apply, List.length_cons]
        omega

/-- The position of the first occurrence from `cursor` on. -/
def findFrom (pat t : List α) (cursor : Nat) : Option Nat :=
  (find pat (t.drop cursor)).map (cursor + ·)

/-- What is found lies beside the gap, and is found behind another gap as well. -/
theorem findFrom_moved (hpat : ∀ c ∈ g, c ∉ pat) (hpat' : ∀ c ∈ w, c ∉ pat) (hne : pat ≠ [])
    (h : Apart x g y) (h' : Apart x w y) {cursor : Nat} (hcursor : StopsBeside x g cursor) :
    findFrom pat (x ++ (w ++ y)) (movedStop x g w cursor) =
        (findFrom pat (x ++ (g ++ y)) cursor).map (movedStart x g w) ∧
      ∀ i ∈ findFrom pat (x ++ (g ++ y)) cursor, cursor ≤ i ∧
        (i + pat.length ≤ x.length ∨ x.length + g.length ≤ i) := by
  have hpos := List.length_pos_of_ne_nil hne
  unfold findFrom
  rcases hcursor with hcursor | hcursor
  · have hu : (x.drop cursor).length + cursor = x.length := by
      rw [List.length_drop]
      omega
    have hapart {g : List α} (h : Apart x g y) : Apart (x.drop cursor) g y :=
      h.imp_right (Or.imp_left fun hx => by rw [hx, List.drop_nil])
    rw [movedStop_before hcursor, drop_before_gap hcursor, drop_before_gap hcursor,
      find_gap hpat hne (hapart h), find_gap hpat' hne (hapart h')]
    cases hn : find pat (x.drop cursor) with
    | some n =>
      have hle := find_le_length hn
      simp only [Option.some_or, Option.map_some, Option.some.injEq, Option.mem_def]
      rw [movedStart_before (by omega)]
      exact ⟨rfl, fun i hi => by omega⟩
    | none =>
      cases find pat y with
      | none => exact ⟨rfl, fun i hi => by cases hi⟩
      | some n =>
        have hmoved := movedStart_after (x := x) (g := g) (w := w) n
        simp only [Option.none_or, Option.map_some, Option.some.injEq, Option.mem_def]
        rw [show cursor + (n + ((x.drop cursor).length + g.length)) = x.length + g.length + n by omega,
          show cursor + (n + ((x.drop cursor).length + w.length)) = x.length + w.length + n by omega]
        refine ⟨hmoved.symm, fun i hi => ?_⟩
        omega
  · obtain ⟨k, rfl⟩ : ∃ k, cursor = x.length + g.length + (k + 1) :=
      ⟨cursor - (x.length + g.length) - 1, by omega⟩
    rw [movedStop_after (show 0 < k + 1 by omega), drop_after_gap, drop_after_gap]
    cases find pat (y.drop (k + 1)) with
    | none => exact ⟨rfl, fun i hi => by cases hi⟩
    | some n =>
      simp only [Option.map_some, Option.some.injEq, Option.mem_def]
      rw [show x.length + g.length + (k + 1) + n = x.length + g.length + (k + 1 + n) by omega,
        movedStart_after]
      exact ⟨by omega, fun i hi => by omega⟩

theorem find_moved (hpat : ∀ c ∈ g, c ∉ pat) (hpat' : ∀ c ∈ w, c ∉ pat) (hne : pat ≠ [])
    (h : Apart x g y) (h' : Apart x w y) {n : Nat} (hn : find pat (x ++ (g ++ y)) = some n) :
    find pat (x ++ (w ++ y)) = some (movedStart x g w n) ∧
      (n + pat.length ≤ x.length ∨ x.length + g.length ≤ n) := by
  obtain ⟨hmoved, hbeside⟩ := findFrom_moved hpat hpat' hne h h' (.inl (Nat.zero_le _))
  have hzero (t : List α) : findFrom pat t 0 = find pat t := by
    unfold findFrom
    simp
  rw [movedStop_before (Nat.zero_le _), hzero, hzero, hn] at hmoved
  rw [hzero] at hbeside
  exact ⟨hmoved, (hbeside n hn).2⟩

end Find

end LinguaMesh.Search
