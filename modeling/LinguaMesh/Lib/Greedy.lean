import Mathlib.Data.List.Pairwise
import Mathlib.Data.List.Sort

/-!
# Greedy choice of intervals

`choose` walks through a list of intervals and takes each one that begins at or after
the end of the last one taken. Of a sorted list it takes the elements that `Prevail`:
no element of the same start is before them, and no taken element that begins earlier
reaches into them (`mem_choose_iff`).
-/

namespace LinguaMesh.Greedy

variable {α : Type*} (start stop : α → Nat)

def choose : Option Nat → List α → List α
  | _, [] => []
  | previous, c :: cs =>
    if start c < stop c && previous.all (· ≤ start c) then c :: choose (some (stop c)) cs
    else choose previous cs

variable {start stop} {previous : Option Nat} {l : List α} {a b c : α}

theorem taken_iff : (start c < stop c && previous.all (· ≤ start c)) = true ↔
    start c < stop c ∧ ∀ p ∈ previous, p ≤ start c := by
  simp only [Bool.and_eq_true, decide_eq_true_eq, Option.all_eq_true]
  rfl

theorem choose_sublist : (choose start stop previous l).Sublist l := by
  induction l generalizing previous with
  | nil => exact List.Sublist.slnil
  | cons c cs ih =>
    unfold choose
    split
    · exact ih.cons_cons c
    · exact ih.cons c

theorem choose_map {β : Type*} (f : β → α) (previous : Option Nat) (l : List β) :
    choose start stop previous (l.map f) =
      (choose (start ∘ f) (stop ∘ f) previous l).map f := by
  induction l generalizing previous with
  | nil => rfl
  | cons c cs ih =>
    rw [List.map_cons, choose, choose]
    simp only [Function.comp_apply]
    split
    · rw [List.map_cons, ih]
    · exact ih previous

/-- Only comparisons of starts with stops matter. -/
theorem choose_monotone {start' stop' : α → Nat} {taken : Option α}
    (hlt : ∀ a ∈ l, start' a < stop' a ↔ start a < stop a)
    (hle : ∀ a, a ∈ taken ∨ a ∈ l → ∀ b ∈ l, stop' a ≤ start' b ↔ stop a ≤ start b) :
    choose start' stop' (taken.map stop') l = choose start stop (taken.map stop) l := by
  induction l generalizing taken with
  | nil => rfl
  | cons c cs ih =>
    have hlt' : ∀ a ∈ cs, start' a < stop' a ↔ start a < stop a :=
      fun a ha => hlt a (List.mem_cons_of_mem c ha)
    have htaken : (start' c < stop' c && (taken.map stop').all (· ≤ start' c)) =
        (start c < stop c && (taken.map stop).all (· ≤ start c)) := by
      rw [Bool.eq_iff_iff, taken_iff, taken_iff, hlt c List.mem_cons_self]
      refine and_congr_right fun _ => ?_
      cases taken with
      | none => simp
      | some a => simpa using hle a (.inl rfl) c List.mem_cons_self
    rw [choose, choose, htaken]
    split
    · have hrest := @ih (some c) hlt' fun a ha b hb => hle a
        (ha.elim (fun h => .inr (Option.some.inj h ▸ List.mem_cons_self))
          fun h => .inr (List.mem_cons_of_mem c h)) b (List.mem_cons_of_mem c hb)
      exact congrArg (c :: ·) hrest
    · exact ih hlt' fun a ha b hb =>
        hle a (ha.imp_right (List.mem_cons_of_mem c)) b (List.mem_cons_of_mem c hb)

/-- What is taken begins after what was taken before. -/
theorem choose_after (h : c ∈ choose start stop previous l) :
    start c < stop c ∧ ∀ p ∈ previous, p ≤ start c := by
  induction l generalizing previous with
  | nil => cases h
  | cons d cs ih =>
    unfold choose at h
    split at h
    · rename_i hd
      rw [taken_iff] at hd
      rcases List.mem_cons.mp h with rfl | h
      · exact hd
      · obtain ⟨hc, hafter⟩ := ih h
        refine ⟨hc, fun p hp => ?_⟩
        have hle := hd.2 p hp
        have hstop := hafter (stop d) rfl
        omega
    · exact ih h

theorem choose_disjoint :
    (choose start stop previous l).Pairwise fun a b => stop a ≤ start b := by
  induction l generalizing previous with
  | nil => exact List.Pairwise.nil
  | cons c cs ih =>
    unfold choose
    split
    · exact List.pairwise_cons.mpr ⟨fun b hb => (choose_after hb).2 _ rfl, ih⟩
    · exact ih

/-- What is not taken begins inside something that was taken before it. -/
theorem choose_or_covered {before after : List α} (hl : l = before ++ c :: after)
    (hc : start c < stop c) :
    c ∈ choose start stop previous l ∨ (∃ p ∈ previous, start c < p) ∨
      ∃ a ∈ choose start stop previous l, a ∈ before ∧ start c < stop a := by
  subst hl
  induction before generalizing previous with
  | nil =>
    rw [List.nil_append, choose]
    by_cases hp : ∀ p ∈ previous, p ≤ start c
    · refine .inl ?_
      rw [if_pos (taken_iff.mpr ⟨hc, hp⟩)]
      exact List.mem_cons_self
    · push Not at hp
      exact .inr (.inl hp)
  | cons d before ih =>
    rw [List.cons_append, choose]
    split
    · rename_i hd
      rcases @ih (some (stop d)) with h | ⟨p, hp, h⟩ | ⟨a, ha, hbefore, h⟩
      · exact .inl (List.mem_cons_of_mem _ h)
      · obtain rfl := Option.some.inj hp
        exact .inr (.inr ⟨d, List.mem_cons_self, List.mem_cons_self, h⟩)
      · exact .inr (.inr ⟨a, List.mem_cons_of_mem _ ha, List.mem_cons_of_mem _ hbefore, h⟩)
    · rcases @ih previous with h | h | ⟨a, ha, hbefore, h⟩
      · exact .inl h
      · exact .inr (.inl h)
      · exact .inr (.inr ⟨a, ha, List.mem_cons_of_mem _ hbefore, h⟩)

/-- Of the elements with one interval only the first can be taken. -/
theorem find?_choose {p : α → Bool} (hp : ∀ a ∈ l, p a = true → start a = start c ∧ stop a = stop c)
    (hc : p c = true) (h : c ∈ choose start stop previous l) : l.find? p = some c := by
  induction l generalizing previous with
  | nil => cases h
  | cons d cs ih =>
    have hnext := fun a ha => hp a (List.mem_cons_of_mem d ha)
    unfold choose at h
    split at h
    · rename_i hd
      rcases List.mem_cons.mp h with rfl | h
      · exact List.find?_cons_of_pos hc
      · have hd : ¬ p d = true := by
          intro hpd
          have hsame := hp d List.mem_cons_self hpd
          have hafter := (choose_after h).2 _ rfl
          have hlt := (taken_iff.mp hd).1
          omega
        rw [List.find?_cons_of_neg hd]
        exact ih hnext h
    · rename_i hd
      have hpd : ¬ p d = true := by
        intro hpd
        obtain ⟨hstart, hstop⟩ := hp d List.mem_cons_self hpd
        rw [taken_iff, hstart, hstop] at hd
        exact hd (choose_after h)
      rw [List.find?_cons_of_neg hpd]
      exact ih hnext h

/-! ## Sorted lists -/

/-- An element that a greedy choice takes: the first of its start, and no taken element that begins
earlier reaches into it. -/
def Prevails (start stop : α → Nat) (le : α → α → Prop) (l : List α) (c : α) : Prop :=
  c ∈ l ∧ (∀ a ∈ l, start a = start c → le c a) ∧
    ∀ a, a ∈ l → start a < start c → start c < stop a → ¬ Prevails start stop le l a
termination_by start c

/-- What sorting by `le` has to give: each interval has a length, and the order refines the starts. -/
structure Ranked (start stop : α → Nat) (le : α → α → Prop) (l : List α) : Prop where
  nonempty : ∀ a ∈ l, start a < stop a
  starts : ∀ a ∈ l, ∀ b ∈ l, le a b → start a ≤ start b
  refl : ∀ a ∈ l, le a a
  antisymm : ∀ a ∈ l, ∀ b ∈ l, le a b → le b a → a = b

variable {le : α → α → Prop}

theorem prevails_congr {l' : List α} (hl : ∀ a, a ∈ l ↔ a ∈ l') :
    Prevails start stop le l c ↔ Prevails start stop le l' c := by
  induction hn : start c using Nat.strong_induction_on generalizing c with
  | _ n ih =>
    subst hn
    rw [Prevails, Prevails, hl c]
    refine and_congr_right fun _ => and_congr ?_ ?_
    · exact forall_congr' fun a => by rw [hl a]
    · refine forall_congr' fun a => ?_
      rw [hl a]
      exact forall_congr' fun _ => forall_congr' fun hlt => forall_congr' fun _ =>
        not_congr (ih _ hlt rfl)

/-- Two taken elements that overlap are one. -/
theorem choose_overlap (ha : a ∈ choose start stop previous l) (hb : b ∈ choose start stop previous l)
    (hab : start a < stop b) (hba : start b < stop a) : a = b := by
  let apart (a b : α) : Prop := stop a ≤ start b ∨ stop b ≤ start a
  have hsymm : Std.Symm apart := ⟨fun a b h => h.symm⟩
  have hpair : (choose start stop previous l).Pairwise apart := choose_disjoint.imp fun h => .inl h
  by_contra hne
  rcases hpair.forall ha hb hne with h | h <;> omega

/-- Whatever is before a taken element of one start is that element, or does not come first. -/
theorem choose_first (hs : l.Pairwise le) (hl : Ranked start stop le l)
    (hc : c ∈ choose start stop none l) (ha : a ∈ l) (hstart : start a = start c) : le c a := by
  have hlt := hl.nonempty c (choose_sublist.subset hc)
  have hlt' := hl.nonempty a ha
  obtain ⟨before, after, hsplit⟩ := List.append_of_mem ha
  have hbefore : ∀ b ∈ before, le b a := fun b hb =>
    (List.pairwise_append.mp (hsplit ▸ hs)).2.2 b hb a List.mem_cons_self
  rcases @choose_or_covered _ _ _ none _ _ _ _ hsplit hlt' with h | ⟨p, hp, -⟩ | ⟨b, hb, hb', h⟩
  · obtain rfl : a = c := choose_overlap h hc (by omega) (by omega)
    exact hl.refl a ha
  · cases hp
  · have hle := hl.starts b (choose_sublist.subset hb) a ha (hbefore b hb')
    obtain rfl : b = c := choose_overlap hb hc (by omega) (by omega)
    exact hbefore b hb'

/-- What a greedy choice takes of a sorted list. -/
theorem mem_choose_iff (hs : l.Pairwise le) (hl : Ranked start stop le l) :
    c ∈ choose start stop none l ↔ Prevails start stop le l c := by
  induction hn : start c using Nat.strong_induction_on generalizing c with
  | _ n ih =>
    subst hn
    rw [Prevails]
    constructor
    · intro hc
      refine ⟨choose_sublist.subset hc, fun a ha => choose_first hs hl hc ha, ?_⟩
      intro a ha hlt hcover hprevails
      have hac := choose_overlap ((ih _ hlt rfl).mpr hprevails) hc
        (by have := (choose_after hc).1; omega) hcover
      exact absurd (congrArg start hac) hlt.ne
    · rintro ⟨hc, hfirst, hfree⟩
      obtain ⟨before, after, hsplit⟩ := List.append_of_mem hc
      rcases @choose_or_covered _ _ _ none _ _ _ _ hsplit (hl.nonempty c hc) with
        h | ⟨p, hp, -⟩ | ⟨a, ha, hbefore, hcover⟩
      · exact h
      · cases hp
      have hmem := choose_sublist.subset ha
      have hle : le a c :=
        (List.pairwise_append.mp (hsplit ▸ hs)).2.2 a hbefore c List.mem_cons_self
      rcases (hl.starts a hmem c hc hle).lt_or_eq with hlt | heq
      · exact absurd ((ih _ hlt rfl).mp ha) (hfree a hmem hlt hcover)
      · rwa [← hl.antisymm a hmem c hc hle (hfirst a hmem heq)]

/-- Sorted lists with the same elements give the same choice. -/
theorem choose_congr {l' : List α} (hs : l.Pairwise le) (hs' : l'.Pairwise le)
    (hl : Ranked start stop le l) (hmem : ∀ a, a ∈ l ↔ a ∈ l') :
    choose start stop none l = choose start stop none l' := by
  let before (a b : α) : Prop := stop a ≤ start b ∧ start b < stop b
  have hasymm (a b : α) (h : before a b) (h' : before b a) : False := by
    obtain ⟨h₁, h₂⟩ := h
    obtain ⟨h₁', h₂'⟩ := h'
    omega
  have hirrefl : Std.Irrefl before := ⟨fun a h => hasymm a a h h⟩
  have hanti : Std.Antisymm before := ⟨fun a b h h' => (hasymm a b h h').elim⟩
  have hpair (k : List α) : (choose start stop none k).Pairwise before :=
    choose_disjoint.imp_of_mem fun _ hb h => ⟨h, (choose_after hb).1⟩
  have hl' : Ranked start stop le l' :=
    ⟨fun a ha => hl.nonempty a ((hmem a).mpr ha),
      fun a ha b hb => hl.starts a ((hmem a).mpr ha) b ((hmem b).mpr hb),
      fun a ha => hl.refl a ((hmem a).mpr ha),
      fun a ha b hb => hl.antisymm a ((hmem a).mpr ha) b ((hmem b).mpr hb)⟩
  refine (hpair l).eq_of_mem_iff (hpair l') fun a => ?_
  rw [mem_choose_iff hs hl, mem_choose_iff hs' hl', prevails_congr hmem]

end LinguaMesh.Greedy
