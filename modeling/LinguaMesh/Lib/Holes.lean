import LinguaMesh.Lib.Loop

/-!
# Texts with holes

A text in pieces, some of which are holes. A program sees such a text as the
text that the pieces spell (`text`) and the ranges of the holes (`holes`); from
these it can read what stands in the holes (`slices_holes`) and around them
(`outside_holes`). Writing other contents into the holes (`refill`) leaves what
is around them alone.
-/

namespace LinguaMesh.Holes

universe u

variable {α : Type u}

/-- The text. -/
def text (w : List (List α × Bool)) : List α := w.flatMap Prod.fst

/-- The ranges of the holes of a text that starts at `c`. -/
def holes : Nat → List (List α × Bool) → List (Nat × Nat)
  | _, [] => []
  | c, (s, true) :: w => (c, c + s.length) :: holes (c + s.length) w
  | c, (s, false) :: w => holes (c + s.length) w

def contents (w : List (List α × Bool)) : List (List α) := (w.filter Prod.snd).map Prod.fst

/-- What stands between the holes; `before` stands before the first piece. -/
def gaps : List α → List (List α × Bool) → List (List α)
  | before, [] => [before]
  | before, (_, true) :: w => before :: gaps [] w
  | before, (s, false) :: w => gaps (before ++ s) w

/-- Other contents for the holes, in order. -/
def refill : List (List α × Bool) → List (List α) → List (List α × Bool)
  | (_, true) :: w, new :: news => (new, true) :: refill w news
  | (s, false) :: w, news => (s, false) :: refill w news
  | w, [] => w
  | [], _ => []

/-- The parts of a text outside ranges, from `c` on. -/
def outside (t : List α) : Nat → List (Nat × Nat) → List (List α)
  | c, [] => [t.drop c]
  | c, range :: ranges => (t.take range.1).drop c :: outside t range.2 ranges

@[simp] theorem text_nil : text ([] : List (List α × Bool)) = [] := rfl

@[simp] theorem text_cons (p : List α × Bool) (w : List (List α × Bool)) :
    text (p :: w) = p.1 ++ text w := List.flatMap_cons

@[simp] theorem text_append (v w : List (List α × Bool)) : text (v ++ w) = text v ++ text w :=
  List.flatMap_append

@[simp] theorem contents_nil : contents ([] : List (List α × Bool)) = [] := rfl

@[simp] theorem contents_hole (s : List α) (w : List (List α × Bool)) :
    contents ((s, true) :: w) = s :: contents w := rfl

@[simp] theorem contents_kept (s : List α) (w : List (List α × Bool)) :
    contents ((s, false) :: w) = contents w := rfl

@[simp] theorem contents_append (v w : List (List α × Bool)) :
    contents (v ++ w) = contents v ++ contents w := by
  unfold contents
  rw [List.filter_append, List.map_append]

theorem holes_append (v w : List (List α × Bool)) (c : Nat) :
    holes c (v ++ w) = holes c v ++ holes (c + (text v).length) w := by
  induction v generalizing c with
  | nil => rfl
  | cons p v ih =>
    obtain ⟨s, hole⟩ := p
    cases hole <;> simp [holes, ih, Nat.add_assoc]

theorem length_holes (c : Nat) (w : List (List α × Bool)) :
    (holes c w).length = (contents w).length := by
  induction w generalizing c with
  | nil => rfl
  | cons p w ih =>
    obtain ⟨s, hole⟩ := p
    cases hole <;> simp [holes, ih]

theorem slices_holes (before : List α) (w : List (List α × Bool)) :
    (holes before.length w).map (fun r => ((before ++ text w).take r.2).drop r.1) = contents w := by
  induction w generalizing before with
  | nil => rfl
  | cons p w ih =>
    obtain ⟨s, hole⟩ := p
    have hrest := ih (before ++ s)
    rw [List.length_append] at hrest
    rw [text_cons, ← List.append_assoc]
    cases hole with
    | false => exact hrest
    | true =>
      have hfirst : ((before ++ s ++ text w).take (before.length + s.length)).drop before.length = s := by
        rw [← List.length_append, List.take_left, List.drop_left]
      rw [holes, List.map_cons, hrest, hfirst, contents_hole]

theorem outside_holes (done before : List α) (w : List (List α × Bool)) :
    outside (done ++ before ++ text w) done.length (holes (done.length + before.length) w) =
      gaps before w := by
  induction w generalizing done before with
  | nil => simp [outside, holes, gaps]
  | cons p w ih =>
    obtain ⟨s, hole⟩ := p
    cases hole with
    | false =>
      have hrest := ih done (before ++ s)
      rw [List.length_append, ← List.append_assoc, ← Nat.add_assoc] at hrest
      rw [text_cons, ← List.append_assoc]
      exact hrest
    | true =>
      have hrest := ih (done ++ before ++ s) []
      simp only [List.append_nil, List.length_append, List.length_nil, Nat.add_zero] at hrest
      have hfirst : ((done ++ before ++ s ++ text w).take (done.length + before.length)).drop
          done.length = before := by
        rw [← List.length_append, List.append_assoc (done ++ before), List.take_left, List.drop_left]
      rw [text_cons, ← List.append_assoc, holes, gaps, outside, hfirst, hrest]

theorem mem_contents {content : List α} {w : List (List α × Bool)} (h : content ∈ contents w) {c : α}
    (hc : c ∈ content) : c ∈ text w := by
  obtain ⟨p, hp, rfl⟩ := List.mem_map.mp h
  exact List.mem_flatMap.mpr ⟨p, List.mem_of_mem_filter hp, hc⟩

section Refill

variable {w : List (List α × Bool)} {news : List (List α)}

theorem contents_refill (h : news.length = (contents w).length) : contents (refill w news) = news := by
  induction w generalizing news with
  | nil =>
    rw [contents_nil, List.length_nil, List.length_eq_zero_iff] at h
    rw [h]
    rfl
  | cons p w ih =>
    obtain ⟨s, hole⟩ := p
    cases hole with
    | false => rw [refill, contents_kept, ih h]
    | true =>
      cases news with
      | nil => cases h
      | cons new news =>
        rw [refill, contents_hole, ih (Nat.succ.inj h)]

/-- What is in a text that was filled was in it, or was filled in. -/
theorem mem_refill {c : α} (h : c ∈ text (refill w news)) : c ∈ text w ∨ ∃ new ∈ news, c ∈ new := by
  induction w generalizing news with
  | nil => cases news <;> exact .inl h
  | cons p w ih =>
    obtain ⟨s, hole⟩ := p
    cases hole with
    | false =>
      rw [refill, text_cons, List.mem_append] at h
      rw [text_cons, List.mem_append]
      rcases h with h | h
      · exact .inl (.inl h)
      · exact (ih h).imp_left .inr
    | true =>
      cases news with
      | nil => exact .inl h
      | cons new news =>
        rw [refill, text_cons, List.mem_append] at h
        rcases h with h | h
        · exact .inr ⟨new, List.mem_cons_self, h⟩
        · rw [text_cons, List.mem_append]
          exact (ih h).imp .inr fun ⟨new', hmem, hc⟩ => ⟨new', List.mem_cons_of_mem _ hmem, hc⟩

theorem gaps_refill (before : List α) (w : List (List α × Bool)) (news : List (List α)) :
    gaps before (refill w news) = gaps before w := by
  induction w generalizing before news with
  | nil => cases news <;> rfl
  | cons p w ih =>
    obtain ⟨s, hole⟩ := p
    cases hole with
    | false => rw [refill, gaps, gaps, ih]
    | true =>
      cases news with
      | nil => rfl
      | cons new news => rw [refill, gaps, gaps, ih]

end Refill

end LinguaMesh.Holes
