import LinguaMesh.Lib.Except

/-!
# Nested tokens

A stream of tokens opens and closes elements around its leaves. `unclosed` matches
each closing name with the element that is open; a stream that leaves nothing open
is written by a forest (`exists_forest`), so that what a pass over the tokens does
can be said, and proved by induction, over the forest.
-/

namespace LinguaMesh.Nesting

/-- Names of elements, what an opening tag says about its element, and leaves. -/
inductive Token (N D L : Type) where
  | opening (name : N) (data : D)
  | closing (name : N)
  | leaf (value : L)
  deriving DecidableEq, Repr

/-- Elements and leaves in order. -/
inductive Forest (N D L : Type) where
  | nil
  | leaf (value : L) (rest : Forest N D L)
  | element (name : N) (data : D) (content rest : Forest N D L)
  deriving DecidableEq, Repr

variable {N D L : Type}

def Forest.tokens : Forest N D L → List (Token N D L)
  | nil => []
  | leaf value rest => .leaf value :: rest.tokens
  | element name data content rest =>
    .opening name data :: (content.tokens ++ .closing name :: rest.tokens)

section Passes

variable {σ ε : Type} {step : σ → Token N D L → Except ε σ} {s s' : σ}

theorem run_leaf {value : L} {rest : Forest N D L} :
    (Forest.leaf value rest).tokens.foldlM step s = .ok s' ↔
      ∃ s1, step s (.leaf value) = .ok s1 ∧ rest.tokens.foldlM step s1 = .ok s' := by
  rw [Forest.tokens, List.foldlM_cons]
  exact Except.bind_ok

/-- A pass over an element: its opening, its content, its closing, and what is behind it. -/
theorem run_element {name : N} {data : D} {content rest : Forest N D L} :
    (Forest.element name data content rest).tokens.foldlM step s = .ok s' ↔
      ∃ s1 s2 s3, step s (.opening name data) = .ok s1 ∧ content.tokens.foldlM step s1 = .ok s2 ∧
        step s2 (.closing name) = .ok s3 ∧ rest.tokens.foldlM step s3 = .ok s' := by
  rw [Forest.tokens, List.foldlM_cons]
  constructor
  · intro h
    obtain ⟨s1, h1, h⟩ := Except.bind_ok.mp h
    rw [List.foldlM_append] at h
    obtain ⟨s2, h2, h⟩ := Except.bind_ok.mp h
    rw [List.foldlM_cons] at h
    obtain ⟨s3, h3, h⟩ := Except.bind_ok.mp h
    exact ⟨s1, s2, s3, h1, h2, h3, h⟩
  · rintro ⟨s1, s2, s3, h1, h2, h3, h⟩
    rw [h1, Except.ok_bind, List.foldlM_append, h2, Except.ok_bind, List.foldlM_cons, h3,
      Except.ok_bind, h]

end Passes

section Matching

variable [DecidableEq N]

/-- The elements that are open after the tokens, the innermost first; none if a name closes an
element that is not the innermost. -/
def unclosed : List N → List (Token N D L) → Option (List N)
  | opened, [] => some opened
  | opened, .leaf _ :: tokens => unclosed opened tokens
  | opened, .opening name _ :: tokens => unclosed (name :: opened) tokens
  | [], .closing _ :: _ => none
  | innermost :: opened, .closing name :: tokens =>
    if innermost = name then unclosed opened tokens else none

/-- The tokens that close the open elements, with a forest after each. -/
def closings : List (N × Forest N D L) → List (Token N D L)
  | [] => []
  | (name, after) :: rest => .closing name :: (after.tokens ++ closings rest)

theorem exists_closings {tokens : List (Token N D L)} {opened : List N}
    (h : unclosed opened tokens = some []) :
    ∃ (f : Forest N D L) (rest : List (N × Forest N D L)),
      tokens = f.tokens ++ closings rest ∧ rest.map Prod.fst = opened := by
  induction tokens generalizing opened with
  | nil =>
    cases h
    exact ⟨.nil, [], rfl, rfl⟩
  | cons t tokens ih =>
    cases t with
    | leaf value =>
      obtain ⟨f, rest, rfl, hrest⟩ := ih (by simpa only [unclosed] using h)
      exact ⟨.leaf value f, rest, rfl, hrest⟩
    | opening name data =>
      obtain ⟨content, rest, rfl, hrest⟩ := ih (by simpa only [unclosed] using h)
      cases rest with
      | nil => cases hrest
      | cons first rest =>
        obtain ⟨closed, after⟩ := first
        obtain ⟨hname, htail⟩ := List.cons.inj hrest
        refine ⟨.element name data content after, rest, ?_, htail⟩
        rw [← hname, closings, Forest.tokens, List.cons_append, List.append_assoc, List.cons_append]
    | closing name =>
      cases opened with
      | nil => cases h
      | cons innermost opened =>
        unfold unclosed at h
        split at h
        · rename_i hname
          subst hname
          obtain ⟨after, rest, rfl, hrest⟩ := ih h
          exact ⟨.nil, (innermost, after) :: rest, rfl, by rw [List.map_cons, hrest]⟩
        · cases h

/-- A stream that leaves nothing open is written by a forest. -/
theorem exists_forest {tokens : List (Token N D L)} (h : unclosed [] tokens = some []) :
    ∃ f : Forest N D L, f.tokens = tokens := by
  obtain ⟨f, rest, rfl, hrest⟩ := exists_closings h
  rw [List.map_eq_nil_iff] at hrest
  subst hrest
  exact ⟨f, (List.append_nil _).symm⟩

end Matching

end LinguaMesh.Nesting
