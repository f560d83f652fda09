import LinguaMesh.Lib.Atomic

/-!
# Histories of calls

What the user of a store sees is a history: the calls that were made, one after the other, each with
the statements of it that failed and its result. A `Design` says what the store is for: a state of its
own, what a call does to it, what it answers and when it refuses. A history is `Explained` by a design
when every answer is the design's, every refusal is too, and a call that reports another error had its
whole effect or none.

A program that is all or nothing (`Whole`) has to keep to the design only while no statement fails
(`explained_of_quiet`).
-/

namespace LinguaMesh.Transaction

variable {ε σ τ α β : Type}

structure Design (ε τ α β : Type) where
  apply : τ → α → τ
  Answers : τ → α → β → Prop
  Refuses : τ → α → ε → Prop

/-- The design with other names for its calls. -/
def Design.comap {γ : Type} (d : Design ε τ α β) (f : γ → α) : Design ε τ γ β where
  apply x op := d.apply x (f op)
  Answers x op := d.Answers x (f op)
  Refuses x op := d.Refuses x (f op)

structure Call (ε α β : Type) where
  op : α
  faults : List (Option ε)
  result : Except ε β

/-- The history of some calls, and the store after them. -/
def perform (program : α → Sql ε σ β) : σ → List (α × List (Option ε)) → List (Call ε α β) × σ
  | db, [] => ([], db)
  | db, (op, faults) :: rest =>
    let after := program op db faults
    let (calls, db') := perform program after.2.1 rest
    (⟨op, faults, after.1⟩ :: calls, db')

/-- The history leads from one state of the design to another. -/
inductive Explained (d : Design ε τ α β) : τ → List (Call ε α β) → τ → Prop
  | nil {x : τ} : Explained d x [] x
  | answered {x y : τ} {op : α} {b : β} {faults : List (Option ε)} {calls : List (Call ε α β)} :
    d.Answers x op b → Explained d (d.apply x op) calls y → Explained d x (⟨op, faults, .ok b⟩ :: calls) y
  | refused {x y : τ} {op : α} {e : ε} {faults : List (Option ε)} {calls : List (Call ε α β)} :
    d.Refuses x op e → Explained d x calls y → Explained d x (⟨op, faults, .error e⟩ :: calls) y
  /-- A statement failed, and the call had no effect. -/
  | lost {x y : τ} {op : α} {e : ε} {faults : List (Option ε)} {calls : List (Call ε α β)} :
    faults ≠ [] → Explained d x calls y → Explained d x (⟨op, faults, .error e⟩ :: calls) y
  /-- A statement failed that came after the effect. -/
  | late {x y : τ} {op : α} {b : β} {e : ε} {faults : List (Option ε)} {calls : List (Call ε α β)} :
    faults ≠ [] → d.Answers x op b → Explained d (d.apply x op) calls y →
    Explained d x (⟨op, faults, .error e⟩ :: calls) y

variable {d : Design ε τ α β} {x y : τ} {calls : List (Call ε α β)}

/-- What the calls that are answered keep. -/
theorem Explained.invariant {J : τ → Prop} (h : Explained d x calls y) (hx : J x)
    (hkeep : ∀ x op b, J x → d.Answers x op b → J (d.apply x op)) : J y := by
  induction h with
  | nil => exact hx
  | answered hanswer _ ih => exact ih (hkeep _ _ _ hx hanswer)
  | refused _ _ ih => exact ih hx
  | lost _ _ ih => exact ih hx
  | late _ hanswer _ ih => exact ih (hkeep _ _ _ hx hanswer)

/-- What a call ends in keeps to the design, as a caller with no faults sees it. -/
def Agrees (d : Design ε τ α β) (abs : σ → τ) (I : σ → Prop) (op : α) (db : σ) :
    Except ε β × σ × List (Option ε) → Prop
  | (.ok b, db', _) => d.Answers (abs db) op b ∧ abs db' = d.apply (abs db) op ∧ I db'
  | (.error e, db', _) => d.Refuses (abs db) op e ∧ db' = db

variable {abs : σ → τ} {I : σ → Prop} {program : α → Sql ε σ β} {db : σ}

/-- A call, with any of its statements failing. -/
theorem explained_call {op : α} (hI : I db) (hwhole : Whole (program op) db)
    (hquiet : Agrees d abs I op db (program op db [])) (faults : List (Option ε)) :
    I (program op db faults).2.1 ∧
      ∀ {calls y}, Explained d (abs (program op db faults).2.1) calls y →
        Explained d (abs db) (⟨op, faults, (program op db faults).1⟩ :: calls) y := by
  by_cases hnone : faults = []
  · subst hnone
    match program op db [], hquiet with
    | (.ok b, db', _), ⟨hanswer, heffect, hI'⟩ =>
      refine ⟨hI', fun h => .answered hanswer ?_⟩
      rwa [← heffect]
    | (.error e, db', _), ⟨hrefuse, hsame⟩ =>
      cases hsame
      exact ⟨hI, fun h => .refused hrefuse h⟩
  · have hends := hwhole faults
    match program op db faults, program op db [], hquiet, hends with
    | (r, db', _), _, _, .inl ⟨hsame, e, he⟩ =>
      cases hsame
      cases he
      exact ⟨hI, fun h => .lost hnone h⟩
    | (r, db', _), (.ok b, db₀, _), ⟨hanswer, heffect, hI'⟩, .inr ⟨hdb, hresult⟩ =>
      cases hdb
      refine ⟨hI', fun h => ?_⟩
      dsimp only at h
      rw [heffect] at h
      rcases hresult with hr | ⟨e, hr⟩
      · cases hr
        exact .answered hanswer h
      · cases hr
        exact .late hnone hanswer h
    | (r, db', _), (.error e₀, db₀, _), ⟨hrefuse, hsame⟩, .inr ⟨hdb, hresult⟩ =>
      cases hdb
      cases hsame
      refine ⟨hI, fun h => ?_⟩
      rcases hresult with hr | ⟨e, hr⟩
      · cases hr
        exact .refused hrefuse h
      · cases hr
        exact .lost hnone h

/-- Whatever the calls are and whichever of their statements fail, the design explains what they return
and what is left. -/
theorem explained_of_quiet (hI : I db) (hwhole : ∀ op db, I db → Whole (program op) db)
    (hquiet : ∀ op db, I db → Agrees d abs I op db (program op db []))
    (ops : List (α × List (Option ε))) :
    I (perform program db ops).2 ∧
      Explained d (abs db) (perform program db ops).1 (abs (perform program db ops).2) := by
  induction ops generalizing db with
  | nil => exact ⟨hI, .nil⟩
  | cons first rest ih =>
    obtain ⟨op, faults⟩ := first
    obtain ⟨hI', hcall⟩ := explained_call hI (hwhole op db hI) (hquiet op db hI) faults
    obtain ⟨hlast, hrest⟩ := ih hI'
    exact ⟨hlast, hcall hrest⟩

end LinguaMesh.Transaction
