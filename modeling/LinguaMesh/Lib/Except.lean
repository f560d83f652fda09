/-!
# Runs that may fail

A `do` block over `Except` returns a value when each of its steps does:
`bind_ok` takes the first step off. `ok_bind` and `error_bind` run it. `refuseIf` is
a check that returns nothing but its error; `Checked` is a value that passed one.
-/

namespace Except

universe u v

variable {ε : Type u} {α β : Type v}

theorem bind_ok {x : Except ε α} {f : α → Except ε β} {b : β} :
    (x >>= f) = .ok b ↔ ∃ a, x = .ok a ∧ f a = .ok b := by
  cases x with
  | error e => simp [bind, Except.bind]
  | ok a => simp [bind, Except.bind]

/-- `bind_ok` for a check, which has no value. -/
theorem check_ok {x : Except ε PUnit} {f : PUnit → Except ε β} {b : β} :
    (x >>= f) = .ok b ↔ x = .ok ⟨⟩ ∧ f ⟨⟩ = .ok b :=
  bind_ok.trans ⟨fun ⟨_, hx, hb⟩ => ⟨hx, hb⟩, fun ⟨hx, hb⟩ => ⟨_, hx, hb⟩⟩

/-- `bind_ok` for a step that only changes the value. -/
theorem bind_map_ok {x : Except ε α} {f : α → β} {b : β} :
    (x >>= fun a => .ok (f a)) = .ok b ↔ ∃ a, x = .ok a ∧ f a = b :=
  bind_ok.trans (by simp)

@[simp] theorem ok_bind (a : α) (f : α → Except ε β) : ((.ok a : Except ε α) >>= f) = f a := rfl

@[simp] theorem error_bind (e : ε) (f : α → Except ε β) :
    ((.error e : Except ε α) >>= f) = .error e := rfl

@[simp] theorem ok_mapError {ε' : Type u} (a : α) (f : ε → ε') :
    (.ok a : Except ε α).mapError f = .ok a := rfl

@[simp] theorem error_mapError {ε' : Type u} (e : ε) (f : ε → ε') :
    (.error e : Except ε α).mapError f = .error (f e) := rfl

theorem mapError_ok {ε' : Type u} {x : Except ε α} {f : ε → ε'} {a : α} :
    x.mapError f = .ok a ↔ x = .ok a := by
  cases x <;> simp

theorem map_eq_ok {x : Except ε α} {f : α → β} {b : β} :
    x.map f = .ok b ↔ ∃ a, x = .ok a ∧ f a = b := by
  cases x <;> simp [Except.map]

theorem map_eq_error {x : Except ε α} {f : α → β} {e : ε} :
    x.map f = .error e ↔ x = .error e := by
  cases x <;> simp [Except.map]

theorem map_bind {γ : Type v} (x : Except ε α) (f : α → Except ε β) (g : β → γ) :
    (x >>= f).map g = x >>= fun a => (f a).map g := by
  cases x <;> rfl

theorem bind_congr_right {x : Except ε α} {f g : α → Except ε β} (h : ∀ a, f a = g a) :
    (x >>= f) = (x >>= g) := congrArg (x >>= ·) (funext h)

/-- The error, if the check fails. -/
def refuseIf (bad : Bool) (e : ε) : Except ε PUnit := if bad then .error e else .ok ⟨⟩

@[simp] theorem refuseIf_ok {bad : Bool} {e : ε} {u : PUnit} :
    refuseIf bad e = .ok u ↔ bad = false := by
  cases bad <;> simp [refuseIf]

theorem forM_ok {f : α → Except ε PUnit} {l : List α} {u : PUnit} :
    l.forM f = .ok u ↔ ∀ a ∈ l, f a = .ok ⟨⟩ := by
  induction l with
  | nil => exact ⟨fun _ => nofun, fun _ => rfl⟩
  | cons a l ih =>
    show (f a >>= fun _ => l.forM f) = .ok u ↔ _
    rw [bind_ok, List.forall_mem_cons, ← ih]
    exact ⟨fun ⟨_, ha, hl⟩ => ⟨ha, hl⟩, fun ⟨ha, hl⟩ => ⟨_, ha, hl⟩⟩

theorem mapM_eq_map {f : α → Except ε β} {g : α → β} {l : List α} :
    l.mapM f = .ok (l.map g) ↔ ∀ a ∈ l, f a = .ok (g a) := by
  induction l with
  | nil => exact ⟨fun _ => nofun, fun _ => rfl⟩
  | cons a l ih =>
    rw [List.mapM_cons, List.forall_mem_cons, ← ih]
    constructor
    · intro h
      obtain ⟨b, hb, h⟩ := bind_ok.mp h
      obtain ⟨bs, hbs, h⟩ := bind_ok.mp h
      obtain ⟨rfl, rfl⟩ := List.cons.inj (Except.ok.inj h)
      exact ⟨hb, hbs⟩
    · rintro ⟨ha, hl⟩
      rw [ha, hl]
      rfl

/-- A value that passes a check. -/
@[ext] structure Checked (check : α → Except ε PUnit) where
  value : α
  valid : check value = .ok ⟨⟩

namespace Checked

variable {check : α → Except ε PUnit}

/-- The value, if it passes. -/
def accept (check : α → Except ε PUnit) (value : α) : Except ε (Checked check) :=
  match h : check value with
  | .ok ⟨⟩ => .ok ⟨value, h⟩
  | .error e => .error e

/-- A value that passed is accepted again. -/
@[simp] theorem accept_value (c : Checked check) : accept check c.value = .ok c := by
  unfold accept
  split
  · rfl
  · rename_i h
    rw [c.valid] at h
    cases h

end Checked

end Except
