import LinguaMesh.Lib.Except
import Mathlib.Data.List.Forall2

/-!
# Programs over a byte buffer

The part of Rust that scanners are written in: slices that panic out of range,
`while` loops, an error that is returned. A run is an `Except (Fault ε) α`; its
error is the `err` the function returns, a `panic`, or a loop that did not end
(`hang`, so that running out of turns is never mistaken for a result).

`Post x Q` is the total-correctness judgement: `x` returns, either an `err` or a
value with `Q`. A loop is shown to return by an invariant and a measure
(`Post.loop`), a fold by an invariant over what it has consumed (`Post.foldlM`).
-/

namespace LinguaMesh

universe u

inductive Fault (ε : Type u) where
  | err (e : ε)
  | panic
  | hang
  deriving DecidableEq, Repr

/-- A computation that returns a value, returns an error, panics or hangs. -/
abbrev Run (ε α : Type u) := Except (Fault ε) α

/-- One turn of a loop: go on from a state, or leave the loop with a value. -/
inductive Turn (σ α : Type u) where
  | next (s : σ)
  | done (a : α)

namespace Turn

variable {σ τ α β : Type u}

def map (f : σ → τ) (g : α → β) : Turn σ α → Turn τ β
  | next s => next (f s)
  | done a => done (g a)

@[simp] theorem map_next (f : σ → τ) (g : α → β) (s : σ) : map f g (next s) = next (f s) := rfl

@[simp] theorem map_done (f : σ → τ) (g : α → β) (a : α) : map f g (done a) = done (g a) := rfl

/-- The turn keeps the invariant `I` and makes the measure `μ` smaller than it was at `s`, or
leaves the loop with a value that has `Q`. -/
def Good (I : σ → Prop) (μ : σ → Nat) (Q : α → Prop) (s : σ) : Turn σ α → Prop
  | next s' => I s' ∧ μ s' < μ s
  | done a => Q a

@[simp] theorem good_next {I : σ → Prop} {μ : σ → Nat} {Q : α → Prop} {s s' : σ} :
    Good I μ Q s (next s') ↔ I s' ∧ μ s' < μ s := Iff.rfl

@[simp] theorem good_done {I : σ → Prop} {μ : σ → Nat} {Q : α → Prop} {s : σ} {a : α} :
    Good I μ Q s (done a) ↔ Q a := Iff.rfl

end Turn

namespace Run

variable {ε σ τ α β : Type u}

/-- The error `e`, returned. -/
def fail (e : ε) : Run ε α := .error (.err e)

def ofOption (e : ε) : Option α → Run ε α
  | none => fail e
  | some a => .ok a

/-- A loop of at most `n` turns. -/
def loop (turn : σ → Run ε (Turn σ α)) : Nat → σ → Run ε α
  | 0, _ => .error .hang
  | n + 1, s => do
    match ← turn s with
    | .next s => loop turn n s
    | .done a => .ok a

/-- `&data[start..stop]`. -/
def sliceOf {γ : Type u} (data : List γ) (start stop : Nat) : Run ε (List γ) :=
  if start ≤ stop ∧ stop ≤ data.length then .ok ((data.take stop).drop start) else .error .panic

/-- `&data[start..]`. -/
def tailOf {γ : Type u} (data : List γ) (start : Nat) : Run ε (List γ) :=
  sliceOf data start data.length

/-- `Vec::splice` over `start..stop`. -/
def splice {γ : Type u} (data : List γ) (start stop : Nat) (new : List γ) : Run ε (List γ) :=
  if start ≤ stop ∧ stop ≤ data.length then .ok (data.take start ++ new ++ data.drop stop)
  else .error .panic

/-- The run returns: an error of its own, or a value with `Q`. -/
def Post (x : Run ε α) (Q : α → Prop) : Prop :=
  match x with
  | .ok a => Q a
  | .error (.err _) => True
  | .error _ => False

/-- The run returns `Ok` or `Err`. -/
def Returns (x : Run ε α) : Prop := Post x fun _ => True

section Rules

variable {x : Run ε α} {Q R : α → Prop}

@[simp] theorem post_ok {a : α} : Post (.ok a : Run ε α) Q ↔ Q a := Iff.rfl

@[simp] theorem post_pure {a : α} : Post (pure a : Run ε α) Q ↔ Q a := Iff.rfl

@[simp] theorem post_fail {e : ε} : Post (fail e : Run ε α) Q := trivial

@[simp] theorem not_post_panic : ¬ Post (.error .panic : Run ε α) Q := id

theorem Post.mono (h : Post x Q) (hQ : ∀ a, Q a → R a) : Post x R := by
  match x, h with
  | .ok a, h => exact hQ a h
  | .error (.err _), _ => trivial

theorem Post.returns (h : Post x Q) : Returns x := h.mono fun _ _ => trivial

theorem Post.ok {a : α} (h : Post x Q) (hx : x = .ok a) : Q a := by
  subst hx
  exact h

theorem Post.bind {f : α → Run ε β} {R : β → Prop} (h : Post x Q) (hf : ∀ a, Q a → Post (f a) R) :
    Post (x >>= f) R := by
  match x, h with
  | .ok a, h => exact hf a h
  | .error (.err _), _ => trivial

/-- What is known of a run that returned a value is what it computed. -/
theorem Post.self (h : Post x Q) : Post x fun a => x = .ok a ∧ Q a := by
  match x, h with
  | .ok a, h => exact ⟨rfl, h⟩
  | .error (.err _), _ => trivial

theorem post_ofOption {e : ε} {o : Option α} (h : ∀ a, o = some a → Q a) : Post (ofOption e o) Q := by
  cases o with
  | none => trivial
  | some a => exact h a rfl

@[simp] theorem ofOption_eq_ok {e : ε} {o : Option α} {a : α} :
    ofOption e o = .ok a ↔ o = some a := by
  cases o <;> simp [ofOption, fail]

theorem post_map {f : α → β} {R : β → Prop} : Post (x.map f) R ↔ Post x fun a => R (f a) := by
  match x with
  | .ok _ => exact Iff.rfl
  | .error (.err _) => exact Iff.rfl
  | .error .panic => exact Iff.rfl
  | .error .hang => exact Iff.rfl

/-- The loop rule: every turn from a state of the invariant is a good one. -/
theorem Post.loop {turn : σ → Run ε (Turn σ α)} (I : σ → Prop) (μ : σ → Nat)
    (hturn : ∀ s, I s → Post (turn s) (Turn.Good I μ Q s)) :
    ∀ {n s}, I s → μ s < n → Post (loop turn n s) Q := by
  intro n
  induction n with
  | zero => intro s _ h; exact absurd h (Nat.not_lt_zero _)
  | succ n ih =>
    intro s hI hn
    refine (hturn s hI).bind fun t ht => ?_
    cases t with
    | next s' => exact ih ht.1 (Nat.lt_of_lt_of_le ht.2 (Nat.le_of_lt_succ hn))
    | done a => exact ht

theorem loop_next {turn : σ → Run ε (Turn σ α)} {n : Nat} {s s' : σ} (h : turn s = .ok (.next s')) :
    loop turn (n + 1) s = loop turn n s' := by
  rw [loop, h]
  rfl

theorem loop_done {turn : σ → Run ε (Turn σ α)} {n : Nat} {s : σ} {a : α}
    (h : turn s = .ok (.done a)) : loop turn (n + 1) s = .ok a := by
  rw [loop, h]
  rfl

/-- What holds of the result of a loop, from its last turn backwards. -/
theorem loop_ok {turn : σ → Run ε (Turn σ α)} {P : σ → α → Prop}
    (hdone : ∀ s a, turn s = .ok (.done a) → P s a)
    (hnext : ∀ s s' a, turn s = .ok (.next s') → P s' a → P s a) {n : Nat} {s : σ} {a : α}
    (h : loop turn n s = .ok a) : P s a := by
  induction n generalizing s with
  | zero => cases h
  | succ n ih =>
    unfold loop at h
    obtain ⟨t, ht, h⟩ := Except.bind_ok.mp h
    cases t with
    | next s' => exact hnext s s' a ht (ih h)
    | done a' =>
      cases h
      exact hdone s _ ht

/-- Two loops that go turn by turn together. -/
theorem loop_map {turn : σ → Run ε (Turn σ α)} {turn' : τ → Run ε (Turn τ β)} (f : σ → τ)
    (g : α → β) (h : ∀ s, turn' (f s) = (turn s).map (Turn.map f g)) (n : Nat) (s : σ) :
    loop turn' n (f s) = (loop turn n s).map g := by
  induction n generalizing s with
  | zero => rfl
  | succ n ih =>
    unfold loop
    rw [h]
    cases turn s with
    | error e => rfl
    | ok t =>
      cases t with
      | next s' => exact ih s'
      | done a => rfl

/-- The fold rule. -/
theorem Post.foldlM {f : β → α → Run ε β} (I : β → Prop) {l : List α} {b : β} (hb : I b)
    (hf : ∀ b, ∀ a ∈ l, I b → Post (f b a) I) : Post (l.foldlM f b) I := by
  induction l generalizing b with
  | nil => exact hb
  | cons a l ih =>
    rw [List.foldlM_cons]
    refine (hf b a (by simp) hb).bind fun b' hb' => ?_
    exact ih hb' fun b a ha => hf b a (by simp [ha])

theorem Post.mapM {f : α → Run ε β} {R : α → β → Prop} {l : List α}
    (hf : ∀ a ∈ l, Post (f a) (R a)) : Post (l.mapM f) (List.Forall₂ R l) := by
  induction l with
  | nil => exact .nil
  | cons a l ih =>
    rw [List.mapM_cons]
    refine (hf a (by simp)).bind fun b hb => ?_
    exact (ih fun a ha => hf a (by simp [ha])).bind fun bs hbs => .cons hb hbs

/-- Each result of a `mapM` comes from an item. -/
theorem exists_of_mem_results {α β : Type u} {R : α → β → Prop} {l : List α} {m : List β} {b : β}
    (h : List.Forall₂ R l m) (hb : b ∈ m) : ∃ a ∈ l, R a b := by
  induction h with
  | nil => exact absurd hb List.not_mem_nil
  | cons h0 _ ih =>
    rcases List.mem_cons.mp hb with rfl | hb
    · exact ⟨_, List.mem_cons_self, h0⟩
    · obtain ⟨a, ha, hR⟩ := ih hb
      exact ⟨a, List.mem_cons_of_mem _ ha, hR⟩

/-- The first panic of a `mapM` is its result. -/
theorem mapM_panic {f : α → Run ε β} {a : α} {l : List α} (h : f a = .error .panic) :
    (a :: l).mapM f = .error .panic := by
  rw [List.mapM_cons, h]
  rfl

/-- The run gives `a`, or it runs out of turns. -/
def Yields (x : Run ε α) (a : α) : Prop := x = .ok a ∨ x = .error .hang

theorem Yields.bind {f : α → Run ε β} {a : α} {b : β} (h : Yields x a) (hf : Yields (f a) b) :
    Yields (x >>= f) b := by
  rcases h with rfl | rfl
  · exact hf
  · exact .inr rfl

theorem Yields.eq {a : α} (h : Yields x a) (hx : Returns x) : x = .ok a := by
  rcases h with h | rfl
  · exact h
  · exact absurd hx id

end Rules

section Slices

variable {γ : Type u} {data : List γ} {start stop : Nat}

theorem sliceOf_ok (h1 : start ≤ stop) (h2 : stop ≤ data.length) :
    (sliceOf data start stop : Run ε (List γ)) = .ok ((data.take stop).drop start) := by
  unfold sliceOf
  rw [if_pos ⟨h1, h2⟩]

theorem sliceOf_panic (h : ¬ (start ≤ stop ∧ stop ≤ data.length)) :
    (sliceOf data start stop : Run ε (List γ)) = .error .panic := by
  unfold sliceOf
  rw [if_neg h]

theorem post_sliceOf (h1 : start ≤ stop) (h2 : stop ≤ data.length) :
    Post (sliceOf data start stop : Run ε (List γ)) fun part => part.length = stop - start := by
  rw [sliceOf_ok h1 h2]
  simp only [post_ok, List.length_drop, List.length_take]
  omega

theorem post_tailOf (h : start ≤ data.length) :
    Post (tailOf data start : Run ε (List γ)) fun part => part = data.drop start := by
  unfold tailOf
  rw [sliceOf_ok h (Nat.le_refl _), List.take_length]
  exact rfl

theorem splice_ok {new : List γ} (h1 : start ≤ stop) (h2 : stop ≤ data.length) :
    (splice data start stop new : Run ε (List γ)) =
      .ok (data.take start ++ new ++ data.drop stop) := by
  unfold splice
  rw [if_pos ⟨h1, h2⟩]

end Slices

end Run

end LinguaMesh
