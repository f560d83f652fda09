import Mathlib.Data.List.Induction

/-!
# Numerals without a zero

In base `b` the digits of these numerals stand for 1 to `b` (a digit is written as the number
before it). So each number has one numeral, and 0 the empty one: `value` and `digits` are
inverse.
-/

namespace LinguaMesh.Numeration

variable {b : Nat}

/-- The number after one more digit. -/
def shift (b n d : Nat) : Nat := n * b + (d + 1)

def value (b : Nat) (ds : List Nat) : Nat := ds.foldl (shift b) 0

/-- The numeral of a number. -/
def digits (b n : Nat) : List Nat :=
  if _h : n = 0 then [] else digits b ((n - 1) / b) ++ [(n - 1) % b]
termination_by n
decreasing_by exact Nat.lt_of_le_of_lt (Nat.div_le_self _ _) (Nat.sub_one_lt _h)

@[simp] theorem value_nil : value b [] = 0 := rfl

@[simp] theorem value_snoc (ds : List Nat) (d : Nat) : value b (ds ++ [d]) = shift b (value b ds) d := by
  unfold value
  rw [List.foldl_append]
  rfl

@[simp] theorem digits_zero : digits b 0 = [] := by
  rw [digits, dif_pos rfl]

theorem digits_shift {n : Nat} (hd : n < b) (m : Nat) : digits b (shift b m n) = digits b m ++ [n] := by
  have hb : 0 < b := Nat.lt_of_le_of_lt (Nat.zero_le _) hd
  have hpred : shift b m n - 1 = n + b * m := by
    unfold shift
    rw [Nat.mul_comm]
    omega
  rw [digits, dif_neg (by unfold shift; omega), hpred, Nat.add_mul_div_left _ _ hb, Nat.div_eq_of_lt hd,
    Nat.zero_add, Nat.add_mul_mod_self_left, Nat.mod_eq_of_lt hd]

theorem value_digits (n : Nat) : value b (digits b n) = n := by
  fun_induction digits b n with
  | case1 => rfl
  | case2 n h ih =>
    have hdiv := Nat.div_add_mod (n - 1) b
    rw [value_snoc, ih]
    unfold shift
    rw [Nat.mul_comm]
    omega

theorem digits_value {ds : List Nat} (h : ∀ d ∈ ds, d < b) : digits b (value b ds) = ds := by
  induction ds using List.reverseRecOn with
  | nil => exact digits_zero
  | append_singleton ds d ih =>
    have hd := h d (List.mem_append_right _ List.mem_cons_self)
    rw [value_snoc, digits_shift hd, ih fun e he => h e (List.mem_append_left _ he)]

theorem digits_lt (hb : 0 < b) (n : Nat) : ∀ d ∈ digits b n, d < b := by
  fun_induction digits b n with
  | case1 => exact nofun
  | case2 n h ih =>
    intro d hd
    rcases List.mem_append.mp hd with hd | hd
    · exact ih d hd
    · rw [List.mem_singleton.mp hd]
      exact Nat.mod_lt _ hb

/-- A number has one numeral. -/
theorem value_inj {ds es : List Nat} (hds : ∀ d ∈ ds, d < b) (hes : ∀ d ∈ es, d < b) :
    value b ds = value b es ↔ ds = es := by
  refine ⟨fun h => ?_, fun h => by rw [h]⟩
  rw [← digits_value hds, h, digits_value hes]

theorem le_shift (hb : 0 < b) (n d : Nat) : n * b < shift b n d ∧ n < shift b n d := by
  unfold shift
  have := Nat.le_mul_of_pos_right n hb
  omega

/-- The number grows with its numeral. -/
theorem le_foldl (hb : 0 < b) (ds : List Nat) (n : Nat) : n ≤ ds.foldl (shift b) n := by
  induction ds generalizing n with
  | nil => exact Nat.le_refl _
  | cons d ds ih => exact Nat.le_trans (Nat.le_of_lt (le_shift hb n d).2) (ih _)

end LinguaMesh.Numeration
