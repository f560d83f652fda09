import LinguaMesh.Domain.Text

/-!
# Bytes

A byte buffer is the list of its bytes; `fromUtf8` reads it as text.
-/

namespace LinguaMesh

abbrev Bytes := List UInt8

/-- The bytes of an ASCII literal. -/
def asciiBytes (s : String) : Bytes := s.toList.map fun c => c.toNat.toUInt8

/-- A literal is the list of its characters, which the kernel reads much faster. -/
theorem asciiBytes_ofList (s : Str) :
    asciiBytes (String.ofList s) = s.map fun c => c.toNat.toUInt8 := by
  rw [asciiBytes, String.toList_ofList]

def isContinuation (b : UInt8) : Bool := 0x80 ≤ b && b < 0xC0

/-- The low bits of a continuation byte. -/
def low (b : UInt8) : Nat := b.toNat % 0x40

/-- `std::str::from_utf8`: no overlong forms, no surrogates, nothing over `U+10FFFF`. -/
def fromUtf8 : Bytes → Option Str
  | [] => some []
  | b :: bs =>
    if b < 0x80 then (fromUtf8 bs).map (Char.ofNat b.toNat :: ·)
    else match bs with
    | [] => none
    | c :: bs =>
      if 0xC2 ≤ b && b < 0xE0 && isContinuation c then
        (fromUtf8 bs).map (Char.ofNat (b.toNat % 0x20 * 0x40 + low c) :: ·)
      else match bs with
      | [] => none
      | d :: bs =>
        let code := b.toNat % 0x10 * 0x1000 + low c * 0x40 + low d
        if 0xE0 ≤ b && b < 0xF0 && isContinuation c && isContinuation d &&
            0x800 ≤ code && !(0xD800 ≤ code && code < 0xE000) then
          (fromUtf8 bs).map (Char.ofNat code :: ·)
        else match bs with
        | [] => none
        | e :: bs =>
          let code := b.toNat % 8 * 0x40000 + low c * 0x1000 + low d * 0x40 + low e
          if 0xF0 ≤ b && b < 0xF8 && isContinuation c && isContinuation d && isContinuation e &&
              0x10000 ≤ code && code < 0x110000 then
            (fromUtf8 bs).map (Char.ofNat code :: ·)
          else none

/-! ## ASCII -/

theorem fromUtf8_cons {b : UInt8} (h : b < 0x80) (bs : Bytes) :
    fromUtf8 (b :: bs) = (fromUtf8 bs).map (Char.ofNat b.toNat :: ·) := by
  rw [fromUtf8.eq_def]
  exact if_pos h

theorem toNat_byte {c : Char} (h : c.toNat < 128) : c.toNat.toUInt8.toNat = c.toNat :=
  UInt8.toNat_ofNat_of_lt (by show c.toNat < 256; omega)

theorem fromUtf8_ascii {text : Str} (h : ∀ c ∈ text, c.toNat < 128) :
    fromUtf8 (text.map fun c => c.toNat.toUInt8) = some text := by
  induction text with
  | nil => rfl
  | cons c text ih =>
    obtain ⟨hc, htext⟩ := List.forall_mem_cons.mp h
    have hlt : c.toNat.toUInt8 < 0x80 := by
      rw [UInt8.lt_iff_toNat_lt, toNat_byte hc]
      exact hc
    rw [List.map_cons, fromUtf8_cons hlt, ih htext, toNat_byte hc, Char.ofNat_toNat]
    rfl

/-! ## The length of a decoded text -/

/-- The bytes that the character of a code takes. -/
def utf8Width (n : Nat) : Nat :=
  if n ≤ 0x7F then 1 else if n ≤ 0x7FF then 2 else if n ≤ 0xFFFF then 3 else 4

theorem utf8Size_ofNat_le (n : Nat) : (Char.ofNat n).utf8Size ≤ utf8Width n := by
  unfold utf8Width
  by_cases h : n.isValidChar
  · have hval : (Char.ofNat n).val.toNat = n := by
      rw [Char.ofNat, dif_pos h]
      rfl
    unfold Char.utf8Size
    simp only [UInt32.le_iff_toNat_le, hval]
    rfl
  · have h1 : (Char.ofNat n).utf8Size = 1 := by
      rw [Char.ofNat, dif_neg h]
      rfl
    rw [h1]
    repeat' split
    all_goals omega

theorem width_le {n k : Nat}
    (h : n ≤ 0x7F ∧ k = 1 ∨ n ≤ 0x7FF ∧ k = 2 ∨ n ≤ 0xFFFF ∧ k = 3 ∨ k = 4) : utf8Width n ≤ k := by
  unfold utf8Width
  repeat' split
  all_goals omega

theorem low_lt (b : UInt8) : low b < 0x40 := Nat.mod_lt _ (by decide)

theorem utf8Len_fromUtf8 {bs : Bytes} {s : Str} (h : fromUtf8 bs = some s) :
    utf8Len s ≤ bs.length := by
  have step {bs : Bytes} {s : Str} {n k : Nat} (hn : utf8Width n ≤ k)
      (ih : ∀ s, fromUtf8 bs = some s → utf8Len s ≤ bs.length)
      (h : (fromUtf8 bs).map (Char.ofNat n :: ·) = some s) : utf8Len s ≤ bs.length + k := by
    obtain ⟨t, ht, rfl⟩ := Option.map_eq_some_iff.mp h
    have h1 := utf8Size_ofNat_le n
    have h2 := ih t ht
    rw [utf8Len, List.map_cons, List.sum_cons]
    unfold utf8Len at h2
    omega
  fun_induction fromUtf8 bs generalizing s with
  | case1 => cases h; exact Nat.zero_le _
  | case2 b bs hb ih =>
    have hb' : b.toNat < 0x80 := UInt8.lt_iff_toNat_lt.mp hb
    exact step (k := 1) (width_le (by omega)) (fun _ => ih) h
  | case4 b hb c bs hc ih =>
    have := low_lt c
    exact step (k := 2) (width_le (by omega)) (fun _ => ih) h
  | case6 b hb c hc d bs code hd =>
    rename_i ih
    have := low_lt c
    have := low_lt d
    exact step (k := 3) (width_le (by omega)) (fun _ => ih) h
  | case8 b hb c hc d code hd e bs code' he =>
    rename_i ih
    exact step (k := 4) (width_le (by omega)) (fun _ => ih) h
  | case3 | case5 | case7 | case9 => cases h

end LinguaMesh
