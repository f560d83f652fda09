import LinguaMesh.Domain.Utf8

/-!
# Bytes of a text

`fromUtf8` is the inverse of the encoding: it reads back every text
(`fromUtf8_encode`), and what it reads is the one text with these bytes
(`encode_of_fromUtf8`). So a buffer is text in one way or not at all
(`fromUtf8_iff`).
-/

namespace LinguaMesh

/-- `str::as_bytes`. -/
def encodeUtf8 (s : Str) : Bytes := s.flatMap String.utf8EncodeChar

@[simp] theorem encodeUtf8_nil : encodeUtf8 [] = [] := rfl

@[simp] theorem encodeUtf8_cons (c : Char) (s : Str) :
    encodeUtf8 (c :: s) = String.utf8EncodeChar c ++ encodeUtf8 s := List.flatMap_cons

@[simp] theorem encodeUtf8_append (s t : Str) : encodeUtf8 (s ++ t) = encodeUtf8 s ++ encodeUtf8 t :=
  List.flatMap_append

theorem length_encodeUtf8 (s : Str) : (encodeUtf8 s).length = utf8Len s := by
  induction s with
  | nil => rfl
  | cons c s ih =>
    rw [encodeUtf8_cons, List.length_append, ih, String.length_utf8EncodeChar]
    unfold utf8Len
    rw [List.map_cons, List.sum_cons]

/-! ## Reading the bytes of a character -/

section Read

variable {n : Nat}

theorem toNat_ofNat_byte (h : n < 256) : (UInt8.ofNat n).toNat = n := UInt8.toNat_ofNat_of_lt h

/-- A continuation byte and its low bits. -/
theorem isContinuation_ofNat (h : n < 0x40) : isContinuation (UInt8.ofNat (n + 0x80)) = true := by
  unfold isContinuation
  have hn := toNat_ofNat_byte (n := n + 0x80) (by omega)
  simp only [Bool.and_eq_true, decide_eq_true_eq, UInt8.le_iff_toNat_le, UInt8.lt_iff_toNat_lt, hn]
  simp only [UInt8.reduceToNat]
  omega

theorem low_ofNat (h : n < 0x40) : low (UInt8.ofNat (n + 0x80)) = n := by
  unfold low
  rw [toNat_ofNat_byte (by omega)]
  omega

theorem val_cases (c : Char) : c.val.toNat < 0xD800 ∨ 0xDFFF < c.val.toNat ∧ c.val.toNat < 0x110000 := by
  have := c.valid
  simpa [UInt32.isValidChar, Nat.isValidChar] using this

theorem not_ascii (h : n < 0x40) {lead : Nat} (hlead : 0xC0 ≤ lead) (hsum : n + lead < 0x100) :
    ¬ UInt8.ofNat (n + lead) < 0x80 := by
  rw [UInt8.lt_iff_toNat_lt, toNat_ofNat_byte hsum]
  simp only [UInt8.reduceToNat]
  omega

/-- Bounds of a byte. -/
theorem between_ofNat {lo hi : UInt8} (h : n < 0x100) :
    (lo ≤ UInt8.ofNat n && UInt8.ofNat n < hi) = (lo.toNat ≤ n && n < hi.toNat) := by
  rw [Bool.eq_iff_iff]
  simp only [Bool.and_eq_true, decide_eq_true_eq, UInt8.le_iff_toNat_le, UInt8.lt_iff_toNat_lt,
    toNat_ofNat_byte h]

variable {a b c d : Nat} (bs : Bytes)

theorem fromUtf8_two (ha : 2 ≤ a) (ha' : a < 0x20) (hb : b < 0x40) :
    fromUtf8 (UInt8.ofNat (a + 0xC0) :: UInt8.ofNat (b + 0x80) :: bs) =
      (fromUtf8 bs).map (Char.ofNat (a * 0x40 + b) :: ·) := by
  have hlead : (0xC2 ≤ UInt8.ofNat (a + 0xC0) && UInt8.ofNat (a + 0xC0) < 0xE0) = true := by
    rw [between_ofNat (by omega)]
    simp only [UInt8.reduceToNat, Bool.and_eq_true, decide_eq_true_eq]
    omega
  have hmod : (UInt8.ofNat (a + 0xC0)).toNat % 0x20 = a := by
    rw [toNat_ofNat_byte (by omega)]
    omega
  rw [fromUtf8.eq_def]
  dsimp only
  rw [if_neg (not_ascii (by omega) (Nat.le_refl _) (by omega)),
    if_pos (by rw [hlead, isContinuation_ofNat hb]; rfl), hmod, low_ofNat hb]

theorem fromUtf8_three (ha : a < 0x10) (hb : b < 0x40) (hc : c < 0x40)
    (hlong : 0x800 ≤ a * 0x1000 + b * 0x40 + c)
    (hchar : a * 0x1000 + b * 0x40 + c < 0xD800 ∨ 0xE000 ≤ a * 0x1000 + b * 0x40 + c) :
    fromUtf8 (UInt8.ofNat (a + 0xE0) :: UInt8.ofNat (b + 0x80) :: UInt8.ofNat (c + 0x80) :: bs) =
      (fromUtf8 bs).map (Char.ofNat (a * 0x1000 + b * 0x40 + c) :: ·) := by
  have htwo : (0xC2 ≤ UInt8.ofNat (a + 0xE0) && UInt8.ofNat (a + 0xE0) < 0xE0) = false := by
    rw [between_ofNat (by omega)]
    simp only [UInt8.reduceToNat, Bool.and_eq_false_iff, decide_eq_false_iff_not]
    omega
  have hlead : (0xE0 ≤ UInt8.ofNat (a + 0xE0) && UInt8.ofNat (a + 0xE0) < 0xF0) = true := by
    rw [between_ofNat (by omega)]
    simp only [UInt8.reduceToNat, Bool.and_eq_true, decide_eq_true_eq]
    omega
  have hmod : (UInt8.ofNat (a + 0xE0)).toNat % 0x10 = a := by
    rw [toNat_ofNat_byte (by omega)]
    omega
  have hcode : (0x800 ≤ a * 0x1000 + b * 0x40 + c &&
      !(0xD800 ≤ a * 0x1000 + b * 0x40 + c && a * 0x1000 + b * 0x40 + c < 0xE000 : Bool)) = true := by
    simp only [Bool.and_eq_true, Bool.not_eq_true', Bool.and_eq_false_iff, decide_eq_true_eq,
      decide_eq_false_iff_not]
    omega
  rw [fromUtf8.eq_def]
  dsimp only
  rw [if_neg (not_ascii (by omega) (by decide) (by omega)),
    if_neg (by rw [htwo]; exact Bool.false_ne_true), hmod, low_ofNat hb, low_ofNat hc, hlead,
    isContinuation_ofNat hb, isContinuation_ofNat hc]
  simp only [Bool.true_and]
  rw [if_pos hcode]

theorem fromUtf8_four (ha : a < 8) (hb : b < 0x40) (hc : c < 0x40) (hd : d < 0x40)
    (hlong : 0x10000 ≤ a * 0x40000 + b * 0x1000 + c * 0x40 + d)
    (hchar : a * 0x40000 + b * 0x1000 + c * 0x40 + d < 0x110000) :
    fromUtf8 (UInt8.ofNat (a + 0xF0) :: UInt8.ofNat (b + 0x80) :: UInt8.ofNat (c + 0x80) ::
        UInt8.ofNat (d + 0x80) :: bs) =
      (fromUtf8 bs).map (Char.ofNat (a * 0x40000 + b * 0x1000 + c * 0x40 + d) :: ·) := by
  have htwo : (0xC2 ≤ UInt8.ofNat (a + 0xF0) && UInt8.ofNat (a + 0xF0) < 0xE0) = false := by
    rw [between_ofNat (by omega)]
    simp only [UInt8.reduceToNat, Bool.and_eq_false_iff, decide_eq_false_iff_not]
    omega
  have hthree : (0xE0 ≤ UInt8.ofNat (a + 0xF0) && UInt8.ofNat (a + 0xF0) < 0xF0) = false := by
    rw [between_ofNat (by omega)]
    simp only [UInt8.reduceToNat, Bool.and_eq_false_iff, decide_eq_false_iff_not]
    omega
  have hlead : (0xF0 ≤ UInt8.ofNat (a + 0xF0) && UInt8.ofNat (a + 0xF0) < 0xF8) = true := by
    rw [between_ofNat (by omega)]
    simp only [UInt8.reduceToNat, Bool.and_eq_true, decide_eq_true_eq]
    omega
  have hmod : (UInt8.ofNat (a + 0xF0)).toNat % 8 = a := by
    rw [toNat_ofNat_byte (by omega)]
    omega
  have hcode : (0x10000 ≤ a * 0x40000 + b * 0x1000 + c * 0x40 + d &&
      a * 0x40000 + b * 0x1000 + c * 0x40 + d < 0x110000 : Bool) = true := by
    simp only [Bool.and_eq_true, decide_eq_true_eq]
    omega
  rw [fromUtf8.eq_def]
  dsimp only
  rw [if_neg (not_ascii (by omega) (by decide) (by omega)),
    if_neg (by rw [htwo]; exact Bool.false_ne_true),
    if_neg (by rw [hthree]; exact Bool.false_ne_true), hmod, low_ofNat hb, low_ofNat hc, low_ofNat hd,
    hlead, isContinuation_ofNat hb, isContinuation_ofNat hc, isContinuation_ofNat hd]
  simp only [Bool.true_and]
  rw [if_pos hcode]

theorem fromUtf8_encodeChar (c : Char) :
    fromUtf8 (String.utf8EncodeChar c ++ bs) = (fromUtf8 bs).map (c :: ·) := by
  have hvalid := val_cases c
  have hback : Char.ofNat c.val.toNat = c := Char.ofNat_toNat c
  unfold String.utf8EncodeChar
  generalize hv : c.val.toNat = v at hvalid hback
  dsimp only
  split
  · rename_i h1
    have hn := toNat_ofNat_byte (n := v) (by omega)
    have hlt : UInt8.ofNat v < 0x80 := by
      rw [UInt8.lt_iff_toNat_lt, hn]
      exact Nat.lt_succ_of_le h1
    rw [List.singleton_append, fromUtf8_cons hlt, hn, hback]
  split
  · refine (fromUtf8_two bs (a := v / 64 % 0x20) (b := v % 0x40) ?_ ?_ ?_).trans ?_
    · omega
    · omega
    · omega
    · rw [show v / 64 % 0x20 * 0x40 + v % 0x40 = v by omega, hback]
  split
  · have hsum : v / 4096 % 0x10 * 0x1000 + v / 64 % 0x40 * 0x40 + v % 0x40 = v := by omega
    refine (fromUtf8_three bs (a := v / 4096 % 0x10) (b := v / 64 % 0x40) (c := v % 0x40) ?_ ?_ ?_ ?_ ?_).trans ?_
    · omega
    · omega
    · omega
    · omega
    · omega
    · rw [hsum, hback]
  · have hsum : v / 262144 % 8 * 0x40000 + v / 4096 % 0x40 * 0x1000 + v / 64 % 0x40 * 0x40 + v % 0x40 = v := by
      omega
    refine (fromUtf8_four bs (a := v / 262144 % 8) (b := v / 4096 % 0x40) (c := v / 64 % 0x40)
      (d := v % 0x40) ?_ ?_ ?_ ?_ ?_ ?_).trans ?_
    · omega
    · omega
    · omega
    · omega
    · omega
    · omega
    · rw [hsum, hback]

end Read

theorem fromUtf8_encode (s : Str) : fromUtf8 (encodeUtf8 s) = some s := by
  induction s with
  | nil => rfl
  | cons c s ih =>
    rw [encodeUtf8_cons, fromUtf8_encodeChar, ih]
    rfl

/-! ## The bytes that were read -/

section Written

variable {n : Nat} {b c d e : UInt8}

theorem ofNat_eq (h : n = b.toNat) : UInt8.ofNat n = b := by
  rw [h, UInt8.ofNat_toNat]

theorem val_ofNat (h : n < 0xD800 ∨ 0xDFFF < n ∧ n < 0x110000) : (Char.ofNat n).val.toNat = n := by
  rw [Char.ofNat, dif_pos h]
  rfl

theorem isContinuation_bounds (h : isContinuation b = true) : 0x80 ≤ b.toNat ∧ b.toNat < 0xC0 := by
  unfold isContinuation at h
  simpa only [Bool.and_eq_true, decide_eq_true_eq, UInt8.le_iff_toNat_le, UInt8.lt_iff_toNat_lt,
    UInt8.reduceToNat] using h

theorem encode_one (h : b < 0x80) : String.utf8EncodeChar (Char.ofNat b.toNat) = [b] := by
  rw [UInt8.lt_iff_toNat_lt] at h
  simp only [UInt8.reduceToNat] at h
  unfold String.utf8EncodeChar
  rw [val_ofNat (by omega)]
  dsimp only
  rw [if_pos (by omega), UInt8.ofNat_toNat]

theorem encode_two (hb : 0xC2 ≤ b.toNat) (hb' : b.toNat < 0xE0) (hc : isContinuation c = true) :
    String.utf8EncodeChar (Char.ofNat (b.toNat % 0x20 * 0x40 + low c)) = [b, c] := by
  obtain ⟨hc1, hc2⟩ := isContinuation_bounds hc
  unfold low String.utf8EncodeChar
  rw [val_ofNat (by omega)]
  dsimp only
  rw [if_neg (by omega), if_pos (by omega), ofNat_eq (b := b) (by omega), ofNat_eq (b := c) (by omega)]

theorem encode_three (hb : 0xE0 ≤ b.toNat) (hb' : b.toNat < 0xF0) (hc : isContinuation c = true)
    (hd : isContinuation d = true) (hlong : 0x800 ≤ b.toNat % 0x10 * 0x1000 + low c * 0x40 + low d)
    (hchar : b.toNat % 0x10 * 0x1000 + low c * 0x40 + low d < 0xD800 ∨
      0xE000 ≤ b.toNat % 0x10 * 0x1000 + low c * 0x40 + low d) :
    String.utf8EncodeChar (Char.ofNat (b.toNat % 0x10 * 0x1000 + low c * 0x40 + low d)) = [b, c, d] := by
  obtain ⟨hc1, hc2⟩ := isContinuation_bounds hc
  obtain ⟨hd1, hd2⟩ := isContinuation_bounds hd
  unfold low at *
  unfold String.utf8EncodeChar
  rw [val_ofNat (by omega)]
  dsimp only
  rw [if_neg (by omega), if_neg (by omega), if_pos (by omega), ofNat_eq (b := b) (by omega),
    ofNat_eq (b := c) (by omega), ofNat_eq (b := d) (by omega)]

theorem encode_four (hb : 0xF0 ≤ b.toNat) (hb' : b.toNat < 0xF8) (hc : isContinuation c = true)
    (hd : isContinuation d = true) (he : isContinuation e = true)
    (hlong : 0x10000 ≤ b.toNat % 8 * 0x40000 + low c * 0x1000 + low d * 0x40 + low e)
    (hchar : b.toNat % 8 * 0x40000 + low c * 0x1000 + low d * 0x40 + low e < 0x110000) :
    String.utf8EncodeChar (Char.ofNat (b.toNat % 8 * 0x40000 + low c * 0x1000 + low d * 0x40 + low e)) =
      [b, c, d, e] := by
  obtain ⟨hc1, hc2⟩ := isContinuation_bounds hc
  obtain ⟨hd1, hd2⟩ := isContinuation_bounds hd
  obtain ⟨he1, he2⟩ := isContinuation_bounds he
  unfold low at *
  unfold String.utf8EncodeChar
  rw [val_ofNat (by omega)]
  dsimp only
  rw [if_neg (by omega), if_neg (by omega), if_neg (by omega), ofNat_eq (b := b) (by omega),
    ofNat_eq (b := c) (by omega), ofNat_eq (b := d) (by omega), ofNat_eq (b := e) (by omega)]

end Written

theorem encode_of_fromUtf8 {bs : Bytes} {s : Str} (h : fromUtf8 bs = some s) : encodeUtf8 s = bs := by
  have step {bs front : Bytes} {s : Str} {n : Nat} (hfront : String.utf8EncodeChar (Char.ofNat n) = front)
      (ih : ∀ s, fromUtf8 bs = some s → encodeUtf8 s = bs)
      (h : (fromUtf8 bs).map (Char.ofNat n :: ·) = some s) : encodeUtf8 s = front ++ bs := by
    obtain ⟨t, ht, rfl⟩ := Option.map_eq_some_iff.mp h
    rw [encodeUtf8_cons, hfront, ih t ht]
  fun_induction fromUtf8 bs generalizing s with
  | case1 =>
    cases h
    rfl
  | case2 b bs hb ih => exact step (encode_one hb) (fun _ => ih) h
  | case4 b hb c bs hc ih =>
    simp only [Bool.and_eq_true, decide_eq_true_eq, UInt8.le_iff_toNat_le, UInt8.lt_iff_toNat_lt,
      UInt8.reduceToNat] at hc
    exact step (encode_two hc.1.1 hc.1.2 hc.2) (fun _ => ih) h
  | case6 b hb c hc d bs code hd =>
    rename_i ih
    simp only [Bool.and_eq_true, Bool.not_eq_true', Bool.and_eq_false_iff, decide_eq_true_eq,
      decide_eq_false_iff_not, UInt8.le_iff_toNat_le, UInt8.lt_iff_toNat_lt, UInt8.reduceToNat] at hd
    obtain ⟨⟨⟨⟨⟨hlo, hhi⟩, hcc⟩, hcd⟩, hlong⟩, hchar⟩ := hd
    exact step (encode_three hlo hhi hcc hcd hlong (by omega)) (fun _ => ih) h
  | case8 b hb c hc d code hd e bs code' he =>
    rename_i ih
    simp only [Bool.and_eq_true, decide_eq_true_eq, UInt8.le_iff_toNat_le, UInt8.lt_iff_toNat_lt,
      UInt8.reduceToNat] at he
    obtain ⟨⟨⟨⟨⟨⟨hlo, hhi⟩, hcc⟩, hcd⟩, hce⟩, hlong⟩, hchar⟩ := he
    exact step (encode_four hlo hhi hcc hcd hce hlong hchar) (fun _ => ih) h
  | case3 | case5 | case7 | case9 => cases h

theorem fromUtf8_iff {bs : Bytes} {s : Str} : fromUtf8 bs = some s ↔ bs = encodeUtf8 s := by
  constructor
  · intro h
    exact (encode_of_fromUtf8 h).symm
  · rintro rfl
    exact fromUtf8_encode s

end LinguaMesh
