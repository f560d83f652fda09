import Mathlib.Algebra.Ring.Nat
import Mathlib.Data.List.Basic

/-!
# The wire format of protocol buffers

A message is a list of fields, a field a number and a value. A key is the number and the type of
the value in one base-128 numeral (`varint`), and a value is such a numeral, eight or four bytes, or
bytes behind their length. Groups are not read.

What was written is read again, whatever is behind it (`readField_writeField`), so the fields
of a message are (`readFields_writeFields`). The readers of single fields take the last one
with their number, and a default where there is none; `only` is the rule for what was written
in front and behind.
-/

namespace LinguaMesh.Protobuf

abbrev Octets := List UInt8

/-! ## Numerals -/

/-- At most `fuel` digits, the low ones first; all but the last have the high bit. -/
def varint : Nat → Nat → Octets
  | 0, _ => []
  | fuel + 1, n =>
    if n < 128 then [UInt8.ofNat n] else UInt8.ofNat (n % 128 + 128) :: varint fuel (n / 128)

def readVarint : Nat → Octets → Option (Nat × Octets)
  | 0, _ => none
  | _ + 1, [] => none
  | fuel + 1, b :: bs =>
    if b.toNat < 128 then some (b.toNat, bs)
    else (readVarint fuel bs).map fun r => (b.toNat - 128 + 128 * r.1, r.2)

theorem toNat_octet {n : Nat} (h : n < 256) : (UInt8.ofNat n).toNat = n := UInt8.toNat_ofNat_of_lt h

theorem readVarint_varint {fuel n : Nat} (h : n < 128 ^ (fuel + 1)) (rest : Octets) :
    readVarint (fuel + 1) (varint (fuel + 1) n ++ rest) = some (n, rest) := by
  induction fuel generalizing n with
  | zero =>
    have hsmall : n < 128 := by omega
    have hb := toNat_octet (n := n) (by omega)
    rw [varint, if_pos hsmall, List.cons_append, readVarint, hb, if_pos hsmall, List.nil_append]
  | succ fuel ih =>
    rw [varint]
    split
    · rename_i hsmall
      have hb := toNat_octet (n := n) (by omega)
      rw [List.cons_append, readVarint, hb, if_pos hsmall, List.nil_append]
    · rename_i hbig
      have hb := toNat_octet (n := n % 128 + 128) (by omega)
      have hrest := ih (n := n / 128) (by rw [Nat.pow_succ] at h; omega)
      have hsum : n % 128 + 128 - 128 + 128 * (n / 128) = n := by omega
      rw [List.cons_append, readVarint, hb, if_neg (by omega), hrest, Option.map_some, hsum]

theorem varint_ne_nil {fuel n : Nat} : varint (fuel + 1) n ≠ [] := by
  unfold varint
  split <;> exact List.cons_ne_nil _ _

/-- A numeral of 64 bits. -/
def numeral (n : Nat) : Octets := varint 10 n

def readNumeral (bs : Octets) : Option (Nat × Octets) :=
  (readVarint 10 bs).filter fun r => r.1 < 2 ^ 64

theorem readNumeral_numeral {n : Nat} (h : n < 2 ^ 64) (rest : Octets) :
    readNumeral (numeral n ++ rest) = some (n, rest) := by
  unfold readNumeral numeral
  rw [readVarint_varint (by omega), Option.filter_some_pos (by simpa using h)]

/-! ## Fields -/

inductive Value where
  | number (n : Nat)
  | eight (bytes : Octets)
  | bytes (bytes : Octets)
  | four (bytes : Octets)
  deriving DecidableEq, Repr

abbrev Field := Nat × Value

def Value.wireType : Value → Nat
  | number _ => 0
  | eight _ => 1
  | bytes _ => 2
  | four _ => 5

/-- The value can be written. -/
def Value.Fits : Value → Prop
  | number n => n < 2 ^ 64
  | eight b => b.length = 8
  | bytes b => b.length < 2 ^ 64
  | four b => b.length = 4

structure Fits (f : Field) : Prop where
  positive : 0 < f.1
  small : f.1 < 2 ^ 29
  value : f.2.Fits

def Value.write : Value → Octets
  | number n => numeral n
  | eight b | four b => b
  | bytes b => numeral b.length ++ b

def takeOctets (n : Nat) (bs : Octets) : Option (Octets × Octets) :=
  if n ≤ bs.length then some (bs.take n, bs.drop n) else none

def readValue (wireType : Nat) (bs : Octets) : Option (Value × Octets) :=
  match wireType with
  | 0 => (readNumeral bs).map fun r => (.number r.1, r.2)
  | 1 => (takeOctets 8 bs).map fun r => (.eight r.1, r.2)
  | 2 => (readNumeral bs).bind fun r => (takeOctets r.1 r.2).map fun r => (.bytes r.1, r.2)
  | 5 => (takeOctets 4 bs).map fun r => (.four r.1, r.2)
  | _ => none

theorem takeOctets_append (bs rest : Octets) : takeOctets bs.length (bs ++ rest) = some (bs, rest) := by
  unfold takeOctets
  rw [if_pos (by simp), List.take_left, List.drop_left]

theorem readValue_write {v : Value} (h : v.Fits) (rest : Octets) :
    readValue v.wireType (v.write ++ rest) = some (v, rest) := by
  cases v with
  | number n =>
    show (readNumeral (numeral n ++ rest)).map _ = _
    rw [readNumeral_numeral h, Option.map_some]
  | eight b =>
    have htake := takeOctets_append b rest
    rw [show b.length = 8 from h] at htake
    show (takeOctets 8 (b ++ rest)).map _ = _
    rw [htake, Option.map_some]
  | bytes b =>
    show (readNumeral (numeral b.length ++ b ++ rest)).bind _ = _
    rw [List.append_assoc, readNumeral_numeral h, Option.bind_some]
    dsimp only
    rw [takeOctets_append, Option.map_some]
  | four b =>
    have htake := takeOctets_append b rest
    rw [show b.length = 4 from h] at htake
    show (takeOctets 4 (b ++ rest)).map _ = _
    rw [htake, Option.map_some]

def writeField (f : Field) : Octets := numeral (f.1 * 8 + f.2.wireType) ++ f.2.write

def readField (bs : Octets) : Option (Field × Octets) :=
  (readNumeral bs).bind fun key =>
    if key.1 / 8 = 0 then none
    else (readValue (key.1 % 8) key.2).map fun r => ((key.1 / 8, r.1), r.2)

theorem Value.wireType_lt (v : Value) : v.wireType < 8 := by
  cases v <;> exact of_decide_eq_true rfl

theorem readField_writeField {f : Field} (h : Fits f) (rest : Octets) :
    readField (writeField f ++ rest) = some (f, rest) := by
  have htype := f.2.wireType_lt
  have hpos := h.positive
  have hsmall := h.small
  have hnumber : (f.1 * 8 + f.2.wireType) / 8 = f.1 := by omega
  have hkind : (f.1 * 8 + f.2.wireType) % 8 = f.2.wireType := by omega
  unfold readField writeField
  rw [List.append_assoc, readNumeral_numeral (by omega), Option.bind_some]
  dsimp only
  rw [hnumber, hkind, if_neg (by omega), readValue_write h.value, Option.map_some]

theorem writeField_ne_nil (f : Field) : writeField f ≠ [] :=
  List.append_ne_nil_of_left_ne_nil varint_ne_nil _

/-! ## Messages -/

def writeFields (fields : List Field) : Octets := fields.flatMap writeField

/-- At most `fuel` fields. -/
def readFieldsUpTo : Nat → Octets → Option (List Field)
  | _, [] => some []
  | 0, _ :: _ => none
  | fuel + 1, b :: bs => (readField (b :: bs)).bind fun r => (readFieldsUpTo fuel r.2).map (r.1 :: ·)

def readFields (bs : Octets) : Option (List Field) := readFieldsUpTo bs.length bs

theorem readFieldsUpTo_writeFields {fields : List Field} (h : ∀ f ∈ fields, Fits f) {fuel : Nat}
    (hfuel : fields.length ≤ fuel) : readFieldsUpTo fuel (writeFields fields) = some fields := by
  induction fields generalizing fuel with
  | nil => cases fuel <;> rfl
  | cons f fields ih =>
    obtain ⟨hf, hfields⟩ := List.forall_mem_cons.mp h
    obtain ⟨fuel, rfl⟩ := Nat.exists_eq_succ_of_ne_zero (n := fuel) (by
      rw [List.length_cons] at hfuel
      omega)
    have hwrite : writeFields (f :: fields) = writeField f ++ writeFields fields := List.flatMap_cons
    obtain ⟨b, bs, hbs⟩ := List.exists_cons_of_ne_nil (writeField_ne_nil f)
    have hread := readField_writeField hf (writeFields fields)
    rw [hwrite]
    rw [hbs, List.cons_append] at hread ⊢
    rw [readFieldsUpTo, hread, Option.bind_some]
    dsimp only
    rw [ih hfields (by rw [List.length_cons] at hfuel; omega), Option.map_some]

theorem length_writeFields (fields : List Field) : fields.length ≤ (writeFields fields).length := by
  induction fields with
  | nil => exact Nat.le_refl _
  | cons f fields ih =>
    have hwrite : writeFields (f :: fields) = writeField f ++ writeFields fields := List.flatMap_cons
    have hpos := List.length_pos_iff.mpr (writeField_ne_nil f)
    rw [hwrite, List.length_cons, List.length_append]
    omega

theorem readFields_writeFields {fields : List Field} (h : ∀ f ∈ fields, Fits f) :
    readFields (writeFields fields) = some fields :=
  readFieldsUpTo_writeFields h (length_writeFields fields)

/-! ## Single fields -/

/-- The values of a number. -/
def only (number : Nat) (fields : List Field) : List Value :=
  fields.filterMap fun f => if f.1 = number then some f.2 else none

/-- A number that is not the default is written. -/
def numberField (number n : Nat) : List Field := if n = 0 then [] else [(number, .number n)]

def bytesField (number : Nat) (bs : Octets) : List Field := if bs = [] then [] else [(number, .bytes bs)]

/-- The last value; a value of another type is refused. -/
def getNumber (number : Nat) (fields : List Field) : Option Nat :=
  (only number fields).foldlM (fun _ v => match v with | .number n => some n | _ => none) 0

def getBytes (number : Nat) (fields : List Field) : Option Octets :=
  (only number fields).foldlM (fun _ v => match v with | .bytes bs => some bs | _ => none) []

@[simp] theorem only_nil (number : Nat) : only number [] = [] := rfl

@[simp] theorem only_append (number : Nat) (fs gs : List Field) :
    only number (fs ++ gs) = only number fs ++ only number gs := List.filterMap_append

@[simp] theorem only_numberField (number other n : Nat) :
    only number (numberField other n) = if other = number ∧ n ≠ 0 then [.number n] else [] := by
  unfold only numberField
  split <;> by_cases h : other = number <;> simp_all

@[simp] theorem only_bytesField (number other : Nat) (bs : Octets) :
    only number (bytesField other bs) = if other = number ∧ bs ≠ [] then [.bytes bs] else [] := by
  unfold only bytesField
  split <;> by_cases h : other = number <;> simp_all

variable {number n : Nat} {b : Octets} {fields : List Field}

theorem getNumber_of_only (h : only number fields = if n ≠ 0 then [.number n] else []) :
    getNumber number fields = some n := by
  unfold getNumber
  rw [h]
  split
  · rfl
  · rename_i hzero
    rw [not_not.mp hzero]
    rfl

theorem getBytes_of_only (h : only number fields = if b ≠ [] then [.bytes b] else []) :
    getBytes number fields = some b := by
  unfold getBytes
  rw [h]
  split
  · rfl
  · rename_i hnil
    rw [not_not.mp hnil]
    rfl

/-! ## Writing a message whole -/

/-- A number or bytes, which only have to be short enough. -/
def Ready (f : Field) : Prop :=
  0 < f.1 ∧ f.1 < 2 ^ 29 ∧ match f.2 with
    | .number n => n < 2 ^ 64
    | .bytes _ => True
    | .eight _ | .four _ => False

theorem ready_numberField (hnumber : 0 < number ∧ number < 2 ^ 29) (hn : n < 2 ^ 64) :
    ∀ f ∈ numberField number n, Ready f := by
  unfold numberField
  split
  · exact nofun
  · intro f hf
    rw [List.mem_singleton.mp hf]
    exact ⟨hnumber.1, hnumber.2, hn⟩

theorem ready_bytesField (hnumber : 0 < number ∧ number < 2 ^ 29) : ∀ f ∈ bytesField number b, Ready f := by
  unfold bytesField
  split
  · exact nofun
  · intro f hf
    rw [List.mem_singleton.mp hf]
    exact ⟨hnumber.1, hnumber.2, trivial⟩

theorem length_write_le {f : Field} (h : f ∈ fields) : f.2.write.length ≤ (writeFields fields).length := by
  obtain ⟨front, back, rfl⟩ := List.append_of_mem h
  have hwrite : writeFields (front ++ f :: back) = writeFields front ++ (writeField f ++ writeFields back) := by
    unfold writeFields
    rw [List.flatMap_append, List.flatMap_cons]
  rw [hwrite]
  unfold writeField
  simp only [List.length_append]
  omega

theorem readFields_ready (h : ∀ f ∈ fields, Ready f) (hlen : (writeFields fields).length < 2 ^ 64) :
    readFields (writeFields fields) = some fields := by
  refine readFields_writeFields fun f hf => ?_
  obtain ⟨number, value⟩ := f
  obtain ⟨hpos, hsmall, hvalue⟩ := h _ hf
  refine ⟨hpos, hsmall, ?_⟩
  cases value with
  | number n => exact hvalue
  | bytes bs =>
    have hle : (numeral bs.length ++ bs).length ≤ (writeFields fields).length := length_write_le hf
    rw [List.length_append] at hle
    show bs.length < 2 ^ 64
    omega
  | eight | four => exact hvalue.elim

end LinguaMesh.Protobuf
