import LinguaMesh.Lib.Except
import LinguaMesh.Lib.Search
import Mathlib.Algebra.Order.Ring.Int

/-!
# Text

A Rust `str` is the list of its characters. Every offset the domain crate
computes falls on a character boundary, so offsets count characters here;
`utf8Len` is `str::len`, where the source compares a length with a limit in
bytes. `isAlphanumeric` is the one Unicode table the crate reads whose content
no result depends on: it is a parameter.
-/

namespace LinguaMesh

open Search

abbrev Str := List Char

instance : LawfulBEq Str := inferInstance

/-- `char::is_alphanumeric`, the Unicode property. -/
class UnicodeTables where
  isAlphanumeric : Char → Bool

export UnicodeTables (isAlphanumeric)

/-- The ASCII part of the table. -/
@[reducible] def asciiTables : UnicodeTables := ⟨Char.isAlphanum⟩

/-- `str::len`: the length in UTF-8 bytes. -/
def utf8Len (s : Str) : Nat := (s.map Char.utf8Size).sum

/-- `char::is_whitespace`: the Unicode property `White_Space`. -/
def isWhitespace (c : Char) : Bool :=
  (0x09 ≤ c.val && c.val ≤ 0x0D) || c.val == 0x20 || c.val == 0x85 || c.val == 0xA0 ||
  c.val == 0x1680 || (0x2000 ≤ c.val && c.val ≤ 0x200A) || c.val == 0x2028 || c.val == 0x2029 ||
  c.val == 0x202F || c.val == 0x205F || c.val == 0x3000

/-- `char::is_control`: the general category `Cc`. -/
def isControl (c : Char) : Bool := c.val ≤ 0x1F || (0x7F ≤ c.val && c.val ≤ 0x9F)

def trimStart (s : Str) : Str := s.dropWhile isWhitespace

def trimEnd (s : Str) : Str := s.rdropWhile isWhitespace

def trim (s : Str) : Str := trimEnd (trimStart s)

/-- `str[start..stop]`. -/
def slice {α : Type*} (s : List α) (start stop : Nat) : List α := (s.take stop).drop start

/-- `str::get(..n)` for a length in bytes: the characters that take exactly `n` bytes. -/
def takeBytes : Nat → Str → Option Str
  | 0, _ => some []
  | _ + 1, [] => none
  | n + 1, c :: cs =>
    if c.utf8Size ≤ n + 1 then (takeBytes (n + 1 - c.utf8Size) cs).map (c :: ·) else none

/-- `str::to_ascii_lowercase`. -/
def asciiLower (s : Str) : Str := s.map Char.toLower

/-- `str::eq_ignore_ascii_case`. -/
def eqIgnoreAsciiCase (a b : Str) : Bool := a.map Char.toLower == b.map Char.toLower

/-- `str::match_indices`: the positions of the occurrences, left to right without overlap;
`skip` characters still belong to the last one. -/
def matchIndicesFrom (pat : Str) : Nat → Nat → Str → List Nat
  | _, _, [] => []
  | 0, pos, c :: cs =>
    if pat.isPrefixOf (c :: cs) then pos :: matchIndicesFrom pat (pat.length - 1) (pos + 1) cs
    else matchIndicesFrom pat 0 (pos + 1) cs
  | skip + 1, pos, _ :: cs => matchIndicesFrom pat skip (pos + 1) cs

def matchIndices (value pat : Str) : List Nat := matchIndicesFrom pat 0 0 value

theorem utf8Len_cons (c : Char) (s : Str) : utf8Len (c :: s) = c.utf8Size + utf8Len s := by
  simp [utf8Len]

theorem utf8Len_append (s t : Str) : utf8Len (s ++ t) = utf8Len s + utf8Len t := by
  simp [utf8Len]

theorem takeBytes_starts {n : Nat} {s t : Str} (h : takeBytes n s = some t) : t <+: s := by
  induction s generalizing n t with
  | nil =>
    cases n with
    | zero => cases h; exact List.nil_prefix
    | succ n => cases h
  | cons c cs ih =>
    cases n with
    | zero => cases h; exact List.nil_prefix
    | succ n =>
      simp only [takeBytes] at h
      split at h
      · obtain ⟨u, hu, rfl⟩ := Option.map_eq_some_iff.mp h
        exact List.prefix_cons_inj c |>.mpr (ih hu)
      · cases h

theorem takeBytes_ne_nil {n : Nat} {s t : Str} (hn : n ≠ 0) (h : takeBytes n s = some t) :
    t ≠ [] := by
  obtain ⟨n, rfl⟩ := Nat.exists_eq_succ_of_ne_zero hn
  cases s with
  | nil => cases h
  | cons c cs =>
    simp only [takeBytes] at h
    split at h
    · obtain ⟨u, -, rfl⟩ := Option.map_eq_some_iff.mp h
      exact List.cons_ne_nil _ _
    · cases h

theorem infix_trim (s : Str) : trim s <:+: s :=
  (List.rdropWhile_prefix _ _).isInfix.trans (List.dropWhile_suffix _).isInfix

theorem utf8Len_mono {s t : Str} (h : s <:+: t) : utf8Len s ≤ utf8Len t := by
  obtain ⟨A, B, rfl⟩ := h
  rw [utf8Len_append, utf8Len_append]
  omega

theorem dropWhile_trim (s : Str) : (trim s).dropWhile isWhitespace = trim s := by
  cases h : trim s with
  | nil => rfl
  | cons c cs =>
    obtain ⟨rest, hrest⟩ : c :: cs <+: s.dropWhile isWhitespace := h ▸ List.rdropWhile_prefix _ _
    have hne : s.dropWhile isWhitespace ≠ [] := by simp [← hrest]
    have hc : isWhitespace c = false := by
      simpa [← hrest] using List.head_dropWhile_not isWhitespace hne
    rw [List.dropWhile_cons_of_neg (by simp [hc])]

@[simp] theorem trim_trim (s : Str) : trim (trim s) = trim s := by
  have h := dropWhile_trim s
  show trimEnd ((trim s).dropWhile isWhitespace) = _
  rw [h]
  exact List.rdropWhile_idempotent ..

/-- A pattern without blanks at its ends is not trimmed off. -/
theorem contains_trim {x y : Char} {pat s : Str} (hx : isWhitespace x = false)
    (hy : isWhitespace y = false) (h : contains s (x :: (pat ++ [y])) = true) :
    contains (trim s) (x :: (pat ++ [y])) = true := by
  have hstart : contains (trimStart s) (x :: (pat ++ [y])) = true := contains_dropWhile hx h
  rw [← contains_reverse] at hstart ⊢
  unfold trim trimEnd List.rdropWhile
  rw [List.reverse_reverse]
  simp only [List.reverse_cons, List.reverse_append, List.reverse_nil, List.nil_append, List.cons_append] at hstart ⊢
  exact contains_dropWhile hy hstart

theorem slice_append {α : Type*} (A B C : List α) :
    slice (A ++ B ++ C) A.length (A.length + B.length) = B := by
  unfold slice
  rw [List.take_append_of_le_length (by simp), ← List.length_append, List.take_length,
    List.drop_left]

end LinguaMesh
