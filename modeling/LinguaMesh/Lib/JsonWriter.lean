import Mathlib.Data.Char

/-!
# JSON values, written without blanks

`JsonValue.write` is the compact text of a value. Two values with one text are equal
(`write_injective`): what a value begins with tells its kind, and each kind can be
cut off a text that goes on after it (`write_cancel`).
-/

namespace LinguaMesh

/-- The members of an object are in the order they are written in. -/
inductive JsonValue where
  | null
  | bool (b : Bool)
  | number (n : Int)
  | string (s : List Char)
  | array (items : List JsonValue)
  | object (members : List (List Char × JsonValue))

namespace JsonValue

def ofOption {α : Type} (f : α → JsonValue) : Option α → JsonValue
  | none => null
  | some a => f a

theorem ofOption_inj {α : Type} {f : α → JsonValue} (hf : ∀ a b, f a = f b → a = b)
    (hnull : ∀ a, f a ≠ null) {x y : Option α} (h : ofOption f x = ofOption f y) : x = y := by
  cases x with
  | none =>
    cases y with
    | none => rfl
    | some b => exact absurd h.symm (hnull b)
  | some a =>
    cases y with
    | none => exact absurd h (hnull a)
    | some b => exact congrArg some (hf a b h)

theorem ofOption_string_inj {x y : Option (List Char)} (h : ofOption string x = ofOption string y) :
    x = y :=
  ofOption_inj (fun _ _ h => string.inj h) (fun _ h => nomatch h) h

/-! ## Writing -/

def hexDigit (n : Nat) : Char := if n < 10 then Char.ofNat (48 + n) else Char.ofNat (87 + n)

def escapeChar (c : Char) : List Char :=
  if c = '"' then ['\\', '"']
  else if c = '\\' then ['\\', '\\']
  else if c = '\x08' then ['\\', 'b']
  else if c = '\x0c' then ['\\', 'f']
  else if c = '\n' then ['\\', 'n']
  else if c = '\r' then ['\\', 'r']
  else if c = '\t' then ['\\', 't']
  else if c.toNat < 0x20 then ['\\', 'u', '0', '0', hexDigit (c.toNat / 16), hexDigit (c.toNat % 16)]
  else [c]

def writeString (s : List Char) : List Char := '"' :: s.flatMap escapeChar ++ ['"']

def writeNumber (n : Int) : List Char :=
  if n < 0 then '-' :: Nat.toDigits 10 n.natAbs else Nat.toDigits 10 n.natAbs

mutual

def write : JsonValue → List Char
  | null => ['n', 'u', 'l', 'l']
  | bool true => ['t', 'r', 'u', 'e']
  | bool false => ['f', 'a', 'l', 's', 'e']
  | number n => writeNumber n
  | string s => writeString s
  | array [] => ['[', ']']
  | array (item :: items) => '[' :: (write item ++ writeItems items)
  | object [] => ['\x7b', '\x7d']
  | object ((key, value) :: members) =>
    '\x7b' :: (writeString key ++ ':' :: (write value ++ writeMembers members))

/-- The items after the first, and the end of the array. -/
def writeItems : List JsonValue → List Char
  | [] => [']']
  | item :: items => ',' :: (write item ++ writeItems items)

def writeMembers : List (List Char × JsonValue) → List Char
  | [] => ['\x7d']
  | (key, value) :: members =>
    ',' :: (writeString key ++ ':' :: (write value ++ writeMembers members))

end

/-! ## Strings -/

section Strings

variable {c d : Char} {s t r r' : List Char}

def hexValue (c : Char) : Nat := if c.toNat < 58 then c.toNat - 48 else c.toNat - 87

/-- One character of a string, and the rest of the text. -/
def readChar : List Char → Option (Char × List Char)
  | '\\' :: 'u' :: '0' :: '0' :: a :: b :: r => some (Char.ofNat (16 * hexValue a + hexValue b), r)
  | '\\' :: 'b' :: r => some ('\x08', r)
  | '\\' :: 'f' :: r => some ('\x0c', r)
  | '\\' :: 'n' :: r => some ('\n', r)
  | '\\' :: 'r' :: r => some ('\r', r)
  | '\\' :: 't' :: r => some ('\t', r)
  | '\\' :: c :: r => some (c, r)
  | c :: r => some (c, r)
  | [] => none

theorem hexValue_hexDigit : ∀ n < 16, hexValue (hexDigit n) = n := by decide

theorem readChar_escapeChar (c : Char) (r : List Char) :
    readChar (escapeChar c ++ r) = some (c, r) := by
  unfold escapeChar
  split
  · rename_i h
    subst h
    rfl
  split
  · rename_i h
    subst h
    rfl
  rename_i hquote hback
  iterate 5
    split
    · rename_i h
      subst h
      rfl
  split
  · rename_i hc
    have hhigh := hexValue_hexDigit (c.toNat / 16) (by omega)
    have hlow := hexValue_hexDigit (c.toNat % 16) (by omega)
    simp only [List.cons_append, List.nil_append, readChar, hhigh, hlow, Nat.div_add_mod,
      Char.ofNat_toNat]
  · show readChar (c :: r) = _
    unfold readChar
    split <;> simp_all

theorem head_escapeChar (c : Char) (r : List Char) : (escapeChar c ++ r).head? ≠ some '"' := by
  unfold escapeChar
  split
  · simp
  rename_i hquote
  iterate 7
    split
    · simp
  simpa using hquote

theorem escapeChar_cancel (h : escapeChar c ++ r = escapeChar d ++ r') : c = d ∧ r = r' := by
  have hread := congrArg readChar h
  rw [readChar_escapeChar, readChar_escapeChar] at hread
  exact Prod.mk.inj (Option.some.inj hread)

theorem escape_cancel
    (h : s.flatMap escapeChar ++ '"' :: r = t.flatMap escapeChar ++ '"' :: r') :
    s = t ∧ r = r' := by
  induction s generalizing t with
  | nil =>
    cases t with
    | nil => exact ⟨rfl, (List.cons.inj h).2⟩
    | cons d t =>
      rw [List.flatMap_cons, List.append_assoc] at h
      exact absurd (congrArg List.head? h.symm) (head_escapeChar d _)
  | cons c s ih =>
    rw [List.flatMap_cons, List.append_assoc] at h
    cases t with
    | nil => exact absurd (congrArg List.head? h) (head_escapeChar c _)
    | cons d t =>
      rw [List.flatMap_cons, List.append_assoc] at h
      obtain ⟨hc, hrest⟩ := escapeChar_cancel h
      obtain ⟨rfl, rfl⟩ := ih hrest
      exact ⟨by rw [hc], rfl⟩

theorem writeString_cancel (h : writeString s ++ r = writeString t ++ r') : s = t ∧ r = r' := by
  simp only [writeString, List.cons_append, List.append_assoc, List.nil_append] at h
  exact escape_cancel (List.cons.inj h).2

end Strings

/-! ## Numbers -/

section Numbers

variable {r r' : List Char}

/-- No digit follows. -/
def Ends (r : List Char) : Prop := ∀ c ∈ r.head?, c.isDigit = false

theorem digits_cancel {m n : Nat} (hr : Ends r) (hr' : Ends r')
    (h : Nat.toDigits 10 m ++ r = Nat.toDigits 10 n ++ r') : m = n ∧ r = r' := by
  have hcut (k : Nat) {r : List Char} (hr : Ends r) :
      (Nat.toDigits 10 k ++ r).takeWhile Char.isDigit = Nat.toDigits 10 k ∧
        (Nat.toDigits 10 k ++ r).dropWhile Char.isDigit = r := by
    have hall : ∀ c ∈ Nat.toDigits 10 k, c.isDigit = true := fun c hc =>
      Nat.isDigit_of_mem_toDigits (by decide) (by decide) hc
    rw [List.takeWhile_append_of_pos hall, List.dropWhile_append_of_pos hall]
    cases r with
    | nil => exact ⟨List.append_nil _, rfl⟩
    | cons c r =>
      have hc : ¬ c.isDigit = true := by simp [hr c rfl]
      rw [List.takeWhile_cons_of_neg hc, List.dropWhile_cons_of_neg hc]
      exact ⟨List.append_nil _, rfl⟩
  have hdigits : Nat.toDigits 10 m = Nat.toDigits 10 n := by
    rw [← (hcut m hr).1, h, (hcut n hr').1]
  have hrest : r = r' := by
    rw [← (hcut m hr).2, h, (hcut n hr').2]
  have hvalue := congrArg (Nat.ofDigitChars 10 · 0) hdigits
  simp only [Nat.ofDigitChars_ten_toDigits] at hvalue
  exact ⟨hvalue, hrest⟩

theorem head_writeNumber (n : Int) (r : List Char) :
    ∃ c ∈ (writeNumber n ++ r).head?, if n < 0 then c = '-' else c.isDigit = true := by
  unfold writeNumber
  split
  · exact ⟨'-', rfl, rfl⟩
  · cases hd : Nat.toDigits 10 n.natAbs with
    | nil => exact absurd hd Nat.toDigits_ne_nil
    | cons c cs =>
      refine ⟨c, rfl, Nat.isDigit_of_mem_toDigits (b := 10) (n := n.natAbs) (by decide) (by decide) ?_⟩
      rw [hd]
      exact List.mem_cons_self

theorem writeNumber_cancel {m n : Int} (hr : Ends r) (hr' : Ends r')
    (h : writeNumber m ++ r = writeNumber n ++ r') : m = n ∧ r = r' := by
  obtain ⟨c, hc, hm⟩ := head_writeNumber m r
  obtain ⟨d, hd, hn⟩ := head_writeNumber n r'
  rw [h] at hc
  obtain rfl : c = d := Option.some.inj (hc.symm.trans hd)
  unfold writeNumber at h
  by_cases hm0 : m < 0
  · by_cases hn0 : n < 0
    · rw [if_pos hm0, if_pos hn0] at h
      obtain ⟨habs, hrest⟩ := digits_cancel hr hr' (List.cons.inj h).2
      exact ⟨by omega, hrest⟩
    · rw [if_pos hm0] at hm
      rw [if_neg hn0, hm] at hn
      exact absurd hn (by decide)
  · by_cases hn0 : n < 0
    · rw [if_pos hn0] at hn
      rw [if_neg hm0, hn] at hm
      exact absurd hm (by decide)
    · rw [if_neg hm0, if_neg hn0] at h
      obtain ⟨habs, hrest⟩ := digits_cancel hr hr' h
      exact ⟨by omega, hrest⟩

end Numbers

/-! ## Values -/

/-- The kind of value that begins with a character. -/
def lead (c : Char) : Nat :=
  if c = 'n' then 0
  else if c = 't' then 1
  else if c = 'f' then 1
  else if c = '"' then 3
  else if c = '[' then 4
  else if c = '\x7b' then 5
  else 2

def kind : JsonValue → Nat
  | null => 0
  | bool _ => 1
  | number _ => 2
  | string _ => 3
  | array _ => 4
  | object _ => 5

theorem lead_number {c : Char} (h : c = '-' ∨ c.isDigit = true) : lead c = 2 := by
  rcases h with rfl | h
  · rfl
  · unfold lead
    iterate 6
      split
      · rename_i hc
        subst hc
        exact absurd h (by decide)
    rfl

theorem lead_write (v : JsonValue) (r : List Char) :
    (write v ++ r).head?.map lead = some v.kind := by
  cases v with
  | null => rfl
  | bool b => cases b <;> rfl
  | number n =>
    obtain ⟨c, hc, hlead⟩ := head_writeNumber n r
    have hhead : (write (number n) ++ r).head? = some c := by
      rw [write]
      exact hc
    rw [hhead, Option.map_some, lead_number, kind]
    split at hlead
    · exact .inl hlead
    · exact .inr hlead
  | string s => rfl
  | array items => cases items <;> rfl
  | object members => cases members <;> rfl

theorem ends_items (items : List JsonValue) (r : List Char) : Ends (writeItems items ++ r) := by
  intro c hc
  cases items <;> obtain rfl := Option.some.inj hc <;> rfl

theorem ends_members (members : List (List Char × JsonValue)) (r : List Char) :
    Ends (writeMembers members ++ r) := by
  intro c hc
  cases members <;> obtain rfl := Option.some.inj hc <;> rfl

/-- A value that does not begin as an empty array or object ends. -/
theorem write_ne_close {v : JsonValue} {c : Char} {r r' : List Char} (hc : lead c = 2)
    (hdigit : c.isDigit = false) (hsign : c ≠ '-') : write v ++ r ≠ c :: r' := by
  intro h
  have hlead := lead_write v r
  rw [h, List.head?_cons, Option.map_some, hc] at hlead
  cases v with
  | number n =>
    obtain ⟨d, hd, hn⟩ := head_writeNumber n r
    obtain rfl : c = d := by
      rw [write] at h
      rw [h] at hd
      exact Option.some.inj hd
    split at hn
    · exact hsign hn
    · simp [hn] at hdigit
  | _ => cases hlead

mutual

theorem write_cancel (v v' : JsonValue) {r r' : List Char} (hr : Ends r) (hr' : Ends r')
    (h : write v ++ r = write v' ++ r') : v = v' ∧ r = r' := by
  have hkind : v.kind = v'.kind := Option.some.inj (by rw [← lead_write v r, h, lead_write])
  cases v with
  | null =>
    cases v' <;> cases hkind
    exact ⟨rfl, List.append_cancel_left h⟩
  | bool b =>
    cases v' <;> cases hkind
    rename_i b'
    cases b <;> cases b'
    · exact ⟨rfl, List.append_cancel_left h⟩
    · cases h
    · cases h
    · exact ⟨rfl, List.append_cancel_left h⟩
  | number n =>
    cases v' <;> cases hkind
    rw [write, write] at h
    obtain ⟨rfl, rfl⟩ := writeNumber_cancel hr hr' h
    exact ⟨rfl, rfl⟩
  | string s =>
    cases v' <;> cases hkind
    rw [write, write] at h
    obtain ⟨rfl, rfl⟩ := writeString_cancel h
    exact ⟨rfl, rfl⟩
  | array items =>
    cases v' <;> cases hkind
    rename_i items'
    match items, items' with
    | [], [] => exact ⟨rfl, List.append_cancel_left h⟩
    | [], item' :: items' =>
      simp only [write, List.cons_append, List.append_assoc, List.nil_append] at h
      exact absurd (List.cons.inj h).2.symm (write_ne_close rfl rfl (by decide))
    | item :: items, [] =>
      simp only [write, List.cons_append, List.append_assoc, List.nil_append] at h
      exact absurd (List.cons.inj h).2 (write_ne_close rfl rfl (by decide))
    | item :: items, item' :: items' =>
      simp only [write, List.cons_append, List.append_assoc] at h
      obtain ⟨rfl, hitems⟩ := write_cancel item item' (ends_items _ _) (ends_items _ _) (List.cons.inj h).2
      obtain ⟨rfl, rfl⟩ := items_cancel items items' hitems
      exact ⟨rfl, rfl⟩
  | object members =>
    cases v' <;> cases hkind
    rename_i members'
    match members, members' with
    | [], [] => exact ⟨rfl, List.append_cancel_left h⟩
    | [], (key', value') :: members' => cases (List.cons.inj h).2
    | (key, value) :: members, [] => cases (List.cons.inj h).2
    | (key, value) :: members, (key', value') :: members' =>
      simp only [write, List.cons_append, List.append_assoc] at h
      obtain ⟨rfl, hvalue⟩ := writeString_cancel (List.cons.inj h).2
      obtain ⟨rfl, hmembers⟩ := write_cancel value value' (ends_members _ _) (ends_members _ _)
        (List.cons.inj hvalue).2
      obtain ⟨rfl, rfl⟩ := members_cancel members members' hmembers
      exact ⟨rfl, rfl⟩

theorem items_cancel (items items' : List JsonValue) {r r' : List Char}
    (h : writeItems items ++ r = writeItems items' ++ r') : items = items' ∧ r = r' := by
  match items, items' with
  | [], [] => exact ⟨rfl, List.append_cancel_left h⟩
  | [], item' :: items' => cases h
  | item :: items, [] => cases h
  | item :: items, item' :: items' =>
    simp only [writeItems, List.cons_append, List.append_assoc] at h
    obtain ⟨rfl, hitems⟩ := write_cancel item item' (ends_items _ _) (ends_items _ _) (List.cons.inj h).2
    obtain ⟨rfl, rfl⟩ := items_cancel items items' hitems
    exact ⟨rfl, rfl⟩

theorem members_cancel (members members' : List (List Char × JsonValue)) {r r' : List Char}
    (h : writeMembers members ++ r = writeMembers members' ++ r') :
    members = members' ∧ r = r' := by
  match members, members' with
  | [], [] => exact ⟨rfl, List.append_cancel_left h⟩
  | [], (key', value') :: members' => cases h
  | (key, value) :: members, [] => cases h
  | (key, value) :: members, (key', value') :: members' =>
    simp only [writeMembers, List.cons_append, List.append_assoc] at h
    obtain ⟨rfl, hvalue⟩ := writeString_cancel (List.cons.inj h).2
    obtain ⟨rfl, hmembers⟩ := write_cancel value value' (ends_members _ _) (ends_members _ _)
      (List.cons.inj hvalue).2
    obtain ⟨rfl, rfl⟩ := members_cancel members members' hmembers
    exact ⟨rfl, rfl⟩

end

theorem write_injective : Function.Injective write := by
  intro v v' h
  have hnil : Ends [] := fun _ hc => nomatch hc
  exact (write_cancel v v' hnil hnil (by rw [List.append_nil, List.append_nil, h])).1

end JsonValue

end LinguaMesh
