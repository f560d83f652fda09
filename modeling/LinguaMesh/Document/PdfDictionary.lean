import LinguaMesh.Document.PdfTokens

/-!
# PDF dictionaries

The text of a dictionary is its entries between `<<` and `>>`: a key, and one
object (`IsObject`), with white space where it may stand. Two texts of the same
entries are the same without white space (`squeeze_text`).

`setLength` edits the first `/Length` of the text. When that is the key itself,
and its object a number, the result is the dictionary with the new length
(`setLength_first`). A result that is the dictionary with the new length came
about so, or nothing changed (`first_of_setLength`).
-/

namespace LinguaMesh.Pdf

open Search Run

def Spaces (ws : Bytes) : Prop := ∀ b ∈ ws, isSpace b = true

def Digits (digits : Bytes) : Prop := digits ≠ [] ∧ ∀ b ∈ digits, isDigit b = true

/-- A byte of a name, a number or a keyword. -/
def isNameByte (b : UInt8) : Bool :=
  !isSpace b && !("()<>[]{}/%".toList.map byte).contains b

def decimal (n : Nat) : Bytes := asciiBytes (toString n)

def lengthKey : Bytes := asciiBytes "Length"

/-- One entry: white space, the key after its slash, white space, the object. -/
structure DictEntry where
  space : Bytes
  key : Bytes
  gap : Bytes
  object : Bytes

def DictEntry.text (e : DictEntry) : Bytes := e.space ++ byte '/' :: (e.key ++ e.gap ++ e.object)

structure DictEntry.Valid (e : DictEntry) : Prop where
  space : Spaces e.space
  key : ∀ b ∈ e.key, isNameByte b = true
  gap : Spaces e.gap
  apart : e.object.head?.any isNameByte = true → e.gap ≠ []

/-- The objects of the format. -/
inductive IsObject : Bytes → Prop
  | word {w : Bytes} : w ≠ [] → (∀ b ∈ w, isNameByte b = true) → IsObject w
  | reference {id generation ws ws' : Bytes} : Digits id → Digits generation → Spaces ws →
    ws ≠ [] → Spaces ws' → ws' ≠ [] → IsObject (id ++ ws ++ generation ++ ws' ++ [byte 'R'])
  | name {w : Bytes} : (∀ b ∈ w, isNameByte b = true) → IsObject (byte '/' :: w)
  | string {body : Bytes} : closingLength 1 body = some body.length → IsObject (byte '(' :: body)
  | hex {digits : Bytes} : (∀ b ∈ digits, isSpace b = true ∨ (hexValue b).isSome) →
    IsObject (byte '<' :: digits ++ [byte '>'])
  | array {items : List (Bytes × Bytes)} {last : Bytes} : (∀ item ∈ items, Spaces item.1) →
    (∀ item ∈ items, IsObject item.2) →
    items.IsChain (fun a b => a.2.getLast?.any isNameByte = true →
      b.2.head?.any isNameByte = true → b.1 ≠ []) →
    Spaces last → IsObject (byte '[' :: items.flatMap (fun item => item.1 ++ item.2) ++ last ++ [byte ']'])
  | dict {entries : List DictEntry} {last : Bytes} : (∀ e ∈ entries, e.Valid) →
    (∀ e ∈ entries, IsObject e.object) → (entries.map DictEntry.key).Nodup → Spaces last →
    IsObject (asciiBytes "<<" ++ entries.flatMap DictEntry.text ++ last ++ asciiBytes ">>")

/-- The dictionary of an object, with its layout. -/
structure PdfDictionary where
  lead : Bytes
  entries : List DictEntry
  last : Bytes
  trail : Bytes
  spaces : Spaces lead ∧ Spaces last ∧ Spaces trail
  valid : ∀ e ∈ entries, e.Valid
  objects : ∀ e ∈ entries, IsObject e.object
  keys : (entries.map DictEntry.key).Nodup

namespace PdfDictionary

def text (d : PdfDictionary) : Bytes :=
  d.lead ++ asciiBytes "<<" ++ d.entries.flatMap DictEntry.text ++ d.last ++ asciiBytes ">>" ++ d.trail

def fields (d : PdfDictionary) : List (Bytes × Bytes) := d.entries.map fun e => (e.key, e.object)

/-- `d'` is `d` with the length `n`, and the other entries as they are. -/
def Updates (d d' : PdfDictionary) (n : Nat) : Prop :=
  lengthKey ∈ d.entries.map DictEntry.key ∧
    d'.fields = d.fields.map fun field => if field.1 = lengthKey then (field.1, decimal n) else field

/-- The first `/Length` of the text is the key, and its object is an unsigned number. -/
def LengthFirst (d : PdfDictionary) : Prop :=
  ∃ before e after, d.entries = before ++ e :: after ∧ e.key = lengthKey ∧ Digits e.object ∧
    position d.text "/Length" = some (d.lead.length + 2 +
      (before.flatMap DictEntry.text).length + e.space.length)

end PdfDictionary

/-! ## Without white space -/

def squeeze (text : Bytes) : Bytes := text.filter (!isSpace ·)

@[simp] theorem squeeze_append (a b : Bytes) : squeeze (a ++ b) = squeeze a ++ squeeze b :=
  List.filter_append ..

theorem squeeze_spaces {ws : Bytes} (h : Spaces ws) : squeeze ws = [] :=
  List.filter_eq_nil_iff.mpr fun b hb => by simp [h b hb]

theorem squeeze_self {text : Bytes} (h : ∀ b ∈ text, isSpace b = false) : squeeze text = text :=
  List.filter_eq_self.mpr fun b hb => by simp [h b hb]

theorem isSpace_of_isNameByte {b : UInt8} (h : isNameByte b = true) : isSpace b = false := by
  unfold isNameByte at h
  simp only [Bool.and_eq_true, Bool.not_eq_true'] at h
  exact h.1

theorem isSpace_of_isDigit {b : UInt8} (h : isDigit b = true) : isSpace b = false := by
  unfold isDigit isSpace at *
  simp only [Bool.and_eq_true, decide_eq_true_eq, UInt8.le_iff_toNat_le] at h
  simp only [List.contains_eq_mem, List.mem_cons, List.not_mem_nil, or_false, decide_eq_false_iff_not]
  rintro (rfl | rfl | rfl | rfl | rfl | rfl) <;> revert h <;> decide

/-- The fields of a dictionary as they stand in its text without white space. -/
def spelled (fields : List (Bytes × Bytes)) : Bytes :=
  fields.flatMap fun field => byte '/' :: (field.1 ++ squeeze field.2)

theorem squeeze_entry {e : DictEntry} (h : e.Valid) :
    squeeze e.text = byte '/' :: (e.key ++ squeeze e.object) := by
  have hslash : squeeze [byte '/'] = [byte '/'] := by decide
  have htext : e.text = e.space ++ ([byte '/'] ++ (e.key ++ e.gap ++ e.object)) := rfl
  rw [htext]
  simp only [squeeze_append, squeeze_spaces h.space, squeeze_spaces h.gap, hslash,
    squeeze_self fun b hb => isSpace_of_isNameByte (h.key b hb)]
  simp

theorem squeeze_entries {entries : List DictEntry} (h : ∀ e ∈ entries, e.Valid) :
    squeeze (entries.flatMap DictEntry.text) =
      spelled (entries.map fun e => (e.key, e.object)) := by
  induction entries with
  | nil => rfl
  | cons e entries ih =>
    rw [List.flatMap_cons, squeeze_append, squeeze_entry (h e List.mem_cons_self),
      ih fun e he => h e (List.mem_cons_of_mem _ he)]
    simp [spelled]

theorem squeeze_text (d : PdfDictionary) :
    squeeze d.text = asciiBytes "<<" ++ spelled d.fields ++ asciiBytes ">>" := by
  obtain ⟨h1, h2, h3⟩ := d.spaces
  have hopen : squeeze (asciiBytes "<<") = asciiBytes "<<" := by decide
  have hclose : squeeze (asciiBytes ">>") = asciiBytes ">>" := by decide
  unfold PdfDictionary.text
  simp only [squeeze_append, squeeze_spaces h1, squeeze_spaces h2, squeeze_spaces h3, hopen, hclose,
    squeeze_entries d.valid, PdfDictionary.fields]
  simp

/-- An object that is digits without its white space is a number. -/
theorem IsObject.digits {object : Bytes} (h : IsObject object)
    (hd : ∀ b ∈ squeeze object, isDigit b = true) : Digits object := by
  have hin {b : UInt8} (hb : b ∈ object) (hs : isSpace b = false) : isDigit b = true :=
    hd b (List.mem_filter.mpr ⟨hb, by simp [hs]⟩)
  cases h with
  | word hne hw => exact ⟨hne, fun b hb => hin hb (isSpace_of_isNameByte (hw b hb))⟩
  | reference => exact absurd (hin (b := byte 'R') (by simp) (by decide)) (by decide)
  | name => exact absurd (hin (b := byte '/') (by simp) (by decide)) (by decide)
  | string => exact absurd (hin (b := byte '(') (by simp) (by decide)) (by decide)
  | hex => exact absurd (hin (b := byte '<') (by simp) (by decide)) (by decide)
  | array => exact absurd (hin (b := byte '[') (by simp) (by decide)) (by decide)
  | dict => exact absurd (hin (b := byte '<') (by simp [asciiBytes, byte]) (by decide)) (by decide)

/-! ## The edit -/

/-- A text at its first `/Length`: white space and digits after it, and what follows. -/
structure LengthCut (text before gap digits after : Bytes) : Prop where
  text_eq : text = before ++ (asciiBytes "/Length" ++ (gap ++ (digits ++ after)))
  first : position text "/Length" = some before.length
  spaces : Spaces gap
  number : ∀ b ∈ digits, isDigit b = true
  ends : ∀ b ∈ after.head?, isDigit b = false ∧ (digits = [] → isSpace b = false)

theorem skip_append {p : UInt8 → Bool} {a b c : Bytes} (hb : ∀ x ∈ b, p x = true)
    (hc : ∀ x ∈ c.head?, p x = false) : skip p (a ++ (b ++ c)) a.length = a.length + b.length := by
  unfold skip
  rw [List.drop_left, List.takeWhile_append_of_pos hb]
  cases c with
  | nil => simp
  | cons x c => simp [hc x rfl]

section Cut

variable {text before gap digits after : Bytes}

theorem LengthCut.setLength_eq (h : LengthCut text before gap digits after) (n : Nat) :
    setLength text n =
      .ok (before ++ (asciiBytes "/Length" ++ (byte ' ' :: decimal n ++ after))) := by
  have hlen : (asciiBytes "/Length").length = 7 := by decide
  have hspace : skip isSpace text (before.length + 7) = before.length + 7 + gap.length := by
    have := skip_append (p := isSpace) (a := before ++ asciiBytes "/Length") (b := gap)
      (c := digits ++ after) h.spaces ?_
    · rwa [List.append_assoc, ← h.text_eq, List.length_append, hlen] at this
    · intro b hb
      cases hd : digits with
      | nil => exact (h.ends b (by simpa [hd] using hb)).2 hd
      | cons c cs =>
        rw [hd] at hb
        cases hb
        exact isSpace_of_isDigit (h.number b (by simp [hd]))
  have hdigit : skip isDigit text (before.length + 7 + gap.length) =
      before.length + 7 + gap.length + digits.length := by
    have := skip_append (p := isDigit) (a := before ++ asciiBytes "/Length" ++ gap) (b := digits)
      (c := after) h.number fun b hb => (h.ends b hb).1
    simp only [List.append_assoc] at this
    rw [← h.text_eq] at this
    simpa [hlen, Nat.add_assoc] using this
  unfold setLength
  rw [h.first]
  simp only [ofOption, Except.ok_bind]
  rw [hspace, hdigit, splice_ok (by omega) (by rw [h.text_eq]; simp [hlen]; omega)]
  have htake : text.take (before.length + 7) = before ++ asciiBytes "/Length" := by
    rw [h.text_eq, ← List.append_assoc]
    exact List.take_left' (by simp [hlen])
  have hdrop : text.drop (before.length + 7 + gap.length + digits.length) = after := by
    have hassoc : text = before ++ asciiBytes "/Length" ++ gap ++ digits ++ after := by
      rw [h.text_eq]
      simp
    rw [hassoc]
    exact List.drop_left' (by simp [hlen]; omega)
  rw [htake, hdrop]
  simp [decimal]

end Cut

/-- There is a cut at the first `/Length`. -/
theorem exists_lengthCut {text : Bytes} {i : Nat} (h : position text "/Length" = some i) :
    ∃ before gap digits after, LengthCut text before gap digits after := by
  obtain ⟨⟨before, rest, htext, rfl⟩, -⟩ := find_eq_some h
  have htext' : text = before ++ (asciiBytes "/Length" ++ rest) := by rw [htext, List.append_assoc]
  have hgap : rest.takeWhile isSpace ++ rest.dropWhile isSpace = rest := List.takeWhile_append_dropWhile
  have hdigits : (rest.dropWhile isSpace).takeWhile isDigit ++
      (rest.dropWhile isSpace).dropWhile isDigit = rest.dropWhile isSpace :=
    List.takeWhile_append_dropWhile
  have head_dropWhile {p : UInt8 → Bool} {l : Bytes} {b : UInt8} (hb : b ∈ (l.dropWhile p).head?) :
      p b = false := by
    have := List.head?_dropWhile_not p l
    rw [hb] at this
    simpa using this
  refine ⟨before, rest.takeWhile isSpace, (rest.dropWhile isSpace).takeWhile isDigit,
    (rest.dropWhile isSpace).dropWhile isDigit, ?_, h, ?_, ?_, ?_⟩
  · rw [hdigits, hgap, htext']
  · exact fun b hb => List.mem_takeWhile_imp hb
  · exact fun b hb => List.mem_takeWhile_imp hb
  · refine fun b hb => ⟨head_dropWhile hb, fun hnil => ?_⟩
    rw [hnil, List.nil_append] at hdigits
    rw [hdigits] at hb
    exact head_dropWhile hb

theorem setLength_cut {text out : Bytes} {n : Nat} (h : setLength text n = .ok out) :
    ∃ before gap digits after, LengthCut text before gap digits after ∧
      out = before ++ (asciiBytes "/Length" ++ (byte ' ' :: decimal n ++ after)) := by
  obtain ⟨i, hi⟩ : ∃ i, position text "/Length" = some i := by
    have hset := h
    unfold setLength at hset
    rw [Except.bind_ok] at hset
    obtain ⟨i, hi, -⟩ := hset
    exact ⟨i, ofOption_eq_ok.mp hi⟩
  obtain ⟨before, gap, digits, after, hcut⟩ := exists_lengthCut hi
  rw [hcut.setLength_eq n] at h
  exact ⟨before, gap, digits, after, hcut, (Except.ok.inj h).symm⟩

theorem toNat_digit {c : Char} (h : c.isDigit = true) : c.toNat.toUInt8.toNat = c.toNat := by
  unfold Char.isDigit at h
  simp only [ge_iff_le, Bool.and_eq_true, decide_eq_true_eq, UInt32.le_iff_toNat_le] at h
  rw [Nat.toUInt8, UInt8.toNat_ofNat']
  exact Nat.mod_eq_of_lt (lt_of_le_of_lt h.2 (by decide))

theorem toList_toString (n : Nat) : (toString n).toList = Nat.toDigits 10 n := by
  rw [Nat.toString_eq_ofList_toDigits, String.toList_ofList]

theorem digits_decimal (n : Nat) : Digits (decimal n) := by
  unfold decimal asciiBytes
  rw [toList_toString]
  refine ⟨fun h => Nat.toDigits_ne_nil (List.map_eq_nil_iff.mp h), fun b hb => ?_⟩
  obtain ⟨c, hc, rfl⟩ := List.mem_map.mp hb
  have hdigit := Nat.isDigit_of_mem_toDigits (by decide) (by decide) hc
  have hnat := toNat_digit hdigit
  unfold Char.isDigit at hdigit
  simp only [ge_iff_le, Bool.and_eq_true, decide_eq_true_eq, UInt32.le_iff_toNat_le] at hdigit
  unfold isDigit
  simp only [Bool.and_eq_true, decide_eq_true_eq, UInt8.le_iff_toNat_le, hnat]
  exact hdigit

theorem decimal_injective {n m : Nat} (h : decimal n = decimal m) : n = m := by
  unfold decimal asciiBytes at h
  rw [toList_toString, toList_toString] at h
  have hback (n : Nat) : ((Nat.toDigits 10 n).map fun c => c.toNat.toUInt8).map
      (fun b => Char.ofNat b.toNat) = Nat.toDigits 10 n := by
    rw [List.map_map]
    refine (List.map_congr_left fun c hc => ?_).trans (List.map_id _)
    rw [Function.comp_apply, toNat_digit (Nat.isDigit_of_mem_toDigits (by decide) (by decide) hc),
      Char.ofNat_toNat]
    rfl
  have hdigits := congrArg (List.map fun b => Char.ofNat b.toNat) h
  rw [hback, hback] at hdigits
  rw [← Nat.ofDigitChars_ten_toDigits (n := n), hdigits, Nat.ofDigitChars_ten_toDigits]

theorem isObject_digits {digits : Bytes} (h : Digits digits) : IsObject digits := by
  refine .word h.1 fun b hb => ?_
  have hdigit := h.2 b hb
  unfold isNameByte
  simp only [isSpace_of_isDigit hdigit, Bool.not_false, Bool.true_and, Bool.not_eq_true']
  rw [List.contains_eq_mem, decide_eq_false_iff_not]
  intro hmem
  have hall : ("()<>[]{}/%".toList.map byte).all (fun b => !isDigit b) = true := by decide
  have := List.all_eq_true.mp hall b hmem
  simp [hdigit] at this

/-- After an object comes white space, a key or the end of the dictionary. -/
theorem head_after {after : List DictEntry} {last trail : Bytes} (h : ∀ e ∈ after, e.Valid)
    (hlast : Spaces last) {b : UInt8}
    (hb : b ∈ (after.flatMap DictEntry.text ++ (last ++ (asciiBytes ">>" ++ trail))).head?) :
    isDigit b = false := by
  have of_space {b : UInt8} (hs : isSpace b = true) : isDigit b = false := by
    by_contra hd
    rw [isSpace_of_isDigit (by simpa using hd)] at hs
    cases hs
  cases after with
  | nil =>
    cases last with
    | nil =>
      cases hb
      decide
    | cons c last =>
      cases hb
      exact of_space (hlast b List.mem_cons_self)
  | cons e after =>
    have hv := h e List.mem_cons_self
    rw [List.flatMap_cons, DictEntry.text] at hb
    cases hs : e.space with
    | nil =>
      rw [hs] at hb
      cases hb
      decide
    | cons c space =>
      rw [hs] at hb
      cases hb
      exact of_space (hv.space b (by simp [hs]))

/-- The new length stands in the place of the old one. -/
theorem fields_update {before after : List DictEntry} {e : DictEntry}
    (hk : ((before ++ e :: after).map DictEntry.key).Nodup) (he : e.key = lengthKey) (n : Nat) :
    (((before ++ e :: after).map fun e => (e.key, e.object)).map fun field =>
      if field.1 = lengthKey then (field.1, decimal n) else field) =
    (before.map fun e => (e.key, e.object)) ++
      (lengthKey, decimal n) :: after.map fun e => (e.key, e.object) := by
  rw [List.map_append, List.map_cons] at hk
  obtain ⟨-, hcons, hdisjoint⟩ := List.nodup_append.mp hk
  have other {entries : List DictEntry} (h : ∀ x ∈ entries, x.key ≠ lengthKey) :
      ((entries.map fun e => (e.key, e.object)).map fun field =>
        if field.1 = lengthKey then (field.1, decimal n) else field) =
      entries.map fun e => (e.key, e.object) := by
    rw [List.map_map]
    refine List.map_congr_left fun x hx => ?_
    rw [Function.comp_apply, if_neg (h x hx)]
  rw [List.map_append, List.map_append, other, List.map_cons, List.map_cons, other]
  · simp [he]
  · intro x hx hx'
    exact (List.nodup_cons.mp hcons).1 (List.mem_map.mpr ⟨x, hx, hx'.trans he.symm⟩)
  · intro x hx hx'
    exact hdisjoint x.key (List.mem_map_of_mem hx) e.key List.mem_cons_self (hx'.trans he.symm)

/-- The text of a dictionary at one of its entries. -/
theorem text_entry {d : PdfDictionary} {before after : List DictEntry} {e : DictEntry}
    (hentries : d.entries = before ++ e :: after) (hkey : e.key = lengthKey) :
    d.text = (d.lead ++ asciiBytes "<<" ++ before.flatMap DictEntry.text ++ e.space) ++
      (asciiBytes "/Length" ++ (e.gap ++ (e.object ++
        (after.flatMap DictEntry.text ++ (d.last ++ (asciiBytes ">>" ++ d.trail)))))) := by
  have hslash : byte '/' :: e.key = asciiBytes "/Length" := by
    rw [hkey]
    decide
  rw [PdfDictionary.text, hentries, ← hslash]
  simp [DictEntry.text]

/-- The edit of a dictionary at its length gives the dictionary with the new length. -/
theorem setLength_first {d : PdfDictionary} (h : d.LengthFirst) (n : Nat) :
    ∃ d' : PdfDictionary, setLength d.text n = .ok d'.text ∧ d.Updates d' n := by
  obtain ⟨before, e, after, hentries, hkey, hobject, hfirst⟩ := h
  have hmem {x : DictEntry} (hx : x ∈ before ∨ x = e ∨ x ∈ after) : x ∈ d.entries := by
    rw [hentries]
    simpa using hx
  have hv := d.valid e (hmem (.inr (.inl rfl)))
  let e' : DictEntry := { e with gap := [byte ' '], object := decimal n }
  have hv' : e'.Valid := ⟨hv.space, hv.key, by simp [Spaces, e']; decide, fun _ => by simp [e']⟩
  have hkeys : (before ++ e' :: after).map DictEntry.key = d.entries.map DictEntry.key := by
    rw [hentries]
    simp [e']
  have hentry {P : DictEntry → Prop} (hP : ∀ x ∈ d.entries, P x) (he : P e') :
      ∀ x ∈ before ++ e' :: after, P x := by
    intro x hx
    rcases List.mem_append.mp hx with hx | hx
    · exact hP x (hmem (.inl hx))
    · rcases List.mem_cons.mp hx with rfl | hx
      · exact he
      · exact hP x (hmem (.inr (.inr hx)))
  let d' : PdfDictionary :=
    { d with
      entries := before ++ e' :: after
      valid := hentry d.valid hv'
      objects := hentry d.objects (isObject_digits (digits_decimal n))
      keys := hkeys ▸ d.keys }
  have hslash : byte '/' :: e.key = asciiBytes "/Length" := by
    rw [hkey]
    decide
  refine ⟨d', ?_, ?_⟩
  · have hcut : LengthCut d.text
        (d.lead ++ asciiBytes "<<" ++ before.flatMap DictEntry.text ++ e.space) e.gap e.object
        (after.flatMap DictEntry.text ++ (d.last ++ (asciiBytes ">>" ++ d.trail))) := by
      refine ⟨?_, ?_, hv.gap, hobject.2, fun b hb => ⟨?_, fun h => absurd h hobject.1⟩⟩
      · exact text_entry hentries hkey
      · rw [hfirst]
        simp only [List.length_append, Option.some.injEq]
        rfl
      · exact head_after (fun x hx => d.valid x (hmem (.inr (.inr hx)))) d.spaces.2.1 hb
    rw [hcut.setLength_eq n, ← hslash]
    simp [PdfDictionary.text, DictEntry.text, d', e']
  · refine ⟨List.mem_map.mpr ⟨e, hmem (.inr (.inl rfl)), hkey⟩, ?_⟩
    have hupdate := fields_update (hentries ▸ d.keys) hkey n
    rw [PdfDictionary.fields, PdfDictionary.fields, hentries, hupdate]
    simp [d', e', hkey]

/-- A number that two texts share with different numbers in its place. -/
theorem shared_number {number digits X P V B : Bytes} {b : UInt8} (hX : b ∈ X) (h1 : b ∉ number)
    (h2 : b ∉ digits) (h3 : digits ++ P = X ++ (V ++ B)) (h4 : number ++ P = X ++ (number ++ B)) :
    V = number := by
  -- both numbers begin `X`, for `b` is in neither
  have begins {a : Bytes} {T : Bytes} (ha : b ∉ a) (h : a ++ P = X ++ T) :
      ∃ c, X = a ++ c ∧ P = c ++ T := by
    rcases overlap h with ⟨c, hc, hP⟩ | ⟨c, -, hc, -⟩
    · exact ⟨c, hc, hP⟩
    · exact absurd (hc ▸ List.mem_append_left _ hX) ha
  obtain ⟨c, hc, hP⟩ := begins h2 h3
  obtain ⟨c', hc', hP'⟩ := begins h1 h4
  have hrest' : c ++ V ++ B = c' ++ number ++ B := by
    rw [List.append_assoc, List.append_assoc, ← hP, ← hP']
  have hrest : c ++ V = c' ++ number := List.append_cancel_right hrest'
  have hb : b ∈ c := by
    rw [hc] at hX
    exact (List.mem_append.mp hX).resolve_left h2
  have hb' : b ∈ c' := by
    rw [hc'] at hX
    exact (List.mem_append.mp hX).resolve_left h1
  -- the first `b` is equally far in
  have hindex := congrArg (List.idxOf b) hrest
  rw [List.idxOf_append_of_mem hb, List.idxOf_append_of_mem hb'] at hindex
  have hindex' := congrArg (List.idxOf b) (hc.symm.trans hc')
  rw [List.idxOf_append_of_notMem h2, List.idxOf_append_of_notMem h1, hindex] at hindex'
  have hlen : digits.length = number.length := by omega
  obtain ⟨-, rfl⟩ := append_length_inj (hc.symm.trans hc') hlen
  exact List.append_cancel_left hrest

section Squeezed

variable {d d' : PdfDictionary} {before after : List DictEntry} {e : DictEntry} {n : Nat}

theorem squeeze_before (hentries : d.entries = before ++ e :: after) :
    squeeze (d.lead ++ asciiBytes "<<" ++ before.flatMap DictEntry.text ++ e.space) =
      asciiBytes "<<" ++ spelled (before.map fun e => (e.key, e.object)) := by
  have hv (x : DictEntry) (hx : x ∈ before ∨ x = e) : x.Valid :=
    d.valid x (by rw [hentries]; rcases hx with hx | rfl <;> simp [*])
  have hopen : squeeze (asciiBytes "<<") = asciiBytes "<<" := by decide
  simp only [squeeze_append, squeeze_spaces d.spaces.1, hopen, squeeze_spaces (hv e (.inr rfl)).space,
    squeeze_entries fun x hx => hv x (.inl hx), List.nil_append, List.append_nil]

theorem squeeze_after (hentries : d.entries = before ++ e :: after) :
    squeeze (after.flatMap DictEntry.text ++ (d.last ++ (asciiBytes ">>" ++ d.trail))) =
      spelled (after.map fun e => (e.key, e.object)) ++ asciiBytes ">>" := by
  have hv (x : DictEntry) (hx : x ∈ after) : x.Valid := d.valid x (by rw [hentries]; simp [hx])
  have hclose : squeeze (asciiBytes ">>") = asciiBytes ">>" := by decide
  simp only [squeeze_append, squeeze_spaces d.spaces.2.1, squeeze_spaces d.spaces.2.2, hclose,
    squeeze_entries hv, List.nil_append, List.append_nil]

theorem squeeze_length : squeeze (asciiBytes "/Length") = asciiBytes "/Length" := by decide

/-- The text of a dictionary that got the length `n`, cut where the number was written. -/
theorem squeeze_updated {pre post : Bytes} (hentries : d.entries = before ++ e :: after)
    (hkey : e.key = lengthKey) (hupdate : d.Updates d' n)
    (htext : d'.text = pre ++ (asciiBytes "/Length" ++ (byte ' ' :: decimal n ++ post))) :
    squeeze pre ++ (asciiBytes "/Length" ++ (decimal n ++ squeeze post)) =
      asciiBytes "<<" ++ spelled (before.map fun e => (e.key, e.object)) ++
        (asciiBytes "/Length" ++ (decimal n ++
          (spelled (after.map fun e => (e.key, e.object)) ++ asciiBytes ">>"))) := by
  have hspace : squeeze [byte ' '] = [] := by decide
  have hnumber : squeeze (decimal n) = decimal n :=
    squeeze_self fun b hb => isSpace_of_isDigit ((digits_decimal n).2 b hb)
  have hslash : byte '/' :: lengthKey = asciiBytes "/Length" := by decide
  have htext' : d'.text = pre ++ asciiBytes "/Length" ++ [byte ' '] ++ decimal n ++ post := by
    rw [htext]
    simp
  have h := squeeze_text d'
  rw [htext', hupdate.2, PdfDictionary.fields, hentries, fields_update (hentries ▸ d.keys) hkey n] at h
  simp only [squeeze_append, squeeze_length, hspace, hnumber, spelled, List.flatMap_append,
    List.flatMap_cons] at h
  rw [← hslash] at h ⊢
  simpa [spelled] using h

/-- An edit that gives the dictionary with the new length was made at its length, or changed
nothing. -/
theorem first_of_setLength (hset : setLength d.text n = .ok d'.text) (hupdate : d.Updates d' n) :
    d.LengthFirst ∨ ∃ e ∈ d.entries, e.key = lengthKey ∧ squeeze e.object = decimal n := by
  obtain ⟨e, he, hkey⟩ := List.mem_map.mp hupdate.1
  obtain ⟨before, after, hentries⟩ := List.append_of_mem he
  obtain ⟨pre, gap, digits, post, hcut, htext'⟩ := setLength_cut hset
  have hnew := squeeze_updated hentries hkey hupdate htext'
  have htext := text_entry hentries hkey
  have hbefore := squeeze_before hentries
  have hafter := squeeze_after hentries
  have hgap := squeeze_spaces (d.valid e he).gap
  have hdigits : squeeze digits = digits :=
    squeeze_self fun b hb => isSpace_of_isDigit (hcut.number b hb)
  generalize hK : d.lead ++ asciiBytes "<<" ++ before.flatMap DictEntry.text ++ e.space = K at htext hbefore
  generalize after.flatMap DictEntry.text ++ (d.last ++ (asciiBytes ">>" ++ d.trail)) = R at htext hafter
  rw [← hbefore, ← hafter] at hnew
  -- the first `/Length` is the key, or stands before it
  have hfirst : pre.length ≤ K.length := by
    refine (find_eq_some hcut.first).2 K (e.gap ++ (e.object ++ R)) ?_
    rw [List.append_assoc]
    exact htext
  rcases overlap (hcut.text_eq.symm.trans htext) with ⟨m, hm, hU⟩ | ⟨m, hm, hpre, -⟩
  · by_cases hnil : m = []
    · left
      subst hnil
      rw [List.append_nil] at hm
      subst hm
      have hpost : squeeze post = squeeze R := by simpa using hnew
      have hold := congrArg squeeze (List.append_cancel_left hU)
      simp only [squeeze_append, squeeze_spaces hcut.spaces, hgap, hdigits, List.nil_append,
        hpost] at hold
      have hobject : digits = squeeze e.object := List.append_cancel_right hold
      refine ⟨before, e, after, hentries, hkey, ?_, ?_⟩
      · exact (d.objects e he).digits fun b hb => hcut.number b (hobject ▸ hb)
      · rw [hcut.first, ← hK]
        simp only [List.length_append, Option.some.injEq]
        rfl
    · right
      obtain ⟨c, rfl, hc⟩ : ∃ c, m = asciiBytes "/Length" ++ c ∧ gap ++ (digits ++ post) =
          c ++ (asciiBytes "/Length" ++ (e.gap ++ (e.object ++ R))) :=
        unlapped (x := byte '/') (p := asciiBytes "Length") (by decide) hnil hU
      refine ⟨e, he, hkey, ?_⟩
      have hold := congrArg squeeze hc
      simp only [squeeze_append, squeeze_spaces hcut.spaces, squeeze_length, hgap, hdigits,
        List.nil_append] at hold
      rw [hm] at hnew
      simp only [squeeze_append, squeeze_length, List.append_assoc,
        List.append_cancel_left_eq] at hnew
      have hslash : byte '/' ∈ squeeze c ++ asciiBytes "/Length" :=
        List.mem_append_right _ (by decide)
      have hfree {a : Bytes} (ha : ∀ b ∈ a, isDigit b = true) : byte '/' ∉ a := fun h =>
        absurd (ha _ h) (by decide)
      exact shared_number hslash (hfree (digits_decimal n).2) (hfree hcut.number)
        (by simpa using hold) (by simpa using hnew)
  · rw [hpre, List.length_append] at hfirst
    have := List.length_pos_iff.mpr hm
    omega

end Squeezed

end LinguaMesh.Pdf
