import LinguaMesh.Lib.Itemwise
import LinguaMesh.Document.Json

/-!
# JSON texts and their string literals

A text is read as marks: a string literal is one of them, with its path, every
other character is one of its own. `Derives` is the grammar that the parser
follows, past marks: what the parser accepts is derived (`derives_of_parse`), and
what is derived is accepted with the literals as its tokens (`parse_of_derives`).

The grammar does not look into a string value. So a text stays one when its
string values are replaced by other literals (`Derives.keep`).
-/

namespace LinguaMesh

open Run

inductive JsonMark where
  | char (c : Char)
  | literal (raw : Str) (path : List JsonPathSegment) (isKey : Bool)
  deriving DecidableEq, Repr

def JsonMark.text : JsonMark → Str
  | char c => [c]
  | literal raw _ _ => raw

@[simp] theorem JsonMark.text_char (c : Char) : (char c).text = [c] := rfl

@[simp] theorem JsonMark.text_literal (raw : Str) (path : List JsonPathSegment) (isKey : Bool) :
    (literal raw path isKey).text = raw := rfl

/-- The text that marks spell. -/
def markedText (marks : List JsonMark) : Str := marks.flatMap JsonMark.text

/-- A stretch of text without a literal. -/
def chars (s : Str) : List JsonMark := s.map .char

/-- The tokens of marks that begin at a position. -/
def tokensFrom : Nat → List JsonMark → List JsonStringToken
  | _, [] => []
  | pos, .char _ :: marks => tokensFrom (pos + 1) marks
  | pos, .literal raw path isKey :: marks =>
    ⟨pos, pos + raw.length, path, isKey⟩ :: tokensFrom (pos + raw.length) marks

@[simp] theorem markedText_nil : markedText [] = [] := rfl

@[simp] theorem markedText_append (a b : List JsonMark) :
    markedText (a ++ b) = markedText a ++ markedText b := List.flatMap_append

@[simp] theorem markedText_cons (m : JsonMark) (marks : List JsonMark) :
    markedText (m :: marks) = m.text ++ markedText marks := List.flatMap_cons

@[simp] theorem markedText_chars (s : Str) : markedText (chars s) = s := by
  induction s with
  | nil => rfl
  | cons c s ih => exact congrArg (c :: ·) ih

@[simp] theorem chars_append (s t : Str) : chars (s ++ t) = chars s ++ chars t := List.map_append

@[simp] theorem chars_nil : chars [] = [] := rfl

@[simp] theorem chars_cons (c : Char) (s : Str) : chars (c :: s) = .char c :: chars s := rfl

theorem tokensFrom_append (pos : Nat) (a b : List JsonMark) :
    tokensFrom pos (a ++ b) = tokensFrom pos a ++ tokensFrom (pos + (markedText a).length) b := by
  induction a generalizing pos with
  | nil => rfl
  | cons m a ih =>
    cases m with
    | char c =>
      rw [List.cons_append, tokensFrom, tokensFrom, ih, markedText_cons, List.length_append,
        ← Nat.add_assoc]
      rfl
    | literal raw path isKey =>
      rw [List.cons_append, tokensFrom, tokensFrom, ih, markedText_cons, List.length_append,
        ← Nat.add_assoc]
      rfl

@[simp] theorem tokensFrom_chars (pos : Nat) (s : Str) : tokensFrom pos (chars s) = [] := by
  induction s generalizing pos with
  | nil => rfl
  | cons c s ih => exact ih (pos + 1)

/-! ## The grammar -/

/-- What the parser is in the middle of: a value, the members of an object from a key on, the
items of an array from the one with an index on. -/
inductive JsonPhrase where
  | value
  | members
  | items (item : Nat)

section Grammar

variable [JsonReader]

/-- A text that is read as one string literal. -/
structure IsLiteral (raw : Str) : Prop where
  closed : ∃ body, raw = '"' :: body ∧ JsonParser.stringLength body = some body.length
  read : (JsonReader.parseString raw).isSome

/-- White space. -/
def Blank (ws : Str) : Prop := ∀ c ∈ ws, isJsonSpace c = true

omit [JsonReader] in
theorem Blank.nil : Blank [] := fun _ hc => absurd hc List.not_mem_nil

structure IsPrimitive (raw : Str) : Prop where
  starts : ∃ c cs, raw = c :: cs ∧ JsonParser.startsPrimitive c = true
  inside : ∀ c ∈ raw, JsonParser.endsPrimitive c = false
  read : JsonReader.isValue raw = true

/-- The phrases of a path. The members and the items end with the bracket that closes them. -/
inductive Derives : JsonPhrase → List JsonPathSegment → List JsonMark → Prop where
  | string {path : List JsonPathSegment} {ws raw : Str} : Blank ws → IsLiteral raw →
    Derives .value path (chars ws ++ [.literal raw path false])
  | primitive {path : List JsonPathSegment} {ws raw : Str} : Blank ws → IsPrimitive raw →
    Derives .value path (chars ws ++ chars raw)
  | emptyObject {path : List JsonPathSegment} {ws ws' : Str} : Blank ws → Blank ws' →
    Derives .value path (chars ws ++ (chars ['{'] ++ (chars ws' ++ chars ['}'])))
  | object {path : List JsonPathSegment} {ws : Str} {members : List JsonMark} : Blank ws →
    Derives .members path members → Derives .value path (chars ws ++ (chars ['{'] ++ members))
  | emptyArray {path : List JsonPathSegment} {ws ws' : Str} : Blank ws → Blank ws' →
    Derives .value path (chars ws ++ (chars ['['] ++ (chars ws' ++ chars [']'])))
  | array {path : List JsonPathSegment} {ws : Str} {items : List JsonMark} : Blank ws →
    Derives (.items 0) path items → Derives .value path (chars ws ++ (chars ['['] ++ items))
  | lastMember {path : List JsonPathSegment} {ws raw key ws1 ws2 : Str} {v : List JsonMark} :
    Blank ws → IsLiteral raw → JsonReader.parseString raw = some key → Blank ws1 → Blank ws2 →
    Derives .value (path ++ [.key key]) v →
    Derives .members path (chars ws ++ ([.literal raw path true] ++ (chars ws1 ++ (chars [':'] ++
      (v ++ (chars ws2 ++ chars ['}']))))))
  | member {path : List JsonPathSegment} {ws raw key ws1 ws2 : Str} {v members : List JsonMark} :
    Blank ws → IsLiteral raw → JsonReader.parseString raw = some key → Blank ws1 → Blank ws2 →
    Derives .value (path ++ [.key key]) v → Derives .members path members →
    Derives .members path (chars ws ++ ([.literal raw path true] ++ (chars ws1 ++ (chars [':'] ++
      (v ++ (chars ws2 ++ (chars [','] ++ members)))))))
  | lastItem {path : List JsonPathSegment} {item : Nat} {ws : Str} {v : List JsonMark} :
    Blank ws → checkedAdd item 1 = some (item + 1) → Derives .value (path ++ [.index item]) v →
    Derives (.items item) path (v ++ (chars ws ++ chars [']']))
  | item {path : List JsonPathSegment} {item : Nat} {ws : Str} {v items : List JsonMark} :
    Blank ws → checkedAdd item 1 = some (item + 1) → Derives .value (path ++ [.index item]) v →
    Derives (.items (item + 1)) path items →
    Derives (.items item) path (v ++ (chars ws ++ (chars [','] ++ items)))

omit [JsonReader] in
theorem Blank.append {ws ws' : Str} (h : Blank ws) (h' : Blank ws') : Blank (ws ++ ws') :=
  fun c hc => (List.mem_append.mp hc).elim (h c) (h' c)

/-- White space may be put before a phrase. -/
theorem Derives.pad {phrase : JsonPhrase} {path : List JsonPathSegment} {marks : List JsonMark}
    {ws : Str} (hws : Blank ws) (h : Derives phrase path marks) :
    Derives phrase path (chars ws ++ marks) := by
  have merge (ws' : Str) (rest : List JsonMark) :
      chars ws ++ (chars ws' ++ rest) = chars (ws ++ ws') ++ rest := by
    rw [chars_append, List.append_assoc]
  induction h with
  | string h1 h2 => rw [merge]; exact .string (hws.append h1) h2
  | primitive h1 h2 => rw [merge]; exact .primitive (hws.append h1) h2
  | emptyObject h1 h2 => rw [merge]; exact .emptyObject (hws.append h1) h2
  | object h1 h2 => rw [merge]; exact .object (hws.append h1) h2
  | emptyArray h1 h2 => rw [merge]; exact .emptyArray (hws.append h1) h2
  | array h1 h2 => rw [merge]; exact .array (hws.append h1) h2
  | lastMember h1 h2 h3 h4 h5 h6 => rw [merge]; exact .lastMember (hws.append h1) h2 h3 h4 h5 h6
  | member h1 h2 h3 h4 h5 h6 h7 => rw [merge]; exact .member (hws.append h1) h2 h3 h4 h5 h6 h7
  | lastItem h1 h2 _ ih => rw [← List.append_assoc]; exact .lastItem h1 h2 ih
  | item h1 h2 _ h4 ih => rw [← List.append_assoc]; exact .item h1 h2 ih h4

/-! ## Replacing string values -/

/-- What a mark may become: another literal for the value of a selected path, itself for
everything else. -/
inductive KeptMark (selected : List JsonPathSegment → Bool) : JsonMark → JsonMark → Prop where
  | same {m : JsonMark} : KeptMark selected m m
  | value {raw raw' : Str} {path : List JsonPathSegment} : selected path = true → IsLiteral raw' →
    KeptMark selected (.literal raw path false) (.literal raw' path false)

variable {selected : List JsonPathSegment → Bool}

theorem keptMark_chars {s : Str} {marks : List JsonMark}
    (h : List.Forall₂ (KeptMark selected) (chars s) marks) : marks = chars s := by
  induction s generalizing marks with
  | nil => exact List.forall₂_nil_left_iff.mp h
  | cons c s ih =>
    cases h with
    | cons h1 h2 =>
      cases h1
      rw [ih h2]
      rfl

theorem keptMark_chars_append {s : Str} {rest marks : List JsonMark}
    (h : List.Forall₂ (KeptMark selected) (chars s ++ rest) marks) :
    ∃ rest', marks = chars s ++ rest' ∧ List.Forall₂ (KeptMark selected) rest rest' := by
  obtain ⟨a, rest', rfl, h1, h2⟩ := forall₂_append_left h
  exact ⟨rest', by rw [keptMark_chars h1], h2⟩

theorem keptMark_key {raw : Str} {path : List JsonPathSegment} {rest marks : List JsonMark}
    (h : List.Forall₂ (KeptMark selected) ([.literal raw path true] ++ rest) marks) :
    ∃ rest', marks = [.literal raw path true] ++ rest' ∧ List.Forall₂ (KeptMark selected) rest rest' := by
  cases h with
  | cons h1 h2 =>
    cases h1
    exact ⟨_, rfl, h2⟩

theorem keptMark_colon {s : Str} {v rest marks : List JsonMark} {P : List JsonMark → Prop}
    (hv : ∀ v', List.Forall₂ (KeptMark selected) v v' → P v')
    (h : List.Forall₂ (KeptMark selected) (chars s ++ (chars [':'] ++ (v ++ rest))) marks) :
    ∃ v' rest', marks = chars s ++ (chars [':'] ++ (v' ++ rest')) ∧ P v' ∧
      List.Forall₂ (KeptMark selected) rest rest' := by
  obtain ⟨m1, rfl, h1⟩ := keptMark_chars_append h
  obtain ⟨m2, rfl, h2⟩ := keptMark_chars_append h1
  obtain ⟨v', rest', rfl, h3, h4⟩ := forall₂_append_left h2
  exact ⟨v', rest', rfl, hv v' h3, h4⟩

/-- A phrase stays one when its string values are replaced. -/
theorem Derives.keep {phrase : JsonPhrase} {path : List JsonPathSegment}
    {marks marks' : List JsonMark} (h : Derives phrase path marks)
    (hk : List.Forall₂ (KeptMark selected) marks marks') : Derives phrase path marks' := by
  induction h generalizing marks' with
  | string h1 h2 =>
    obtain ⟨m, rfl, hm⟩ := keptMark_chars_append hk
    cases hm with
    | cons hl hnil =>
      cases hnil
      cases hl with
      | same => exact .string h1 h2
      | value _ h2' => exact .string h1 h2'
  | primitive h1 h2 =>
    obtain ⟨m, rfl, hm⟩ := keptMark_chars_append hk
    rw [keptMark_chars hm]
    exact .primitive h1 h2
  | emptyObject h1 h2 =>
    obtain ⟨m1, rfl, hm1⟩ := keptMark_chars_append hk
    obtain ⟨m2, rfl, hm2⟩ := keptMark_chars_append hm1
    obtain ⟨m3, rfl, hm3⟩ := keptMark_chars_append hm2
    rw [keptMark_chars hm3]
    exact .emptyObject h1 h2
  | object h1 _ ih =>
    obtain ⟨m1, rfl, hm1⟩ := keptMark_chars_append hk
    obtain ⟨m2, rfl, hm2⟩ := keptMark_chars_append hm1
    exact .object h1 (ih hm2)
  | emptyArray h1 h2 =>
    obtain ⟨m1, rfl, hm1⟩ := keptMark_chars_append hk
    obtain ⟨m2, rfl, hm2⟩ := keptMark_chars_append hm1
    obtain ⟨m3, rfl, hm3⟩ := keptMark_chars_append hm2
    rw [keptMark_chars hm3]
    exact .emptyArray h1 h2
  | array h1 _ ih =>
    obtain ⟨m1, rfl, hm1⟩ := keptMark_chars_append hk
    obtain ⟨m2, rfl, hm2⟩ := keptMark_chars_append hm1
    exact .array h1 (ih hm2)
  | lastMember h1 h2 h3 h4 h5 _ ih =>
    obtain ⟨m1, rfl, hm1⟩ := keptMark_chars_append hk
    obtain ⟨m2, rfl, hm2⟩ := keptMark_key hm1
    obtain ⟨v', m3, rfl, hv, hm3⟩ := keptMark_colon (fun v' => ih) hm2
    obtain ⟨m4, rfl, hm4⟩ := keptMark_chars_append hm3
    rw [keptMark_chars hm4]
    exact .lastMember h1 h2 h3 h4 h5 hv
  | member h1 h2 h3 h4 h5 _ _ ih ihm =>
    obtain ⟨m1, rfl, hm1⟩ := keptMark_chars_append hk
    obtain ⟨m2, rfl, hm2⟩ := keptMark_key hm1
    obtain ⟨v', m3, rfl, hv, hm3⟩ := keptMark_colon (fun v' => ih) hm2
    obtain ⟨m4, rfl, hm4⟩ := keptMark_chars_append hm3
    obtain ⟨m5, rfl, hm5⟩ := keptMark_chars_append hm4
    exact .member h1 h2 h3 h4 h5 hv (ihm hm5)
  | lastItem h1 h2 _ ih =>
    obtain ⟨v', m1, rfl, hv, hm1⟩ := forall₂_append_left hk
    obtain ⟨m2, rfl, hm2⟩ := keptMark_chars_append hm1
    rw [keptMark_chars hm2]
    exact .lastItem h1 h2 (ih hv)
  | item h1 h2 _ _ ih ihm =>
    obtain ⟨v', m1, rfl, hv, hm1⟩ := forall₂_append_left hk
    obtain ⟨m2, rfl, hm2⟩ := keptMark_chars_append hm1
    obtain ⟨m3, rfl, hm3⟩ := keptMark_chars_append hm2
    exact .item h1 h2 (ih hv) (ihm hm3)

end Grammar

/-! ## Moving past marks -/

namespace JsonParser

/-- The parser after it has read marks. -/
def past (p : JsonParser) (marks : List JsonMark) : JsonParser :=
  ⟨p.index + (markedText marks).length, p.tokens ++ tokensFrom p.index marks⟩

@[simp] theorem past_nil (p : JsonParser) : p.past [] = p := by simp [past, tokensFrom]

theorem past_append (p : JsonParser) (a b : List JsonMark) : p.past (a ++ b) = (p.past a).past b := by
  simp [past, tokensFrom_append, Nat.add_assoc]

theorem past_chars (p : JsonParser) (s : Str) :
    p.past (chars s) = { p with index := p.index + s.length } := by simp [past]

theorem le_past (p : JsonParser) (marks : List JsonMark) :
    p.tokens.length ≤ (p.past marks).tokens.length := by simp [past]

variable {text rest : Str} {p q : JsonParser} {marks : List JsonMark}

/-- The text is `rest` from the parser on. -/
def At (text : Str) (p : JsonParser) (rest : Str) : Prop :=
  text.drop p.index = rest ∧ p.index ≤ text.length

theorem At.past (h : At text p (markedText marks ++ rest)) : At text (p.past marks) rest := by
  obtain ⟨hd, hle⟩ := h
  have hlen := congrArg List.length hd
  rw [List.length_drop, List.length_append] at hlen
  refine ⟨?_, by dsimp only [JsonParser.past]; omega⟩
  rw [JsonParser.past, ← List.drop_drop, hd, List.drop_left]

theorem At.getElem? (h : At text p rest) : text[p.index]? = rest.head? := by
  rw [← h.1, List.head?_drop]

theorem At.slice {raw : Str} (h : At text p (raw ++ rest)) :
    (sliceOf text p.index (p.index + raw.length) : Run DocumentError Str) = .ok raw := by
  obtain ⟨hd, hle⟩ := h
  have hlen := congrArg List.length hd
  rw [List.length_drop, List.length_append] at hlen
  rw [sliceOf_ok (Nat.le_add_right _ _) (by omega), List.drop_take, hd, Nat.add_sub_cancel_left,
    List.take_left]

theorem At.skip {ws : Str} (h : At text p (ws ++ rest)) (hws : Blank ws)
    (hrest : ∀ c ∈ rest.head?, isJsonSpace c = false) : p.skipWhitespace text = p.past (chars ws) := by
  have htake : (ws ++ rest).takeWhile isJsonSpace = ws := by
    rw [List.takeWhile_append_of_pos hws]
    cases rest with
    | nil => simp
    | cons c rest => simp [hrest c rfl]
  rw [skipWhitespace, h.1, htake, past_chars]

theorem At.consume {c : Char} (h : At text p (c :: rest)) :
    p.consumeByte text c = some (p.past (chars [c])) := by
  rw [consumeByte, h.getElem?, if_pos (List.head?_cons), past_chars]
  rfl

theorem At.consume_none {c : Char} (h : At text p rest) (hc : rest.head? ≠ some c) :
    p.consumeByte text c = none := by
  rw [consumeByte, h.getElem?, if_neg hc]

theorem At.expect {c : Char} (h : At text p (c :: rest)) :
    p.expectByte text c = .ok (p.past (chars [c])) := by
  rw [expectByte, h.consume]
  rfl

/-- The length of a literal does not depend on what follows it. -/
theorem stringLength_append {s : Str} (rest : Str) (h : stringLength s = some s.length) :
    stringLength (s ++ rest) = some s.length := by
  have shorter {cs : Str} {k : Nat}
      (h : (stringLength cs).map (· + k) = some (cs.length + k)) :
      stringLength cs = some cs.length := by
    obtain ⟨m, hm, he⟩ := Option.map_eq_some_iff.mp h
    rw [hm, Nat.add_right_cancel he]
  fun_induction stringLength s with
  | case1 => cases h
  | case2 cs =>
    have : cs = [] := List.length_eq_zero_iff.mp (by simpa using h)
    rw [this]
    rfl
  | case3 => cases h
  | case4 c cs ih =>
    rw [List.cons_append, List.cons_append, stringLength, ih (shorter h)]
    rfl
  | case5 => cases h
  | case6 c cs h1 h2 h3 hc ih =>
    have hb : c ≠ '\\' := by
      rintro rfl
      cases cs with
      | nil => exact h2 rfl rfl
      | cons d cs => exact h3 d cs rfl rfl
    rw [List.cons_append, stringLength.eq_5, if_neg hc, ih (shorter h)]
    · rfl
    · exact h1
    · exact fun e _ => hb e
    · exact fun _ _ e _ => hb e

/-- White space, then the bracket that closes. -/
theorem At.closes {ws : Str} {close : Char} {next : JsonParser → Run DocumentError JsonParser}
    (h : At text p (ws ++ close :: rest)) (hws : Blank ws) (hc : isJsonSpace close = false) :
    unlessClosed text close (p.skipWhitespace text) next =
      .ok (p.past (chars ws ++ chars [close])) := by
  have hat : At text (p.past (chars ws)) (close :: rest) := At.past (by simpa using h)
  rw [h.skip hws (by simpa using hc), unlessClosed, hat.consume, past_append]

/-- White space, then something else than the bracket that closes. -/
theorem At.continues {ws : Str} {close c : Char} {next : JsonParser → Run DocumentError JsonParser}
    (h : At text p (ws ++ c :: rest)) (hws : Blank ws) (hc : isJsonSpace c = false)
    (hne : c ≠ close) :
    unlessClosed text close (p.skipWhitespace text) next = next (p.past (chars ws)) := by
  have hat : At text (p.past (chars ws)) (c :: rest) := At.past (by simpa using h)
  rw [h.skip hws (by simpa using hc), unlessClosed, hat.consume_none (by simpa using hne)]

theorem At.past_comma {ws : Str} (h : At text p (ws ++ ',' :: rest)) :
    At text ((p.past (chars ws)).past (chars [','])) rest := by
  rw [← past_append]
  exact At.past (by simpa using h)

theorem At.comma {ws : Str} {close : Char} {next : JsonParser → Run DocumentError JsonParser}
    (h : At text p (ws ++ ',' :: rest)) (hws : Blank ws) (hne : ',' ≠ close) :
    (unlessClosed text close (p.skipWhitespace text) fun p => p.expectByte text ',' >>= next) =
      next (p.past (chars ws ++ chars [','])) := by
  have hat : At text (p.past (chars ws)) (',' :: rest) := At.past (by simpa using h)
  rw [h.continues hws (by decide) hne, hat.expect, Except.ok_bind, past_append]

section Steps

variable [JsonReader] {path : List JsonPathSegment} {raw : Str}

theorem At.string {isKey : Bool} (h : At text p (raw ++ rest)) (hl : IsLiteral raw)
    (hmax : (p.past [.literal raw path isKey]).tokens.length ≤ maxJsonTokens) :
    parseString text path isKey p =
      .ok (p.past [.literal raw path isKey], p.index, p.index + raw.length) := by
  obtain ⟨⟨body, hbody, hlen⟩, hread⟩ := hl
  obtain ⟨value, hvalue⟩ := Option.isSome_iff_exists.mp hread
  have hslice := h.slice
  have hexpect : p.expectByte text '"' = .ok (p.past (chars ['"'])) := At.expect (by rwa [hbody] at h)
  have hbodyAt : At text (p.past (chars ['"'])) (body ++ rest) := At.past (by rwa [hbody] at h)
  have hcount : ¬ maxJsonTokens ≤ (p.past (chars ['"'])).tokens.length := by
    simp only [JsonParser.past, tokensFrom, tokensFrom_chars, List.append_nil, List.length_append,
      List.length_singleton] at hmax ⊢
    omega
  have hstop : (p.past (chars ['"'])).index + body.length = p.index + raw.length := by
    simp only [JsonParser.past, markedText_chars, hbody, List.length_cons, List.length_nil]
    omega
  unfold parseString
  rw [hexpect, Except.ok_bind, hbodyAt.1, stringLength_append rest hlen]
  simp only [ofOption, Except.ok_bind]
  rw [if_neg hcount, hstop, hslice, Except.ok_bind, hvalue]
  simp [JsonParser.past, tokensFrom]

theorem At.primitive (h : At text p (raw ++ rest)) (hp : IsPrimitive raw)
    (hrest : ∀ c ∈ rest.head?, endsPrimitive c = true) :
    parsePrimitive text p = .ok (p.past (chars raw)) := by
  have htake : (raw ++ rest).takeWhile (!endsPrimitive ·) = raw := by
    rw [List.takeWhile_append_of_pos fun c hc => by simp [hp.inside c hc]]
    cases rest with
    | nil => simp
    | cons c rest => simp [hrest c rfl]
  obtain ⟨c, cs, hraw, -⟩ := hp.starts
  have hne : ¬ (raw = [] ∨ ¬ JsonReader.isValue raw) := by
    rintro (h | h)
    · exact absurd (hraw.symm.trans h) (List.cons_ne_nil _ _)
    · exact h hp.read
  unfold parsePrimitive
  rw [h.1]
  dsimp only
  rw [htake, if_neg hne, past_chars]

theorem At.value {ws : Str} {c : Char} (path : List JsonPathSegment) (rest : Str) (fuel : Nat)
    (h : At text p (ws ++ c :: rest)) (hws : Blank ws) (hc : isJsonSpace c = false) :
    parseValue text (fuel + 1) path p =
      if c = '{' then parseObject text fuel path (p.past (chars ws))
      else if c = '[' then parseArray text fuel path (p.past (chars ws))
      else if c = '"' then (parseString text path false (p.past (chars ws))).map Prod.fst
      else if startsPrimitive c then parsePrimitive text (p.past (chars ws))
      else fail .invalidStructure := by
  have hat : At text (p.past (chars ws)) (c :: rest) := At.past (by simpa using h)
  unfold parseValue
  dsimp only
  rw [h.skip hws (by simpa using hc), hat.getElem?]
  rfl

end Steps

/-! ## What is derived is accepted -/

theorem skipWhitespace_skipWhitespace (p : JsonParser) :
    (p.skipWhitespace text).skipWhitespace text = p.skipWhitespace text := by
  have hsplit : (text.drop p.index).takeWhile isJsonSpace ++
      (text.drop p.index).dropWhile isJsonSpace = text.drop p.index :=
    List.takeWhile_append_dropWhile
  have hdrop : (text.drop p.index).drop ((text.drop p.index).takeWhile isJsonSpace).length =
      (text.drop p.index).dropWhile isJsonSpace := by
    conv_lhs => enter [2]; rw [← hsplit]
    exact List.drop_left
  have hnone : ((text.drop p.index).dropWhile isJsonSpace).takeWhile isJsonSpace = [] := by
    rw [List.takeWhile_eq_nil_iff]
    intro h
    simpa using List.dropWhile_get_zero_not isJsonSpace (text.drop p.index) h
  simp only [skipWhitespace, ← List.drop_drop, hdrop, hnone, List.length_nil, Nat.add_zero]

variable [JsonReader] {phrase : JsonPhrase} {path : List JsonPathSegment}

/-- The function of the parser for a phrase. -/
def parsePhrase (text : Str) :
    JsonPhrase → Nat → List JsonPathSegment → JsonParser → Run DocumentError JsonParser
  | .value => parseValue text
  | .members => parseMembers text
  | .items item => fun fuel path p => parseItems text fuel path item p

/-- Each phrase begins with white space. -/
theorem parsePhrase_skipWhitespace (phrase : JsonPhrase) (fuel : Nat) (p : JsonParser) :
    parsePhrase text phrase fuel path (p.skipWhitespace text) =
      parsePhrase text phrase fuel path p := by
  have value (fuel : Nat) (path : List JsonPathSegment) :
      parseValue text fuel path (p.skipWhitespace text) = parseValue text fuel path p := by
    cases fuel with
    | zero => rfl
    | succ fuel => rw [parseValue, parseValue, skipWhitespace_skipWhitespace]
  cases fuel with
  | zero => cases phrase <;> rfl
  | succ fuel =>
    cases phrase with
    | value => exact value _ _
    | members =>
      change parseMembers text (fuel + 1) path _ = parseMembers text (fuel + 1) path _
      rw [parseMembers, parseMembers, skipWhitespace_skipWhitespace]
    | items item =>
      change parseItems text (fuel + 1) path item _ = parseItems text (fuel + 1) path item _
      rw [parseItems, parseItems, value]

omit [JsonReader] in
theorem primitive_first {c : Char} (h : startsPrimitive c = true) :
    isJsonSpace c = false ∧ c ≠ '}' ∧ c ≠ ']' ∧ c ≠ '{' ∧ c ≠ '[' ∧ c ≠ '"' := by
  refine ⟨?_, ?_, ?_, ?_, ?_, ?_⟩
  · by_contra hs
    have hs' : c ∈ [' ', '\n', '\r', '\t'] :=
      List.contains_iff_mem.mp (Bool.not_eq_false _ ▸ hs)
    have : (([' ', '\n', '\r', '\t'] : Str).all fun c => !startsPrimitive c) = true := by decide
    simpa [h] using List.all_eq_true.mp this c hs'
  all_goals
    rintro rfl
    exact absurd h (by decide)

/-- The first character of a phrase after white space opens something. -/
theorem first_of_derives (h : Derives phrase path marks) : ∃ ws c cs,
    markedText marks = ws ++ c :: cs ∧ Blank ws ∧ isJsonSpace c = false ∧ c ≠ '}' ∧ c ≠ ']' := by
  induction h with
  | @string _ ws raw h1 h2 =>
    obtain ⟨⟨body, rfl, -⟩, -⟩ := h2
    exact ⟨ws, '"', body, by simp, h1, by decide, by decide, by decide⟩
  | @primitive _ ws raw h1 h2 =>
    obtain ⟨c, cs, rfl, hc⟩ := h2.starts
    obtain ⟨hspace, hbrace, hbracket, -⟩ := primitive_first hc
    exact ⟨ws, c, cs, by simp, h1, hspace, hbrace, hbracket⟩
  | @emptyObject _ ws ws' h1 => exact ⟨ws, '{', ws' ++ ['}'], by simp, h1, by decide⟩
  | @object _ ws ms h1 => exact ⟨ws, '{', markedText ms, by simp, h1, by decide⟩
  | @emptyArray _ ws ws' h1 => exact ⟨ws, '[', ws' ++ [']'], by simp, h1, by decide⟩
  | @array _ ws ms h1 => exact ⟨ws, '[', markedText ms, by simp, h1, by decide⟩
  | @lastMember _ ws raw _ _ _ _ h1 h2 =>
    obtain ⟨⟨body, rfl, -⟩, -⟩ := h2
    exact ⟨ws, '"', _, by simp; rfl, h1, by decide⟩
  | @member _ ws raw _ _ _ _ _ h1 h2 =>
    obtain ⟨⟨body, rfl, -⟩, -⟩ := h2
    exact ⟨ws, '"', _, by simp; rfl, h1, by decide⟩
  | lastItem _ _ _ ih =>
    obtain ⟨ws, c, cs, heq, h⟩ := ih
    exact ⟨ws, c, cs ++ _, by rw [markedText_append, heq, List.append_assoc]; rfl, h⟩
  | item _ _ _ _ ih =>
    obtain ⟨ws, c, cs, heq, h⟩ := ih
    exact ⟨ws, c, cs ++ _, by rw [markedText_append, heq, List.append_assoc]; rfl, h⟩

omit [JsonReader] in
/-- A bracket, and what the function of the brackets goes on with. -/
theorem yields_bracket {opening close c : Char} {ws rest' : Str} {inner : List JsonMark}
    {next : JsonParser → Run DocumentError JsonParser}
    (hat : At text p (opening :: (markedText inner ++ rest)))
    (hfirst : markedText inner ++ rest = ws ++ c :: rest') (hws : Blank ws)
    (hc : isJsonSpace c = false) (hne : c ≠ close)
    (hnext : Yields (next ((p.past (chars [opening])).skipWhitespace text))
      ((p.past (chars [opening])).past inner)) :
    Yields (p.expectByte text opening >>= fun p =>
      unlessClosed text close (p.skipWhitespace text) next) (p.past (chars [opening] ++ inner)) := by
  have hat' : At text (p.past (chars [opening])) (ws ++ c :: rest') := by
    rw [← hfirst]
    exact At.past (by simpa using hat)
  rw [hat.expect, Except.ok_bind, hat'.continues hws hc hne, past_append]
  rwa [hat'.skip hws (by simpa using hc)] at hnext

omit [JsonReader] in
theorem ends_of_blank {ws : Str} (hws : Blank ws) : ∀ d ∈ ws.head?, endsPrimitive d = true := by
  intro d hd
  cases ws with
  | nil => cases hd
  | cons e ws =>
    cases hd
    have hs : d ∈ [' ', '\n', '\r', '\t'] := List.contains_iff_mem.mp (hws d List.mem_cons_self)
    have : (([' ', '\n', '\r', '\t'] : Str).all endsPrimitive) = true := by decide
    exact List.all_eq_true.mp this d hs

omit [JsonReader] in
/-- After a value comes something that ends it. -/
theorem ends_before {ws : Str} {c : Char} (hws : Blank ws) (hc : endsPrimitive c = true) :
    ∀ d ∈ (ws ++ c :: rest).head?, endsPrimitive d = true := by
  cases ws with
  | nil =>
    rintro d ⟨⟩
    exact hc
  | cons e ws =>
    have hends := ends_of_blank hws
    exact hends

/-- The key of a member and its colon. -/
theorem At.key {ws raw key ws1 : Str} (fuel : Nat)
    (hat : At text p (ws ++ (raw ++ (ws1 ++ ':' :: rest)))) (hws : Blank ws) (hraw : IsLiteral raw)
    (hkey : JsonReader.parseString raw = some key) (hws1 : Blank ws1)
    (hmax : ((p.past (chars ws)).past [.literal raw path true]).tokens.length ≤ maxJsonTokens) :
    parseMembers text (fuel + 1) path p =
      parseValue text fuel (path ++ [.key key])
        ((((p.past (chars ws)).past [.literal raw path true]).past (chars ws1)).past
          (chars [':'])) >>= fun p =>
      unlessClosed text '}' (p.skipWhitespace text) fun p =>
        p.expectByte text ',' >>= parseMembers text fuel path := by
  obtain ⟨body, hbody, -⟩ := hraw.closed
  have hat1 : At text (p.past (chars ws)) (raw ++ (ws1 ++ ':' :: rest)) :=
    At.past (by simpa using hat)
  have hat2 : At text ((p.past (chars ws)).past [.literal raw path true]) (ws1 ++ ':' :: rest) :=
    At.past (by simpa using hat1)
  have hat3 : At text (((p.past (chars ws)).past [.literal raw path true]).past (chars ws1))
      (':' :: rest) := At.past (by simpa using hat2)
  have hskip : p.skipWhitespace text = p.past (chars ws) :=
    hat.skip hws (by rw [hbody]; rintro c ⟨⟩; decide)
  have hquote : ¬ text[(p.past (chars ws)).index]? ≠ some '"' := by
    rw [hat1.getElem?, hbody]
    simp
  rw [parseMembers, hskip]
  dsimp only
  rw [if_neg hquote, hat1.string hraw hmax, Except.ok_bind]
  dsimp only
  rw [hat1.slice, Except.ok_bind, hkey]
  simp only [ofOption, Except.ok_bind]
  rw [hat2.skip hws1 (by simp; decide), hat3.expect, Except.ok_bind]

/-- What is derived is accepted, and its literals become tokens. -/
theorem yields_of_derives (h : Derives phrase path marks) {fuel : Nat}
    (hat : At text p (markedText marks ++ rest))
    (hrest : phrase matches .value → ∀ c ∈ rest.head?, endsPrimitive c = true)
    (hmax : (p.past marks).tokens.length ≤ maxJsonTokens) :
    Yields (parsePhrase text phrase fuel path p) (p.past marks) := by
  have skip (phrase : JsonPhrase) (fuel : Nat) {path : List JsonPathSegment} {p q : JsonParser}
      (h : Yields (parsePhrase text phrase fuel path p) q) :
      Yields (parsePhrase text phrase fuel path (p.skipWhitespace text)) q := by
    rwa [parsePhrase_skipWhitespace]
  induction h generalizing fuel p rest with
  | @string path ws raw h1 h2 =>
    obtain _ | fuel := fuel
    · exact .inr rfl
    have hat' : At text (p.past (chars ws)) (raw ++ rest) := At.past (by simpa using hat)
    obtain ⟨body, hbody, -⟩ := h2.closed
    have hvalue := At.value path (body ++ rest) fuel (p := p) (c := '"')
      (by simpa [hbody] using hat) h1 (by decide)
    rw [past_append] at hmax ⊢
    refine .inl (hvalue.trans ?_)
    simp [hat'.string h2 hmax, Except.map]
  | @primitive path ws raw h1 h2 =>
    obtain _ | fuel := fuel
    · exact .inr rfl
    have hat' : At text (p.past (chars ws)) (raw ++ rest) := At.past (by simpa using hat)
    obtain ⟨c, cs, hraw, hc⟩ := h2.starts
    obtain ⟨hspace, -, -, hne⟩ := primitive_first hc
    have hvalue := At.value path (cs ++ rest) fuel (p := p) (c := c)
      (by simpa [hraw] using hat) h1 hspace
    rw [past_append]
    refine .inl (hvalue.trans ?_)
    rw [if_neg hne.1, if_neg hne.2.1, if_neg hne.2.2, if_pos hc]
    exact hat'.primitive h2 (hrest rfl)
  | @emptyObject path ws ws' h1 h2 =>
    obtain _ | fuel := fuel
    · exact .inr rfl
    have hvalue := At.value path (ws' ++ '}' :: rest) fuel (p := p) (c := '{')
      (by simpa using hat) h1 (by decide)
    change Yields (parseValue text (fuel + 1) path p) _
    rw [hvalue, if_pos rfl]
    obtain _ | fuel := fuel
    · exact .inr rfl
    have hat' : At text (p.past (chars ws)) ('{' :: (ws' ++ '}' :: rest)) :=
      At.past (by simpa using hat)
    have hat2 : At text ((p.past (chars ws)).past (chars ['{'])) (ws' ++ '}' :: rest) :=
      At.past (by simpa using hat')
    rw [parseObject, hat'.expect, Except.ok_bind, hat2.closes h2 (by decide)]
    exact .inl (by simp only [past_append])
  | @object path ws members h1 hm ih =>
    obtain _ | fuel := fuel
    · exact .inr rfl
    have hvalue := At.value path (markedText members ++ rest) fuel (p := p)
      (c := '{') (by simpa using hat) h1 (by decide)
    change Yields (parseValue text (fuel + 1) path p) _
    rw [hvalue, if_pos rfl, past_append]
    obtain _ | fuel := fuel
    · exact .inr rfl
    obtain ⟨ws', c, cs, hfirst, hws', hc, hne, -⟩ := first_of_derives hm
    have hat' : At text (p.past (chars ws)) ('{' :: (markedText members ++ rest)) :=
      At.past (by simpa using hat)
    rw [parseObject]
    refine yields_bracket hat' (by rw [hfirst, List.append_assoc]; rfl) hws' hc hne ?_
    refine skip .members fuel (ih (At.past (by simpa using hat')) (by rintro ⟨⟩) ?_)
    rwa [← past_append, ← past_append]
  | @emptyArray path ws ws' h1 h2 =>
    obtain _ | fuel := fuel
    · exact .inr rfl
    have hvalue := At.value path (ws' ++ ']' :: rest) fuel (p := p) (c := '[')
      (by simpa using hat) h1 (by decide)
    change Yields (parseValue text (fuel + 1) path p) _
    rw [hvalue, if_neg (by decide), if_pos rfl]
    obtain _ | fuel := fuel
    · exact .inr rfl
    have hat' : At text (p.past (chars ws)) ('[' :: (ws' ++ ']' :: rest)) :=
      At.past (by simpa using hat)
    have hat2 : At text ((p.past (chars ws)).past (chars ['['])) (ws' ++ ']' :: rest) :=
      At.past (by simpa using hat')
    rw [parseArray, hat'.expect, Except.ok_bind, hat2.closes h2 (by decide)]
    exact .inl (by simp only [past_append])
  | @array path ws items h1 hm ih =>
    obtain _ | fuel := fuel
    · exact .inr rfl
    have hvalue := At.value path (markedText items ++ rest) fuel (p := p)
      (c := '[') (by simpa using hat) h1 (by decide)
    change Yields (parseValue text (fuel + 1) path p) _
    rw [hvalue, if_neg (by decide), if_pos rfl, past_append]
    obtain _ | fuel := fuel
    · exact .inr rfl
    obtain ⟨ws', c, cs, hfirst, hws', hc, -, hne⟩ := first_of_derives hm
    have hat' : At text (p.past (chars ws)) ('[' :: (markedText items ++ rest)) :=
      At.past (by simpa using hat)
    rw [parseArray]
    refine yields_bracket hat' (by rw [hfirst, List.append_assoc]; rfl) hws' hc hne ?_
    refine skip (.items 0) fuel (ih (At.past (by simpa using hat')) (by rintro ⟨⟩) ?_)
    rwa [← past_append, ← past_append]
  | @lastMember path ws raw key ws1 ws2 v h1 h2 h3 h4 h5 hv ih =>
    obtain _ | fuel := fuel
    · exact .inr rfl
    simp only [past_append] at hmax ⊢
    have hat' : At text p (ws ++ (raw ++ (ws1 ++ ':' :: (markedText v ++ (ws2 ++ '}' :: rest))))) := by
      simpa using hat
    have hatv : At text (p.past (chars ws ++ ([.literal raw path true] ++ (chars ws1 ++ chars [':']))))
        (markedText v ++ (ws2 ++ '}' :: rest)) := At.past (by simpa using hat)
    simp only [past_append] at hatv
    have hv' := (le_past _ _).trans ((le_past _ _).trans hmax)
    change Yields (parseMembers text (fuel + 1) path p) _
    rw [hat'.key fuel h1 h2 h3 h4 ((le_past _ _).trans ((le_past _ _).trans ((le_past _ _).trans hv')))]
    refine (ih hatv (fun _ => ends_before h5 (by decide)) hv').bind ?_
    rw [hatv.past.closes h5 (by decide), past_append]
    exact .inl rfl
  | @member path ws raw key ws1 ws2 v members h1 h2 h3 h4 h5 hv hm ih ihm =>
    obtain _ | fuel := fuel
    · exact .inr rfl
    simp only [past_append] at hmax ⊢
    have hat' : At text p (ws ++ (raw ++ (ws1 ++ ':' :: (markedText v ++
        (ws2 ++ ',' :: (markedText members ++ rest)))))) := by
      simpa using hat
    have hatv : At text (p.past (chars ws ++ ([.literal raw path true] ++ (chars ws1 ++ chars [':']))))
        (markedText v ++ (ws2 ++ ',' :: (markedText members ++ rest))) := At.past (by simpa using hat)
    simp only [past_append] at hatv
    have hv' := (le_past _ _).trans ((le_past _ _).trans ((le_past _ _).trans hmax))
    change Yields (parseMembers text (fuel + 1) path p) _
    rw [hat'.key fuel h1 h2 h3 h4 ((le_past _ _).trans ((le_past _ _).trans ((le_past _ _).trans hv')))]
    refine (ih hatv (fun _ => ends_before h5 (by decide)) hv').bind ?_
    rw [hatv.past.comma h5 (by decide), past_append]
    exact ihm hatv.past.past_comma (by rintro ⟨⟩) hmax
  | @lastItem path item ws v h1 h2 hv ih =>
    obtain _ | fuel := fuel
    · exact .inr rfl
    simp only [past_append] at hmax ⊢
    have hat' : At text p (markedText v ++ (ws ++ ']' :: rest)) := by simpa using hat
    change Yields (parseItems text (fuel + 1) path item p) _
    rw [parseItems, h2]
    refine (ih hat' (fun _ => ends_before h1 (by decide)) ?_).bind ?_
    · exact ((le_past _ _).trans (le_past _ _)).trans hmax
    · rw [ofOption, Except.ok_bind, hat'.past.closes h1 (by decide), past_append]
      exact .inl rfl
  | @item path item ws v items h1 h2 hv hm ih ihm =>
    obtain _ | fuel := fuel
    · exact .inr rfl
    simp only [past_append] at hmax ⊢
    have hat' : At text p (markedText v ++ (ws ++ ',' :: (markedText items ++ rest))) := by
      simpa using hat
    change Yields (parseItems text (fuel + 1) path item p) _
    rw [parseItems, h2]
    refine (ih hat' (fun _ => ends_before h1 (by decide)) ?_).bind ?_
    · exact (((le_past _ _).trans (le_past _ _)).trans (le_past _ _)).trans hmax
    · rw [ofOption, Except.ok_bind, hat'.past.comma h1 (by decide), past_append]
      exact ihm hat'.past.past_comma (by rintro ⟨⟩) hmax

/-! ## What is accepted is derived -/

/-- The parser has read marks. -/
structure Reads (text : Str) (p : JsonParser) (marks : List JsonMark) (q : JsonParser) : Prop where
  past : q = p.past marks
  here : ∃ rest, At text p (markedText marks ++ rest)
  limit : p.tokens.length ≤ maxJsonTokens → q.tokens.length ≤ maxJsonTokens

section Reads

variable {r : JsonParser} {marks' : List JsonMark} {c : Char}

omit [JsonReader]

theorem Reads.index_le (h : Reads text p marks q) : q.index ≤ text.length := by
  obtain ⟨rest, hat⟩ := h.here
  rw [h.past]
  exact hat.past.2

theorem Reads.trans (h : Reads text p marks q) (h' : Reads text q marks' r) :
    Reads text p (marks ++ marks') r := by
  obtain ⟨rest, hat⟩ := h.here
  obtain ⟨rest', hat'⟩ := h'.here
  have hq := h.past
  have hrest : rest = markedText marks' ++ rest' := by rw [← hat'.1, hq, hat.past.1]
  refine ⟨by rw [h'.past, hq, past_append], ⟨rest', ?_⟩, fun hp => h'.limit (h.limit hp)⟩
  rwa [markedText_append, List.append_assoc, ← hrest]

theorem at_drop (h : p.index ≤ text.length) : At text p (text.drop p.index) := ⟨rfl, h⟩

theorem reads_skip (h : p.index ≤ text.length) :
    ∃ ws, Blank ws ∧ Reads text p (chars ws) (p.skipWhitespace text) := by
  refine ⟨(text.drop p.index).takeWhile isJsonSpace, fun c hc => List.mem_takeWhile_imp hc, ?_, ?_,
    fun hp => hp⟩
  · rw [past_chars, skipWhitespace]
  · refine ⟨(text.drop p.index).dropWhile isJsonSpace, ?_⟩
    rw [markedText_chars, List.takeWhile_append_dropWhile]
    exact at_drop h

theorem reads_consume (h : p.consumeByte text c = some q) : Reads text p (chars [c]) q := by
  unfold consumeByte at h
  split at h
  · rename_i hc
    obtain ⟨hlt, hget⟩ := List.getElem?_eq_some_iff.mp hc
    refine ⟨by rw [past_chars]; exact (Option.some.inj h).symm, ⟨text.drop (p.index + 1), ?_⟩, ?_⟩
    · rw [markedText_chars, ← hget]
      exact ⟨List.drop_eq_getElem_cons hlt, hlt.le⟩
    · cases h
      exact id
  · cases h

theorem reads_expect (h : p.expectByte text c = .ok q) : Reads text p (chars [c]) q :=
  reads_consume (ofOption_eq_ok.mp h)

/-- White space, then the bracket that closes or the rest. -/
theorem reads_unlessClosed {close : Char} {next : JsonParser → Run DocumentError JsonParser}
    (hp : p.index ≤ text.length)
    (h : unlessClosed text close (p.skipWhitespace text) next = .ok r) :
    ∃ ws, Blank ws ∧ (Reads text p (chars ws ++ chars [close]) r ∨
      ∃ q, Reads text p (chars ws) q ∧ next q = .ok r) := by
  obtain ⟨ws, hws, hr⟩ := reads_skip hp
  refine ⟨ws, hws, ?_⟩
  unfold unlessClosed at h
  cases hc : (p.skipWhitespace text).consumeByte text close with
  | some q =>
    rw [hc] at h
    cases h
    exact .inl (hr.trans (reads_consume hc))
  | none =>
    rw [hc] at h
    exact .inr ⟨_, hr, h⟩

theorem stringLength_take {s : Str} {n : Nat} (h : stringLength s = some n) :
    stringLength (s.take n) = some n := by
  fun_induction stringLength s generalizing n with
  | case1 => cases h
  | case2 cs =>
    cases h
    rfl
  | case3 => cases h
  | case4 c cs ih =>
    obtain ⟨m, hm, rfl⟩ := Option.map_eq_some_iff.mp h
    rw [List.take_succ_cons, List.take_succ_cons, stringLength, ih hm]
    rfl
  | case5 => cases h
  | case6 c cs h1 h2 h3 hc ih =>
    obtain ⟨m, hm, rfl⟩ := Option.map_eq_some_iff.mp h
    have hb : c ≠ '\\' := by
      rintro rfl
      cases cs with
      | nil => exact h2 rfl rfl
      | cons d cs => exact h3 d cs rfl rfl
    rw [List.take_succ_cons, stringLength.eq_5, if_neg hc, ih hm]
    · rfl
    · exact h1
    · exact fun e _ => hb e
    · exact fun _ _ e _ => hb e

end Reads

theorem reads_string {isKey : Bool} {start stop : Nat}
    (h : parseString text path isKey p = .ok (q, start, stop)) :
    ∃ raw, IsLiteral raw ∧ Reads text p [.literal raw path isKey] q ∧
      (sliceOf text start stop : Run DocumentError Str) = .ok raw := by
  unfold parseString at h
  obtain ⟨p1, hquote, h⟩ := Except.bind_ok.mp h
  obtain ⟨length, hlength, h⟩ := Except.bind_ok.mp h
  dsimp only at h
  split at h
  · cases h
  rename_i hmax
  obtain ⟨raw, hraw, h⟩ := Except.bind_ok.mp h
  obtain ⟨value, hvalue, h⟩ := Except.bind_ok.mp h
  cases h
  rw [ofOption_eq_ok] at hlength hvalue
  have hr := reads_expect hquote
  obtain ⟨rest, hat⟩ := hr.here
  have hp1 : p1 = ⟨p.index + 1, p.tokens⟩ := by rw [hr.past, past_chars]; rfl
  subst hp1
  have hat1 : At text ⟨p.index + 1, p.tokens⟩ rest := by
    have := hat.past
    rwa [past_chars] at this
  rw [hat1.1] at hlength
  have hle := stringLength_le hlength
  have hsplit : rest = rest.take length ++ rest.drop length := (List.take_append_drop _ _).symm
  have hbody : (rest.take length).length = length := List.length_take_of_le hle
  have hat' : At text p (('"' :: rest.take length) ++ rest.drop length) := by
    rw [List.cons_append, ← hsplit]
    simpa using hat
  have hlen : ('"' :: rest.take length).length = length + 1 := by rw [List.length_cons, hbody]
  have hslice := hat'.slice
  have hstop : p.index + ('"' :: rest.take length).length = p.index + 1 + length := by omega
  rw [hstop] at hslice
  have heq : raw = '"' :: rest.take length := Except.ok.inj (hraw.symm.trans hslice)
  refine ⟨raw, ⟨⟨rest.take length, heq, ?_⟩, by rw [hvalue]; rfl⟩, ⟨?_, ⟨rest.drop length, ?_⟩, ?_⟩, hraw⟩
  · rw [stringLength_take hlength, hbody]
  · simp only [JsonParser.past, markedText_cons, JsonMark.text_literal, markedText_nil,
      List.append_nil, tokensFrom, heq, hstop]
  · rw [markedText_cons, JsonMark.text_literal, markedText_nil, List.append_nil, heq]
    exact hat'
  · intro _
    simp only [List.length_append, List.length_singleton] at hmax ⊢
    omega

theorem reads_primitive {c : Char} (hp : p.index ≤ text.length) (hc : text[p.index]? = some c)
    (hstarts : startsPrimitive c = true) (h : parsePrimitive text p = .ok q) :
    ∃ raw, IsPrimitive raw ∧ Reads text p (chars raw) q := by
  unfold parsePrimitive at h
  dsimp only at h
  split at h
  · cases h
  rename_i hraw
  cases h
  have hsplit : (text.drop p.index).takeWhile (!endsPrimitive ·) ++
      (text.drop p.index).dropWhile (!endsPrimitive ·) = text.drop p.index :=
    List.takeWhile_append_dropWhile
  refine ⟨(text.drop p.index).takeWhile (!endsPrimitive ·), ⟨?_, ?_, ?_⟩, ⟨?_, ?_, id⟩⟩
  · obtain ⟨hlt, hget⟩ := List.getElem?_eq_some_iff.mp hc
    have hdrop := List.drop_eq_getElem_cons hlt
    rw [hget] at hdrop
    cases he : endsPrimitive c with
    | true => exact absurd (.inl (by rw [hdrop, List.takeWhile_cons_of_neg (by simp [he])])) hraw
    | false => exact ⟨c, _, by rw [hdrop, List.takeWhile_cons_of_pos (by simp [he])], hstarts⟩
  · intro d hd
    simpa using List.mem_takeWhile_imp hd
  · by_contra hv
    exact hraw (.inr hv)
  · rw [past_chars]
  · exact ⟨_, by rw [markedText_chars, hsplit]; exact at_drop hp⟩

/-- What the functions of the parser accept with some fuel is derived. -/
structure Sound (text : Str) (fuel : Nat) : Prop where
  value : ∀ {p q path}, p.index ≤ text.length → parseValue text fuel path p = .ok q →
    ∃ marks, Derives .value path marks ∧ Reads text p marks q
  object : ∀ {p q path}, p.index ≤ text.length → parseObject text fuel path p = .ok q →
    ∃ marks, Derives .value path marks ∧ Reads text p marks q
  members : ∀ {p q path}, p.index ≤ text.length → parseMembers text fuel path p = .ok q →
    ∃ marks, Derives .members path marks ∧ Reads text p marks q
  array : ∀ {p q path}, p.index ≤ text.length → parseArray text fuel path p = .ok q →
    ∃ marks, Derives .value path marks ∧ Reads text p marks q
  items : ∀ {p q path item}, p.index ≤ text.length → parseItems text fuel path item p = .ok q →
    ∃ marks, Derives (.items item) path marks ∧ Reads text p marks q

namespace Sound

variable {fuel : Nat}

theorem next_value (ih : Sound text fuel) (hp : p.index ≤ text.length)
    (h : parseValue text (fuel + 1) path p = .ok q) :
    ∃ marks, Derives .value path marks ∧ Reads text p marks q := by
  obtain ⟨ws, hws, hskip⟩ := reads_skip hp
  have pad (h : ∃ marks, Derives .value path marks ∧
      Reads text (p.skipWhitespace text) marks q) :
      ∃ marks, Derives .value path marks ∧ Reads text p marks q := by
    obtain ⟨marks, hd, hr⟩ := h
    exact ⟨_, hd.pad hws, hskip.trans hr⟩
  unfold parseValue at h
  dsimp only at h
  split at h
  · cases h
  rename_i c hc
  split at h
  · exact pad (ih.object hskip.index_le h)
  split at h
  · exact pad (ih.array hskip.index_le h)
  split at h
  · obtain ⟨⟨q', start, stop⟩, hs, rfl⟩ := Except.map_eq_ok.mp h
    obtain ⟨raw, hraw, hr, -⟩ := reads_string hs
    exact ⟨_, .string hws hraw, hskip.trans hr⟩
  split at h
  · rename_i hstarts
    obtain ⟨raw, hraw, hr⟩ := reads_primitive hskip.index_le hc hstarts h
    exact ⟨_, .primitive hws hraw, hskip.trans hr⟩
  · cases h

theorem next_object (ih : Sound text fuel) (h : parseObject text (fuel + 1) path p = .ok q) :
    ∃ marks, Derives .value path marks ∧ Reads text p marks q := by
  unfold parseObject at h
  obtain ⟨p1, hopen, h⟩ := Except.bind_ok.mp h
  have h1 := reads_expect hopen
  obtain ⟨ws, hws, h2 | ⟨p2, h2, h⟩⟩ := reads_unlessClosed h1.index_le h
  · exact ⟨_, .emptyObject .nil hws, h1.trans h2⟩
  · obtain ⟨members, hd, h3⟩ := ih.members h2.index_le h
    exact ⟨_, .object .nil (hd.pad hws),
      h1.trans (h2.trans h3)⟩

theorem next_array (ih : Sound text fuel) (h : parseArray text (fuel + 1) path p = .ok q) :
    ∃ marks, Derives .value path marks ∧ Reads text p marks q := by
  unfold parseArray at h
  obtain ⟨p1, hopen, h⟩ := Except.bind_ok.mp h
  have h1 := reads_expect hopen
  obtain ⟨ws, hws, h2 | ⟨p2, h2, h⟩⟩ := reads_unlessClosed h1.index_le h
  · exact ⟨_, .emptyArray .nil hws, h1.trans h2⟩
  · obtain ⟨items, hd, h3⟩ := ih.items h2.index_le h
    exact ⟨_, .array .nil (hd.pad hws),
      h1.trans (h2.trans h3)⟩

theorem next_members (ih : Sound text fuel) (hp : p.index ≤ text.length)
    (h : parseMembers text (fuel + 1) path p = .ok q) :
    ∃ marks, Derives .members path marks ∧ Reads text p marks q := by
  obtain ⟨ws, hws, h1⟩ := reads_skip hp
  unfold parseMembers at h
  dsimp only at h
  split at h
  · cases h
  obtain ⟨⟨p2, start, stop⟩, hs, h⟩ := Except.bind_ok.mp h
  obtain ⟨raw, hraw, h2, hslice⟩ := reads_string hs
  dsimp only at h
  rw [hslice, Except.ok_bind] at h
  obtain ⟨key, hkey, h⟩ := Except.bind_ok.mp h
  obtain ⟨ws1, hws1, h3⟩ := reads_skip h2.index_le
  obtain ⟨p4, hcolon, h⟩ := Except.bind_ok.mp h
  have h4 := reads_expect hcolon
  obtain ⟨p5, hv, h⟩ := Except.bind_ok.mp h
  obtain ⟨v, hd, h5⟩ := ih.value h4.index_le hv
  obtain ⟨ws2, hws2, h6 | ⟨p6, h6, h⟩⟩ := reads_unlessClosed h5.index_le h
  · exact ⟨_, .lastMember hws hraw (ofOption_eq_ok.mp hkey) hws1 hws2 hd,
      h1.trans (h2.trans (h3.trans (h4.trans (h5.trans h6))))⟩
  · obtain ⟨p7, hcomma, h⟩ := Except.bind_ok.mp h
    have h7 := reads_expect hcomma
    obtain ⟨members, hm, h8⟩ := ih.members h7.index_le h
    exact ⟨_, .member hws hraw (ofOption_eq_ok.mp hkey) hws1 hws2 hd hm,
      h1.trans (h2.trans (h3.trans (h4.trans (h5.trans (h6.trans (h7.trans h8))))))⟩

theorem next_items {item : Nat} (ih : Sound text fuel) (hp : p.index ≤ text.length)
    (h : parseItems text (fuel + 1) path item p = .ok q) :
    ∃ marks, Derives (.items item) path marks ∧ Reads text p marks q := by
  unfold parseItems at h
  obtain ⟨p1, hv, h⟩ := Except.bind_ok.mp h
  obtain ⟨v, hd, h1⟩ := ih.value hp hv
  obtain ⟨next, hnext, h⟩ := Except.bind_ok.mp h
  have hitem : checkedAdd item 1 = some (item + 1) ∧ next = item + 1 := by
    have hnext' := ofOption_eq_ok.mp hnext
    unfold checkedAdd at hnext' ⊢
    split at hnext' <;> simp_all
  obtain ⟨hadd, rfl⟩ := hitem
  obtain ⟨ws, hws, h2 | ⟨p2, h2, h⟩⟩ := reads_unlessClosed h1.index_le h
  · exact ⟨_, .lastItem hws hadd hd, h1.trans h2⟩
  · obtain ⟨p3, hcomma, h⟩ := Except.bind_ok.mp h
    have h3 := reads_expect hcomma
    obtain ⟨items, hm, h4⟩ := ih.items h3.index_le h
    exact ⟨_, .item hws hadd hd hm, h1.trans (h2.trans (h3.trans h4))⟩

end Sound

theorem sound (text : Str) (fuel : Nat) : Sound text fuel := by
  induction fuel with
  | zero => constructor <;> intro _ _ <;> intros <;> rename_i h <;> exact nomatch h
  | succ fuel ih =>
    exact ⟨ih.next_value, fun _ => ih.next_object, ih.next_members, fun _ => ih.next_array,
      ih.next_items⟩

end JsonParser

/-! ## Documents -/

/-- A JSON text with its literals marked: one value, with white space around it. -/
structure JsonDocument [JsonReader] (marks : List JsonMark) : Prop where
  split : ∃ value ws, marks = value ++ chars ws ∧ Derives .value [] value ∧ Blank ws
  limit : (tokensFrom 0 marks).length ≤ maxJsonTokens

open JsonParser in
theorem parseJsonTokens_iff [JsonReader] {text : Str} {tokens : List JsonStringToken} :
    parseJsonTokens text = .ok tokens ↔
      ∃ marks, JsonDocument marks ∧ markedText marks = text ∧ tokensFrom 0 marks = tokens := by
  have h0 : (⟨0, []⟩ : JsonParser).index ≤ text.length := Nat.zero_le _
  constructor
  · intro h
    unfold parseJsonTokens at h
    obtain ⟨p, hp, h⟩ := Except.bind_ok.mp h
    dsimp only at h
    split at h
    · cases h
    rename_i hend
    obtain ⟨ws, hws, h1⟩ := reads_skip h0
    obtain ⟨value, hd, h2⟩ := (sound text _).value h1.index_le hp
    obtain ⟨ws', hws', h3⟩ := reads_skip h2.index_le
    have hr := h1.trans (h2.trans h3)
    obtain ⟨rest, hat⟩ := hr.here
    have hindex := congrArg JsonParser.index hr.past
    have hend' : (p.skipWhitespace text).index = text.length := not_not.mp hend
    rw [hend', past] at hindex
    have htext : text = markedText (chars ws ++ (value ++ chars ws')) ++ rest := hat.1
    have hrest : rest = [] := by
      have := congrArg List.length htext
      rw [List.length_append] at this
      dsimp only at hindex
      exact List.length_eq_zero_iff.mp (by omega)
    rw [hrest, List.append_nil] at htext
    have htokens : tokensFrom 0 (chars ws ++ (value ++ chars ws')) = tokens := by
      have := congrArg JsonParser.tokens hr.past
      rw [past, List.nil_append] at this
      exact this.symm.trans (Except.ok.inj h)
    refine ⟨_, ⟨⟨chars ws ++ value, ws', by rw [List.append_assoc], hd.pad hws, hws'⟩, ?_⟩,
      htext.symm, htokens⟩
    rw [htokens, ← Except.ok.inj h]
    exact hr.limit (Nat.zero_le _)
  · rintro ⟨marks, ⟨⟨value, ws, rfl, hd, hws⟩, hlimit⟩, rfl, rfl⟩
    generalize htext : markedText (value ++ chars ws) = text
    have hat : At text ⟨0, []⟩ (markedText value ++ ws) :=
      ⟨by rw [← htext, markedText_append, markedText_chars]; rfl, Nat.zero_le _⟩
    have hpast : (⟨0, []⟩ : JsonParser).past (value ++ chars ws) =
        ⟨text.length, tokensFrom 0 (value ++ chars ws)⟩ := by
      rw [past, htext, Nat.zero_add]
      rfl
    have hvalue : Yields (parseValue text (3 * (text.length + 1)) [] (skipWhitespace text ⟨0, []⟩))
        ((⟨0, []⟩ : JsonParser).past value) := by
      have hy : Yields (parsePhrase text .value (3 * (text.length + 1)) [] ⟨0, []⟩)
          ((⟨0, []⟩ : JsonParser).past value) := yields_of_derives hd hat
        (fun _ => ends_of_blank hws) ?_
      · rwa [← parsePhrase_skipWhitespace] at hy
      · refine (le_past _ (chars ws)).trans ?_
        rw [← past_append, hpast]
        exact hlimit
    have hreturns : Returns (parseValue text (3 * (text.length + 1)) []
        (skipWhitespace text ⟨0, []⟩)) := by
      have h0 : Wf text ⟨0, []⟩ := ⟨Nat.zero_le _, .nil, fun _ h => absurd h List.not_mem_nil⟩
      exact ((enough text _).value (later_skipWhitespace h0).1 (by omega)).returns
    have hskip : ((⟨0, []⟩ : JsonParser).past value).skipWhitespace text =
        (⟨0, []⟩ : JsonParser).past (value ++ chars ws) := by
      rw [past_append]
      have hblank : At text ((⟨0, []⟩ : JsonParser).past value) (ws ++ []) := by
        rw [List.append_nil]
        exact hat.past
      exact hblank.skip hws (fun c hc => nomatch hc)
    unfold parseJsonTokens
    rw [hvalue.eq hreturns, Except.ok_bind]
    dsimp only
    rw [hskip, hpast, if_neg (by simp)]

end LinguaMesh
