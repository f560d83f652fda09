import LinguaMesh.Lib.Loop
import LinguaMesh.Lib.Ranges
import LinguaMesh.Document.Layout

/-!
# JSON documents

`JsonParser` finds the string literals of a text with the path of each; the
parts between them are kept as they are. The functions of the parser call each
other, with a fuel that is never used up: one literal of the text pays for the
calls it makes.

`serde_json::from_str` is a parameter (`JsonReader`).
-/

namespace LinguaMesh

open Run

def maxJsonTokens : Nat := 5000
def maxJsonSegments : Nat := 10000

inductive JsonPathSegment where
  | key (key : Str)
  | index (index : Nat)
  deriving DecidableEq, Repr

structure JsonStringToken where
  start : Nat
  stop : Nat
  path : List JsonPathSegment
  isKey : Bool
  deriving DecidableEq, Repr

/-- `serde_json::from_str`: the value of a string literal, and whether a text is a value. -/
class JsonReader where
  parseString : Str → Option Str
  isValue : Str → Bool

/-- The state of the parser; the text is an argument of its functions. -/
structure JsonParser where
  index : Nat
  tokens : List JsonStringToken
  deriving DecidableEq, Repr

def isJsonSpace (c : Char) : Bool := [' ', '\n', '\r', '\t'].contains c

/-- `checked_add`. -/
def checkedAdd (a b : Nat) : Option Nat := if a + b < 2 ^ 64 then some (a + b) else none

namespace JsonParser

section Parser

variable (text : Str)

def skipWhitespace (p : JsonParser) : JsonParser :=
  { p with index := p.index + ((text.drop p.index).takeWhile isJsonSpace).length }

def consumeByte (expected : Char) (p : JsonParser) : Option JsonParser :=
  if text[p.index]? = some expected then some { p with index := p.index + 1 } else none

def expectByte (expected : Char) (p : JsonParser) : Run DocumentError JsonParser :=
  ofOption .invalidStructure (p.consumeByte text expected)

/-- `if self.consume_byte(close) { return Ok(()); }`, before the rest of a function. -/
def unlessClosed (close : Char) (p : JsonParser)
    (next : JsonParser → Run DocumentError JsonParser) : Run DocumentError JsonParser :=
  match p.consumeByte text close with
  | some p => .ok p
  | none => next p

/-- How many characters a literal takes after its first quote. -/
def stringLength : Str → Option Nat
  | [] => none
  | '"' :: _ => some 1
  | ['\\'] => none
  -- two bytes are passed; the other bytes of the second character are no quotes
  | '\\' :: _ :: cs => (stringLength cs).map (· + 2)
  | c :: cs => if c.toNat < 0x20 then none else (stringLength cs).map (· + 1)

variable [JsonReader]

/-- The parser after a literal, and the range of the literal. -/
def parseString (path : List JsonPathSegment) (isKey : Bool) (p : JsonParser) :
    Run DocumentError (JsonParser × Nat × Nat) := do
  let start := p.index
  let p ← p.expectByte text '"'
  let length ← ofOption .invalidStructure (stringLength (text.drop p.index))
  let stop := p.index + length
  if maxJsonTokens ≤ p.tokens.length then fail .invalidStructure
  else do
    let raw ← sliceOf text start stop
    let _ ← ofOption .invalidStructure (JsonReader.parseString raw)
    .ok (⟨stop, p.tokens ++ [⟨start, stop, path, isKey⟩]⟩, start, stop)

def endsPrimitive (c : Char) : Bool := [',', ']', '}', ' ', '\n', '\r', '\t'].contains c

def parsePrimitive (p : JsonParser) : Run DocumentError JsonParser :=
  let raw := (text.drop p.index).takeWhile (!endsPrimitive ·)
  if raw = [] ∨ ¬ JsonReader.isValue raw then fail .invalidStructure
  else .ok { p with index := p.index + raw.length }

def startsPrimitive (c : Char) : Bool := ['t', 'f', 'n', '-'].contains c || c.isDigit

mutual

def parseValue : Nat → List JsonPathSegment → JsonParser → Run DocumentError JsonParser
  | 0, _, _ => .error .hang
  | fuel + 1, path, p =>
    let p := p.skipWhitespace text
    match text[p.index]? with
    | none => fail .invalidStructure
    | some c =>
      if c = '{' then parseObject fuel path p
      else if c = '[' then parseArray fuel path p
      else if c = '"' then (parseString text path false p).map Prod.fst
      else if startsPrimitive c then parsePrimitive text p
      else fail .invalidStructure

def parseObject : Nat → List JsonPathSegment → JsonParser → Run DocumentError JsonParser
  | 0, _, _ => .error .hang
  | fuel + 1, path, p => do
    let p ← p.expectByte text '{'
    unlessClosed text '}' (p.skipWhitespace text) fun p => parseMembers fuel path p

/-- The loop of `parse_object`. -/
def parseMembers : Nat → List JsonPathSegment → JsonParser → Run DocumentError JsonParser
  | 0, _, _ => .error .hang
  | fuel + 1, path, p =>
    let p := p.skipWhitespace text
    if text[p.index]? ≠ some '"' then fail .invalidStructure
    else do
      let (p, start, stop) ← parseString text path true p
      let raw ← sliceOf text start stop
      let key ← ofOption .invalidStructure (JsonReader.parseString raw)
      let p := p.skipWhitespace text
      let p ← p.expectByte text ':'
      let p ← parseValue fuel (path ++ [.key key]) p
      unlessClosed text '}' (p.skipWhitespace text) fun p => do
        let p ← p.expectByte text ','
        parseMembers fuel path p

def parseArray : Nat → List JsonPathSegment → JsonParser → Run DocumentError JsonParser
  | 0, _, _ => .error .hang
  | fuel + 1, path, p => do
    let p ← p.expectByte text '['
    unlessClosed text ']' (p.skipWhitespace text) fun p => parseItems fuel path 0 p

/-- The loop of `parse_array`. -/
def parseItems : Nat → List JsonPathSegment → Nat → JsonParser → Run DocumentError JsonParser
  | 0, _, _, _ => .error .hang
  | fuel + 1, path, item, p => do
    let p ← parseValue fuel (path ++ [.index item]) p
    let item ← ofOption .invalidStructure (checkedAdd item 1)
    unlessClosed text ']' (p.skipWhitespace text) fun p => do
      let p ← p.expectByte text ','
      parseItems fuel path item p

end

end Parser

end JsonParser

open JsonParser in
/-- `parse_json_tokens`. -/
def parseJsonTokens [JsonReader] (text : Str) : Run DocumentError (List JsonStringToken) := do
  let p ← parseValue text (3 * (text.length + 1)) [] (skipWhitespace text ⟨0, []⟩)
  let p := p.skipWhitespace text
  if p.index ≠ text.length then fail .invalidStructure else .ok p.tokens

/-! ## The tokens -/

namespace JsonParser

/-- The tokens so far lie in order before the index, in the text. -/
structure Wf (text : Str) (p : JsonParser) : Prop where
  index_le : p.index ≤ text.length
  ordered : Ordered JsonStringToken.start JsonStringToken.stop text.length p.tokens
  stop_le : ∀ t ∈ p.tokens, t.stop ≤ p.index

/-- A later state of the parser: the index has moved on by `n` or more. -/
def Later (text : Str) (n : Nat) (p q : JsonParser) : Prop := Wf text q ∧ p.index + n ≤ q.index

section

variable {text : Str} {p q r : JsonParser} {m n : Nat}

theorem Wf.forward (h : Wf text p) {index : Nat} (h1 : p.index ≤ index) (h2 : index ≤ text.length) :
    Wf text { p with index } := ⟨h2, h.ordered, fun t ht => (h.stop_le t ht).trans h1⟩

theorem Later.trans (h1 : Later text m p q) (h2 : Later text n q r) : Later text (m + n) p r :=
  ⟨h2.1, by have := h1.2; have := h2.2; omega⟩

theorem Later.mono (h : Later text m p q) (hn : n ≤ m) : Later text n p q :=
  ⟨h.1, by have := h.2; omega⟩

theorem length_takeWhile_drop (f : Char → Bool) (h : p.index ≤ text.length) :
    p.index + ((text.drop p.index).takeWhile f).length ≤ text.length := by
  have := (List.takeWhile_sublist (p := f) (l := text.drop p.index)).length_le
  rw [List.length_drop] at this
  omega

theorem later_skipWhitespace (h : Wf text p) : Later text 0 p (p.skipWhitespace text) :=
  ⟨h.forward (Nat.le_add_right _ _) (length_takeWhile_drop _ h.index_le), Nat.le_add_right _ _⟩

theorem consumeByte_eq {c : Char} (h : p.consumeByte text c = some q) :
    q = { p with index := p.index + 1 } ∧ p.index < text.length := by
  unfold consumeByte at h
  split at h
  · rename_i hc
    exact ⟨(Option.some.inj h).symm, (List.getElem?_eq_some_iff.mp hc).1⟩
  · cases h

theorem later_consumeByte {c : Char} (h : Wf text p) (hq : p.consumeByte text c = some q) :
    Later text 1 p q := by
  obtain ⟨rfl, hlt⟩ := consumeByte_eq hq
  exact ⟨h.forward (Nat.le_succ _) hlt, Nat.le_refl _⟩

theorem post_expectByte {c : Char} (h : Wf text p) : Post (p.expectByte text c) (Later text 1 p) :=
  post_ofOption fun _ hq => later_consumeByte h hq

theorem post_unlessClosed {close : Char} {next : JsonParser → Run DocumentError JsonParser}
    (h : Wf text p) (hnext : Post (next p) (Later text 1 p)) :
    Post (unlessClosed text close p next) (Later text 1 p) := by
  unfold unlessClosed
  cases hq : p.consumeByte text close with
  | some q => exact later_consumeByte h hq
  | none => exact hnext

/-- An opening bracket, and the rest of the object or the array after it. -/
theorem post_bracket {c close : Char} {next : JsonParser → Run DocumentError JsonParser}
    (h : Wf text p) (hnext : ∀ q, Later text 1 p q → Post (next q) (Later text 1 q)) :
    Post (p.expectByte text c >>= fun p => unlessClosed text close (p.skipWhitespace text) next)
      (Later text 1 p) := by
  refine (post_expectByte h).bind fun q hq => ?_
  have hs := hq.trans (later_skipWhitespace hq.1)
  refine (post_unlessClosed hs.1 (hnext _ hs)).mono fun r hr => ?_
  exact (hs.trans hr).mono (by omega)

/-- The end of an element: the end of the list, or a comma and the elements after it. -/
theorem post_element {close : Char} {next : JsonParser → Run DocumentError JsonParser}
    (h : Later text 1 p q) (hnext : ∀ r, Later text 1 p r → Post (next r) (Later text 1 r)) :
    Post (unlessClosed text close (q.skipWhitespace text) fun p =>
      p.expectByte text ',' >>= next) (Later text 1 p) := by
  have hs := h.trans (later_skipWhitespace h.1)
  refine (post_unlessClosed hs.1 ?_).mono fun r hr => (hs.trans hr).mono (by omega)
  refine (post_expectByte hs.1).bind fun r hr => ?_
  exact (hnext r ((hs.trans hr).mono (by omega))).mono fun t ht => (hr.trans ht).mono (by omega)

theorem stringLength_le {s : Str} {n : Nat} (h : stringLength s = some n) : n ≤ s.length := by
  fun_induction stringLength s generalizing n with
  | case1 => cases h
  | case2 cs =>
    cases h
    simp
  | case3 => cases h
  | case4 c cs ih =>
    obtain ⟨m, hm, rfl⟩ := Option.map_eq_some_iff.mp h
    have := ih hm
    simp only [List.length_cons]
    omega
  | case5 => cases h
  | case6 c cs _ _ _ _ ih =>
    obtain ⟨m, hm, rfl⟩ := Option.map_eq_some_iff.mp h
    have := ih hm
    simp only [List.length_cons]
    omega

variable [JsonReader]

theorem post_parseString {path : List JsonPathSegment} {isKey : Bool} (h : Wf text p) :
    Post (parseString text path isKey p) fun r =>
      Later text 1 p r.1 ∧ r.2.1 ≤ r.2.2 ∧ r.2.2 ≤ text.length := by
  unfold parseString
  refine (post_ofOption fun q hq => consumeByte_eq hq).bind fun q hq => ?_
  obtain ⟨rfl, hlt⟩ := hq
  refine (post_ofOption fun n hn => stringLength_le hn).bind fun n hn => ?_
  rw [List.length_drop] at hn
  have hstop : p.index + 1 + n ≤ text.length := by
    dsimp only at hn
    omega
  split
  · exact post_fail
  refine (post_sliceOf (by omega) hstop).bind fun raw _ => ?_
  refine (post_ofOption fun _ _ => trivial : Post _ fun _ => True).bind fun _ _ => ?_
  refine ⟨⟨⟨hstop, ?_, ?_⟩, by dsimp only; omega⟩, by dsimp only; omega, hstop⟩
  · exact h.ordered.snoc h.stop_le (by dsimp only; omega) hstop
  · intro t ht
    rcases List.mem_append.mp ht with ht | ht
    · exact (h.stop_le t ht).trans (by dsimp only; omega)
    · rw [List.mem_singleton.mp ht]

theorem post_parsePrimitive (h : Wf text p) : Post (parsePrimitive text p) (Later text 1 p) := by
  unfold parsePrimitive
  dsimp only
  split
  · exact post_fail
  · rename_i hraw
    have hne : (text.drop p.index).takeWhile (!endsPrimitive ·) ≠ [] := fun e => hraw (.inl e)
    have := List.length_pos_iff.mpr hne
    exact ⟨h.forward (Nat.le_add_right _ _) (length_takeWhile_drop _ h.index_le), by
      dsimp only
      omega⟩

/-- How the functions of the parser use their fuel: with `3 r` and some more for a text of which
`r` characters are left, each returns and passes a character. -/
structure Enough (text : Str) (fuel : Nat) : Prop where
  value : ∀ {p path}, Wf text p → 3 * (text.length - p.index) + 2 ≤ fuel →
    Post (parseValue text fuel path p) (Later text 1 p)
  object : ∀ {p path}, Wf text p → 3 * (text.length - p.index) + 1 ≤ fuel →
    Post (parseObject text fuel path p) (Later text 1 p)
  members : ∀ {p path}, Wf text p → 3 * (text.length - p.index) + 3 ≤ fuel →
    Post (parseMembers text fuel path p) (Later text 1 p)
  array : ∀ {p path}, Wf text p → 3 * (text.length - p.index) + 1 ≤ fuel →
    Post (parseArray text fuel path p) (Later text 1 p)
  items : ∀ {p path item}, Wf text p → 3 * (text.length - p.index) + 3 ≤ fuel →
    Post (parseItems text fuel path item p) (Later text 1 p)

namespace Enough

variable {fuel : Nat} {path : List JsonPathSegment}

theorem next_value (ih : Enough text fuel) (h : Wf text p)
    (hf : 3 * (text.length - p.index) + 2 ≤ fuel + 1) :
    Post (parseValue text (fuel + 1) path p) (Later text 1 p) := by
  have hs := later_skipWhitespace h
  have hi := hs.2
  unfold parseValue
  dsimp only
  cases text[(p.skipWhitespace text).index]? with
  | none => exact post_fail
  | some c =>
    refine Post.mono (Q := Later text 1 (p.skipWhitespace text)) ?_ fun q hq =>
      (hs.trans hq).mono (by omega)
    dsimp only
    split
    · exact ih.object hs.1 (by omega)
    split
    · exact ih.array hs.1 (by omega)
    split
    · exact post_map.mpr ((post_parseString hs.1).mono fun r hr => hr.1)
    split
    · exact post_parsePrimitive hs.1
    · exact post_fail

theorem next_members (ih : Enough text fuel) (h : Wf text p)
    (hf : 3 * (text.length - p.index) + 3 ≤ fuel + 1) :
    Post (parseMembers text (fuel + 1) path p) (Later text 1 p) := by
  have hs := later_skipWhitespace h
  have hi := hs.2
  unfold parseMembers
  dsimp only
  split
  · exact post_fail
  refine (post_parseString hs.1).bind fun r hr => ?_
  obtain ⟨q, start, stop⟩ := r
  obtain ⟨hq, h1, h2⟩ := hr
  refine (post_sliceOf h1 h2).bind fun raw _ => ?_
  refine (post_ofOption fun _ _ => trivial : Post _ fun _ => True).bind fun key _ => ?_
  have hc := (hs.trans hq).trans (later_skipWhitespace hq.1)
  refine (post_expectByte hc.1).bind fun r hr => ?_
  have hcolon := hc.trans hr
  have hlt := hcolon.2
  refine (ih.value hcolon.1 (by omega)).bind fun t ht => ?_
  refine post_element ((hcolon.trans ht).mono (by omega)) fun u hu => ?_
  have := hu.2
  have := hu.1.index_le
  exact ih.members hu.1 (by omega)

theorem next_items (ih : Enough text fuel) {item : Nat} (h : Wf text p)
    (hf : 3 * (text.length - p.index) + 3 ≤ fuel + 1) :
    Post (parseItems text (fuel + 1) path item p) (Later text 1 p) := by
  unfold parseItems
  refine (ih.value h (by omega)).bind fun q hq => ?_
  refine (post_ofOption fun _ _ => trivial : Post _ fun _ => True).bind fun item _ => ?_
  refine post_element hq fun r hr => ?_
  have := hr.2
  have := hr.1.index_le
  exact ih.items hr.1 (by omega)

end Enough

theorem enough (text : Str) (fuel : Nat) : Enough text fuel := by
  induction fuel with
  | zero => constructor <;> intros <;> omega
  | succ fuel ih =>
    refine ⟨ih.next_value, fun h hf => ?_, ih.next_members, fun h hf => ?_, ih.next_items⟩
    · refine post_bracket h fun q hq => ?_
      have := hq.2
      have := hq.1.index_le
      exact ih.members hq.1 (by omega)
    · refine post_bracket h fun q hq => ?_
      have := hq.2
      have := hq.1.index_le
      exact ih.items hq.1 (by omega)

end

end JsonParser

theorem post_parseJsonTokens [JsonReader] (text : Str) :
    Post (parseJsonTokens text)
      (Ordered JsonStringToken.start JsonStringToken.stop text.length) := by
  have h0 : JsonParser.Wf text ⟨0, []⟩ := ⟨Nat.zero_le _, .nil, fun _ h => absurd h List.not_mem_nil⟩
  have hs := JsonParser.later_skipWhitespace h0
  refine ((JsonParser.enough text _).value hs.1 (by omega)).bind fun p hp => ?_
  dsimp only
  split
  · exact post_fail
  · exact (JsonParser.later_skipWhitespace hp.1).1.ordered

/-! ## Paths -/

def JsonPathSegment.pointer : JsonPathSegment → Str
  | .key k => '/' :: replaceChar '/' "~1" (replaceChar '~' "~0" k)
  | .index i => '/' :: (toString i).toList

/-- `json_pointer`. -/
def jsonPointer (path : List JsonPathSegment) : Str := path.flatMap JsonPathSegment.pointer

def jsonPathSelected (path : List JsonPathSegment) (includePaths excludePaths : Option (List Str)) :
    Bool :=
  let pointer := jsonPointer path
  if excludePaths.any (·.contains pointer) then false
  else includePaths.all (·.contains pointer)

/-! ## Segments -/

/-- The text from the cursor to `stop`, if there is any. -/
def pushBetween (text : Str) (cursor stop : Nat) (segments : List DocumentSegment) :
    Run DocumentError (List DocumentSegment) :=
  if cursor < stop then do
    let between ← sliceOf text cursor stop
    .ok (pushSegment segments .verbatim between)
  else .ok segments

/-- A selected value is translated; a key never is. -/
def tokenKind (token : JsonStringToken) (includePaths excludePaths : Option (List Str)) :
    DocumentSegmentKind :=
  if !token.isKey && jsonPathSelected token.path includePaths excludePaths then .prose
  else .verbatim

/-- One token: the text before it, then the literal. The state is the segments and the cursor. -/
def pushToken (text : Str) (includePaths excludePaths : Option (List Str))
    (acc : List DocumentSegment × Nat) (token : JsonStringToken) :
    Run DocumentError (List DocumentSegment × Nat) := do
  let (segments, cursor) := acc
  let segments ← pushBetween text cursor token.start segments
  let source ← sliceOf text token.start token.stop
  let segments := pushSegment segments (tokenKind token includePaths excludePaths) source
  if maxJsonSegments < segments.length then fail .invalidStructure
  else .ok (segments, token.stop)

def fromJsonText [JsonReader] (sourceName text : Str)
    (includePaths excludePaths : Option (List Str)) : Run DocumentError DocumentJob := do
  let tokens ← parseJsonTokens text
  let (segments, cursor) ← tokens.foldlM (pushToken text includePaths excludePaths) ([], 0)
  let segments ← pushBetween text cursor text.length segments
  .ok ⟨.json, sourceName, segments, none⟩

theorem post_sliceOf_take {ε : Type} {text : Str} {start stop : Nat} (h1 : start ≤ stop)
    (h2 : stop ≤ text.length) :
    Post (sliceOf text start stop : Run ε Str) fun part =>
      text.take start ++ part = text.take stop := by
  rw [sliceOf_ok h1 h2]
  have := List.take_append_drop start (text.take stop)
  rwa [List.take_take, Nat.min_eq_left h1] at this

theorem post_pushBetween {text : Str} {segments : List DocumentSegment} {cursor stop : Nat}
    (h : Segmented (text.take cursor) segments) (h1 : cursor ≤ stop) (h2 : stop ≤ text.length) :
    Post (pushBetween text cursor stop segments) (Segmented (text.take stop)) := by
  unfold pushBetween
  split
  · refine (post_sliceOf_take h1 h2).bind fun between hbetween => ?_
    have := h.push .verbatim between
    rwa [hbetween] at this
  · rename_i hlt
    rwa [show stop = cursor by omega]

theorem post_pushToken {text : Str} {includePaths excludePaths : Option (List Str)}
    {segments : List DocumentSegment} {cursor : Nat} {token : JsonStringToken}
    (h : Segmented (text.take cursor) segments) (hc : cursor ≤ token.start)
    (hb : token.start ≤ token.stop ∧ token.stop ≤ text.length) :
    Post (pushToken text includePaths excludePaths (segments, cursor) token) fun r =>
      Segmented (text.take r.2) r.1 ∧ r.2 = token.stop := by
  unfold pushToken
  refine (post_pushBetween h hc (hb.1.trans hb.2)).bind fun segments hs => ?_
  refine (post_sliceOf_take hb.1 hb.2).bind fun source hsource => ?_
  dsimp only
  split
  · exact post_fail
  · have := hs.push (tokenKind token includePaths excludePaths) source
    rw [hsource] at this
    exact ⟨this, rfl⟩

theorem post_pushTokens {text : Str} {includePaths excludePaths : Option (List Str)}
    {segments : List DocumentSegment} {cursor : Nat} {tokens : List JsonStringToken}
    (h : Segmented (text.take cursor) segments) (hle : cursor ≤ text.length)
    (hc : ∀ t ∈ tokens, cursor ≤ t.start)
    (ho : Ordered JsonStringToken.start JsonStringToken.stop text.length tokens) :
    Post (tokens.foldlM (pushToken text includePaths excludePaths) (segments, cursor)) fun r =>
      Segmented (text.take r.2) r.1 ∧ r.2 ≤ text.length := by
  induction tokens generalizing segments cursor with
  | nil => exact ⟨h, hle⟩
  | cons token tokens ih =>
    rw [List.foldlM_cons]
    have hb := ho.bounds token List.mem_cons_self
    refine (post_pushToken h (hc token List.mem_cons_self) hb).bind fun r hr => ?_
    obtain ⟨segments, cursor⟩ := r
    obtain ⟨hsegmented, rfl⟩ := hr
    exact ih hsegmented hb.2 (fun t ht => ho.head_le ht) ho.tail

theorem post_fromJsonText [JsonReader] (sourceName text : Str)
    (includePaths excludePaths : Option (List Str)) :
    Post (fromJsonText sourceName text includePaths excludePaths) fun job =>
      job.format = .json ∧ Segmented text job.segments := by
  have h0 : Segmented (text.take 0) [] := Segmented.nil
  unfold fromJsonText
  refine (post_parseJsonTokens text).bind fun tokens ho => ?_
  refine (post_pushTokens h0 (Nat.zero_le _) (fun _ _ => Nat.zero_le _) ho).bind fun r hr => ?_
  refine (post_pushBetween hr.1 hr.2 (Nat.le_refl _)).bind fun segments hs => ?_
  rw [List.take_length] at hs
  exact ⟨rfl, hs⟩

end LinguaMesh
