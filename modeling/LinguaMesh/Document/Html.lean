import LinguaMesh.Lib.Scan
import LinguaMesh.Document.Layout

/-!
# HTML documents

`parse_html_tokens` cuts a text into tokens: raw text up to the closing tag of a
script or a style sheet, comments, tags, and the text between them. What it cuts
off depends on the text from the cursor on, on the stack of open elements
(innermost first) and on the number of tokens so far; `htmlCut` is that part of
a turn of the loop.

`htmlScan` is the scan of a text by these cuts. The parser accepts the texts
that have one, and its tokens are the pieces (`parseHtmlTokens_iff`).
-/

namespace LinguaMesh

open Search Run

def maxHtmlSegments : Nat := 10000

def htmlVoidTags : List Str :=
  ["area", "base", "br", "col", "embed", "hr", "img", "input", "link", "meta", "param", "source",
    "track", "wbr"].map String.toList

def htmlRawTextTags : List Str := ["script".toList, "style".toList]

structure HtmlToken where
  start : Nat
  stop : Nat
  translatable : Bool
  deriving DecidableEq, Repr

/-! ## Tags -/

/-- `html_tag_end`, on the text after the first character of a tag: how many characters there are
up to the `>` that ends it, outside quotes. -/
def htmlTagEnd : Option Char → Str → Option Nat
  | _, [] => none
  | some quote, c :: cs => (htmlTagEnd (if c = quote then none else some quote) cs).map (· + 1)
  | none, c :: cs =>
    if c = '"' ∨ c = '\x27' then (htmlTagEnd (some c) cs).map (· + 1)
    else if c = '>' then some 1
    else (htmlTagEnd none cs).map (· + 1)

def htmlFindCaseInsensitive (text pattern : Str) : Option Nat :=
  if pattern = [] then none else find (asciiLower pattern) (asciiLower text)

/-- `char::is_ascii_whitespace`. -/
def isAsciiWhitespace (c : Char) : Bool := [' ', '\t', '\n', '\x0C', '\r'].contains c

/-- `html_tag_name`: the name, whether the tag closes an element, whether it closes itself. -/
def htmlTagName (raw : Str) : Run DocumentError (Option Str × Bool × Bool) := do
  let inner ← sliceOf raw 1 (raw.length - 1)
  let body := trim inner
  if body = [] then fail .invalidStructure
  else
    let closing := body.head? == some '/'
    let body := if closing then trimStart body.tail else body
    if body.head? = some '!' ∨ body.head? = some '?' then .ok (none, closing, false)
    else
      let selfClosing := !closing && (trimEnd body).getLast? == some '/'
      let name := body.takeWhile fun c => !(isAsciiWhitespace c || c == '/' || c == '>')
      if name = [] ∨ ¬ name.all (fun c => c.isAlphanum || c == '-' || c == ':') then
        fail .invalidStructure
      else .ok (some (asciiLower name), closing, selfClosing)

/-- The stack of open elements after a tag. -/
def stackAfter (stack : List Str) : Option Str × Bool × Bool → Run DocumentError (List Str)
  | (none, _, _) => .ok stack
  | (some name, closing, selfClosing) =>
    if closing then
      if stack.head? = some name then .ok stack.tail else fail .invalidStructure
    else if !selfClosing && !htmlVoidTags.contains name then .ok (name :: stack)
    else .ok stack

/-! ## Tokens -/

/-- What a turn reads besides the text from the cursor on: `count` is `tokens.len()`. -/
structure HtmlState where
  stack : List Str
  count : Nat
  deriving DecidableEq, Repr

/-- The innermost open element, if it is a script or a style sheet. -/
def rawTag (stack : List Str) : Option Str := stack.head?.filter htmlRawTextTags.contains

/-- The start of the closing tag of an element. -/
def closingTag (tag : Str) : Str := '<' :: '/' :: tag

/-- How much raw text there is before the closing tag. -/
def rawTextLength (stack : List Str) (tail : Str) : Run DocumentError Nat :=
  match rawTag stack with
  | none => .ok 0
  | some tag => ofOption .invalidStructure (htmlFindCaseInsensitive tail (closingTag tag))

/-- A comment or a tag: its length, and the stack after it. -/
def htmlMarkup (stack : List Str) (tail : Str) : Run DocumentError (Nat × List Str) :=
  if "<!--".toList.isPrefixOf tail then do
    let offset ← ofOption .invalidStructure (find "-->".toList (tail.drop 4))
    .ok (4 + offset + 3, stack)
  else do
    let offset ← ofOption .invalidStructure (htmlTagEnd none (tail.drop 1))
    let raw := tail.take (offset + 1)
    let tag ← htmlTagName raw
    let stack ← stackAfter stack tag
    .ok (offset + 1, stack)

/-- The token that starts at the cursor. Its label is `translatable`. -/
def htmlCut (s : HtmlState) (tail : Str) : Run DocumentError (Piece HtmlState Bool) := do
  let close ← rawTextLength s.stack tail
  if 0 < close then .ok ⟨close, false, s.stack, s.count + 1⟩
  else if tail.head? = some '<' then do
    let (length, stack) ← htmlMarkup s.stack tail
    .ok ⟨length, false, stack, s.count + 1⟩
  else
    let content := tail.takeWhile (· ≠ '<')
    let insideRawText := s.stack.any htmlRawTextTags.contains
    -- the limit is only checked after text
    if maxHtmlSegments < s.count + 1 then fail .invalidStructure
    else .ok ⟨content.length, !insideRawText && content.any (!isWhitespace ·), s.stack, s.count + 1⟩

structure HtmlScan where
  cursor : Nat
  stack : List Str
  tokens : List HtmlToken
  deriving DecidableEq, Repr

namespace HtmlScan

def state (s : HtmlScan) : HtmlState := ⟨s.stack, s.tokens.length⟩

/-- The loop goes on after the token that was cut off. -/
def next (s : HtmlScan) (cut : Piece HtmlState Bool) : HtmlScan where
  cursor := s.cursor + cut.length
  stack := cut.state.stack
  tokens := s.tokens ++ [⟨s.cursor, s.cursor + cut.length, cut.label⟩]

end HtmlScan

/-- One turn of the loop of `parse_html_tokens`. -/
def htmlTurn (text : Str) (s : HtmlScan) : Run DocumentError (Turn HtmlScan (List HtmlToken)) :=
  if text.length ≤ s.cursor then
    if s.stack = [] then .ok (.done s.tokens) else fail .invalidStructure
  else do
    let cut ← htmlCut s.state (text.drop s.cursor)
    .ok (.next (s.next cut))

def parseHtmlTokens (text : Str) : Run DocumentError (List HtmlToken) :=
  if text = [] then fail .invalidStructure
  else loop (htmlTurn text) (text.length + 1) ⟨0, [], []⟩

/-- `&text[token.start..token.end]`. -/
def HtmlToken.text (text : Str) (t : HtmlToken) : Str := slice text t.start t.stop

def htmlSegment (text : Str) (index : Nat) (token : HtmlToken) : DocumentSegment :=
  .fresh index (if token.translatable then .prose else .verbatim) (token.text text) []

def fromHtmlText (sourceName text : Str) : Run DocumentError DocumentJob := do
  let tokens ← parseHtmlTokens text
  .ok ⟨.html, sourceName, tokens.mapIdx (htmlSegment text), none⟩

/-! ## What a cut takes -/

theorem htmlTagEnd_le {quote : Option Char} {s : Str} {n : Nat} (h : htmlTagEnd quote s = some n) :
    0 < n ∧ n ≤ s.length := by
  fun_induction htmlTagEnd quote s generalizing n with
  | case1 => cases h
  | case4 => cases h; simp
  | _ =>
    rename_i ih
    obtain ⟨m, hm, rfl⟩ := Option.map_eq_some_iff.mp h
    have := ih hm
    simp only [List.length_cons]
    omega

theorem post_htmlTagName {raw : Str} (h : 2 ≤ raw.length) : Returns (htmlTagName raw) := by
  unfold Returns htmlTagName
  refine (post_sliceOf (by omega) (by omega)).bind fun inner _ => ?_
  dsimp only
  repeat' split
  all_goals trivial

theorem returns_stackAfter (stack : List Str) (tag : Option Str × Bool × Bool) :
    Returns (stackAfter stack tag) := by
  unfold Returns stackAfter
  repeat' split
  all_goals trivial

theorem post_htmlMarkup {stack : List Str} {tail : Str} (h : tail ≠ []) :
    Post (htmlMarkup stack tail) fun r => 0 < r.1 ∧ r.1 ≤ tail.length := by
  unfold htmlMarkup
  split
  · rename_i hp
    have h4 : 4 ≤ tail.length := (List.isPrefixOf_iff_prefix.mp hp).length_le
    refine (post_ofOption fun n hn => find_le_length hn).bind fun n hn => ?_
    have h3 : "-->".toList.length = 3 := rfl
    rw [List.length_drop, h3] at hn
    exact ⟨by dsimp only; omega, by dsimp only; omega⟩
  · have h1 := List.length_pos_iff.mpr h
    refine (post_ofOption fun n hn => htmlTagEnd_le hn).bind fun n hn => ?_
    rw [List.length_drop] at hn
    refine Post.bind (post_htmlTagName ?_) fun tag _ => ?_
    · rw [List.length_take]
      omega
    · refine (returns_stackAfter stack tag).bind fun stack _ => ?_
      exact ⟨by dsimp only; omega, by dsimp only; omega⟩

theorem findCloses_eq (tail tag : Str) : htmlFindCaseInsensitive tail (closingTag tag) =
    find (asciiLower (closingTag tag)) (asciiLower tail) := if_neg (List.cons_ne_nil _ _)

theorem post_rawTextLength (stack : List Str) (tail : Str) :
    Post (rawTextLength stack tail) fun n => n ≤ tail.length := by
  unfold rawTextLength
  split
  · exact Nat.zero_le _
  · refine post_ofOption fun n hn => ?_
    rw [findCloses_eq] at hn
    have := find_le_length hn
    simp only [asciiLower, List.length_map] at this
    omega

theorem post_htmlCut {s : HtmlState} {tail : Str} (h : tail ≠ []) :
    Post (htmlCut s tail) fun c => (0 < c.length ∧ c.length ≤ tail.length) ∧
      c.state.count = s.count + 1 := by
  unfold htmlCut
  refine (post_rawTextLength s.stack tail).bind fun close hclose => ?_
  split
  · rename_i h0
    exact ⟨⟨h0, hclose⟩, rfl⟩
  split
  · exact (post_htmlMarkup h).bind fun r hr => ⟨hr, rfl⟩
  · rename_i hhead
    dsimp only
    split
    · exact post_fail
    · refine ⟨⟨?_, (List.takeWhile_sublist _).length_le⟩, rfl⟩
      cases tail with
      | nil => exact absurd rfl h
      | cons c cs =>
        have hc : c ≠ '<' := fun e => hhead (by rw [e]; rfl)
        simp [hc]

/-! ## The tokens are the pieces of a scan -/

/-- The scan of a text, with the stack empty at its end. -/
abbrev HtmlScans : HtmlState → Str → List (Str × Bool) → Prop :=
  Scans htmlCut fun s => s.stack = []

/-- The pieces of tokens. -/
def pieces (text : Str) (tokens : List HtmlToken) : List (Str × Bool) :=
  tokens.map fun t => (t.text text, t.translatable)

theorem token_text (text : Str) {cursor length : Nat} {label : Bool} :
    HtmlToken.text text ⟨cursor, cursor + length, label⟩ = (text.drop cursor).take length := by
  unfold HtmlToken.text slice
  rw [List.drop_take, Nat.add_sub_cancel_left]

/-- What a turn can do. -/
theorem htmlTurn_cases {text : Str} {s : HtmlScan} {t : Turn HtmlScan (List HtmlToken)}
    (h : htmlTurn text s = .ok t) :
    (text.drop s.cursor = [] ∧ s.stack = [] ∧ t = .done s.tokens) ∨
    ∃ c piece rest, text.drop s.cursor = piece ++ rest ∧ piece ≠ [] ∧ piece.length = c.length ∧
      htmlCut s.state (piece ++ rest) = .ok c ∧ c.state = (s.next c).state ∧ t = .next (s.next c) := by
  unfold htmlTurn at h
  split at h
  · rename_i hend
    split at h
    · rename_i hstack
      cases h
      exact .inl ⟨List.drop_eq_nil_of_le hend, hstack, rfl⟩
    · cases h
  · rename_i hlt
    obtain ⟨c, hc, ht⟩ := Except.bind_ok.mp h
    cases ht
    have hne : text.drop s.cursor ≠ [] := fun e => hlt (List.drop_eq_nil_iff.mp e)
    obtain ⟨⟨hpos, hlen⟩, hcount⟩ := (post_htmlCut hne).ok hc
    have hpiece : ((text.drop s.cursor).take c.length).length = c.length := by
      rw [List.length_take, Nat.min_eq_left hlen]
    refine .inr ⟨c, _, _, (List.take_append_drop c.length _).symm, ?_, hpiece, ?_, ?_, rfl⟩
    · rw [← List.length_pos_iff, hpiece]
      exact hpos
    · rw [List.take_append_drop, hc]
    · have : c.state = ⟨c.state.stack, c.state.count⟩ := rfl
      rw [this, hcount]
      simp [HtmlScan.state, HtmlScan.next]

/-- The text of the token that a turn adds, and the text that is left after it. -/
theorem next_split {text piece rest : Str} {s : HtmlScan} {c : Piece HtmlState Bool}
    (h : text.drop s.cursor = piece ++ rest) (hl : piece.length = c.length) :
    text.drop (s.next c).cursor = rest ∧
      HtmlToken.text text ⟨s.cursor, s.cursor + c.length, c.label⟩ = piece := by
  rw [token_text, h, ← hl, List.take_left]
  refine ⟨?_, rfl⟩
  rw [HtmlScan.next, ← List.drop_drop, h, ← hl, List.drop_left]

theorem scans_of_loop {text : Str} {n : Nat} {s : HtmlScan} {tokens : List HtmlToken}
    (h : loop (htmlTurn text) n s = .ok tokens) :
    ∃ new, tokens = s.tokens ++ new ∧ HtmlScans s.state (text.drop s.cursor) (pieces text new) := by
  induction n generalizing s with
  | zero => cases h
  | succ n ih =>
    obtain ⟨t, ht, h⟩ := Except.bind_ok.mp h
    rcases htmlTurn_cases ht with ⟨hend, hstack, rfl⟩ | ⟨c, piece, rest, hd, hne, hl, hc, hst, rfl⟩
    · cases h
      exact ⟨[], by simp, by rw [hend]; exact .nil hstack⟩
    · obtain ⟨new, rfl, hnew⟩ := ih h
      obtain ⟨hrest, hpiece⟩ := next_split hd hl
      refine ⟨⟨s.cursor, s.cursor + c.length, c.label⟩ :: new, by simp [HtmlScan.next], ?_⟩
      rw [hrest, ← hst] at hnew
      rw [pieces, List.map_cons, hpiece, hd]
      refine .cons hne ?_ hnew
      rw [hc, hl]

theorem loop_of_scans {text rest : Str} {st : HtmlState} {ps : List (Str × Bool)}
    (h : HtmlScans st rest ps) {n : Nat} {s : HtmlScan} (hst : s.state = st)
    (hrest : text.drop s.cursor = rest) (hn : rest.length < n) :
    ∃ new, loop (htmlTurn text) n s = .ok (s.tokens ++ new) ∧ pieces text new = ps := by
  induction h generalizing n s with
  | nil hf =>
    obtain ⟨n, rfl⟩ := Nat.exists_eq_succ_of_ne_zero (Nat.ne_of_gt (Nat.zero_lt_of_lt hn))
    have hturn : htmlTurn text s = .ok (.done s.tokens) := by
      unfold htmlTurn
      rw [if_pos (List.drop_eq_nil_iff.mp hrest), if_pos (by rw [← hst] at hf; exact hf)]
    refine ⟨[], ?_, rfl⟩
    unfold loop
    rw [hturn, List.append_nil]
    rfl
  | @cons st st' piece rest label ps hne hc _ ih =>
    obtain ⟨n, rfl⟩ := Nat.exists_eq_succ_of_ne_zero (Nat.ne_of_gt (Nat.zero_lt_of_lt hn))
    have hpos := List.length_pos_iff.mpr hne
    rw [List.length_append] at hn
    let c : Piece HtmlState Bool := ⟨piece.length, label, st'⟩
    have hturn : htmlTurn text s = .ok (.next (s.next c)) := by
      have hlt : ¬ text.length ≤ s.cursor := by
        rw [← List.drop_eq_nil_iff, hrest]
        exact List.append_ne_nil_of_left_ne_nil hne rest
      unfold htmlTurn
      rw [if_neg hlt, hrest, hst, hc]
      rfl
    obtain ⟨hrest', hpiece⟩ := next_split (c := c) hrest rfl
    have hcount := ((post_htmlCut (List.append_ne_nil_of_left_ne_nil hne rest)).ok hc).2
    have hst' : (s.next c).state = st' := by
      have hnext : (s.next c).state = ⟨st'.stack, s.tokens.length + 1⟩ := by
        simp [HtmlScan.state, HtmlScan.next, c]
      rw [hnext]
      rw [← hst] at hcount
      exact congrArg (HtmlState.mk st'.stack) hcount.symm
    obtain ⟨new, hloop, hnew⟩ := ih (n := n) hst' hrest' (by omega)
    refine ⟨⟨s.cursor, s.cursor + c.length, label⟩ :: new, ?_, ?_⟩
    · unfold loop
      rw [hturn]
      refine hloop.trans ?_
      simp [HtmlScan.next, c]
    · rw [pieces, List.map_cons, hpiece, ← hnew]
      rfl

theorem parseHtmlTokens_iff {text : Str} {ps : List (Str × Bool)} :
    (∃ tokens, parseHtmlTokens text = .ok tokens ∧ pieces text tokens = ps) ↔
      text ≠ [] ∧ HtmlScans ⟨[], 0⟩ text ps := by
  unfold parseHtmlTokens
  constructor
  · rintro ⟨tokens, h, rfl⟩
    split at h
    · cases h
    · rename_i hne
      obtain ⟨new, rfl, hnew⟩ := scans_of_loop h
      exact ⟨hne, hnew⟩
  · rintro ⟨hne, h⟩
    rw [if_neg hne]
    exact loop_of_scans h rfl rfl (Nat.lt_succ_self _)

/-! ## Segments -/

/-- The parser returns: each turn moves the cursor on. -/
theorem returns_parseHtmlTokens (text : Str) : Returns (parseHtmlTokens text) := by
  unfold Returns parseHtmlTokens
  split
  · exact post_fail
  refine Post.loop (fun s => s.cursor ≤ text.length) (fun s => text.length - s.cursor)
    (fun s hs => ?_) (Nat.zero_le _) (by dsimp only; omega)
  unfold htmlTurn
  split
  · split
    · trivial
    · exact post_fail
  · rename_i hlt
    have hne : text.drop s.cursor ≠ [] := fun e => hlt (List.drop_eq_nil_iff.mp e)
    refine (post_htmlCut hne).bind fun c hc => ?_
    have hlen := hc.1.2
    have hpos := hc.1.1
    rw [List.length_drop] at hlen
    exact ⟨by rw [HtmlScan.next]; dsimp only; omega, by rw [HtmlScan.next]; dsimp only; omega⟩

theorem post_fromHtmlText (sourceName text : Str) :
    Post (fromHtmlText sourceName text) fun job =>
      job.format = .html ∧ Segmented text job.segments := by
  unfold fromHtmlText
  refine (returns_parseHtmlTokens text).self.bind fun tokens h => ?_
  obtain ⟨-, hscan⟩ := parseHtmlTokens_iff.mp ⟨tokens, h.1, rfl⟩
  have hspelled : tokens.flatMap (HtmlToken.text text) = text := by
    have := hscan.spelled
    rwa [pieces, List.flatMap_map] at this
  have hsegmented : Segmented (tokens.flatMap (HtmlToken.text text)) (tokens.mapIdx (htmlSegment text)) :=
    .mapIdx (fun _ _ => rfl) (fun _ _ => List.append_nil _) (fun _ _ => rfl)
  rw [hspelled] at hsegmented
  exact ⟨rfl, hsegmented⟩

end LinguaMesh
