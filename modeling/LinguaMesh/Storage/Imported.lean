import LinguaMesh.Document.CsvLocalize
import LinguaMesh.Document.Localize
import LinguaMesh.Document.Markup
import LinguaMesh.Storage.Tables

/-!
# Imported jobs and the segment limit

`validate_document_job_identity` refuses a job of more than 10,000 segments. Each
importer has that limit too, and checks it somewhere in its loop: the CSV importer
after every record, the HTML importer only after text, the JSON importer before the
rest of the text behind the last literal.

So a CSV document always fits, a JSON document of the most literals that are
allowed has one segment too many (`fits_json`), and an HTML document fits as long
as it has no more pieces than that (`fits_html`).
-/

namespace LinguaMesh

open Run

/-! ## JSON -/

def JsonMark.isLiteral : JsonMark → Bool
  | .char _ => false
  | .literal _ _ _ => true

theorem length_tokensFrom (pos : Nat) (marks : List JsonMark) :
    (tokensFrom pos marks).length = marks.countP JsonMark.isLiteral := by
  induction marks generalizing pos with
  | nil => rfl
  | cons m marks ih =>
    cases m with
    | char c => exact (ih _).trans (List.countP_cons_of_neg (by simp [JsonMark.isLiteral])).symm
    | literal raw path isKey =>
      rw [tokensFrom, List.length_cons, ih, List.countP_cons_of_pos rfl]

theorem countP_chars (s : Str) : (chars s).countP JsonMark.isLiteral = 0 := by
  induction s with
  | nil => rfl
  | cons c s ih => exact (List.countP_cons_of_neg Bool.false_ne_true).trans ih

/-- There is text before each literal; `touching` means that there is none before the marks. -/
def Spaced : Bool → List JsonMark → Prop
  | _, [] => True
  | _, .char _ :: marks => Spaced false marks
  | touching, .literal _ _ _ :: marks => touching = false ∧ Spaced true marks

def EndsInText (marks : List JsonMark) : Prop := ∃ front c, marks = front ++ [.char c]

section Spaced

variable {touching : Bool} {marks rest : List JsonMark} {s : Str}

theorem spaced_char {c : Char} : Spaced touching (marks ++ .char c :: rest) ↔
    Spaced touching marks ∧ Spaced false rest := by
  induction marks generalizing touching with
  | nil => simp [Spaced]
  | cons m marks ih =>
    cases m with
    | char d => exact ih
    | literal raw path isKey =>
      rw [List.cons_append, Spaced, Spaced, ih, and_assoc]

theorem spaced_chars : Spaced touching (chars s) := by
  induction s generalizing touching with
  | nil => trivial
  | cons c s ih => exact ih

theorem Spaced.chars_append (h : Spaced false marks) : Spaced false (chars s ++ marks) := by
  induction s with
  | nil => exact h
  | cons c s ih => exact ih

theorem Spaced.append_chars (h : Spaced touching marks) : Spaced touching (marks ++ chars s) := by
  cases s with
  | nil => rwa [chars_nil, List.append_nil]
  | cons c s => exact spaced_char.mpr ⟨h, spaced_chars⟩

theorem EndsInText.append (h : EndsInText rest) (marks : List JsonMark) :
    EndsInText (marks ++ rest) := by
  obtain ⟨front, c, rfl⟩ := h
  exact ⟨marks ++ front, c, (List.append_assoc _ _ _).symm⟩

theorem EndsInText.append_chars (h : EndsInText marks) : EndsInText (marks ++ chars s) := by
  induction s using List.reverseRecOn with
  | nil => rwa [chars_nil, List.append_nil]
  | append_singleton s c _ =>
    exact ⟨marks ++ chars s, c, by rw [chars_append, List.append_assoc]; rfl⟩

theorem endsInText_chars (hs : s ≠ []) : EndsInText (chars s) := by
  refine ⟨chars s.dropLast, s.getLast hs, ?_⟩
  rw [← chars_nil, ← chars_cons, ← chars_append, List.dropLast_append_getLast]

variable [JsonReader] {phrase : JsonPhrase} {path : List JsonPathSegment}

/-- The brackets, the colons and the commas of a text are between its literals and around them. -/
theorem Derives.spaced (h : Derives phrase path marks) : Spaced false marks ∧
    ((phrase = .value ∧ ∃ ws raw, marks = chars ws ++ [.literal raw path false]) ∨
      EndsInText marks ∧ (phrase = .value → Spaced true marks)) := by
  have closed (ws : Str) (c : Char) : EndsInText (chars ws ++ chars [c]) :=
    (endsInText_chars (List.cons_ne_nil c [])).append _
  have opened (ws : Str) (c : Char) {rest : List JsonMark} (h : Spaced false rest) (touching : Bool) :
      Spaced touching (chars ws ++ (chars [c] ++ rest)) := spaced_char.mpr ⟨spaced_chars, h⟩
  induction h with
  | string h1 h2 => exact ⟨Spaced.chars_append ⟨rfl, trivial⟩, .inl ⟨rfl, _, _, rfl⟩⟩
  | @primitive path ws raw h1 h2 =>
    obtain ⟨c, cs, rfl, -⟩ := h2.starts
    have hspaced (touching : Bool) : Spaced touching (chars ws ++ chars (c :: cs)) :=
      spaced_chars.append_chars
    exact ⟨hspaced _, .inr ⟨(endsInText_chars (List.cons_ne_nil c cs)).append _, fun _ => hspaced _⟩⟩
  | @emptyObject path ws ws' h1 h2 =>
    have hspaced := opened ws '{' (spaced_chars.append_chars : Spaced false (chars ws' ++ chars ['}']))
    exact ⟨hspaced _, .inr ⟨((closed ws' '}').append _).append _, fun _ => hspaced _⟩⟩
  | @object path ws members h1 _ ih =>
    have hspaced := opened ws '{' ih.1
    have hends := (ih.2.resolve_left fun h => JsonPhrase.noConfusion h.1).1
    exact ⟨hspaced _, .inr ⟨(hends.append _).append _, fun _ => hspaced _⟩⟩
  | @emptyArray path ws ws' h1 h2 =>
    have hspaced := opened ws '[' (spaced_chars.append_chars : Spaced false (chars ws' ++ chars [']']))
    exact ⟨hspaced _, .inr ⟨((closed ws' ']').append _).append _, fun _ => hspaced _⟩⟩
  | @array path ws items h1 _ ih =>
    have hspaced := opened ws '[' ih.1
    have hends := (ih.2.resolve_left fun h => JsonPhrase.noConfusion h.1).1
    exact ⟨hspaced _, .inr ⟨(hends.append _).append _, fun _ => hspaced _⟩⟩
  | @lastMember path ws raw key ws1 ws2 v h1 h2 h3 h4 h5 _ ih =>
    refine ⟨Spaced.chars_append ⟨rfl, opened ws1 ':' ?_ true⟩, .inr ⟨?_, fun h => JsonPhrase.noConfusion h⟩⟩
    · rw [← chars_append]
      exact ih.1.append_chars
    · exact ((((closed ws2 '}').append v).append (chars [':'])).append (chars ws1)).append
        [.literal raw path true] |>.append (chars ws)
  | @member path ws raw key ws1 ws2 v members h1 h2 h3 h4 h5 _ _ ih ihm =>
    have hends := (ihm.2.resolve_left fun h => JsonPhrase.noConfusion h.1).1
    refine ⟨Spaced.chars_append ⟨rfl, opened ws1 ':' ?_ true⟩, .inr ⟨?_, fun h => JsonPhrase.noConfusion h⟩⟩
    · rw [← List.append_assoc]
      exact spaced_char.mpr ⟨ih.1.append_chars, ihm.1⟩
    · exact (((((hends.append (chars [','])).append (chars ws2)).append v).append (chars [':'])).append
        (chars ws1)).append [.literal raw path true] |>.append (chars ws)
  | @lastItem path item ws v h1 h2 _ ih =>
    refine ⟨?_, .inr ⟨(closed ws ']').append v, fun h => JsonPhrase.noConfusion h⟩⟩
    rw [← chars_append]
    exact ih.1.append_chars
  | @item path item ws v items h1 h2 _ _ ih ihi =>
    have hends := (ihi.2.resolve_left fun h => JsonPhrase.noConfusion h.1).1
    refine ⟨?_, .inr ⟨((hends.append (chars [','])).append (chars ws)).append v,
      fun h => JsonPhrase.noConfusion h⟩⟩
    rw [← List.append_assoc]
    exact spaced_char.mpr ⟨ih.1.append_chars, ihi.1⟩

end Spaced

/-! ### Counting segments -/

/-- How many tokens have text before them. -/
def gaps : Nat → List JsonStringToken → Nat
  | _, [] => 0
  | cursor, token :: tokens => (if cursor < token.start then 1 else 0) + gaps token.stop tokens

/-- The cursor after tokens. -/
def cursorAfter (cursor : Nat) (tokens : List JsonStringToken) : Nat :=
  tokens.foldl (fun _ token => token.stop) cursor

section Count

variable {text : Str} {segments : List DocumentSegment} {cursor pos : Nat}
  {tokens : List JsonStringToken} {marks : List JsonMark}

theorem gaps_le : gaps cursor tokens ≤ tokens.length := by
  induction tokens generalizing cursor with
  | nil => exact Nat.le_refl 0
  | cons token tokens ih =>
    have ih : gaps token.stop tokens ≤ tokens.length := ih
    rw [gaps, List.length_cons]
    split <;> omega

theorem gaps_tokensFrom (hle : cursor ≤ pos) (h : Spaced (decide (cursor = pos)) marks) :
    gaps cursor (tokensFrom pos marks) = (tokensFrom pos marks).length := by
  induction marks generalizing cursor pos with
  | nil => rfl
  | cons m marks ih =>
    cases m with
    | char c =>
      have hlater : decide (cursor = pos + 1) = false := decide_eq_false (by omega)
      exact ih (by omega) (hlater.symm ▸ h)
    | literal raw path isKey =>
      have hlt : cursor < pos := by
        have := of_decide_eq_false h.1
        omega
      have hstop : decide (pos + raw.length = pos + raw.length) = true := decide_eq_true rfl
      rw [tokensFrom, gaps, if_pos hlt, ih (Nat.le_refl _) (hstop.symm ▸ h.2), List.length_cons,
        Nat.add_comm]

theorem cursorAfter_le (hle : cursor ≤ pos) :
    cursorAfter cursor (tokensFrom pos marks) ≤ pos + (markedText marks).length := by
  induction marks generalizing cursor pos with
  | nil => simpa [cursorAfter, tokensFrom] using hle
  | cons m marks ih =>
    rw [markedText_cons, List.length_append, ← Nat.add_assoc]
    cases m with
    | char c => exact ih (by omega)
    | literal raw path isKey => exact ih (Nat.le_refl _)

/-- Behind the last literal there is text. -/
theorem cursorAfter_lt (h : EndsInText marks) :
    cursorAfter 0 (tokensFrom 0 marks) < (markedText marks).length := by
  obtain ⟨front, c, rfl⟩ := h
  have hle : cursorAfter 0 (tokensFrom 0 front) ≤ 0 + (markedText front).length :=
    cursorAfter_le (Nat.le_refl 0)
  rw [tokensFrom_append, markedText_append, List.length_append]
  rw [show tokensFrom (0 + (markedText front).length) [.char c] = [] from rfl, List.append_nil]
  simp only [markedText_cons, JsonMark.text_char, markedText_nil, List.append_nil, List.length_singleton]
  omega

theorem length_pushBetween (segments : List DocumentSegment) (cursor : Nat) {stop : Nat}
    (h : stop ≤ text.length) :
    ∃ segments', pushBetween text cursor stop segments = .ok segments' ∧
      segments'.length = segments.length + if cursor < stop then 1 else 0 := by
  unfold pushBetween
  split
  · rename_i hlt
    rw [sliceOf_ok (Nat.le_of_lt hlt) h]
    exact ⟨_, rfl, by simp [pushSegment]⟩
  · exact ⟨_, rfl, rfl⟩

/-- The limit is not reached at a token as long as the tokens are few. -/
theorem length_pushTokens (includePaths excludePaths : Option (List Str))
    (segments : List DocumentSegment) (cursor : Nat)
    (ho : Ordered JsonStringToken.start JsonStringToken.stop text.length tokens)
    (hlimit : segments.length + 2 * tokens.length ≤ maxJsonSegments) :
    ∃ segments', tokens.foldlM (pushToken text includePaths excludePaths) (segments, cursor) =
        .ok (segments', cursorAfter cursor tokens) ∧
      segments'.length = segments.length + tokens.length + gaps cursor tokens := by
  induction tokens generalizing segments cursor with
  | nil => exact ⟨segments, rfl, rfl⟩
  | cons token tokens ih =>
    obtain ⟨h1, h2⟩ := ho.bounds token List.mem_cons_self
    obtain ⟨between, hbetween, hlength⟩ :=
      length_pushBetween segments cursor (h1.trans h2)
    rw [List.length_cons] at hlimit
    have hle : between.length ≤ segments.length + 1 := by
      rw [hlength]
      split <;> omega
    have hpush : pushToken text includePaths excludePaths (segments, cursor) token =
        .ok (pushSegment between (tokenKind token includePaths excludePaths)
          ((text.take token.stop).drop token.start), token.stop) := by
      unfold pushToken
      dsimp only
      rw [hbetween, Except.ok_bind, sliceOf_ok h1 h2, Except.ok_bind, if_neg]
      simp only [pushSegment, List.length_append, List.length_singleton]
      omega
    obtain ⟨segments', hrest, hlength'⟩ := ih
      (pushSegment between (tokenKind token includePaths excludePaths)
        ((text.take token.stop).drop token.start)) token.stop ho.tail (by
        simp only [pushSegment, List.length_append, List.length_singleton]
        omega)
    refine ⟨segments', ?_, ?_⟩
    · rw [List.foldlM_cons, hpush]
      exact hrest
    · rw [hlength', gaps, List.length_cons]
      simp only [pushSegment, List.length_append, List.length_singleton]
      omega

end Count

/-- The text of a JSON document has fewer string literals, keys and values, than are allowed. -/
def FewLiterals [JsonReader] (text : Str) : Prop :=
  ∃ marks, JsonDocument marks ∧ markedText marks = text ∧
    marks.countP JsonMark.isLiteral < maxJsonTokens

section Json

variable [JsonReader] {sourceName text : Str} {includePaths excludePaths : Option (List Str)}
  {job : DocumentJob} {tokens : List JsonStringToken}

/-- A text with tokens is imported. -/
theorem length_fromJsonText (sourceName : Str) (includePaths excludePaths : Option (List Str))
    (h : parseJsonTokens text = .ok tokens) :
    ∃ job, fromJsonText sourceName text includePaths excludePaths = .ok job ∧
      job.segments.length =
        tokens.length + gaps 0 tokens + if cursorAfter 0 tokens < text.length then 1 else 0 := by
  obtain ⟨marks, hdocument, -, hmarks⟩ := parseJsonTokens_iff.mp h
  have hlimit : tokens.length ≤ maxJsonTokens := hmarks ▸ hdocument.limit
  obtain ⟨segments, hpush, hlength⟩ := length_pushTokens includePaths excludePaths [] 0
    ((post_parseJsonTokens text).ok h) (by
      unfold maxJsonTokens at hlimit
      unfold maxJsonSegments
      rw [List.length_nil]
      omega)
  obtain ⟨final, hfinal, hlast⟩ := length_pushBetween segments (cursorAfter 0 tokens)
    (Nat.le_refl text.length)
  refine ⟨⟨.json, sourceName, final, none⟩, ?_, ?_⟩
  · unfold fromJsonText
    rw [h, Except.ok_bind, hpush, Except.ok_bind]
    dsimp only
    rw [hfinal]
    rfl
  · rw [hlast, hlength, List.length_nil, Nat.zero_add]

/-- A JSON document has two segments for each literal, and one more. -/
theorem fits_json (h : fromJsonText sourceName text includePaths excludePaths = .ok job) :
    job.segments.length ≤ Storage.maxDocumentSegments ↔ FewLiterals text := by
  obtain ⟨tokens, htokens, -⟩ := Except.bind_ok.mp h
  obtain ⟨job', hjob', hlength⟩ := length_fromJsonText sourceName includePaths excludePaths htokens
  obtain rfl : job' = job := Except.ok.inj (hjob'.symm.trans h)
  have hgaps : gaps 0 tokens ≤ tokens.length := gaps_le
  constructor
  · intro hle
    obtain ⟨marks, hdocument, htext, hmarks⟩ := parseJsonTokens_iff.mp htokens
    refine ⟨marks, hdocument, htext, ?_⟩
    have hlimit := hdocument.limit
    rw [← length_tokensFrom 0]
    refine Nat.lt_of_le_of_ne hlimit fun hfull => ?_
    obtain ⟨value, ws, rfl, hvalue, hws⟩ := hdocument.split
    obtain ⟨-, ⟨-, ws', raw, rfl⟩ | ⟨hends, hspaced⟩⟩ := hvalue.spaced
    · rw [length_tokensFrom] at hfull
      have hone : (chars ws' ++ [JsonMark.literal raw [] false] ++ chars ws).countP JsonMark.isLiteral = 1 := by
        rw [List.countP_append, List.countP_append, countP_chars, countP_chars]
        rfl
      rw [hone] at hfull
      cases hfull
    · have hall := gaps_tokensFrom (Nat.le_refl 0)
        (show Spaced (decide ((0 : Nat) = 0)) (value ++ chars ws) from
          (hspaced rfl).append_chars)
      have hlast := cursorAfter_lt (hends.append_chars (s := ws))
      rw [hmarks] at hall hlast hfull
      rw [htext] at hlast
      rw [hlength, hall, hfull, if_pos hlast] at hle
      exact absurd hle (by decide)
  · rintro ⟨marks, hdocument, htext, hfew⟩
    have htokens' := parseJsonTokens_iff.mpr ⟨marks, hdocument, htext, rfl⟩
    obtain rfl : tokensFrom 0 marks = tokens := Except.ok.inj (htokens'.symm.trans htokens)
    rw [length_tokensFrom] at hlength hgaps
    rw [hlength]
    unfold maxJsonTokens at hfew
    unfold Storage.maxDocumentSegments
    split <;> omega

/-- An accepted JSON text is not cut into lines. -/
theorem fromText_json {contents : Bytes} (h : Accepted contents .json text) :
    fromJsonText sourceName text none none = .ok (DocumentJob.fromText sourceName .json text) := by
  obtain ⟨tokens, htokens, -⟩ := Except.map_eq_ok.mp h.valid
  obtain ⟨job, hjob, -⟩ := length_fromJsonText sourceName none none htokens
  unfold DocumentJob.fromText
  rw [hjob]
  rfl

theorem fromJsonText_of_import [Packages] {options : ImportOptions} {contents : Bytes}
    (h : options.run sourceName contents = .ok job) (hformat : job.format = .json) :
    ∃ text includePaths excludePaths, fromJsonText sourceName text includePaths excludePaths = .ok job := by
  cases options with
  | csvColumns selected =>
    obtain ⟨⟨format, text⟩, hread, h⟩ := Except.bind_ok.mp h
    dsimp only at h
    split at h
    · rw [((post_fromCsvText sourceName text selected).ok h).1] at hformat
      cases hformat
    · obtain rfl := Except.ok.inj h
      have haccepted := (DocumentJob.post_readText sourceName contents).ok hread
      rw [(DocumentJob.fromText_spec sourceName format text).1] at hformat
      subst hformat
      exact ⟨text, none, none, fromText_json haccepted⟩
  | jsonPaths includePaths excludePaths =>
    obtain ⟨text, htext⟩ := fromJsonText_of_run h hformat
    exact ⟨text, _, _, htext⟩
  | plain =>
    unfold ImportOptions.run DocumentJob.fromUtf8 at h
    dsimp only at h
    split at h
    · cases h
    split at h
    · rename_i format _ hpackage
      unfold DocumentJob.fromPackage at h
      split at h
      · cases h
      · obtain ⟨segments, -, h⟩ := Except.bind_ok.mp h
        cases h
        dsimp only at hformat
        rw [hformat] at hpackage
        cases hpackage
    · obtain ⟨text, htext⟩ := fromJsonText_of_run h hformat
      exact ⟨text, _, _, htext⟩

end Json

/-! ## CSV -/

/-- The limit is checked after every record. -/
theorem fits_csv {sourceName text : Str} {selectedColumns : Option (List Nat)} {job : DocumentJob}
    (h : fromCsvText sourceName text selectedColumns = .ok job) :
    job.segments.length ≤ Storage.maxDocumentSegments := by
  obtain ⟨records, -, h⟩ := Except.bind_ok.mp h
  obtain ⟨selected, -, h⟩ := Except.bind_ok.mp h
  obtain ⟨segments, hsegments, h⟩ := Except.bind_ok.mp h
  cases h
  have hfold : Post (records.foldlM (pushCsvRecord selected (detectCsvDelimiter text)) [])
      fun segments => segments.length ≤ maxCsvSegments := by
    refine Post.foldlM _ (Nat.zero_le _) fun segments record _ _ => ?_
    unfold pushCsvRecord
    dsimp only
    split
    · exact post_fail
    · exact Nat.le_of_not_lt ‹_›
  exact hfold.ok hsegments

/-! ## HTML -/

/-- The text of an HTML document has no more pieces than the limit: tags, comments, raw text of an
element and runs of text. -/
def FewPieces (text : Str) : Prop :=
  ∃ pieces, HtmlScans ⟨[], 0⟩ text pieces ∧ pieces.length ≤ maxHtmlSegments

theorem fits_html [JsonReader] {contents : Bytes} {job : DocumentJob} {tokens : List HtmlToken}
    (h : HtmlJob contents job tokens) :
    job.segments.length ≤ Storage.maxDocumentSegments ↔ FewPieces job.sourceText := by
  constructor
  · intro hle
    exact ⟨_, h.scans, by rwa [List.length_map]⟩
  · rintro ⟨ps, hscans, hle⟩
    obtain ⟨hne, -⟩ := parseHtmlTokens_iff.mp ⟨tokens, h.parsed, rfl⟩
    obtain ⟨tokens', hparsed, rfl⟩ := parseHtmlTokens_iff.mpr ⟨hne, hscans⟩
    obtain rfl : tokens' = tokens := Except.ok.inj (hparsed.symm.trans h.parsed)
    rw [h.cut, List.length_mapIdx]
    rwa [pieces, List.length_map] at hle

/-! ## What is imported can be saved -/

namespace Storage

def tooManySegments : TranslationError :=
  documentConfigurationError "The document contains too many segments."

/-- The number of segments is within the limit, and no save is refused for it. -/
def SegmentsFit (job : DocumentJob) : Prop :=
  job.segments.length ≤ maxDocumentSegments ∧
    ∀ jobId, validateDocumentJobIdentity jobId job ≠ .error tooManySegments

theorem validateSegments_error {i : Nat} {segments : List DocumentSegment} :
    validateSegments i segments ≠ .error tooManySegments := by
  induction segments generalizing i with
  | nil => exact fun h => by cases h
  | cons s segments ih =>
    unfold validateSegments validateSegment
    split
    · exact fun h => absurd (Except.error.inj h) (by decide)
    split
    · exact fun h => absurd (Except.error.inj h) (by decide)
    · exact ih

theorem segmentsFit_iff {job : DocumentJob} :
    SegmentsFit job ↔ job.segments.length ≤ maxDocumentSegments := by
  refine ⟨And.left, fun hle => ⟨hle, fun jobId h => ?_⟩⟩
  unfold validateDocumentJobIdentity at h
  split at h
  · exact absurd (Except.error.inj h) (by decide)
  split at h
  · exact absurd (Except.error.inj h) (by decide)
  rw [if_neg (Nat.not_lt.mpr hle)] at h
  split at h
  · exact absurd (Except.error.inj h) (by decide)
  split at h
  · exact absurd (Except.error.inj h) (by decide)
  cases hsegments : validateSegments 0 job.segments with
  | error e =>
    rw [hsegments] at h
    cases h
    exact validateSegments_error hsegments
  | ok u =>
    rw [hsegments, Except.ok_bind] at h
    split at h
    · exact absurd (Except.error.inj h) (by decide)
    · cases h

def breaks (n : Nat) : Str := (List.replicate n "<br>".toList).flatten

def breaksHtml (n : Nat) : Bytes := (List.replicate n (asciiBytes "<br>")).flatten

/-- Tags are never counted. -/
theorem scans_breaks (n count : Nat) :
    HtmlScans ⟨[], count⟩ (breaks n) (List.replicate n ("<br>".toList, false)) := by
  induction n generalizing count with
  | zero => exact .nil rfl
  | succ n ih =>
    have hcut : htmlCut ⟨[], count⟩ ("<br>".toList ++ breaks n) = .ok ⟨4, false, ⟨[], count + 1⟩⟩ := rfl
    exact .cons (List.cons_ne_nil _ _) hcut (ih (count + 1))

theorem fromUtf8_breaks (n : Nat) : fromUtf8 (breaksHtml n) = some (breaks n) := by
  induction n with
  | zero => rfl
  | succ n ih =>
    show fromUtf8 (60 :: 98 :: 114 :: 62 :: breaksHtml n) = _
    rw [fromUtf8_cons (by decide), fromUtf8_cons (by decide), fromUtf8_cons (by decide),
      fromUtf8_cons (by decide), ih]
    rfl

section Breaks

local instance breaksReader : JsonReader := noReader
local instance breaksPackages : Packages := noPackages

theorem breaks_import {n : Nat} (hpos : 0 < n) (hsize : (breaksHtml n).length ≤ maxDocumentBytes) :
    ∃ job, ImportOptions.plain.run "page.html".toList (breaksHtml n) = .ok job ∧
      job.format = .html ∧ job.segments.length = n := by
  have hne : breaks n ≠ [] := by
    obtain ⟨m, rfl⟩ := Nat.exists_eq_succ_of_ne_zero (Nat.ne_of_gt hpos)
    exact List.cons_ne_nil _ _
  obtain ⟨tokens, htokens, hpieces⟩ := parseHtmlTokens_iff.mpr ⟨hne, scans_breaks n 0⟩
  have hread : DocumentJob.readText "page.html".toList (breaksHtml n) = .ok (.html, breaks n) := by
    have hmark : stripByteOrderMark (breaksHtml n) = breaksHtml n := by
      obtain ⟨m, rfl⟩ := Nat.exists_eq_succ_of_ne_zero (Nat.ne_of_gt hpos)
      rfl
    have hname : DocumentFormat.fromName "page.html".toList = .ok .html := by decide
    have hvalid : validateStructure .html (breaks n) none = .ok () := by
      show (parseHtmlTokens (breaks n)).map (fun _ => ()) = _
      rw [htokens]
      rfl
    unfold DocumentJob.readText
    rw [if_neg (Nat.not_lt.mpr hsize), hname]
    dsimp only
    rw [hmark, fromUtf8_breaks]
    dsimp only [ofOption]
    rw [Except.ok_bind, hvalid]
    rfl
  have hrun : ImportOptions.plain.run "page.html".toList (breaksHtml n) =
      .ok (DocumentJob.fromText "page.html".toList .html (breaks n)) := by
    have hname : DocumentFormat.fromName "page.html".toList = .ok .html := by decide
    unfold ImportOptions.run DocumentJob.fromUtf8 DocumentJob.fromUtf8WithJsonPaths
    rw [hname]
    dsimp only
    rw [hread]
    rfl
  have hjob : fromHtmlText "page.html".toList (breaks n) =
      .ok (DocumentJob.fromText "page.html".toList .html (breaks n)) :=
    DocumentJob.fromText_html ((DocumentJob.post_readText _ _).ok hread)
  refine ⟨_, hrun, (DocumentJob.fromText_spec _ .html _).1, ?_⟩
  unfold fromHtmlText at hjob
  rw [htokens, Except.ok_bind] at hjob
  rw [← Except.ok.inj hjob, List.length_mapIdx]
  have hlength := congrArg List.length hpieces
  rwa [pieces, List.length_map, List.length_replicate] at hlength

end Breaks

end Storage

end LinguaMesh
