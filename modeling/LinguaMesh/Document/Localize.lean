import LinguaMesh.Document.JsonText
import LinguaMesh.Document.Translation

/-!
# Translating JSON documents

The segments of a JSON document lay its marks out (`Covers`): a literal is a
segment of its own, prose where its path is selected. Translations replace the
literals of the prose by the literals that encode them, so the output is a JSON
document with the same marks but for the selected values.

What is needed of `serde_json` is that its literal of a translation is read as
one, and gives the translation back (`Faithful`).
-/

namespace LinguaMesh

open Run

/-- The literal that `serde_json` writes for a text is one, and is read as the text. -/
structure Faithful [JsonReader] [JsonStrings] (translated : Str) : Prop where
  closed : ∃ body, encodeJsonString translated = '"' :: body ∧
    JsonParser.stringLength body = some body.length
  read : JsonReader.parseString (encodeJsonString translated) = some translated

theorem Faithful.isLiteral [JsonReader] [JsonStrings] {translated : Str} (h : Faithful translated) :
    IsLiteral (encodeJsonString translated) := ⟨h.closed, by rw [h.read]; rfl⟩

/-! ## Stretches and values -/

/-- The literal of a token. -/
def JsonStringToken.text (text : Str) (token : JsonStringToken) : Str :=
  (text.take token.stop).drop token.start

/-- A value whose path is selected. -/
def JsonStringToken.isSelected (selected : List JsonPathSegment → Bool) (token : JsonStringToken) :
    Bool := !token.isKey && selected token.path

def JsonStringToken.label (token : JsonStringToken) : List JsonPathSegment × Bool :=
  (token.path, token.isKey)

/-- The stretches of a text between its selected literals, from a position on. -/
def stretchesFrom (selected : List JsonPathSegment → Bool) (text : Str) :
    Nat → List JsonStringToken → List Str
  | cursor, [] => [text.drop cursor]
  | cursor, token :: tokens =>
    if token.isSelected selected then
      (text.take token.start).drop cursor :: stretchesFrom selected text token.stop tokens
    else stretchesFrom selected text cursor tokens

/-- The literals of the selected values. -/
def selectedLiterals (selected : List JsonPathSegment → Bool) (text : Str)
    (tokens : List JsonStringToken) : List Str :=
  (tokens.filter (·.isSelected selected)).map (·.text text)

namespace JsonMark

variable (selected : List JsonPathSegment → Bool)

def isSelected : JsonMark → Bool
  | char _ => false
  | literal _ path isKey => !isKey && selected path

@[simp] theorem isSelected_char (c : Char) : (char c).isSelected selected = false := rfl

@[simp] theorem isSelected_literal (raw : Str) (path : List JsonPathSegment) (isKey : Bool) :
    (literal raw path isKey).isSelected selected = (!isKey && selected path) := rfl

def label : JsonMark → Option (List JsonPathSegment × Bool)
  | char _ => none
  | literal _ path isKey => some (path, isKey)

/-- The stretches of marks between the selected literals, after a stretch that is open. -/
def stretches : Str → List JsonMark → List Str
  | open', [] => [open']
  | open', m :: marks =>
    if m.isSelected selected then open' :: stretches [] marks else stretches (open' ++ m.text) marks

end JsonMark

section Marks

variable {selected : List JsonPathSegment → Bool} {text : Str}

theorem labels_tokensFrom (pos : Nat) (marks : List JsonMark) :
    (tokensFrom pos marks).map (·.label) = marks.filterMap JsonMark.label := by
  induction marks generalizing pos with
  | nil => rfl
  | cons m marks ih =>
    cases m with
    | char c => exact ih (pos + 1)
    | literal raw path isKey => exact congrArg (_ :: ·) (ih _)

theorem stretches_tokensFrom (selected : List JsonPathSegment → Bool) (pre before : Str)
    {marks : List JsonMark}
    (h : text = pre ++ (before ++ markedText marks)) :
    stretchesFrom selected text pre.length (tokensFrom (pre.length + before.length) marks) =
      JsonMark.stretches selected before marks := by
  induction marks generalizing pre before with
  | nil =>
    rw [markedText_nil, List.append_nil] at h
    simp [tokensFrom, stretchesFrom, JsonMark.stretches, h]
  | cons m marks ih =>
    rw [markedText_cons] at h
    cases m with
    | char c =>
      have := ih pre (before ++ [c]) (by rw [h]; simp)
      simpa [tokensFrom, JsonMark.stretches, JsonMark.isSelected, Nat.add_assoc] using this
    | literal raw path isKey =>
      cases hs : (!isKey && selected path) with
      | true =>
        have := ih (pre ++ before ++ raw) [] (by rw [h]; simp)
        have htake : (text.take (pre.length + before.length)).drop pre.length = before := by
          rw [h, ← List.append_assoc, ← List.length_append, List.take_left, List.drop_left]
        simpa [tokensFrom, stretchesFrom, JsonMark.stretches, JsonMark.isSelected,
          JsonStringToken.isSelected, hs, htake, Nat.add_assoc] using this
      | false =>
        have := ih pre (before ++ raw) (by rw [h]; simp)
        simpa [tokensFrom, stretchesFrom, JsonMark.stretches, JsonMark.isSelected,
          JsonStringToken.isSelected, hs, Nat.add_assoc] using this

theorem selectedLiterals_tokensFrom (selected : List JsonPathSegment → Bool) (pre : Str)
    {marks : List JsonMark}
    (h : text = pre ++ markedText marks) :
    selectedLiterals selected text (tokensFrom pre.length marks) =
      (marks.filter (·.isSelected selected)).map JsonMark.text := by
  induction marks generalizing pre with
  | nil => rfl
  | cons m marks ih =>
    rw [markedText_cons] at h
    have hrest := ih (pre ++ m.text) (by rw [h]; simp)
    cases m with
    | char c => simpa [tokensFrom, JsonMark.isSelected] using hrest
    | literal raw path isKey =>
      have htext : (⟨pre.length, pre.length + raw.length, path, isKey⟩ : JsonStringToken).text text =
          raw := by
        unfold JsonStringToken.text
        rw [h, JsonMark.text_literal, ← List.append_assoc, ← List.length_append, List.take_left,
          List.drop_left]
      unfold selectedLiterals at hrest ⊢
      rw [List.length_append] at hrest
      cases hs : (!isKey && selected path) <;>
        simp_all [tokensFrom, JsonMark.isSelected, JsonStringToken.isSelected]

variable [JsonReader]

theorem KeptMark.isSelected {m m' : JsonMark} (h : KeptMark selected m m') :
    m'.isSelected selected = m.isSelected selected := by cases h <;> rfl

theorem KeptMark.label {m m' : JsonMark} (h : KeptMark selected m m') : m'.label = m.label := by
  cases h <;> rfl

theorem labels_keep {marks marks' : List JsonMark}
    (h : List.Forall₂ (KeptMark selected) marks marks') :
    marks'.filterMap JsonMark.label = marks.filterMap JsonMark.label := by
  induction h with
  | nil => rfl
  | cons hm _ ih => rw [List.filterMap_cons, List.filterMap_cons, hm.label, ih]

/-- A document stays one when values of it are replaced. -/
theorem JsonDocument.keep {marks marks' : List JsonMark} (h : JsonDocument marks)
    (hk : List.Forall₂ (KeptMark selected) marks marks') : JsonDocument marks' := by
  have hlength : (tokensFrom 0 marks').length = (tokensFrom 0 marks).length := by
    rw [← List.length_map (f := JsonStringToken.label), labels_tokensFrom, labels_keep hk,
      ← labels_tokensFrom 0, List.length_map]
  obtain ⟨value, ws, rfl, hd, hws⟩ := h.split
  refine ⟨?_, by rw [hlength]; exact h.limit⟩
  obtain ⟨value', rest, rfl, hvalue, hrest⟩ := forall₂_append_left hk
  exact ⟨value', ws, by rw [keptMark_chars hrest], hd.keep hvalue, hws⟩

theorem stretches_keep {marks marks' : List JsonMark}
    (h : List.Forall₂ (KeptMark selected) marks marks') (before : Str) :
    JsonMark.stretches selected before marks' = JsonMark.stretches selected before marks := by
  induction h generalizing before with
  | nil => rfl
  | @cons m m' _ _ hm _ ih =>
    rw [JsonMark.stretches, JsonMark.stretches, hm.isSelected]
    split
    · rw [ih]
    · rename_i hs
      cases hm with
      | same => exact ih _
      | value hp => simp [JsonMark.isSelected, hp] at hs

end Marks

/-! ## Segments -/

/-- The kind of the segment of a literal. -/
def literalKind (selected : List JsonPathSegment → Bool) (path : List JsonPathSegment)
    (isKey : Bool) : DocumentSegmentKind := if !isKey && selected path then .prose else .verbatim

/-- Segments lay marks out: each is a stretch without literals that is kept, or one literal. -/
inductive Covers (selected : List JsonPathSegment → Bool) :
    List DocumentSegment → List JsonMark → Prop where
  | nil : Covers selected [] []
  | gap {s : DocumentSegment} {segments : List DocumentSegment} {marks : List JsonMark} :
    s.kind = .verbatim → s.lineEnding = [] → Covers selected segments marks →
    Covers selected (s :: segments) (chars s.sourceText ++ marks)
  | literal {s : DocumentSegment} {segments : List DocumentSegment} {marks : List JsonMark}
    {path : List JsonPathSegment} {isKey : Bool} :
    s.kind = literalKind selected path isKey → s.lineEnding = [] → Covers selected segments marks →
    Covers selected (s :: segments) (.literal s.sourceText path isKey :: marks)

namespace Covers

variable {selected : List JsonPathSegment → Bool} {segments segments' : List DocumentSegment}
  {marks marks' : List JsonMark}

theorem append (h : Covers selected segments marks) (h' : Covers selected segments' marks') :
    Covers selected (segments ++ segments') (marks ++ marks') := by
  induction h with
  | nil => exact h'
  | gap hk he _ ih =>
    rw [List.append_assoc]
    exact .gap hk he ih
  | literal hk he _ ih => exact .literal hk he ih

theorem pushGap (h : Covers selected segments marks) (between : Str) :
    Covers selected (pushSegment segments .verbatim between) (marks ++ chars between) := by
  have := h.append (.gap (s := .fresh segments.length .verbatim between []) rfl rfl .nil)
  rwa [List.append_nil] at this

theorem pushLiteral (h : Covers selected segments marks) (raw : Str) (path : List JsonPathSegment)
    (isKey : Bool) :
    Covers selected (pushSegment segments (literalKind selected path isKey) raw)
      (marks ++ [.literal raw path isKey]) :=
  h.append (.literal (s := .fresh segments.length (literalKind selected path isKey) raw []) rfl rfl .nil)

end Covers

/-- The text before a token that is not in a segment yet. -/
theorem covers_pushBetween {selected : List JsonPathSegment → Bool} {text before : Str}
    {segments segments' : List DocumentSegment} {marks : List JsonMark} (rest : Str)
    (h : Covers selected segments marks) (htext : text = markedText marks ++ (before ++ rest))
    (hpush : pushBetween text (markedText marks).length
      ((markedText marks).length + before.length) segments = .ok segments') :
    Covers selected segments' (marks ++ chars before) := by
  unfold pushBetween at hpush
  split at hpush
  · have hslice : (sliceOf text (markedText marks).length
        ((markedText marks).length + before.length) : Run DocumentError Str) = .ok before := by
      rw [sliceOf_ok (Nat.le_add_right _ _) (by rw [htext]; simp), htext,
        ← List.append_assoc, ← List.length_append, List.take_left, List.drop_left]
    rw [hslice] at hpush
    cases hpush
    exact h.pushGap before
  · rename_i hlt
    cases hpush
    have : before = [] := List.length_eq_zero_iff.mp (by omega)
    rw [this, chars_nil, List.append_nil]
    exact h

theorem covers_pushTokens {includePaths excludePaths : Option (List Str)} {text : Str}
    {segments segments' final : List DocumentSegment} {pre marks : List JsonMark} {cursor : Nat}
    (before : Str)
    (h : Covers (jsonPathSelected · includePaths excludePaths) segments pre)
    (htext : text = markedText pre ++ (before ++ markedText marks))
    (hpush : (tokensFrom ((markedText pre).length + before.length) marks).foldlM
      (pushToken text includePaths excludePaths) (segments, (markedText pre).length) =
        .ok (segments', cursor))
    (hlast : pushBetween text cursor text.length segments' = .ok final) :
    Covers (jsonPathSelected · includePaths excludePaths) final (pre ++ (chars before ++ marks)) := by
  induction marks generalizing segments pre before with
  | nil =>
    cases hpush
    rw [List.append_nil]
    have hlength : text.length = (markedText pre).length + before.length := by simp [htext]
    rw [hlength] at hlast
    exact covers_pushBetween [] h htext hlast
  | cons m marks ih =>
    cases m with
    | char c =>
      have := ih (before ++ [c]) h (by rw [htext]; simp) (by
        rw [List.length_append, ← Nat.add_assoc]
        exact hpush)
      simpa using this
    | literal raw path isKey =>
      rw [markedText_cons, JsonMark.text_literal] at htext
      rw [tokensFrom, List.foldlM_cons] at hpush
      obtain ⟨⟨segments2, cursor2⟩, htoken, hpush⟩ := Except.bind_ok.mp hpush
      obtain ⟨segments1, hbetween, htoken⟩ := Except.bind_ok.mp htoken
      obtain ⟨source, hsource, htoken⟩ := Except.bind_ok.mp htoken
      dsimp only at hsource htoken
      split at htoken
      · cases htoken
      cases htoken
      have hraw : source = raw := by
        rw [sliceOf_ok (Nat.le_add_right _ _) (by rw [htext]; simp; omega), htext,
          ← List.append_assoc, ← List.length_append, ← List.append_assoc, ← List.length_append,
          List.take_left, List.drop_left] at hsource
        exact (Except.ok.inj hsource).symm
      subst hraw
      have hliteral := (covers_pushBetween _ h htext hbetween).pushLiteral source path isKey
      have hpre : markedText (pre ++ chars before ++ [.literal source path isKey]) =
          markedText pre ++ before ++ source := by simp
      have := ih [] hliteral (by rw [hpre, htext]; simp) (by
        rw [hpre, List.length_nil, Nat.add_zero, List.length_append, List.length_append]
        exact hpush)
      simpa using this

/-- The segments of an imported JSON document lay its marks out. -/
theorem covers_fromJsonText [JsonReader] {sourceName text : Str}
    {includePaths excludePaths : Option (List Str)} {job : DocumentJob}
    (h : fromJsonText sourceName text includePaths excludePaths = .ok job) :
    ∃ marks, JsonDocument marks ∧ markedText marks = text ∧
      Covers (jsonPathSelected · includePaths excludePaths) job.segments marks := by
  obtain ⟨tokens, htokens, h⟩ := Except.bind_ok.mp h
  obtain ⟨⟨segments, cursor⟩, hpush, h⟩ := Except.bind_ok.mp h
  obtain ⟨final, hlast, h⟩ := Except.bind_ok.mp h
  cases h
  obtain ⟨marks, hdocument, htext, rfl⟩ := parseJsonTokens_iff.mp htokens
  exact ⟨marks, hdocument, htext, covers_pushTokens [] .nil htext.symm hpush hlast⟩

/-! ## Output -/

section Output

variable [JsonReader] [JsonStrings] {selected : List JsonPathSegment → Bool}
  {segments : List DocumentSegment} {marks : List JsonMark} {job : DocumentJob}
  {calls : List (Nat × Str)}

omit [JsonReader] in
theorem output_verbatim {s : DocumentSegment} (h : s.kind = .verbatim) :
    (job.retold calls s).output = s.sourceText := by
  simp [DocumentSegment.output, h]

omit [JsonReader] [JsonStrings] in
theorem filter_chars (s : Str) : (chars s).filter (·.isSelected selected) = [] := by
  simp [chars]

/-- The output of translated segments lays out marks that the marks of the source may become. -/
theorem Covers.output (h : Covers selected segments marks) (hformat : job.format = .json)
    (hfaithful : ∀ c ∈ calls, Faithful c.2) (hfresh : ∀ s ∈ segments, s.translatedText = none)
    (hdone : ∀ s ∈ segments, (job.retold calls s).isPending = false) :
    ∃ marks', List.Forall₂ (KeptMark selected) marks marks' ∧
      markedText marks' = segments.flatMap (fun s =>
        (job.retold calls s).output ++ (job.retold calls s).lineEnding) ∧
      (marks.filter (·.isSelected selected)).map JsonMark.text =
        (segments.filter (·.kind == .prose)).map (·.sourceText) ∧
      (marks'.filter (·.isSelected selected)).map (JsonReader.parseString ·.text) =
        (segments.filter (·.kind == .prose)).map fun s => lastCall calls s.index := by
  induction h with
  | nil => exact ⟨[], .nil, rfl, rfl, rfl⟩
  | @gap s segments marks hk he h ih =>
    obtain ⟨marks', hkeep, htext, hsources, hvalues⟩ := ih
      (fun t ht => hfresh t (List.mem_cons_of_mem _ ht))
      (fun t ht => hdone t (List.mem_cons_of_mem _ ht))
    have hsame : List.Forall₂ (KeptMark selected) (chars s.sourceText) (chars s.sourceText) :=
      List.forall₂_same.mpr fun _ _ => .same
    refine ⟨chars s.sourceText ++ marks', List.rel_append hsame hkeep, ?_, ?_, ?_⟩
    · rw [markedText_append, markedText_chars, htext, List.flatMap_cons, DocumentJob.retold_lineEnding,
        he, List.append_nil, output_verbatim hk]
    · rw [List.filter_append, filter_chars, List.nil_append, hsources]
      simp [hk]
    · rw [List.filter_append, filter_chars, List.nil_append, hvalues]
      simp [hk]
  | @literal s segments marks path isKey hk he h ih =>
    obtain ⟨marks', hkeep, htext, hsources, hvalues⟩ := ih
      (fun t ht => hfresh t (List.mem_cons_of_mem _ ht))
      (fun t ht => hdone t (List.mem_cons_of_mem _ ht))
    cases hs : (!isKey && selected path) with
    | false =>
      have hk' : s.kind = .verbatim := by rw [hk, literalKind, hs]; rfl
      refine ⟨.literal s.sourceText path isKey :: marks', .cons .same hkeep, ?_, ?_, ?_⟩
      · rw [markedText_cons, JsonMark.text_literal, htext, List.flatMap_cons,
          DocumentJob.retold_lineEnding, he, List.append_nil, output_verbatim hk']
      · simp [hs, hk', hsources]
      · simp [hs, hk', hvalues]
    | true =>
      have hk' : s.kind = .prose := by rw [hk, literalKind, hs]; rfl
      obtain ⟨hkey, hpath⟩ := Bool.and_eq_true_iff.mp hs
      have hkey' : isKey = false := by simpa using hkey
      subst hkey'
      have hpending := hdone s List.mem_cons_self
      rw [DocumentJob.isPending_retold (hfresh s List.mem_cons_self), hk'] at hpending
      obtain ⟨x, hx⟩ : ∃ x, lastCall calls s.index = some x := by
        cases hx : lastCall calls s.index with
        | none => simp [hx] at hpending
        | some x => exact ⟨x, rfl⟩
      have hout : (job.retold calls s).output = encodeJsonString x := by
        simp [DocumentSegment.output, DocumentJob.retold, hk', hx, DocumentJob.encodeTranslation, hformat]
      have hfaith := hfaithful _ (mem_of_lastCall hx)
      refine ⟨.literal (encodeJsonString x) path false :: marks',
        .cons (.value hpath hfaith.isLiteral) hkeep, ?_, ?_, ?_⟩
      · rw [markedText_cons, JsonMark.text_literal, htext, List.flatMap_cons,
          DocumentJob.retold_lineEnding, he, List.append_nil, hout]
      · simp [hpath, hk', hsources]
      · simp [hpath, hk', hvalues, hx, hfaith.read]

end Output

/-! ## Reconstruction -/

/-- How the output of a translated job relates to its source, the tokens of both being known. -/
structure Localized [JsonReader] (selected : List JsonPathSegment → Bool) (job : DocumentJob)
    (calls : List (Nat × Str)) (out : Str) (tokens tokens' : List JsonStringToken) : Prop where
  labels : tokens'.map (·.label) = tokens.map (·.label)
  stretches : stretchesFrom selected out 0 tokens' = stretchesFrom selected job.sourceText 0 tokens
  sources : selectedLiterals selected job.sourceText tokens =
    (job.segments.filter (·.kind == .prose)).map (·.sourceText)
  values : (selectedLiterals selected out tokens').map JsonReader.parseString =
    (job.segments.filter (·.kind == .prose)).map fun s => lastCall calls s.index

theorem excluded_not_selected {includePaths excludePaths : Option (List Str)} {paths : List Str}
    (hpaths : excludePaths = some paths) {token : JsonStringToken}
    (h : jsonPointer token.path ∈ paths) :
    token.isSelected (jsonPathSelected · includePaths excludePaths) = false := by
  simp [JsonStringToken.isSelected, jsonPathSelected, hpaths, h]

theorem fromJsonText_of_run [JsonReader] {sourceName : Str} {contents : Bytes}
    {includePaths excludePaths : Option (List Str)} {job : DocumentJob}
    (h : DocumentJob.fromUtf8WithJsonPaths sourceName contents includePaths excludePaths = .ok job)
    (hformat : job.format = .json) :
    ∃ text, fromJsonText sourceName text includePaths excludePaths = .ok job := by
  obtain ⟨⟨format, text⟩, -, h⟩ := Except.bind_ok.mp h
  dsimp only at h
  split at h
  · exact ⟨text, h⟩
  split at h
  · rw [((post_fromCsvText sourceName text none).ok h).1] at hformat
    cases hformat
  · rename_i hjson hcsv
    have := (DocumentJob.fromText_spec sourceName format text).1
    rw [Except.ok.inj h, hformat] at this
    exact absurd this.symm hjson

/-- A JSON document is translated in place: the output has the same literals at the same paths and
the same text around the selected values, and each of these is read as its translation. An excluded
value is not selected. As long as a selected value has no translation there is no output. -/
theorem reconstruct_localized [JsonReader] [JsonStrings] [Packages] {sourceName : Str}
    {contents : Bytes} {includePaths excludePaths : Option (List Str)} {job job' : DocumentJob}
    {calls : List (Nat × Str)}
    (himport : DocumentJob.fromUtf8WithJsonPaths sourceName contents includePaths excludePaths = .ok job)
    (hformat : job.format = .json) (hfaithful : ∀ c ∈ calls, Faithful c.2)
    (happly : job.applyTranslations calls = .ok job') :
    ∃ tokens, parseJsonTokens job.sourceText = .ok tokens ∧
      (∀ paths, excludePaths = some paths → ∀ token ∈ tokens, jsonPointer token.path ∈ paths →
        token.isSelected (jsonPathSelected · includePaths excludePaths) = false) ∧
      ((∃ s ∈ job'.segments, s.isPending ∧
          job'.reconstruct = fail (.segmentIncomplete s.index)) ∨
        job'.pendingCount = 0 ∧ (job'.reconstruct = fail .outputTooLarge ∨
          ∃ out tokens', job'.reconstruct = .ok out ∧ parseJsonTokens out = .ok tokens' ∧
            Localized (jsonPathSelected · includePaths excludePaths) job calls out tokens tokens')) := by
  obtain ⟨text, hjson⟩ := fromJsonText_of_run himport hformat
  have hsegmented := ((post_fromJsonText sourceName text includePaths excludePaths).ok hjson).2
  obtain ⟨marks, hdocument, hmarks, hcovers⟩ := covers_fromJsonText hjson
  have htext : job.sourceText = markedText marks := hsegmented.text.trans hmarks.symm
  obtain ⟨hjob', -⟩ := DocumentJob.applyTranslations_eq hsegmented.indices happly
  have hformat' : job'.format = .json := by rw [hjob']; exact hformat
  have hpackage : ¬ job'.format.isPackage := by rw [hformat']; decide
  refine ⟨tokensFrom 0 marks, parseJsonTokens_iff.mpr ⟨marks, hdocument, htext.symm, rfl⟩,
    fun paths hpaths token _ => excluded_not_selected hpaths, ?_⟩
  by_cases hpending : ∃ s ∈ job'.segments, s.isPending
  · obtain ⟨s, hs, hp, hout⟩ := DocumentJob.outputOf_pending hpending
    refine .inl ⟨s, hs, hp, ?_⟩
    unfold DocumentJob.reconstruct
    rw [if_neg hpackage, hout]
    rfl
  · have hdone : job'.pendingCount = 0 := by
      refine List.length_eq_zero_iff.mpr (List.filter_eq_nil_iff.mpr fun s hs hp => hpending ⟨s, hs, hp⟩)
    refine .inr ⟨hdone, ?_⟩
    obtain ⟨marks', hkeep, hout, hsources, hvalues⟩ := hcovers.output hformat hfaithful
      hsegmented.fresh fun s hs => DocumentJob.pending_false hdone _ (by
        rw [hjob']
        exact List.mem_map_of_mem hs)
    have hout' : job'.output = markedText marks' := by
      rw [hout, hjob', DocumentJob.output, List.flatMap_map]
    have hparse := parseJsonTokens_iff.mpr ⟨marks', hdocument.keep hkeep, hout'.symm, rfl⟩
    rw [DocumentJob.reconstruct_eq hpackage hdone]
    split
    · exact .inl rfl
    · refine .inr ⟨job'.output, tokensFrom 0 marks', ?_, hparse, ?_⟩
      · rw [hformat', validateStructure, hparse]
        rfl
      · have hsource := selectedLiterals_tokensFrom (jsonPathSelected · includePaths excludePaths) [] htext
        have htarget := selectedLiterals_tokensFrom (jsonPathSelected · includePaths excludePaths) [] hout'
        have hbefore := stretches_tokensFrom (jsonPathSelected · includePaths excludePaths) [] [] htext
        have hafter := stretches_tokensFrom (jsonPathSelected · includePaths excludePaths) [] [] hout'
        refine ⟨?_, hafter.trans ((stretches_keep hkeep []).trans hbefore.symm),
          hsource.trans hsources, ?_⟩
        · rw [labels_tokensFrom, labels_tokensFrom, labels_keep hkeep]
        · rw [show (0 : Nat) = ([] : Str).length from rfl, htarget, List.map_map]
          exact hvalues

/-! ## A menu -/

/-- A JSON string without control characters and unicode escapes, decoded. -/
def plainString : Str → Option Str
  | ['"'] => some []
  | '\\' :: '"' :: cs => (plainString cs).map ('"' :: ·)
  | '\\' :: '\\' :: cs => (plainString cs).map ('\\' :: ·)
  | '\\' :: _ => none
  | '"' :: _ => none
  | [] => none
  | c :: cs => (plainString cs).map (c :: ·)

/-- `serde_json` on such strings. -/
@[reducible] def plainReader : JsonReader where
  parseString
    | '"' :: cs => plainString cs
    | _ => none
  isValue raw := raw ∈ ["true".toList, "false".toList, "null".toList]

@[reducible] def plainStrings : JsonStrings where
  toString s := some ('"' :: s.flatMap (fun c => if c = '"' ∨ c = '\\' then ['\\', c] else [c]) ++ ['"'])

/-- Two texts, of which the second is left out, and a key that looks like one of them. -/
def menu : Bytes := asciiBytes "\x7b\"Hi\": \"Hi\", \"code\": [\"Hi\"]\x7d"

def menuJob (translated : Option String) : DocumentJob where
  format := .json
  sourceName := "menu.json".toList
  segments := [
    ⟨0, .verbatim, "\x7b".toList, none, []⟩,
    ⟨1, .verbatim, "\"Hi\"".toList, none, []⟩,
    ⟨2, .verbatim, ": ".toList, none, []⟩,
    ⟨3, .prose, "\"Hi\"".toList, translated.map String.toList, []⟩,
    ⟨4, .verbatim, ", ".toList, none, []⟩,
    ⟨5, .verbatim, "\"code\"".toList, none, []⟩,
    ⟨6, .verbatim, ": [".toList, none, []⟩,
    ⟨7, .verbatim, "\"Hi\"".toList, none, []⟩,
    ⟨8, .verbatim, "]\x7d".toList, none, []⟩]
  package := none

section Menu

local instance menuReader : JsonReader := plainReader
local instance menuStrings : JsonStrings := plainStrings
local instance menuPackages : Packages := noPackages

def menuExcluded : List Str := ["/code/0".toList]

theorem menu_import : DocumentJob.fromUtf8WithJsonPaths "menu.json".toList menu none
    (some menuExcluded) = .ok (menuJob none) := by
  decide +kernel

theorem menu_faithful : Faithful "say \"hi\"".toList :=
  ⟨⟨"say \\\"hi\\\"\"".toList, by decide +kernel, by decide +kernel⟩, by decide +kernel⟩

theorem reconstruct_localized_menu :
    ∃ tokens, parseJsonTokens (menuJob none).sourceText = .ok tokens ∧
      (∀ paths, some menuExcluded = some paths → ∀ token ∈ tokens, jsonPointer token.path ∈ paths →
        token.isSelected (jsonPathSelected · none (some menuExcluded)) = false) ∧
      ((∃ s ∈ (menuJob (some "\"say \\\"hi\\\"\"")).segments, s.isPending ∧
          (menuJob (some "\"say \\\"hi\\\"\"")).reconstruct = fail (.segmentIncomplete s.index)) ∨
        (menuJob (some "\"say \\\"hi\\\"\"")).pendingCount = 0 ∧
          ((menuJob (some "\"say \\\"hi\\\"\"")).reconstruct = fail .outputTooLarge ∨
          ∃ out tokens', (menuJob (some "\"say \\\"hi\\\"\"")).reconstruct = .ok out ∧
            parseJsonTokens out = .ok tokens' ∧
            Localized (jsonPathSelected · none (some menuExcluded)) (menuJob none)
              [(3, "say \"hi\"".toList)] out tokens tokens')) :=
  have hfaithful : ∀ c ∈ [(3, "say \"hi\"".toList)], Faithful c.2 := by
    intro c hc
    rw [List.mem_singleton.mp hc]
    exact menu_faithful
  have happly : (menuJob none).applyTranslations [(3, "say \"hi\"".toList)] =
      .ok (menuJob (some "\"say \\\"hi\\\"\"")) := by
    decide +kernel
  reconstruct_localized menu_import rfl hfaithful happly

/-- A selected value without a translation: the reconstruction is refused. -/
theorem reconstruct_untranslated_menu :
    DocumentJob.fromUtf8WithJsonPaths "menu.json".toList menu none (some menuExcluded) =
        .ok (menuJob none) ∧
      (menuJob none).applyTranslations [] = .ok (menuJob none) ∧
      (menuJob none).reconstruct = fail (.segmentIncomplete 3) ∧
      (menuJob none).reconstruct ≠ fail .outputTooLarge ∧
      ∀ out, (menuJob none).reconstruct ≠ .ok out := by
  have hout : (menuJob none).reconstruct = fail (.segmentIncomplete 3) := by decide +kernel
  refine ⟨menu_import, rfl, hout, ?_, fun out => ?_⟩
  · rw [hout]
    exact fun h => nomatch h
  · rw [hout]
    exact fun h => nomatch h

end Menu

end LinguaMesh
