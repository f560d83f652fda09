import LinguaMesh.Document.Rescan
import LinguaMesh.Document.Translation

/-!
# HTML in translation

A translation is escaped before it is written into an HTML document, so the text
it stands in stays text, and the scanner finds the same tags, comments, scripts
and style sheets around it (`reconstruct_keeps_markup`).

What is sent to be translated is not unescaped, though. Giving each segment back
as it was sent rebuilds the document exactly where no text has a character that
the escaping changes (`reconstruct_identity_iff`).
-/

namespace LinguaMesh

open Run

/-! ## Escaping -/

/-- What a character is escaped to. -/
def escaped (c : Char) : Str :=
  if c = '&' then "&amp;".toList
  else if c = '<' then "&lt;".toList
  else if c = '>' then "&gt;".toList
  else [c]

theorem encodeHtmlText_eq (t : Str) : encodeHtmlText t = t.flatMap escaped := by
  unfold encodeHtmlText replaceChar
  rw [List.flatMap_assoc, List.flatMap_assoc]
  congr 1
  funext c
  unfold escaped
  by_cases h1 : c = '&'
  · subst h1
    decide
  by_cases h2 : c = '<'
  · subst h2
    decide
  by_cases h3 : c = '>'
  · subst h3
    decide
  · simp [h1, h2, h3]

theorem no_bracket_escaped (c : Char) : '<' ∉ escaped c := by
  unfold escaped
  split
  · decide
  split
  · decide
  split
  · decide
  · rename_i h _
    rw [List.mem_singleton]
    exact fun e => h e.symm

theorem no_bracket_encoded (t : Str) : '<' ∉ encodeHtmlText t := by
  rw [encodeHtmlText_eq, List.mem_flatMap]
  rintro ⟨c, -, hc⟩
  exact no_bracket_escaped c hc

theorem nonblank_encoded {t : Str} (h : t.any (!isWhitespace ·)) :
    (encodeHtmlText t).any (!isWhitespace ·) := by
  rw [List.any_eq_true] at h ⊢
  obtain ⟨c, hc, hblank⟩ := h
  obtain ⟨d, hd, hd'⟩ : ∃ d ∈ escaped c, (!isWhitespace d) = true := by
    unfold escaped
    split
    · exact ⟨'&', by decide, by decide⟩
    split
    · exact ⟨'&', by decide, by decide⟩
    split
    · exact ⟨'&', by decide, by decide⟩
    · exact ⟨c, List.mem_singleton_self c, hblank⟩
  exact ⟨d, by rw [encodeHtmlText_eq]; exact List.mem_flatMap.mpr ⟨c, hc, hd⟩, hd'⟩

theorem length_escaped (c : Char) : 1 ≤ (escaped c).length := by
  unfold escaped
  repeat' split
  all_goals simp

theorem escaped_eq_self {c : Char} : escaped c = [c] ↔ c ≠ '&' ∧ c ≠ '<' ∧ c ≠ '>' := by
  unfold escaped
  by_cases h1 : c = '&'
  · subst h1
    decide
  by_cases h2 : c = '<'
  · subst h2
    decide
  by_cases h3 : c = '>'
  · subst h3
    decide
  · simp [h1, h2, h3]

theorem flatMap_self (t : Str) : t.flatMap (fun c => [c]) = t := by simp

theorem encodeHtmlText_eq_self {t : Str} :
    encodeHtmlText t = t ↔ '&' ∉ t ∧ '<' ∉ t ∧ '>' ∉ t := by
  have h := flatMap_eq_iff (l := t) (f := escaped) (g := fun c => [c]) fun c _ => length_escaped c
  rw [flatMap_self, ← encodeHtmlText_eq] at h
  rw [h]
  simp only [escaped_eq_self]
  constructor
  · exact fun hc => ⟨fun hm => (hc _ hm).1 rfl, fun hm => (hc _ hm).2.1 rfl, fun hm => (hc _ hm).2.2 rfl⟩
  · rintro ⟨h1, h2, h3⟩ c hc
    exact ⟨fun e => h1 (e ▸ hc), fun e => h2 (e ▸ hc), fun e => h3 (e ▸ hc)⟩

theorem length_encoded (t : Str) : t.length ≤ (encodeHtmlText t).length := by
  have h := length_flatMap_le (l := t) (f := escaped) (g := fun c => [c]) fun c _ => length_escaped c
  rwa [flatMap_self, ← encodeHtmlText_eq] at h

/-! ## HTML jobs -/

/-- The tokens of a text, without the text to translate. -/
def skeleton (text : Str) (tokens : List HtmlToken) : List (Option Str) :=
  tokens.map fun t => if t.translatable then none else some (t.text text)

theorem skeleton_eq (text : Str) (tokens : List HtmlToken) : skeleton text tokens =
    (pieces text tokens).map fun p => if p.2 then none else some p.1 := by
  unfold skeleton pieces
  rw [List.map_map]
  rfl

/-- A piece of the source and of the output that a segment stands for. -/
def sourcePiece (s : DocumentSegment) : Str × Bool := (s.sourceText, s.kind == .prose)

def outputPiece (s : DocumentSegment) : Str × Bool := (s.output, s.kind == .prose)

theorem sourcePiece_htmlSegment (text : Str) (index : Nat) (token : HtmlToken) :
    sourcePiece (htmlSegment text index token) = (token.text text, token.translatable) := by
  unfold sourcePiece htmlSegment DocumentSegment.fresh
  cases token.translatable <;> rfl

/-- A job made of an accepted HTML document. -/
structure HtmlJob [JsonReader] (contents : Bytes) (job : DocumentJob) (tokens : List HtmlToken) :
    Prop where
  format : job.format = .html
  accepted : Accepted contents .html job.sourceText
  segmented : Segmented job.sourceText job.segments
  parsed : parseHtmlTokens job.sourceText = .ok tokens
  cut : job.segments = tokens.mapIdx (htmlSegment job.sourceText)

theorem htmlJob_of_run [JsonReader] [Packages] {options : ImportOptions} {sourceName : Str}
    {contents : Bytes} {job : DocumentJob} (h : options.run sourceName contents = .ok job)
    (hformat : job.format = .html) : ∃ tokens, HtmlJob contents job tokens := by
  obtain ⟨text, haccepted, hsegmented, hhtml⟩ := imported_of_run h (by rw [hformat]; decide)
  obtain ⟨name, himport⟩ := hhtml hformat
  obtain ⟨tokens, htokens, hjob⟩ := Except.bind_ok.mp himport
  have htext : job.sourceText = text := hsegmented.text
  refine ⟨tokens, hformat, ?_, htext ▸ hsegmented, htext ▸ htokens, ?_⟩
  · rw [htext, ← hformat]
    exact haccepted
  · rw [htext, ← Except.ok.inj hjob]

namespace HtmlJob

variable [JsonReader] {contents : Bytes} {job job' : DocumentJob} {tokens : List HtmlToken}
  {s s' : DocumentSegment}

theorem pieces_eq (h : HtmlJob contents job tokens) :
    job.segments.map sourcePiece = pieces job.sourceText tokens := by
  rw [h.cut, pieces]
  exact List.ext_getElem (by simp) fun i h1 h2 => by simp [sourcePiece_htmlSegment]

theorem lineEnding_nil (h : HtmlJob contents job tokens) (hs : s ∈ job.segments) :
    s.lineEnding = [] := by
  rw [h.cut] at hs
  obtain ⟨i, hi, rfl⟩ := List.mem_mapIdx.mp hs
  rfl

theorem scans (h : HtmlJob contents job tokens) :
    HtmlScans ⟨[], 0⟩ job.sourceText (job.segments.map sourcePiece) := by
  rw [h.pieces_eq]
  exact (parseHtmlTokens_iff.mp ⟨tokens, h.parsed, rfl⟩).2

theorem no_bracket (h : HtmlJob contents job tokens) (hs : s ∈ job.segments) (hk : s.kind = .prose) :
    '<' ∉ s.sourceText :=
  translatable_piece h.scans (sourcePiece s) (List.mem_map_of_mem hs) (by simp [sourcePiece, hk])

end HtmlJob

/-- A segment of a job in which nothing is pending: structure as it was, or a translation. -/
structure Rewritten (calls : List (Nat × Str)) (s s' : DocumentSegment) : Prop where
  kind : s'.kind = s.kind
  lineEnding : s'.lineEnding = []
  output : (s.kind = .verbatim ∧ s'.output = s.sourceText) ∨
    (s.kind = .prose ∧ ∃ x, (s.index, x) ∈ calls ∧ s'.output = encodeHtmlText x)

namespace HtmlJob

variable [JsonReader] [JsonStrings] {contents : Bytes} {job job' : DocumentJob}
  {tokens : List HtmlToken} {calls : List (Nat × Str)}

theorem rewritten_of_changed {s s' : DocumentSegment} (h : HtmlJob contents job tokens)
    (hs : s ∈ job.segments) (hc : Changed job calls s s') (hp : s'.isPending = false) :
    Rewritten calls s s' := by
  refine ⟨hc.kind, hc.lineEnding.trans (h.lineEnding_nil hs), ?_⟩
  cases hc with
  | same =>
    have hfresh := h.segmented.fresh s hs
    cases hk : s.kind with
    | verbatim => exact .inl ⟨rfl, by simp [DocumentSegment.output, hk]⟩
    | prose => simp [DocumentSegment.isPending, hk, hfresh] at hp
  | @translated x hk hx =>
    refine .inr ⟨hk, x, hx, ?_⟩
    simp [DocumentSegment.output, DocumentJob.encodeTranslation, hk, h.format]

theorem rewritten (h : HtmlJob contents job tokens) (happly : job.applyTranslations calls = .ok job')
    (hdone : job'.pendingCount = 0) :
    List.Forall₂ (fun s s' => s ∈ job.segments ∧ Rewritten calls s s') job.segments job'.segments := by
  have ht := DocumentJob.translated_applyAll h.segmented.indices happly
  refine (forall₂_mem ht.segments).imp fun s s' hr => ?_
  obtain ⟨hs, hs', hc⟩ := hr
  exact ⟨hs, h.rewritten_of_changed hs hc (DocumentJob.pending_false hdone s' hs')⟩

theorem output_eq (h : HtmlJob contents job tokens) (happly : job.applyTranslations calls = .ok job')
    (hdone : job'.pendingCount = 0) :
    job'.output = (job'.segments.map outputPiece).flatMap Prod.fst := by
  rw [List.flatMap_map]
  refine List.flatMap_congr fun s' hs' => ?_
  obtain ⟨s, -, -, hr⟩ := exists_of_mem_results (h.rewritten happly hdone) hs'
  rw [hr.lineEnding, List.append_nil]
  rfl

/-- The pieces of the output may stand for the pieces of the source. -/
theorem kept (h : HtmlJob contents job tokens)
    (hcalls : ∀ c ∈ calls, c.2.any (!isWhitespace ·)) (happly : job.applyTranslations calls = .ok job')
    (hdone : job'.pendingCount = 0) :
    List.Forall₂ Kept (job.segments.map sourcePiece) (job'.segments.map outputPiece) := by
  rw [List.forall₂_map_left_iff, List.forall₂_map_right_iff]
  refine (h.rewritten happly hdone).imp fun s s' hr => ?_
  obtain ⟨-, hkind, -, hout⟩ := hr
  unfold sourcePiece outputPiece
  rcases hout with ⟨hk, ho⟩ | ⟨hk, x, hx, ho⟩
  · rw [hkind, hk, ho]
    exact .markup _
  · rw [hkind, hk, ho]
    exact .text (no_bracket_encoded x) (nonblank_encoded (hcalls _ hx))

end HtmlJob

/-- The rebuilt document scans, and its pieces are the outputs of the segments. -/
theorem HtmlJob.rescanned [JsonReader] [JsonStrings] {contents : Bytes} {job job' : DocumentJob}
    {tokens : List HtmlToken} {calls : List (Nat × Str)} (h : HtmlJob contents job tokens)
    (hcalls : ∀ c ∈ calls, c.2.any (!isWhitespace ·)) (happly : job.applyTranslations calls = .ok job')
    (hdone : job'.pendingCount = 0) :
    ∃ tokens', parseHtmlTokens job'.output = .ok tokens' ∧
      pieces job'.output tokens' = job'.segments.map outputPiece := by
  have hkept := h.kept hcalls happly hdone
  have hscan := rescan h.scans hkept
  rw [← h.output_eq happly hdone] at hscan
  refine parseHtmlTokens_iff.mpr ⟨fun hnil => ?_, hscan⟩
  have hsource : job.segments.map sourcePiece = [] := by
    rw [hscan.nil_iff.mpr hnil] at hkept
    exact List.forall₂_nil_right_iff.mp hkept
  exact (parseHtmlTokens_iff.mp ⟨tokens, h.parsed, rfl⟩).1 (h.scans.nil_iff.mp hsource)

/-- The reconstruction of an HTML document whose output scans. -/
theorem reconstruct_html [JsonReader] [Packages] {job : DocumentJob} {tokens : List HtmlToken}
    (hformat : job.format = .html) (hdone : job.pendingCount = 0)
    (hparse : parseHtmlTokens job.output = .ok tokens) :
    job.reconstruct =
      if maxDocumentBytes < utf8Len job.output then fail .outputTooLarge else .ok job.output := by
  have hvalid (delimiter : Option Char) :
      validateStructure .html job.output delimiter = .ok () := by
    unfold validateStructure
    rw [hparse]
    rfl
  rw [DocumentJob.reconstruct_eq (by rw [hformat]; decide) hdone, hformat, hvalid]
  rfl

theorem skeleton_of_kept {ps ps' : List (Str × Bool)} (h : List.Forall₂ Kept ps ps') :
    (ps'.map fun p => if p.2 then none else some p.1) =
      ps.map fun p => if p.2 then none else some p.1 :=
  map_eq_of_forall₂ (fun _ _ hk => by cases hk <;> rfl) h

/-- Non-blank translations of an accepted HTML document, whatever is in them, leave its tags,
comments, scripts and style sheets as they are: the rebuilt document has the skeleton of the
source. -/
theorem reconstruct_keeps_markup [JsonReader] [JsonStrings] [Packages] {options : ImportOptions}
    {sourceName : Str} {contents : Bytes} {job job' : DocumentJob} {calls : List (Nat × Str)}
    (himport : options.run sourceName contents = .ok job) (hformat : job.format = .html)
    (hcalls : ∀ c ∈ calls, c.2.any (!isWhitespace ·))
    (happly : job.applyTranslations calls = .ok job') (hdone : job'.pendingCount = 0) :
    job'.reconstruct = fail .outputTooLarge ∨
    ∃ out tokens tokens', job'.reconstruct = .ok out ∧
      parseHtmlTokens job.sourceText = .ok tokens ∧ parseHtmlTokens out = .ok tokens' ∧
      skeleton out tokens' = skeleton job.sourceText tokens := by
  obtain ⟨tokens, h⟩ := htmlJob_of_run himport hformat
  obtain ⟨tokens', hparse, hpieces⟩ := h.rescanned hcalls happly hdone
  have hformat' : job'.format = .html :=
    (DocumentJob.translated_applyAll h.segmented.indices happly).format.trans hformat
  rw [reconstruct_html hformat' hdone hparse]
  split
  · exact .inl rfl
  · refine .inr ⟨job'.output, tokens, tokens', rfl, h.parsed, hparse, ?_⟩
    rw [skeleton_eq, skeleton_eq, hpieces, ← h.pieces_eq]
    exact skeleton_of_kept (h.kept hcalls happly hdone)

/-- The job of a file with one text to translate, the second token. -/
def fileJob (texts : List (DocumentSegmentKind × String)) (translated : Option String) :
    DocumentJob where
  format := .html
  sourceName := "a.html".toList
  segments := texts.mapIdx fun index text =>
    ⟨index, text.1, text.2.toList, if index = 1 then translated.map String.toList else none, []⟩
  package := none

def greeting : Bytes := asciiBytes "<p>Hi</p><!--<b>-->"

def greetingJob : Option String → DocumentJob :=
  fileJob [(.verbatim, "<p>"), (.prose, "Hi"), (.verbatim, "</p>"), (.verbatim, "<!--<b>-->")]

section Greeting

local instance greetingReader : JsonReader := noReader
local instance greetingPackages : Packages := noPackages
local instance greetingStrings : JsonStrings := noStrings

theorem greeting_import :
    ImportOptions.plain.run "a.html".toList greeting = .ok (greetingJob none) := by
  decide +kernel

/-- A translation that would close the element and open a comment. -/
theorem reconstruct_keeps_markup_greeting :
    (greetingJob (some "&lt;/p&gt;&lt;!-- &amp;")).reconstruct = fail .outputTooLarge ∨
    ∃ out tokens tokens',
      (greetingJob (some "&lt;/p&gt;&lt;!-- &amp;")).reconstruct = .ok out ∧
      parseHtmlTokens (greetingJob none).sourceText = .ok tokens ∧
      parseHtmlTokens out = .ok tokens' ∧
      skeleton out tokens' = skeleton (greetingJob none).sourceText tokens :=
  have happly : (greetingJob none).applyTranslations [(1, "</p><!-- &".toList)] =
      .ok (greetingJob (some "&lt;/p&gt;&lt;!-- &amp;")) := by
    decide +kernel
  reconstruct_keeps_markup greeting_import rfl (by decide +kernel) happly (by decide +kernel)

end Greeting

/-! ## The identity -/

/-- What the source of a segment becomes when it is given back as it was sent. -/
def returned (s : DocumentSegment) : Str :=
  match s.kind with
  | .verbatim => s.sourceText
  | .prose => encodeHtmlText s.sourceText

theorem returned_eq {s : DocumentSegment} (h : s.kind = .prose → '<' ∉ s.sourceText) :
    returned s = s.sourceText ↔ (s.kind = .prose → '&' ∉ s.sourceText ∧ '>' ∉ s.sourceText) := by
  unfold returned
  cases hk : s.kind with
  | verbatim => simp
  | prose =>
    have := h hk
    simp [encodeHtmlText_eq_self, this]

theorem length_returned (s : DocumentSegment) : s.sourceText.length ≤ (returned s).length := by
  unfold returned
  split
  · exact Nat.le_refl _
  · exact length_encoded _

/-- The text of a segment is sent as it is. -/
theorem HtmlJob.translationSourceText_eq [JsonReader] {contents : Bytes} {job : DocumentJob}
    {tokens : List HtmlToken} (h : HtmlJob contents job tokens) {s : DocumentSegment}
    (hs : s ∈ job.segments) : job.translationSourceText s.index = .ok s.sourceText := by
  unfold DocumentJob.translationSourceText
  rw [getElem_of_mem h.segmented.indices hs, h.format]
  dsimp only
  split <;> rfl

/-- The output of a job whose segments are given back as they were sent. -/
theorem HtmlJob.output_returned [JsonReader] [JsonStrings] {contents : Bytes} {job job' : DocumentJob}
    {tokens : List HtmlToken} {calls : List (Nat × Str)} (h : HtmlJob contents job tokens)
    (hcalls : ∀ c ∈ calls, job.translationSourceText c.1 = .ok c.2)
    (happly : job.applyTranslations calls = .ok job') (hdone : job'.pendingCount = 0) :
    job'.output = job.segments.flatMap returned := by
  have hmap : job'.segments.map DocumentSegment.output = job.segments.map returned := by
    refine map_eq_of_forall₂ (fun s s' hr => ?_) (h.rewritten happly hdone)
    obtain ⟨hs, -, -, hout⟩ := hr
    unfold returned
    rcases hout with ⟨hk, ho⟩ | ⟨hk, x, hx, ho⟩
    · rw [hk, ho]
    · have hx' : x = s.sourceText :=
        Except.ok.inj ((hcalls _ hx).symm.trans (h.translationSourceText_eq hs))
      rw [hk, ho, hx']
  rw [h.output_eq happly hdone, List.flatMap_map, List.flatMap_def, List.flatMap_def]
  exact congrArg List.flatten hmap

theorem HtmlJob.sourceText_eq [JsonReader] {contents : Bytes} {job : DocumentJob}
    {tokens : List HtmlToken} (h : HtmlJob contents job tokens) :
    job.sourceText = job.segments.flatMap DocumentSegment.sourceText :=
  List.flatMap_congr fun s hs => by rw [h.lineEnding_nil hs, List.append_nil]

/-- Giving every segment back as it was sent rebuilds the source exactly where no text to translate
has an ampersand or a `>`. -/
theorem reconstruct_identity_iff [JsonReader] [JsonStrings] [Packages] {options : ImportOptions}
    {sourceName : Str} {contents : Bytes} {job job' : DocumentJob} {calls : List (Nat × Str)}
    (himport : options.run sourceName contents = .ok job) (hformat : job.format = .html)
    (hcalls : ∀ c ∈ calls, job.translationSourceText c.1 = .ok c.2)
    (happly : job.applyTranslations calls = .ok job') (hdone : job'.pendingCount = 0) :
    job'.reconstruct = .ok job.sourceText ↔
      ∀ s ∈ job.segments, s.kind = .prose → '&' ∉ s.sourceText ∧ '>' ∉ s.sourceText := by
  obtain ⟨tokens, h⟩ := htmlJob_of_run himport hformat
  have hformat' : job'.format = .html :=
    (DocumentJob.translated_applyAll h.segmented.indices happly).format.trans hformat
  have hout : job'.output = job.sourceText ↔
      ∀ s ∈ job.segments, s.kind = .prose → '&' ∉ s.sourceText ∧ '>' ∉ s.sourceText := by
    rw [h.output_returned hcalls happly hdone, h.sourceText_eq,
      flatMap_eq_iff fun s _ => length_returned s]
    exact forall₂_congr fun s hs => returned_eq (h.no_bracket hs)
  rw [← hout]
  refine ⟨DocumentJob.output_of_reconstruct (by rw [hformat']; decide) hdone, fun heq => ?_⟩
  have hparse : parseHtmlTokens job'.output = .ok tokens := heq ▸ h.parsed
  rw [reconstruct_html hformat' hdone hparse, heq,
    if_neg (Nat.not_lt.mpr h.accepted.utf8Len_le)]

section Entity

local instance entityReader : JsonReader := noReader
local instance entityPackages : Packages := noPackages
local instance entityStrings : JsonStrings := noStrings

theorem reconstruct_identity_greeting :
    (greetingJob (some "Hi")).reconstruct = .ok (greetingJob none).sourceText ↔
      ∀ s ∈ (greetingJob none).segments, s.kind = .prose →
        '&' ∉ s.sourceText ∧ '>' ∉ s.sourceText :=
  have hsent : ∀ c ∈ [(1, "Hi".toList)], (greetingJob none).translationSourceText c.1 = .ok c.2 := by
    decide +kernel
  have happly : (greetingJob none).applyTranslations [(1, "Hi".toList)] =
      .ok (greetingJob (some "Hi")) := by
    decide +kernel
  reconstruct_identity_iff greeting_import rfl hsent happly (by decide +kernel)

/-- An entity in the text. -/
def entity : Bytes := asciiBytes "<p>a &amp; b</p>"

def entityJob : Option String → DocumentJob :=
  fileJob [(.verbatim, "<p>"), (.prose, "a &amp; b"), (.verbatim, "</p>")]

/-- The entity is sent as it is in the source, and escaped once more when it comes back. -/
theorem reconstruct_entity_differs :
    ImportOptions.plain.run "a.html".toList entity = .ok (entityJob none) ∧
      (entityJob none).translationSourceText 1 = .ok "a &amp; b".toList ∧
      (entityJob none).applyTranslations [(1, "a &amp; b".toList)] =
        .ok (entityJob (some "a &amp;amp; b")) ∧
      (entityJob (some "a &amp;amp; b")).pendingCount = 0 ∧
      (entityJob (some "a &amp;amp; b")).reconstruct = .ok "<p>a &amp;amp; b</p>".toList ∧
      (entityJob (some "a &amp;amp; b")).reconstruct ≠ .ok (entityJob none).sourceText := by
  decide +kernel

end Entity

end LinguaMesh
