import LinguaMesh.Document.CsvLocalize

/-!
# The identity translation

A job echoes (`Echoes`) if each prose segment has a text for the model and the
form in which that text is stored is the source of the segment. Giving every
segment of such a job its own text back makes the output the source text. The
line formats echo as they store a translation as it is; a CSV table echoes as
its fields are the two forms that the parser leaves (`IsField`), each of which
is encoded as it was read.
-/

namespace LinguaMesh

open Run

/-! ## Fields -/

/-- A field that is read is written as it was. -/
theorem encode_decode {d : Char} {raw x : Str} (h : IsField d raw)
    (hx : decodeCsvField raw d = .ok x) : encodeCsvField raw x d = raw := by
  cases h with
  | plain hplain =>
    rw [decode_plain hplain] at hx
    cases hx
    have absent {c : Char} (hc : isCsvMark d c = true) : c ∉ raw := by
      intro hmem
      rw [hplain c hmem] at hc
      cases hc
    have hquote : '"' ∉ raw := absent (by simp [isCsvMark])
    have hhead : raw.head? ≠ some '"' := fun hh => hquote (List.mem_of_mem_head? hh)
    unfold encodeCsvField
    rw [if_neg]
    simp only [not_or]
    refine ⟨hhead, ?_, hquote, ?_, ?_⟩
    · exact absent (by simp [isCsvMark])
    · exact absent (by simp [isCsvMark])
    · exact absent (by simp [isCsvMark])
  | quoted y =>
    rw [decode_quoted] at hx
    cases hx
    unfold encodeCsvField
    rw [if_pos (.inl rfl)]
    rfl

theorem decode_field {d : Char} {raw : Str} (h : IsField d raw) :
    ∃ x, decodeCsvField raw d = .ok x := by
  cases h with
  | plain hplain => exact ⟨raw, decode_plain hplain⟩
  | quoted y => exact ⟨y, decode_quoted d y⟩

/-! ## The prose of a table -/

section Prose

variable {selected : List Nat} {d : Char} {s : DocumentSegment}

theorem sourceText_of_rowSegments {ending : Str} {column index : Nat} {fields : List Str}
    (h : s ∈ rowSegments selected d ending column index fields) (hprose : s.kind = .prose) :
    s.sourceText ∈ fields := by
  fun_induction rowSegments selected d ending column index fields with
  | case1 => cases h
  | case2 column index raw =>
    rw [List.mem_singleton] at h
    subst h
    exact List.mem_singleton_self raw
  | case3 column index raw next fields ih =>
    rcases List.mem_cons.mp h with rfl | h
    · exact List.mem_cons_self
    rcases List.mem_cons.mp h with rfl | h
    · -- the delimiter is never prose
      cases hprose
    · exact List.mem_cons_of_mem raw (ih h)

theorem sourceText_of_tableSegments {index : Nat} {table : List CsvRecord}
    (h : s ∈ tableSegments selected d index table) (hprose : s.kind = .prose) :
    ∃ r ∈ table, s.sourceText ∈ r.fields := by
  induction table generalizing index with
  | nil => cases h
  | cons r table ih =>
    rcases List.mem_append.mp h with h | h
    · exact ⟨r, List.mem_cons_self, sourceText_of_rowSegments h hprose⟩
    · obtain ⟨t, ht, hmem⟩ := ih h
      exact ⟨t, List.mem_cons_of_mem r ht, hmem⟩

theorem IsTable.record {table : List CsvRecord} (h : IsTable d table) : ∀ r ∈ table, IsRecord d r := by
  induction h with
  | nil => exact fun r hr => absurd hr List.not_mem_nil
  | last hr _ =>
    intro r hmem
    rw [List.mem_singleton.mp hmem]
    exact hr
  | cons hr _ _ ih =>
    intro r hmem
    rcases List.mem_cons.mp hmem with rfl | hmem
    · exact hr
    · exact ih r hmem

end Prose

/-! ## Jobs that echo -/

namespace DocumentJob

/-- Every prose segment has a text for the model, and is stored as its source when that text is its
translation. -/
def Echoes [JsonReader] [JsonStrings] (job : DocumentJob) : Prop :=
  ∀ s ∈ job.segments, s.kind = .prose → ∃ x, job.translationSourceText s.index = .ok x ∧
    job.encodeTranslation s.sourceText x = s.sourceText

/-- The calls give each segment the text that is sent for it. -/
def IsIdentity [JsonReader] (job : DocumentJob) (calls : List (Nat × Str)) : Prop :=
  ∀ call ∈ calls, job.translationSourceText call.1 = .ok call.2

section Apply

variable [JsonStrings] {job job' : DocumentJob} {calls : List (Nat × Str)}

/-- Translations of prose segments are applied. -/
theorem applyTranslations_of_prose
    (hindex : job.segments.map (·.index) = List.range job.segments.length)
    (h : ∀ call ∈ calls, ∃ s, job.segments[call.1]? = some s ∧ s.kind = .prose) :
    ∃ job', job.applyTranslations calls = .ok job' := by
  induction calls using List.reverseRecOn with
  | nil => exact ⟨job, rfl⟩
  | append_singleton calls call ih =>
    obtain ⟨job1, h1⟩ := ih fun c hc => h c (List.mem_append_left _ hc)
    obtain ⟨rfl, -⟩ := applyTranslations_eq hindex h1
    obtain ⟨s, hs, hprose⟩ := h call (List.mem_append_right _ (List.mem_singleton_self call))
    unfold applyTranslations at h1 ⊢
    rw [List.foldlM_append, h1, Except.ok_bind, List.foldlM_cons]
    unfold applyTranslation
    rw [List.getElem?_map, hs, Option.map_some]
    dsimp only
    rw [retold_kind, if_pos hprose]
    exact ⟨_, rfl⟩

end Apply

variable [JsonReader] [JsonStrings] {job job' : DocumentJob} {calls : List (Nat × Str)}

/-- A job that echoes has an identity translation of all its prose. -/
theorem Echoes.identity (hechoes : job.Echoes)
    (hindex : job.segments.map (·.index) = List.range job.segments.length)
    (hfresh : ∀ s ∈ job.segments, s.translatedText = none) :
    ∃ calls job', job.IsIdentity calls ∧ job.applyTranslations calls = .ok job' ∧
      job'.pendingCount = 0 := by
  let text (s : DocumentSegment) : Str := (job.translationSourceText s.index).toOption.getD []
  let prose := job.segments.filter fun s => s.kind == .prose
  have mem {s : DocumentSegment} : s ∈ prose ↔ s ∈ job.segments ∧ s.kind = .prose := by
    rw [List.mem_filter, beq_iff_eq]
  let calls := prose.map fun s => (s.index, text s)
  obtain ⟨job', happly⟩ : ∃ job', job.applyTranslations calls = .ok job' := by
    refine applyTranslations_of_prose hindex fun call hcall => ?_
    obtain ⟨s, hs, rfl⟩ := List.mem_map.mp hcall
    exact ⟨s, getElem_of_mem hindex (mem.mp hs).1, (mem.mp hs).2⟩
  refine ⟨calls, job', fun call hcall => ?_, happly, ?_⟩
  · obtain ⟨s, hs, rfl⟩ := List.mem_map.mp hcall
    obtain ⟨x, hx, -⟩ := hechoes s (mem.mp hs).1 (mem.mp hs).2
    have htext : text s = x := by
      dsimp only [text]
      rw [hx]
      rfl
    exact hx.trans (congrArg Except.ok htext.symm)
  · obtain ⟨rfl, -⟩ := applyTranslations_eq hindex happly
    refine List.length_eq_zero_iff.mpr (List.filter_eq_nil_iff.mpr fun s' hs' hp => ?_)
    obtain ⟨s, hs, rfl⟩ := List.mem_map.mp hs'
    rw [isPending_retold (hfresh s hs), Bool.and_eq_true, beq_iff_eq] at hp
    -- a prose segment has a call of its own
    have hnone : lastCall calls s.index = none := Option.isNone_iff_eq_none.mp hp.2
    unfold lastCall at hnone
    rw [Option.map_eq_none_iff, List.find?_eq_none] at hnone
    refine hnone (s.index, text s) (List.mem_reverse.mpr ?_) (beq_self_eq_true _)
    exact List.mem_map_of_mem (mem.mpr ⟨hs, hp.1⟩)

/-- The output of an identity translation is the source text. -/
theorem Echoes.output (hechoes : job.Echoes)
    (hindex : job.segments.map (·.index) = List.range job.segments.length)
    (hfresh : ∀ s ∈ job.segments, s.translatedText = none) (hidentity : job.IsIdentity calls)
    (happly : job.applyTranslations calls = .ok job') (hdone : job'.pendingCount = 0) :
    job'.output = job.sourceText := by
  have hpending := pending_false hdone
  obtain ⟨rfl, -⟩ := applyTranslations_eq hindex happly
  have same {s : DocumentSegment} (hs : s ∈ job.segments) :
      (job.retold calls s).output = s.sourceText := by
    have hp := hpending _ (List.mem_map_of_mem hs)
    rw [isPending_retold (hfresh s hs)] at hp
    unfold DocumentSegment.output
    rw [retold_kind]
    cases hk : s.kind with
    | verbatim => rfl
    | prose =>
      cases hcall : lastCall calls s.index with
      | none => simp [hk, hcall] at hp
      | some y =>
        obtain ⟨x, hx, hencode⟩ := hechoes s hs hk
        have hy := hidentity _ (mem_of_lastCall hcall)
        cases hx.symm.trans hy
        unfold retold
        rw [hcall]
        exact hencode
  unfold DocumentJob.output DocumentJob.sourceText
  rw [List.flatMap_map]
  refine List.flatMap_congr fun s hs => ?_
  rw [same hs, retold_lineEnding]

end DocumentJob

/-! ## The line and table formats -/

/-- The formats whose text is cut into lines or into the fields of a table. -/
def lineAndTableFormats : List DocumentFormat := [.txt, .markdown, .srt, .webVtt, .csv]

section Formats

variable [JsonReader] [JsonStrings] [Packages] {options : ImportOptions} {sourceName : Str}
  {contents : Bytes} {job : DocumentJob}

omit [Packages] in
theorem echoes_lines (hformat : job.format ∈ [DocumentFormat.txt, .markdown, .srt, .webVtt])
    (hindex : job.segments.map (·.index) = List.range job.segments.length) : job.Echoes := by
  intro s hs hprose
  have hget := getElem_of_mem hindex hs
  refine ⟨s.sourceText, ?_, ?_⟩
  · unfold DocumentJob.translationSourceText
    rw [hget]
    dsimp only
    rw [if_neg (not_not.mpr hprose)]
    split
    · rename_i h
      rw [h] at hformat
      exact absurd hformat (by decide)
    · rename_i h
      rw [h] at hformat
      exact absurd hformat (by decide)
    · rfl
  · unfold DocumentJob.encodeTranslation
    split
    · rename_i h
      rw [h] at hformat
      exact absurd hformat (by decide)
    · rename_i h
      rw [h] at hformat
      exact absurd hformat (by decide)
    · rename_i h
      rw [h] at hformat
      exact absurd hformat (by decide)
    · rfl

theorem echoes_table (h : options.run sourceName contents = .ok job) (hformat : job.format = .csv) :
    job.Echoes := by
  obtain ⟨text, hcsv⟩ := fromCsvText_of_run h hformat
  have hsegmented := ((post_fromCsvText sourceName text options.columns).ok hcsv).2
  have htext : job.sourceText = text := hsegmented.text
  obtain ⟨table, selected, htable, -, hsegments, -⟩ := laidOut_fromCsvText hcsv
  have htab := ((post_parse_table text _).ok htable).1
  intro s hs hprose
  have hfield : IsField (detectCsvDelimiter text) s.sourceText := by
    rw [hsegments] at hs
    obtain ⟨r, hr, hmem⟩ := sourceText_of_tableSegments hs hprose
    exact (htab.record r hr).fields _ hmem
  obtain ⟨x, hx⟩ := decode_field hfield
  refine ⟨x, ?_, ?_⟩
  · unfold DocumentJob.translationSourceText
    rw [getElem_of_mem hsegmented.indices hs]
    dsimp only
    rw [if_neg (not_not.mpr hprose), hformat, htext]
    exact hx
  · unfold DocumentJob.encodeTranslation
    rw [hformat, htext]
    exact encode_decode hfield hx

omit [JsonStrings] in
/-- The source text passes the check of the output. -/
theorem reconstruct_source {job' : DocumentJob} (h : options.run sourceName contents = .ok job)
    (hpackage : ¬ job.format.isPackage) (hformat : job'.format = job.format)
    (hsource : job'.sourceText = job.sourceText) (hdone : job'.pendingCount = 0)
    (hout : job'.output = job.sourceText) : job'.reconstruct = .ok job.sourceText := by
  obtain ⟨text, himported⟩ := imported_of_run h hpackage
  have htext : job.sourceText = text := himported.segmented.text
  have hvalid : validateStructure job.format text
      (if job.format = .csv then some (detectCsvDelimiter text) else none) = .ok () := by
    have hnone := himported.accepted.valid
    split
    · rename_i hcsv
      rw [hcsv] at hnone ⊢
      exact hnone
    · exact hnone
  rw [DocumentJob.reconstruct_eq (by rw [hformat]; exact hpackage) hdone, hout, hsource, hformat, htext,
    if_neg (Nat.not_lt.mpr himported.accepted.utf8Len_le), hvalid]
  rfl

/-- Every prose segment of a document in a line or table format can be given its own text, and the
output is then the source text, which is what the contents decode to up to a byte order mark. -/
theorem reconstruct_identity (h : options.run sourceName contents = .ok job)
    (hformat : job.format ∈ lineAndTableFormats) :
    (∃ full, fromUtf8 contents = some full ∧
        (job.sourceText = full ∨ '\uFEFF' :: job.sourceText = full)) ∧
      (∃ calls job', job.IsIdentity calls ∧ job.applyTranslations calls = .ok job' ∧
        job'.pendingCount = 0) ∧
      ∀ calls job', job.IsIdentity calls → job.applyTranslations calls = .ok job' →
        job'.pendingCount = 0 → job'.reconstruct = .ok job.sourceText := by
  have hpackage : ¬ job.format.isPackage := by
    intro hp
    generalize job.format = format at hformat hp
    revert format
    decide
  obtain ⟨text, himported⟩ := imported_of_run h hpackage
  have hindex := himported.segmented.indices
  have hfresh := himported.segmented.fresh
  have hechoes : job.Echoes := by
    by_cases hcsv : job.format = .csv
    · exact echoes_table h hcsv
    · refine echoes_lines ?_ hindex
      generalize job.format = format at hformat hcsv
      revert format
      decide
  refine ⟨(import_lossless h hpackage).2, hechoes.identity hindex hfresh, ?_⟩
  intro calls job' hidentity happly hdone
  have htranslated := DocumentJob.translated_applyAll hindex happly
  exact reconstruct_source h hpackage htranslated.format htranslated.sourceText hdone
    (hechoes.output hindex hfresh hidentity happly hdone)

end Formats

section Sample

local instance identityReader : JsonReader := noReader
local instance identityStrings : JsonStrings := noStrings
local instance identityPackages : Packages := noPackages

/-- The sample with the mark, the quotes and the two line endings comes back as it is. -/
theorem reconstruct_identity_sampleCsv :
    (∃ full, fromUtf8 sampleCsv = some full ∧
        (sampleCsvJob.sourceText = full ∨ '\uFEFF' :: sampleCsvJob.sourceText = full)) ∧
      (∃ calls job', sampleCsvJob.IsIdentity calls ∧
        sampleCsvJob.applyTranslations calls = .ok job' ∧ job'.pendingCount = 0) ∧
      ∀ calls job', sampleCsvJob.IsIdentity calls → sampleCsvJob.applyTranslations calls = .ok job' →
        job'.pendingCount = 0 → job'.reconstruct = .ok sampleCsvJob.sourceText :=
  reconstruct_identity sampleCsv_import (by decide)

end Sample

end LinguaMesh
