import LinguaMesh.Lib.Itemwise
import LinguaMesh.Document.Import

/-!
# Translating the segments of a job

Whatever translations are applied, in whatever order, a segment keeps its place,
its kind and its source; a prose segment may get the encoding of a translation
that was applied to it (`Changed`). Once no segment is pending, the output is the
sources of the structure and the translations of the prose, in order.
-/

namespace LinguaMesh

open Run

/-- How a segment may change when translations are applied to its job. -/
inductive Changed [JsonStrings] (job : DocumentJob) (calls : List (Nat × Str))
    (s : DocumentSegment) : DocumentSegment → Prop where
  | same : Changed job calls s s
  | translated {x : Str} : s.kind = .prose → (s.index, x) ∈ calls →
    Changed job calls s { s with translatedText := some (job.encodeTranslation s.sourceText x) }

namespace Changed

variable [JsonStrings] {job job' : DocumentJob} {calls calls' : List (Nat × Str)}
  {s s' t : DocumentSegment}

theorem index (h : Changed job calls s s') : s'.index = s.index := by cases h <;> rfl

theorem kind (h : Changed job calls s s') : s'.kind = s.kind := by cases h <;> rfl

theorem sourceText (h : Changed job calls s s') : s'.sourceText = s.sourceText := by cases h <;> rfl

theorem lineEnding (h : Changed job calls s s') : s'.lineEnding = s.lineEnding := by cases h <;> rfl

theorem trans (hjob : job'.encodeTranslation = job.encodeTranslation) (h : Changed job calls s s')
    (h' : Changed job' calls' s' t) : Changed job (calls ++ calls') s t := by
  cases h' with
  | same =>
    cases h with
    | same => exact .same
    | translated hk hc => exact .translated hk (List.mem_append_left _ hc)
  | translated hk' hc' =>
    rw [hjob, h.sourceText]
    rw [h.kind] at hk'
    rw [h.index] at hc'
    cases h with
    | same => exact .translated hk' (List.mem_append_right _ hc')
    | translated => exact .translated hk' (List.mem_append_right _ hc')

end Changed

namespace DocumentJob

variable [JsonStrings] {job job' : DocumentJob} {calls : List (Nat × Str)}

/-- One `apply_translation` after the other. -/
def applyTranslations (job : DocumentJob) (calls : List (Nat × Str)) :
    Except DocumentError DocumentJob :=
  calls.foldlM (fun job call => job.applyTranslation call.1 call.2) job

/-- What applying translations has made of a job. -/
structure Translated (calls : List (Nat × Str)) (job job' : DocumentJob) : Prop where
  format : job'.format = job.format
  segments : List.Forall₂ (Changed job calls) job.segments job'.segments

theorem Translated.indices (h : Translated calls job job') :
    job'.segments.map (·.index) = job.segments.map (·.index) :=
  map_eq_of_forall₂ (fun _ _ hc => hc.index) h.segments

theorem Translated.sourceText (h : Translated calls job job') : job'.sourceText = job.sourceText := by
  have := map_eq_of_forall₂ (f := fun s => s.sourceText ++ s.lineEnding)
    (g := fun s => s.sourceText ++ s.lineEnding)
    (fun _ _ hc => by rw [hc.sourceText, hc.lineEnding]) h.segments
  rw [DocumentJob.sourceText, DocumentJob.sourceText, List.flatMap_def, this, List.flatMap_def]

theorem Translated.encode (h : Translated calls job job') :
    job'.encodeTranslation = job.encodeTranslation := by
  funext raw translated
  rw [encodeTranslation, encodeTranslation, h.format, h.sourceText]

theorem translated_apply {index : Nat} {x : Str}
    (hindex : job.segments.map (·.index) = List.range job.segments.length)
    (h : job.applyTranslation index x = .ok job') : Translated [(index, x)] job job' := by
  obtain ⟨s, hs, hk, rfl⟩ := applyTranslation_ok h
  refine ⟨rfl, forall₂_set (fun _ => .same) hs (.translated hk ?_)⟩
  rw [index_of_getElem hindex hs]
  exact List.mem_singleton_self _

theorem translated_applyAll (hindex : job.segments.map (·.index) = List.range job.segments.length)
    (h : job.applyTranslations calls = .ok job') : Translated calls job job' := by
  induction calls generalizing job with
  | nil =>
    cases h
    exact ⟨rfl, List.forall₂_same.mpr fun _ _ => .same⟩
  | cons call calls ih =>
    unfold applyTranslations at h
    rw [List.foldlM_cons] at h
    obtain ⟨job1, h1, h⟩ := Except.bind_ok.mp h
    have t1 := translated_apply hindex h1
    have t2 := ih (by rw [t1.indices, hindex, t1.segments.length_eq]) h
    exact ⟨t2.format.trans t1.format,
      forall₂_trans (fun _ _ _ => Changed.trans t1.encode) t1.segments t2.segments⟩

end DocumentJob

/-! ## The last translation of a segment -/

/-- The translation that is applied last to the segment `index`. -/
def lastCall (calls : List (Nat × Str)) (index : Nat) : Option Str :=
  (calls.reverse.find? (·.1 == index)).map Prod.snd

@[simp] theorem lastCall_nil (index : Nat) : lastCall [] index = none := rfl

theorem lastCall_snoc (calls : List (Nat × Str)) (call : Nat × Str) (index : Nat) :
    lastCall (calls ++ [call]) index =
      if call.1 = index then some call.2 else lastCall calls index := by
  unfold lastCall
  rw [List.reverse_append, List.reverse_singleton, List.singleton_append, List.find?_cons]
  by_cases h : call.1 = index <;> simp [h, beq_eq_false_iff_ne.mpr]

theorem mem_of_lastCall {calls : List (Nat × Str)} {index : Nat} {x : Str}
    (h : lastCall calls index = some x) : (index, x) ∈ calls := by
  obtain ⟨call, hcall, rfl⟩ := Option.map_eq_some_iff.mp h
  have hindex : call.1 = index := by simpa using List.find?_some hcall
  subst hindex
  exact List.mem_reverse.mp (List.mem_of_find?_eq_some hcall)

namespace DocumentJob

variable [JsonStrings]

/-- A segment with the translation that is applied last to it. -/
def retold (job : DocumentJob) (calls : List (Nat × Str)) (s : DocumentSegment) : DocumentSegment :=
  { s with translatedText :=
      ((lastCall calls s.index).map (job.encodeTranslation s.sourceText)).or s.translatedText }

variable {job job' : DocumentJob} {calls : List (Nat × Str)} {s : DocumentSegment}

@[simp] theorem retold_index : (job.retold calls s).index = s.index := rfl

@[simp] theorem retold_kind : (job.retold calls s).kind = s.kind := rfl

@[simp] theorem retold_sourceText : (job.retold calls s).sourceText = s.sourceText := rfl

@[simp] theorem retold_lineEnding : (job.retold calls s).lineEnding = s.lineEnding := rfl

@[simp] theorem retold_nil : job.retold [] s = s := rfl

/-- A segment that is pending has not been translated. -/
theorem isPending_retold (hfresh : s.translatedText = none) :
    (job.retold calls s).isPending = (s.kind == .prose && (lastCall calls s.index).isNone) := by
  unfold DocumentSegment.isPending retold
  rw [hfresh]
  cases lastCall calls s.index <;> rfl

theorem sourceText_retold (segments : List DocumentSegment) :
    ({ job with segments := segments.map (job.retold calls) } : DocumentJob).sourceText =
      ({ job with segments := segments } : DocumentJob).sourceText := by
  simp [DocumentJob.sourceText, List.flatMap_map]

theorem getElem_retold (hindex : job.segments.map (·.index) = List.range job.segments.length)
    {call : Nat × Str} {s' : DocumentSegment}
    (hs : (job.segments.map (job.retold calls))[call.1]? = some s') :
    (job.segments.map (job.retold calls)).set call.1
        { s' with translatedText := some (job.encodeTranslation s'.sourceText call.2) } =
      job.segments.map (job.retold (calls ++ [call])) := by
  obtain ⟨s, hget, rfl⟩ := Option.map_eq_some_iff.mp ((List.getElem?_map ..).symm.trans hs)
  refine List.ext_getElem? fun i => ?_
  rw [List.getElem?_set, List.getElem?_map, List.getElem?_map]
  split
  · rename_i heq
    subst heq
    rw [hget, if_pos (by simpa using (List.getElem?_eq_some_iff.mp hget).1)]
    have : job.retold (calls ++ [call]) s =
        { s with translatedText := some (job.encodeTranslation s.sourceText call.2) } := by
      rw [retold, lastCall_snoc, if_pos (index_of_getElem hindex hget).symm]
      rfl
    rw [Option.map_some, this]
    rfl
  · rename_i hne
    cases hi : job.segments[i]? with
    | none => rfl
    | some t =>
      have : lastCall (calls ++ [call]) t.index = lastCall calls t.index := by
        rw [lastCall_snoc, if_neg (by rw [index_of_getElem hindex hi]; exact hne)]
      rw [Option.map_some, Option.map_some, retold, retold, this]

/-- The job that translations make: each segment with the last one of its own, and only prose
gets one. -/
theorem applyTranslations_eq (hindex : job.segments.map (·.index) = List.range job.segments.length)
    (h : job.applyTranslations calls = .ok job') :
    job' = { job with segments := job.segments.map (job.retold calls) } ∧
      ∀ s ∈ job.segments, (lastCall calls s.index).isSome → s.kind = .prose := by
  induction calls using List.reverseRecOn generalizing job' with
  | nil =>
    cases h
    refine ⟨?_, fun _ _ h => nomatch h⟩
    exact congrArg (fun segments => { job with segments }) (List.map_id _).symm
  | append_singleton calls call ih =>
    unfold applyTranslations at h
    rw [List.foldlM_append] at h
    obtain ⟨job1, h1, h⟩ := Except.bind_ok.mp h
    rw [List.foldlM_cons] at h
    obtain ⟨job2, h2, h⟩ := Except.bind_ok.mp h
    cases h
    obtain ⟨rfl, hprose⟩ := ih h1
    obtain ⟨s', hs', hkind, rfl⟩ := applyTranslation_ok h2
    have hencode : ({ job with segments := job.segments.map (job.retold calls) } :
        DocumentJob).encodeTranslation = job.encodeTranslation := by
      funext raw translated
      rw [encodeTranslation, encodeTranslation, sourceText_retold]
    refine ⟨?_, fun s hs hcall => ?_⟩
    · rw [hencode, getElem_retold hindex hs']
    · rw [lastCall_snoc] at hcall
      split at hcall
      · rename_i heq
        obtain ⟨t, ht, rfl⟩ := Option.map_eq_some_iff.mp ((List.getElem?_map ..).symm.trans hs')
        have := getElem_of_mem hindex hs
        rw [← heq, ht] at this
        rw [← Option.some.inj this, ← hkind, retold_kind]
      · exact hprose s hs hcall

end DocumentJob

/-! ## Output -/

/-- The output text of a segment that is not pending. -/
def DocumentSegment.output (s : DocumentSegment) : Str :=
  match s.kind with
  | .verbatim => s.sourceText
  | .prose => s.translatedText.getD []

theorem outputText_eq {s : DocumentSegment} (h : s.isPending = false) :
    s.outputText = .ok s.output := by
  unfold DocumentSegment.isPending at h
  unfold DocumentSegment.outputText DocumentSegment.output
  cases hk : s.kind with
  | verbatim => rfl
  | prose =>
    cases ht : s.translatedText with
    | none => simp [hk, ht] at h
    | some t => rfl

namespace DocumentJob

def output (job : DocumentJob) : Str := job.segments.flatMap fun s => s.output ++ s.lineEnding

theorem outputOf_eq {segments : List DocumentSegment} (h : ∀ s ∈ segments, s.isPending = false) :
    outputOf segments = .ok (segments.flatMap fun s => s.output ++ s.lineEnding) := by
  have go (out : Str) : (segments.foldlM (fun output s => do
      let text ← s.outputText
      .ok (output ++ text ++ s.lineEnding)) out : Run DocumentError Str) =
      .ok (out ++ segments.flatMap fun s => s.output ++ s.lineEnding) := by
    induction segments generalizing out with
    | nil => rw [List.flatMap_nil, List.append_nil]; rfl
    | cons s segments ih =>
      rw [List.foldlM_cons, outputText_eq (h s List.mem_cons_self), Except.ok_bind, Except.ok_bind,
        ih fun t ht => h t (List.mem_cons_of_mem _ ht)]
      simp
  exact go []

/-- The output stops at a segment that is pending. -/
theorem outputOf_pending {segments : List DocumentSegment} (h : ∃ s ∈ segments, s.isPending) :
    ∃ s ∈ segments, s.isPending ∧ outputOf segments = fail (.segmentIncomplete s.index) := by
  have go (out : Str) : ∃ s ∈ segments, s.isPending ∧ (segments.foldlM (fun output s => do
      let text ← s.outputText
      .ok (output ++ text ++ s.lineEnding)) out : Run DocumentError Str) =
      fail (.segmentIncomplete s.index) := by
    induction segments generalizing out with
    | nil =>
      obtain ⟨s, hs, -⟩ := h
      exact absurd hs List.not_mem_nil
    | cons s segments ih =>
      rw [List.foldlM_cons]
      cases hp : s.isPending with
      | true =>
        refine ⟨s, List.mem_cons_self, hp, ?_⟩
        unfold DocumentSegment.isPending at hp
        unfold DocumentSegment.outputText
        simp only [Bool.and_eq_true, beq_iff_eq, Option.isNone_iff_eq_none] at hp
        rw [hp.1, hp.2]
        rfl
      | false =>
        rw [outputText_eq hp, Except.ok_bind, Except.ok_bind]
        obtain ⟨t, ht, hpt⟩ := h
        have hne : t ≠ s := by
          rintro rfl
          rw [hp] at hpt
          exact Bool.false_ne_true hpt
        obtain ⟨u, hu, hup⟩ := ih ⟨t, (List.mem_cons.mp ht).resolve_left hne, hpt⟩ _
        exact ⟨u, List.mem_cons_of_mem _ hu, hup⟩
  exact go []

theorem pending_false {job : DocumentJob} (h : job.pendingCount = 0) :
    ∀ s ∈ job.segments, s.isPending = false := by
  intro s hs
  have := List.length_eq_zero_iff.mp h
  rw [List.filter_eq_nil_iff] at this
  simpa using this s hs

/-- The reconstruction of a text once every segment is translated. -/
theorem reconstruct_eq [JsonReader] [Packages] {job : DocumentJob} (hformat : ¬ job.format.isPackage)
    (h : job.pendingCount = 0) :
    job.reconstruct = if maxDocumentBytes < utf8Len job.output then fail .outputTooLarge else
      validateStructure job.format job.output
        (if job.format = .csv then some (detectCsvDelimiter job.sourceText) else none) >>= fun _ =>
      .ok job.output := by
  unfold reconstruct
  rw [if_neg hformat, outputOf_eq (pending_false h)]
  rfl

/-- There is no output as long as a segment is pending. -/
theorem pendingCount_of_reconstruct [JsonReader] [Packages] {job : DocumentJob} {out : Str}
    (hformat : ¬ job.format.isPackage) (h : job.reconstruct = .ok out) : job.pendingCount = 0 := by
  refine List.length_eq_zero_iff.mpr (List.filter_eq_nil_iff.mpr fun s hs hp => ?_)
  obtain ⟨t, -, -, ht⟩ := outputOf_pending ⟨s, hs, hp⟩
  unfold reconstruct at h
  rw [if_neg hformat, ht] at h
  cases h

theorem output_of_reconstruct [JsonReader] [Packages] {job : DocumentJob} {out : Str}
    (hformat : ¬ job.format.isPackage) (hdone : job.pendingCount = 0)
    (h : job.reconstruct = .ok out) : job.output = out := by
  rw [reconstruct_eq hformat hdone] at h
  split at h
  · cases h
  · obtain ⟨-, -, h⟩ := Except.bind_ok.mp h
    exact Except.ok.inj h

end DocumentJob

end LinguaMesh
