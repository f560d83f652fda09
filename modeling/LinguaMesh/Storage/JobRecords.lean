import LinguaMesh.Storage.JobFrames
import LinguaMesh.Storage.JobOptions
import LinguaMesh.Storage.States

/-!
# Document jobs are kept as they were saved

Over every run of calls, with faults in any of their statements: what an accepted call
read back stays what `document_job` loads until the next call on the job, a segment
update changes that segment only, and a refused call changes nothing
(`job_calls_faithful`).
-/

namespace LinguaMesh.Storage

open Transaction Runs

theorem OptionsJson.Lawful.options [OptionsJson] (hlawful : OptionsJson.Lawful) :
    JobOptions.Lawful := fun _ _ h => decode_encode hlawful h

section Statements

variable [JobOptions]

/-- The call answers and leaves `t'`, whatever failed before. -/
def JobCall.Answers [JsonStrings] (call : JobCall) (t : Tables) (answer : JobAnswer) (t' : Tables) :
    Prop := ∃ faults rest, call.program t faults = (.ok answer, t', rest)

/-- The snapshot is what is loaded until the next call on the job. -/
def Stays [JsonStrings] (jobId : Str) (snapshot : DocumentJobSnapshot) (t : Tables) : Prop :=
  ∀ u, Reach JobCall.step (fun _ a => a.1.Spares jobId) t u →
    loadDocumentJob u jobId = .ok (some snapshot)

/-- The job is the one before, but for the translation of one segment. -/
structure SegmentUpdated [JsonStrings] (index : Nat) (translatedText : Str)
    (before after : DocumentJob) : Prop where
  format : after.format = before.format
  sourceName : after.sourceName = before.sourceName
  package : after.package = before.package
  segment : ∃ s, before.segments[index]? = some s ∧ s.kind = .prose ∧
    after.segments[index]? = some { s with
      translatedText := some (before.encodeTranslation s.sourceText translatedText) }
  others : ∀ i, i ≠ index → after.segments[i]? = before.segments[i]?

variable [JsonStrings] {jobId : Str} {t t' : Tables} {snapshot : DocumentJobSnapshot}

omit [JobOptions] in
theorem segmentUpdated_of_applyTranslation {index : Nat} {translatedText : Str}
    {before after : DocumentJob} (h : before.applyTranslation index translatedText = .ok after) :
    SegmentUpdated index translatedText before after := by
  obtain ⟨s, hs, hkind, rfl⟩ := DocumentJob.applyTranslation_ok h
  refine ⟨rfl, rfl, rfl, ⟨s, hs, hkind, ?_⟩, fun i hi => ?_⟩
  · obtain ⟨hlt, -⟩ := List.getElem?_eq_some_iff.mp hs
    exact List.getElem?_set_self hlt
  · exact List.getElem?_set_ne hi.symm

theorem stays_of_load (h : loadDocumentJob t jobId = .ok (some snapshot)) : Stays jobId snapshot t :=
  fun _ hrun => (load_of_reach hrun).trans h

/-- An update reads back the job it found, with the translation. -/
theorem update_snapshot {now : Int} {index : Nat} {translatedText : Str}
    (h : (updateDocumentSegment now jobId index translatedText t).1 = .ok snapshot) :
    (∃ before, loadDocumentJob t jobId = .ok (some before) ∧ snapshot.options = before.options ∧
      SegmentUpdated index translatedText before.job snapshot.job) ∧
      loadDocumentJob (updateDocumentSegment now jobId index translatedText t).2 jobId =
        .ok (some snapshot) := by
  rcases updateDocumentSegment_ran now jobId index translatedText t with
    ⟨e, hran⟩ | ⟨job, hedited, hran⟩
  · rw [hran] at h
    cases h
  · rw [hran] at h ⊢
    obtain ⟨-, before, hbefore, hjob⟩ := editedJob_ok.mp hedited
    obtain ⟨-, hsaved, -, hoptions, hload⟩ := save_snapshot h
    obtain ⟨row, -, hoptions', -⟩ := load_iff.mp hbefore
    refine ⟨⟨before, hbefore, Except.ok.inj (hoptions.symm.trans hoptions'), ?_⟩, hload⟩
    rw [hsaved]
    exact segmentUpdated_of_applyTranslation hjob

/-- A job that passes the checks is saved where there is room for it. -/
theorem answers_save {now : Int} {job : DocumentJob} {state : DocumentJobState}
    (hreads : JobReads jobId t) (hcheck : checkSave jobId job state = .ok ())
    (hroom : findJob t jobId ≠ none ∨ t.jobs.length < maxDocumentJobs) :
    ∃ snapshot t', (JobCall.save now jobId job state).Answers t (.snapshot snapshot) t' := by
  have hv := validate_of_checkSave hcheck
  obtain ⟨t', hsave⟩ := @saveTransaction_run _ now jobId job state t hv hroom
  obtain ⟨row, hstored, -⟩ := stored_of_save hsave hv
  obtain ⟨snapshot, hreload⟩ := @JobReads.reload _ jobId t' row
    "The saved document job could not be reloaded." (jobReads_of_save hsave hv hreads) hstored.found
  have hran : saveDocumentJob now jobId job state t = (.ok snapshot, t') := by
    unfold saveDocumentJob
    rw [hcheck]
    dsimp only
    rw [hsave]
    dsimp only
    rw [hreload]
  have heffect : (JobCall.save now jobId job state).effect t = (.ok (.snapshot snapshot), t') :=
    congrArg (fun r => (r.1.map JobAnswer.snapshot, r.2)) hran
  exact ⟨snapshot, t', [], [], by rw [run_call, heffect]⟩

end Statements

section Faithful

variable [JsonStrings] [OptionsJson]

/-- In every run, whichever statements fail: a saved job and saved options are loaded as they
were given until the next call on the job, an update changes one segment, no call changes
another job, and a call that is refused or fails halfway has changed nothing. -/
theorem job_calls_faithful (hlawful : OptionsJson.Lawful) {s t : Tables} (hs : Readable s)
    (hrun : Reach JobCall.step (fun _ _ => True) s t) :
    (∀ now jobId job state snapshot t',
      (JobCall.save now jobId job state).Answers t (.snapshot snapshot) t' →
        snapshot.jobId = jobId ∧ snapshot.job = job ∧ snapshot.state = state ∧
          loadDocumentJobOptions t jobId = .ok snapshot.options ∧ Stays jobId snapshot t' ∧
          ∀ other, other ≠ jobId → SameJob other t t') ∧
    (∀ jobId options snapshot t',
      (JobCall.saveOptions jobId options).Answers t (.snapshot snapshot) t' →
        snapshot.options = some options ∧
          (∃ before, loadDocumentJob t jobId = .ok (some before) ∧ snapshot.jobId = before.jobId ∧
            snapshot.job = before.job ∧ snapshot.state = before.state) ∧
          Stays jobId snapshot t' ∧ ∀ other, other ≠ jobId → SameJob other t t') ∧
    (∀ now jobId index translatedText snapshot t',
      (JobCall.update now jobId index translatedText).Answers t (.snapshot snapshot) t' →
        (∃ before, loadDocumentJob t jobId = .ok (some before) ∧
          snapshot.options = before.options ∧
          SegmentUpdated index translatedText before.job snapshot.job) ∧
          Stays jobId snapshot t' ∧ ∀ other, other ≠ jobId → SameJob other t t') ∧
    (∀ (call : JobCall) e t', call.program t [] = (.error e, t', []) → t' = t) ∧
    ∀ (call : JobCall) faults, (call.program t faults).2.1 = t ∨
      (call.program t faults).2.1 = (call.program t []).2.1 := by
  have hreads := readable_of_reach hlawful.options hs hrun
  refine ⟨?_, ?_, ?_, ?_, ?_⟩
  · rintro now jobId job state snapshot t' ⟨faults, rest, h⟩
    have heffect := effect_of_ok h
    have hanswer := Except.map_eq_ok.mp (congrArg Prod.fst heffect)
    obtain ⟨snapshot', hok, hsnapshot⟩ := hanswer
    cases hsnapshot
    obtain ⟨hid, hjob, hstate, hoptions, hload⟩ := save_snapshot hok
    have hleft : (saveDocumentJob now jobId job state t).2 = t' := congrArg Prod.snd heffect
    refine ⟨hid, hjob, hstate, hoptions, stays_of_load (hleft ▸ hload), fun other hne => ?_⟩
    rw [← hleft]
    exact sameJob_save hne.symm
  · rintro jobId options snapshot t' ⟨faults, rest, h⟩
    have heffect := effect_of_ok h
    obtain ⟨snapshot', hok, hsnapshot⟩ := Except.map_eq_ok.mp (congrArg Prod.fst heffect)
    cases hsnapshot
    obtain ⟨hoptions, hbefore, hload⟩ := saveOptions_snapshot hlawful.options (hreads jobId) hok
    have hleft : (saveDocumentJobOptions jobId options t).2 = t' := congrArg Prod.snd heffect
    refine ⟨hoptions, hbefore, stays_of_load (hleft ▸ hload), fun other hne => ?_⟩
    rw [← hleft]
    exact sameJob_saveOptions hne.symm
  · rintro now jobId index translatedText snapshot t' ⟨faults, rest, h⟩
    have heffect := effect_of_ok h
    obtain ⟨snapshot', hok, hsnapshot⟩ := Except.map_eq_ok.mp (congrArg Prod.fst heffect)
    cases hsnapshot
    obtain ⟨hbefore, hload⟩ := update_snapshot hok
    have hleft : (updateDocumentSegment now jobId index translatedText t).2 = t' :=
      congrArg Prod.snd heffect
    refine ⟨hbefore, stays_of_load (hleft ▸ hload), fun other hne => ?_⟩
    rw [← hleft]
    exact sameJob_update hne.symm
  · intro call e t' h
    rw [run_call] at h
    have hleft : (call.effect t).2 = t' := congrArg (·.2.1) h
    rw [← hleft]
    exact effect_error hlawful.options hreads (congrArg Prod.fst h)
  · intro call faults
    have heffect : (call.program t []).2.1 = (call.effect t).2 := by rw [run_call]
    rw [heffect]
    exact left_of_call call t faults

end Faithful

/-! ## A job of two lines -/

section Lines

def generalText : Str :=
  "\x7b\"id\":\"general\",\"domain\":null,\"tone\":null,\"formality\":null,\"intended_audience\":null,\"regional_locale\":null,\"script\":null,\"custom_context\":null,\"custom_instructions\":null\x7d".toList

/-- `serde_json` of one preset, and of no glossary. -/
@[reducible] def onePreset (preset : TranslationPreset) (text : Str) : OptionsJson where
  glossaryText _ := none
  readGlossary _ := none
  presetText p := if p = preset then some text else none
  readPreset t := if t = text then some preset else none

theorem onePreset_lawful (preset : TranslationPreset) (text : Str) :
    @OptionsJson.Lawful (onePreset preset text) := by
  refine @OptionsJson.Lawful.mk (onePreset preset text) (fun _ _ h => ?_) (fun p t h => ?_)
  · cases h
  · change (if p = preset then some text else none) = some t at h
    change (if t = text then some preset else none) = some p
    split at h
    · rename_i hpreset
      rw [hpreset, if_pos (Option.some.inj h).symm]
    · cases h

local instance linesJson : OptionsJson := onePreset .general generalText
local instance linesStrings : JsonStrings := plainStrings

theorem job_calls_faithful_twoLines : ∃ snapshot t',
    (JobCall.save 0 jobName (twoLines none none) .running).Answers emptyTables (.snapshot snapshot) t' ∧
      snapshot.job = twoLines none none ∧ snapshot.state = .running ∧ snapshot.options = none ∧
      loadDocumentJob t' jobName = .ok (some snapshot) := by
  have hcheck : checkSave jobName (twoLines none none) .running = .ok () := by decide +kernel
  obtain ⟨snapshot, t', h⟩ := @answers_save _ _ jobName emptyTables 0 _ _
    (readable_emptyTables jobName) hcheck (.inr (by decide))
  obtain ⟨-, hjob, hstate, hoptions, hstays, -⟩ :=
    (job_calls_faithful (onePreset_lawful _ _) readable_emptyTables .refl).1 _ _ _ _ _ _ h
  exact ⟨snapshot, t', h, hjob, hstate, (Except.ok.inj hoptions).symm, hstays t' .refl⟩

end Lines

end LinguaMesh.Storage
