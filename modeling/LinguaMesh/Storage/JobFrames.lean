import LinguaMesh.Storage.Handles
import LinguaMesh.Storage.JobCalls

/-!
# What a call leaves of the jobs

A call changes the rows of the job that it names and of no other (`sameJob_of_spares`).
In tables whose rows all load (`Readable`, which every call preserves) the snapshot that
a call reads back at its end is there, so a call that is refused has written nothing
(`effect_error`).
-/

namespace LinguaMesh.Storage

open Transaction Runs

/-- What is written of options loads as the options. -/
def JobOptions.Lawful [JobOptions] : Prop :=
  ∀ options row, JobOptions.encode options = .ok row → JobOptions.decode row = .ok options

variable [JobOptions]

/-! ## One job -/

/-- The job has the same rows in both. -/
structure SameJob (jobId : Str) (t t' : Tables) : Prop where
  row : findJob t' jobId = findJob t jobId
  segments : selectSegments t' jobId = selectSegments t jobId
  options : t'.options.find? (·.1 == jobId) = t.options.find? (·.1 == jobId)

/-- What is there of the job can be read. -/
structure JobReads (jobId : Str) (t : Tables) : Prop where
  job : ∀ row, findJob t jobId = some row → ∃ job, jobOfRows row (selectSegments t jobId) = .ok job
  state : ∀ row, findJob t jobId = some row → ∃ state, parseDocumentJobState row.state = .ok state
  options : ∃ options, loadDocumentJobOptions t jobId = .ok options

/-- Everything that is stored can be read. -/
def Readable (t : Tables) : Prop := ∀ jobId, JobReads jobId t

/-- No call on the job, and no call on all jobs. -/
def JobCall.Spares (jobId : Str) : JobCall → Prop
  | .save _ jobId' _ _ => jobId' ≠ jobId
  | .update _ jobId' _ _ => jobId' ≠ jobId
  | .setState _ jobId' _ => jobId' ≠ jobId
  | .saveOptions jobId' _ => jobId' ≠ jobId
  | .delete jobId' => jobId' ≠ jobId
  | .clear => False

section Job

variable {jobId jobId' : Str} {t t' : Tables} {snapshot : DocumentJobSnapshot}

theorem SameJob.refl (jobId : Str) (t : Tables) : SameJob jobId t t := ⟨rfl, rfl, rfl⟩

theorem SameJob.loadOptions (h : SameJob jobId t t') :
    loadDocumentJobOptions t' jobId = loadDocumentJobOptions t jobId := by
  unfold loadDocumentJobOptions
  rw [h.options]

theorem SameJob.load (h : SameJob jobId t t') : loadDocumentJob t' jobId = loadDocumentJob t jobId := by
  unfold loadDocumentJob
  rw [h.row, h.segments, h.loadOptions]

theorem JobReads.same (hr : JobReads jobId t) (h : SameJob jobId t t') : JobReads jobId t' := by
  obtain ⟨hjob, hstate, hoptions⟩ := hr
  refine ⟨?_, ?_, ?_⟩
  · rw [h.row, h.segments]
    exact hjob
  · rw [h.row]
    exact hstate
  · rw [h.loadOptions]
    exact hoptions

/-- What a snapshot has from its rows. -/
theorem load_iff : loadDocumentJob t jobId = .ok (some snapshot) ↔
    ∃ row, Stored t jobId row snapshot.job ∧ loadDocumentJobOptions t jobId = .ok snapshot.options ∧
      snapshotOf row snapshot.job snapshot.options = .ok snapshot := by
  constructor
  · intro h
    cases hrow : findJob t jobId with
    | none =>
      unfold loadDocumentJob at h
      rw [hrow] at h
      cases h
    | some row =>
      rw [loadDocumentJob_eq hrow] at h
      obtain ⟨found, hfound, hsnapshot⟩ := Except.map_eq_ok.mp h
      cases hsnapshot
      obtain ⟨job, hjob, hfound⟩ := Except.bind_ok.mp hfound
      obtain ⟨options, hoptions, hfound⟩ := Except.bind_ok.mp hfound
      have hparts := hfound
      unfold snapshotOf at hparts
      obtain ⟨state, -, hparts⟩ := Except.bind_ok.mp hparts
      cases hparts
      exact ⟨row, ⟨hrow, hjob⟩, hoptions, hfound⟩
  · rintro ⟨row, hstored, hoptions, hsnapshot⟩
    rw [loadDocumentJob_eq hstored.found]
    unfold finishLoad
    rw [hstored.reads, Except.ok_bind, hoptions, Except.ok_bind, hsnapshot]
    rfl

theorem snapshotOf_ok {row : JobRow} {job : DocumentJob} {options : Option JobOptions.Options}
    (h : snapshotOf row job options = .ok snapshot) :
    snapshot.jobId = row.jobId ∧ parseDocumentJobState row.state = .ok snapshot.state := by
  unfold snapshotOf at h
  obtain ⟨state, hstate, h⟩ := Except.bind_ok.mp h
  cases h
  exact ⟨rfl, hstate⟩

theorem JobReads.load {row : JobRow} (h : JobReads jobId t) (hrow : findJob t jobId = some row) :
    ∃ snapshot, loadDocumentJob t jobId = .ok (some snapshot) := by
  obtain ⟨job, hjob⟩ := h.job row hrow
  obtain ⟨state, hstate⟩ := h.state row hrow
  obtain ⟨options, hoptions⟩ := h.options
  refine ⟨⟨row.jobId, state, job, options, row.createdAt, row.updatedAt⟩, load_iff.mpr
    ⟨row, ⟨hrow, hjob⟩, hoptions, ?_⟩⟩
  unfold snapshotOf
  rw [hstate]
  rfl

theorem reload_ok {message : String} :
    reload t jobId message = .ok snapshot ↔ loadDocumentJob t jobId = .ok (some snapshot) := by
  unfold reload
  cases loadDocumentJob t jobId with
  | error e => simp
  | ok found => cases found <;> simp

/-- A job that is there and can be read is reloaded. -/
theorem JobReads.reload {row : JobRow} {message : String} (h : JobReads jobId t)
    (hrow : findJob t jobId = some row) : ∃ snapshot, reload t jobId message = .ok snapshot := by
  obtain ⟨snapshot, hload⟩ := h.load hrow
  exact ⟨snapshot, reload_ok.mpr hload⟩

end Job

/-! ## A save -/

section Save

variable {now : Int} {jobId jobId' : Str} {job : DocumentJob} {state : DocumentJobState} {t : Tables}

/-- What a save answers and leaves: an error and nothing, or what it reads back. -/
theorem saveDocumentJob_ran (now : Int) (jobId : Str) (job : DocumentJob)
    (state : DocumentJobState) (t : Tables) :
    (saveDocumentJob now jobId job state t).2 = t ∧
        (∃ e, (saveDocumentJob now jobId job state t).1 = .error e) ∨
      ∃ t', saveDocumentJob now jobId job state t =
          (reload t' jobId "The saved document job could not be reloaded.", t') ∧
        validateDocumentJobIdentity jobId job = .ok () ∧
        saveTransaction now jobId job state t = .ok t' := by
  unfold saveDocumentJob
  cases hcheck : checkSave jobId job state with
  | error e => exact .inl ⟨rfl, e, rfl⟩
  | ok u =>
    cases hsave : saveTransaction now jobId job state t with
    | error e => exact .inl ⟨rfl, e, rfl⟩
    | ok t' => exact .inr ⟨t', rfl, validate_of_checkSave hcheck, rfl⟩

theorem loadOptions_of_save {t' : Tables} (hs : saveTransaction now jobId job state t = .ok t')
    (jobId' : Str) : loadDocumentJobOptions t' jobId' = loadDocumentJobOptions t jobId' := by
  unfold loadDocumentJobOptions
  rw [(saveTransaction_ok hs).2.2]

theorem sameJob_save (hne : jobId' ≠ jobId) :
    SameJob jobId t (saveDocumentJob now jobId' job state t).2 := by
  rcases saveDocumentJob_cases now jobId' job state t with hs | ⟨-, hs⟩
  · rw [hs]
    exact .refl jobId t
  · obtain ⟨hrow, hsegments⟩ := others_of_save hs hne.symm
    exact ⟨hrow, hsegments, by rw [(saveTransaction_ok hs).2.2]⟩

theorem jobReads_of_save {t' : Tables} (hs : saveTransaction now jobId job state t = .ok t')
    (hv : validateDocumentJobIdentity jobId job = .ok ()) (h : JobReads jobId t) :
    JobReads jobId t' := by
  obtain ⟨row, hstored, hstate⟩ := stored_of_save hs hv
  refine ⟨fun row' hrow' => ?_, fun row' hrow' => ?_, ?_⟩
  · cases hstored.found.symm.trans hrow'
    exact ⟨job, hstored.reads⟩
  · cases hstored.found.symm.trans hrow'
    exact ⟨state, by rw [hstate, parse_documentJobStateName]⟩
  · rw [loadOptions_of_save hs]
    exact h.options

theorem jobReads_save (h : JobReads jobId t) :
    JobReads jobId (saveDocumentJob now jobId job state t).2 := by
  rcases saveDocumentJob_ran now jobId job state t with ⟨hs, -⟩ | ⟨t', hran, hv, hs⟩
  · rw [hs]
    exact h
  · rw [hran]
    exact jobReads_of_save hs hv h

/-- A save that is refused has written nothing. -/
theorem save_error {e : TranslationError} (h : JobReads jobId t)
    (he : (saveDocumentJob now jobId job state t).1 = .error e) :
    (saveDocumentJob now jobId job state t).2 = t := by
  rcases saveDocumentJob_ran now jobId job state t with ⟨hs, -⟩ | ⟨t', hran, hv, hs⟩
  · exact hs
  · obtain ⟨row, hstored, -⟩ := stored_of_save hs hv
    obtain ⟨snapshot, hreload⟩ := (jobReads_of_save hs hv h).reload hstored.found
    rw [hran] at he
    cases hreload.symm.trans he

/-- A save that is accepted reads back the job it was given. -/
theorem save_snapshot {snapshot : DocumentJobSnapshot}
    (h : (saveDocumentJob now jobId job state t).1 = .ok snapshot) :
    snapshot.jobId = jobId ∧ snapshot.job = job ∧ snapshot.state = state ∧
      loadDocumentJobOptions t jobId = .ok snapshot.options ∧
      loadDocumentJob (saveDocumentJob now jobId job state t).2 jobId = .ok (some snapshot) := by
  rcases saveDocumentJob_ran now jobId job state t with ⟨-, e, he⟩ | ⟨t', hran, hv, hs⟩
  · cases he.symm.trans h
  · rw [hran] at h ⊢
    have hload := reload_ok.mp h
    obtain ⟨row, hstored, hoptions, hsnapshot⟩ := load_iff.mp hload
    obtain ⟨hid, hstate⟩ := snapshotOf_ok hsnapshot
    obtain ⟨row', hsaved, hname⟩ := stored_of_save hs hv
    cases hsaved.found.symm.trans hstored.found
    rw [hname, parse_documentJobStateName] at hstate
    refine ⟨hid.trans (findJob_id hstored.found), ?_, (Except.ok.inj hstate).symm, ?_, hload⟩
    · exact Except.ok.inj (hstored.reads.symm.trans hsaved.reads)
    · rw [← loadOptions_of_save hs]
      exact hoptions

end Save

/-! ## The other calls -/

section Others

variable {now : Int} {jobId jobId' : Str} {state : DocumentJobState} {t : Tables}

omit [JobOptions] in
theorem find_setState (jobs : List JobRow) :
    (setState now jobId' state jobs).find? (·.jobId == jobId) =
      (jobs.find? (·.jobId == jobId)).map fun row =>
        if row.jobId = jobId' then { row with state := documentJobStateName state, updatedAt := now }
        else row := by
  unfold setState
  rw [find_map_jobs fun row => by split <;> rfl]

theorem setDocumentJobState_ran (now : Int) (jobId : Str) (state : DocumentJobState) (t : Tables) :
    (setDocumentJobState now jobId state t).2 = t ∧
        (∃ e, (setDocumentJobState now jobId state t).1 = .error e) ∨
      ∃ row t', findJob t jobId = some row ∧ t' = { t with jobs := setState now jobId state t.jobs } ∧
        setDocumentJobState now jobId state t =
          (reload t' jobId "The document job state could not be reloaded.", t') := by
  unfold setDocumentJobState
  cases hrow : findJob t jobId with
  | none => exact .inl ⟨rfl, _, rfl⟩
  | some row => exact .inr ⟨row, _, rfl, rfl, rfl⟩

theorem sameJob_setState (hne : jobId' ≠ jobId) :
    SameJob jobId t (setDocumentJobState now jobId' state t).2 := by
  rcases setDocumentJobState_ran now jobId' state t with ⟨hs, -⟩ | ⟨row, t', -, rfl, hran⟩
  · rw [hs]
    exact .refl jobId t
  · rw [hran]
    refine ⟨?_, rfl, rfl⟩
    unfold findJob
    rw [find_setState]
    cases hrow : t.jobs.find? (·.jobId == jobId) with
    | none => rfl
    | some row =>
      have hid : row.jobId = jobId := findJob_id hrow
      rw [Option.map_some, if_neg (hid ▸ hne.symm)]

/-- The row of the job after its state was set. -/
theorem findJob_setState {row : JobRow} (hrow : findJob t jobId = some row) :
    findJob { t with jobs := setState now jobId state t.jobs } jobId =
      some { row with state := documentJobStateName state, updatedAt := now } := by
  unfold findJob at hrow ⊢
  rw [find_setState, hrow, Option.map_some, if_pos (findJob_id hrow)]

theorem jobReads_of_setState {row : JobRow} (hrow : findJob t jobId = some row)
    (h : JobReads jobId t) :
    JobReads jobId { t with jobs := setState now jobId state t.jobs } := by
  refine ⟨fun row' hrow' => ?_, fun row' hrow' => ?_, h.options⟩
  · cases (findJob_setState hrow).symm.trans hrow'
    exact h.job row hrow
  · cases (findJob_setState hrow).symm.trans hrow'
    exact ⟨state, parse_documentJobStateName state⟩

theorem jobReads_setState (h : JobReads jobId t) :
    JobReads jobId (setDocumentJobState now jobId state t).2 := by
  rcases setDocumentJobState_ran now jobId state t with ⟨hs, -⟩ | ⟨row, t', hrow, rfl, hran⟩
  · rw [hs]
    exact h
  · rw [hran]
    exact jobReads_of_setState hrow h

theorem setState_error {e : TranslationError} (h : JobReads jobId t)
    (he : (setDocumentJobState now jobId state t).1 = .error e) :
    (setDocumentJobState now jobId state t).2 = t := by
  rcases setDocumentJobState_ran now jobId state t with ⟨hs, -⟩ | ⟨row, t', hrow, rfl, hran⟩
  · exact hs
  · obtain ⟨snapshot, hreload⟩ := (jobReads_of_setState hrow h).reload (findJob_setState hrow)
    rw [hran] at he
    cases hreload.symm.trans he

theorem sameJob_delete (hne : jobId' ≠ jobId) : SameJob jobId t (deleteDocumentJob jobId' t).2 := by
  refine ⟨find_filter_other hne t.jobs, ?_, find_filter_other hne t.options⟩
  unfold selectSegments deleteDocumentJob
  rw [filter_filter_other hne]

/-- Nothing of a job is left when it has no row and no options. -/
theorem jobReads_of_none (hrow : findJob t jobId = none)
    (hoptions : t.options.find? (·.1 == jobId) = none) : JobReads jobId t := by
  refine ⟨fun row h => ?_, fun row h => ?_, none, ?_⟩
  · cases hrow.symm.trans h
  · cases hrow.symm.trans h
  · unfold loadDocumentJobOptions
    rw [hoptions]

theorem jobReads_delete : JobReads jobId (deleteDocumentJob jobId t).2 :=
  jobReads_of_none (find_filter_self t.jobs) (find_filter_self t.options)

/-- The options that a cascade from all jobs leaves have no job. -/
theorem jobReads_cleared (h : JobReads jobId t) : JobReads jobId (Calls.cleared t) := by
  have hrow : findJob (Calls.cleared t) jobId = none := rfl
  refine ⟨fun row hfound => ?_, fun row hfound => ?_, ?_⟩
  · cases hrow.symm.trans hfound
  · cases hrow.symm.trans hfound
  · unfold loadDocumentJobOptions Calls.cleared
    dsimp only
    rw [find_filter_keys fun id => !t.jobs.any (·.jobId == id)]
    by_cases hkeep : (!t.jobs.any (·.jobId == jobId)) = true
    · rw [if_pos hkeep]
      exact h.options
    · rw [if_neg hkeep]
      exact ⟨none, rfl⟩

/-! ## Options -/

theorem find_upsertOptions (row : JobOptions.Row) (options : List (Str × JobOptions.Row)) :
    (upsertOptions jobId row options).find? (·.1 == jobId) = some (jobId, row) := by
  unfold upsertOptions
  split
  · rename_i hany
    induction options with
    | nil => cases hany
    | cons o options ih =>
      rw [List.map_cons, List.find?_cons]
      by_cases he : o.1 = jobId
      · rw [if_pos he, beq_self_eq_true]
      · rw [if_neg he, beq_false_of_ne he]
        refine ih ?_
        rwa [List.any_cons, beq_false_of_ne he, Bool.false_or] at hany
  · rename_i hany
    have hnone : options.find? (·.1 == jobId) = none := by
      rw [List.find?_eq_none]
      exact fun o ho he => hany (List.any_eq_true.mpr ⟨o, ho, he⟩)
    rw [List.find?_append, hnone]
    simp

theorem find_upsertOptions_other (hne : jobId' ≠ jobId) (row : JobOptions.Row)
    (options : List (Str × JobOptions.Row)) :
    (upsertOptions jobId' row options).find? (·.1 == jobId) = options.find? (·.1 == jobId) := by
  unfold upsertOptions
  split
  · clear * - hne
    induction options with
    | nil => rfl
    | cons o options ih =>
      rw [List.map_cons, List.find?_cons, List.find?_cons]
      by_cases he : o.1 = jobId'
      · rw [if_pos he, he, beq_false_of_ne hne]
        exact ih
      · rw [if_neg he, ih]
  · rw [List.find?_append]
    simp [hne]

theorem saveDocumentJobOptions_ran (jobId : Str) (options : JobOptions.Options) (t : Tables) :
    (saveDocumentJobOptions jobId options t).2 = t ∧
        (∃ e, (saveDocumentJobOptions jobId options t).1 = .error e) ∨
      ∃ row encoded t', findJob t jobId = some row ∧ JobOptions.encode options = .ok encoded ∧
        t' = { t with options := upsertOptions jobId encoded t.options } ∧
        saveDocumentJobOptions jobId options t =
          (reload t' jobId "The document job options could not be reloaded.", t') := by
  unfold saveDocumentJobOptions
  cases hencode : JobOptions.encode options with
  | error e => exact .inl ⟨rfl, e, rfl⟩
  | ok encoded =>
    cases hrow : findJob t jobId with
    | none => exact .inl ⟨rfl, _, rfl⟩
    | some row => exact .inr ⟨row, encoded, _, rfl, rfl, rfl, rfl⟩

theorem sameJob_saveOptions {options : JobOptions.Options} (hne : jobId' ≠ jobId) :
    SameJob jobId t (saveDocumentJobOptions jobId' options t).2 := by
  rcases saveDocumentJobOptions_ran jobId' options t with ⟨hs, -⟩ | ⟨row, encoded, t', -, -, rfl, hran⟩
  · rw [hs]
    exact .refl jobId t
  · rw [hran]
    exact ⟨rfl, rfl, find_upsertOptions_other hne encoded t.options⟩

section Lawful

variable {options : JobOptions.Options} {encoded : JobOptions.Row}

theorem loadOptions_saved (hlawful : JobOptions.Lawful)
    (hencode : JobOptions.encode options = .ok encoded) :
    loadDocumentJobOptions { t with options := upsertOptions jobId encoded t.options } jobId =
      .ok (some options) := by
  unfold loadDocumentJobOptions
  simp only [find_upsertOptions, hlawful options encoded hencode]
  rfl

theorem jobReads_of_saveOptions (hlawful : JobOptions.Lawful)
    (hencode : JobOptions.encode options = .ok encoded) (h : JobReads jobId t) :
    JobReads jobId { t with options := upsertOptions jobId encoded t.options } :=
  ⟨h.job, h.state, some options, loadOptions_saved hlawful hencode⟩

theorem jobReads_saveOptions (hlawful : JobOptions.Lawful) (h : JobReads jobId t) :
    JobReads jobId (saveDocumentJobOptions jobId options t).2 := by
  rcases saveDocumentJobOptions_ran jobId options t with
    ⟨hs, -⟩ | ⟨row, encoded, t', -, hencode, rfl, hran⟩
  · rw [hs]
    exact h
  · rw [hran]
    exact jobReads_of_saveOptions hlawful hencode h

theorem saveOptions_error (hlawful : JobOptions.Lawful) {e : TranslationError} (h : JobReads jobId t)
    (he : (saveDocumentJobOptions jobId options t).1 = .error e) :
    (saveDocumentJobOptions jobId options t).2 = t := by
  rcases saveDocumentJobOptions_ran jobId options t with
    ⟨hs, -⟩ | ⟨row, encoded, t', hrow, hencode, rfl, hran⟩
  · exact hs
  · obtain ⟨snapshot, hreload⟩ := (jobReads_of_saveOptions hlawful hencode h).reload hrow
    rw [hran] at he
    cases hreload.symm.trans he

/-- Options that are accepted are read back, with the job as it was. -/
theorem saveOptions_snapshot (hlawful : JobOptions.Lawful) {snapshot : DocumentJobSnapshot}
    (hreads : JobReads jobId t)
    (h : (saveDocumentJobOptions jobId options t).1 = .ok snapshot) :
    snapshot.options = some options ∧
      (∃ before, loadDocumentJob t jobId = .ok (some before) ∧ snapshot.jobId = before.jobId ∧
        snapshot.job = before.job ∧ snapshot.state = before.state) ∧
      loadDocumentJob (saveDocumentJobOptions jobId options t).2 jobId = .ok (some snapshot) := by
  rcases saveDocumentJobOptions_ran jobId options t with
    ⟨-, e, he⟩ | ⟨row, encoded, t', hrow, hencode, rfl, hran⟩
  · cases he.symm.trans h
  · rw [hran] at h ⊢
    have hload := reload_ok.mp h
    obtain ⟨row', hstored, hoptions, hsnapshot⟩ := load_iff.mp hload
    cases hrow.symm.trans hstored.found
    obtain ⟨before, hbefore⟩ := hreads.load hrow
    refine ⟨?_, ⟨before, hbefore, ?_⟩, hload⟩
    · exact Except.ok.inj (hoptions.symm.trans (loadOptions_saved hlawful hencode))
    · obtain ⟨row', hstored', -, hsnapshot'⟩ := load_iff.mp hbefore
      cases hrow.symm.trans hstored'.found
      obtain ⟨hid, hstate⟩ := snapshotOf_ok hsnapshot
      obtain ⟨hid', hstate'⟩ := snapshotOf_ok hsnapshot'
      exact ⟨hid.trans hid'.symm, Except.ok.inj (hstored.reads.symm.trans hstored'.reads),
        Except.ok.inj (hstate.symm.trans hstate')⟩

end Lawful

end Others

/-! ## Every call -/

section Calls

variable [JsonStrings] {jobId jobId' : Str} {t : Tables} {call : JobCall}

theorem updateDocumentSegment_ran (now : Int) (jobId : Str) (index : Nat) (translatedText : Str)
    (t : Tables) :
    (∃ e, updateDocumentSegment now jobId index translatedText t = (.error e, t)) ∨
      ∃ job, editedJob t jobId index translatedText = .ok job ∧
        updateDocumentSegment now jobId index translatedText t =
          saveDocumentJob now jobId job (stateAfterUpdate job) t := by
  unfold updateDocumentSegment
  cases editedJob t jobId index translatedText with
  | error e => exact .inl ⟨e, rfl⟩
  | ok job => exact .inr ⟨job, rfl, rfl⟩

theorem sameJob_update {now : Int} {index : Nat} {translatedText : Str} (hne : jobId' ≠ jobId) :
    SameJob jobId t (updateDocumentSegment now jobId' index translatedText t).2 := by
  rcases updateDocumentSegment_ran now jobId' index translatedText t with ⟨e, hran⟩ | ⟨job, -, hran⟩
  · rw [hran]
    exact .refl jobId t
  · rw [hran]
    exact sameJob_save hne

/-- A call leaves the rows of the jobs that it does not name. -/
theorem sameJob_of_spares (h : call.Spares jobId) : SameJob jobId t (call.effect t).2 := by
  cases call with
  | save now jobId' job state => exact sameJob_save h
  | update now jobId' index translatedText => exact sameJob_update h
  | setState now jobId' state => exact sameJob_setState h
  | saveOptions jobId' options => exact sameJob_saveOptions h
  | delete jobId' => exact sameJob_delete h
  | clear => exact h.elim

/-- What can be read before a call can be read after it. -/
theorem jobReads_effect (hlawful : JobOptions.Lawful) (h : JobReads jobId t) :
    JobReads jobId (call.effect t).2 := by
  by_cases hspares : call.Spares jobId
  · exact h.same (sameJob_of_spares hspares)
  · cases call with
    | save now jobId' job state =>
      cases not_not.mp hspares
      exact jobReads_save h
    | update now jobId' index translatedText =>
      cases not_not.mp hspares
      change JobReads jobId (updateDocumentSegment now jobId index translatedText t).2
      rcases updateDocumentSegment_ran now jobId index translatedText t with
        ⟨e, hran⟩ | ⟨job, -, hran⟩
      · rw [hran]
        exact h
      · rw [hran]
        exact jobReads_save h
    | setState now jobId' state =>
      cases not_not.mp hspares
      exact jobReads_setState h
    | saveOptions jobId' options =>
      cases not_not.mp hspares
      exact jobReads_saveOptions hlawful h
    | delete jobId' =>
      cases not_not.mp hspares
      exact jobReads_delete
    | clear => exact jobReads_cleared h

/-- A call that is refused has written nothing. -/
theorem effect_error (hlawful : JobOptions.Lawful) {e : TranslationError} (h : Readable t)
    (he : (call.effect t).1 = .error e) : (call.effect t).2 = t := by
  cases call with
  | save now jobId job state => exact save_error (h jobId) (Except.map_eq_error.mp he)
  | update now jobId index translatedText =>
    have he := Except.map_eq_error.mp he
    change (updateDocumentSegment now jobId index translatedText t).2 = t
    rcases updateDocumentSegment_ran now jobId index translatedText t with ⟨e', hran⟩ | ⟨job, -, hran⟩
    · rw [hran]
    · rw [hran] at he ⊢
      exact save_error (h jobId) he
  | setState now jobId state => exact setState_error (h jobId) (Except.map_eq_error.mp he)
  | saveOptions jobId options =>
    exact saveOptions_error hlawful (h jobId) (Except.map_eq_error.mp he)
  | delete jobId => cases he
  | clear => cases he

/-! ## Every run -/

/-- A call with the faults of its statements. -/
def JobCall.step (t : Tables) (a : JobCall × List (Option TranslationError)) : Option Tables :=
  some (a.1.program t a.2).2.1

/-- Whatever fails, a call leaves the tables as they were or as it does without faults. -/
theorem left_of_call (call : JobCall) (t : Tables) (faults : List (Option TranslationError)) :
    (call.program t faults).2.1 = t ∨ (call.program t faults).2.1 = (call.effect t).2 := by
  have heffect : (call.program t []).2.1 = (call.effect t).2 := by rw [run_call]
  rcases whole_call call t faults with ⟨h, -⟩ | ⟨h, -⟩
  · exact .inl h
  · exact .inr (h.trans heffect)

/-- A call that answers has done all of it. -/
theorem effect_of_ok {faults : List (Option TranslationError)} {answer : JobAnswer} {t' : Tables}
    {rest : List (Option TranslationError)}
    (h : call.program t faults = (.ok answer, t', rest)) : call.effect t = (.ok answer, t') := by
  have hrun := run_call call t
  have hwhole := whole_call call t faults
  rw [h, hrun] at hwhole
  rcases hwhole with ⟨-, e, he⟩ | ⟨ht, hr | ⟨e, he⟩⟩
  · cases he
  · exact Prod.ext hr.symm ht.symm
  · cases he

variable {u : Tables}

theorem readable_of_reach (hlawful : JobOptions.Lawful) (h : Readable t)
    (hrun : Reach JobCall.step (fun _ _ => True) t u) : Readable u := by
  refine hrun.invariant h fun t a t' ht _ hstep jobId => ?_
  cases Option.some.inj hstep
  rcases left_of_call a.1 t a.2 with hleft | hleft
  · rw [hleft]
    exact ht jobId
  · rw [hleft]
    exact jobReads_effect hlawful (ht jobId)

/-- A job is loaded as it was after any calls on other jobs. -/
theorem load_of_reach (hrun : Reach JobCall.step (fun _ a => a.1.Spares jobId) t u) :
    loadDocumentJob u jobId = loadDocumentJob t jobId := by
  refine hrun.invariant (I := fun u => loadDocumentJob u jobId = loadDocumentJob t jobId) rfl
    fun t a t' ht hspares hstep => ?_
  cases Option.some.inj hstep
  rcases left_of_call a.1 t a.2 with hleft | hleft
  · rw [hleft]
    exact ht
  · rw [hleft, (sameJob_of_spares hspares).load]
    exact ht

omit [JsonStrings] in
theorem readable_emptyTables : Readable emptyTables := fun _ => jobReads_of_none rfl rfl

end Calls

end LinguaMesh.Storage
