import LinguaMesh.Storage.Jobs

/-!
# The steps of a segment update

`update_document_segment` reads a job with three statements, changes one segment
in memory, writes the whole job back in a transaction, and reads it again. Each
statement and each transaction is one step here. A call that runs alone is the
sequential operation (`solo_update`); what a single step can do is said once
(`advance_cases`).
-/

namespace LinguaMesh.Storage

structure UpdateCall where
  jobId : Str
  index : Nat
  translatedText : Str

variable [JobOptions]

/-- How far a call has come, with what it has read. -/
inductive Phase where
  | started
  | rowRead (row : JobRow)
  | segmentsRead (row : JobRow) (rows : List SegmentRow)
  /-- `job` is what the call is about to save, `rows` what it was made from. -/
  | ready (rows : List SegmentRow) (job : DocumentJob)
  | saved
  | rowReread (row : JobRow)
  | segmentsReread (row : JobRow) (rows : List SegmentRow)
  | returned (result : Except TranslationError DocumentJobSnapshot)

/-- The end of `load_document_job`: the job of the rows, the options, the state. -/
def finishLoad (t : Tables) (jobId : Str) (row : JobRow) (rows : List SegmentRow) :
    Except TranslationError DocumentJobSnapshot := do
  let job ← jobOfRows row rows
  let options ← loadDocumentJobOptions t jobId
  snapshotOf row job options

/-- The next statement or transaction of a call. -/
def UpdateCall.advance [JsonStrings] (call : UpdateCall) (now : Int) (t : Tables) :
    Phase → Option (Tables × Phase)
  | .started =>
    if maxDocumentJobTextBytes < utf8Len call.translatedText then
      some (t, .returned (.error (documentConfigurationError
        "The translated document segment exceeds the local size limit.")))
    else match findJob t call.jobId with
      | none => some (t, .returned (.error (.new .invalidConfiguration
          "The document job was not found.")))
      | some row => some (t, .rowRead row)
  | .rowRead row => some (t, .segmentsRead row (selectSegments t call.jobId))
  | .segmentsRead row rows =>
    match finishLoad t call.jobId row rows with
    | .error e => some (t, .returned (.error e))
    | .ok snapshot =>
      match snapshot.job.applyTranslation call.index call.translatedText with
      | .error e => some (t, .returned (.error (mapDocumentError e)))
      | .ok job => some (t, .ready rows job)
  | .ready _ job =>
    match checkSave call.jobId job (stateAfterUpdate job) with
    | .error e => some (t, .returned (.error e))
    | .ok _ =>
      match saveTransaction now call.jobId job (stateAfterUpdate job) t with
      | .error e => some (t, .returned (.error e))
      | .ok t' => some (t', .saved)
  | .saved =>
    match findJob t call.jobId with
    | none => some (t, .returned (.error (.new .persistence
        "The saved document job could not be reloaded.")))
    | some row => some (t, .rowReread row)
  | .rowReread row => some (t, .segmentsReread row (selectSegments t call.jobId))
  | .segmentsReread row rows => some (t, .returned (finishLoad t call.jobId row rows))
  | .returned _ => none

/-- A call that runs alone for at most `n` steps. -/
def UpdateCall.solo [JsonStrings] (call : UpdateCall) (now : Int) :
    Nat → Tables × Phase → Tables × Phase
  | 0, s => s
  | n + 1, (t, p) =>
    match call.advance now t p with
    | none => (t, p)
    | some s => call.solo now n s

theorem loadDocumentJob_eq {t : Tables} {jobId : Str} {row : JobRow}
    (h : findJob t jobId = some row) :
    loadDocumentJob t jobId = (finishLoad t jobId row (selectSegments t jobId)).map some := by
  unfold loadDocumentJob finishLoad
  simp only [h, Except.map_bind]
  rfl

section Solo

variable [JsonStrings] {call : UpdateCall} {now : Int} {t : Tables}

theorem solo_next {p : Phase} {s : Tables × Phase} {n : Nat} (h : call.advance now t p = some s) :
    call.solo now (n + 1) (t, p) = call.solo now n s := by
  rw [UpdateCall.solo, h]

theorem solo_returned {n : Nat} {result : Except TranslationError DocumentJobSnapshot} :
    call.solo now n (t, .returned result) = (t, .returned result) := by
  cases n <;> rfl

/-- The last four steps are a save. -/
theorem solo_save {rows : List SegmentRow} {job : DocumentJob} :
    call.solo now 4 (t, .ready rows job) =
      ((saveDocumentJob now call.jobId job (stateAfterUpdate job) t).2,
        .returned (saveDocumentJob now call.jobId job (stateAfterUpdate job) t).1) := by
  unfold saveDocumentJob
  cases hc : checkSave call.jobId job (stateAfterUpdate job) with
  | error e =>
    rw [solo_next (by simp only [UpdateCall.advance, hc]; rfl)]
    exact solo_returned
  | ok _ =>
    cases hs : saveTransaction now call.jobId job (stateAfterUpdate job) t with
    | error e =>
      rw [solo_next (by simp only [UpdateCall.advance, hc, hs]; rfl)]
      exact solo_returned
    | ok t' =>
      rw [solo_next (by simp only [UpdateCall.advance, hc, hs]; rfl)]
      simp only [reload]
      cases hrow : findJob t' call.jobId with
      | none =>
        rw [solo_next (by simp only [UpdateCall.advance, hrow]; rfl), solo_returned]
        unfold loadDocumentJob
        simp only [hrow]
        rfl
      | some row =>
        rw [solo_next (by simp only [UpdateCall.advance, hrow]; rfl), solo_next rfl, solo_next rfl,
          solo_returned, loadDocumentJob_eq hrow]
        cases finishLoad t' call.jobId row (selectSegments t' call.jobId) <;> rfl

/-- Without interleaving, the steps of a call are the sequential operation. -/
theorem solo_update (call : UpdateCall) (now : Int) (t : Tables) :
    call.solo now 7 (t, .started) =
      ((updateDocumentSegment now call.jobId call.index call.translatedText t).2,
        .returned (updateDocumentSegment now call.jobId call.index call.translatedText t).1) := by
  unfold updateDocumentSegment editedJob requireJob
  by_cases hlen : maxDocumentJobTextBytes < utf8Len call.translatedText
  · rw [solo_next (by simp only [UpdateCall.advance, if_pos hlen]; rfl), if_pos hlen]
    exact solo_returned
  · rw [if_neg hlen]
    cases hrow : findJob t call.jobId with
    | none =>
      rw [solo_next (by simp only [UpdateCall.advance, if_neg hlen, hrow]; rfl), solo_returned]
      unfold loadDocumentJob
      simp only [hrow]
      rfl
    | some row =>
      rw [solo_next (by simp only [UpdateCall.advance, if_neg hlen, hrow]; rfl), solo_next rfl,
        loadDocumentJob_eq hrow]
      cases hload : finishLoad t call.jobId row (selectSegments t call.jobId) with
      | error e =>
        rw [solo_next (by simp only [UpdateCall.advance, hload]; rfl)]
        exact solo_returned
      | ok snapshot =>
        cases hjob : snapshot.job.applyTranslation call.index call.translatedText with
        | error e =>
          rw [solo_next (by simp only [UpdateCall.advance, hload, hjob]; rfl), solo_returned]
          simp only [Except.map, Except.ok_bind, hjob]
          rfl
        | ok job =>
          rw [solo_next (by simp only [UpdateCall.advance, hload, hjob]; rfl), solo_save]
          simp only [Except.map, Except.ok_bind, hjob]
          rfl

end Solo

/-! ## What a step does -/

/-- The write of a call is in the tables, and the call has not failed since. -/
def Phase.landed : Phase → Bool
  | .saved | .rowReread _ | .segmentsReread _ _ | .returned (.ok _) => true
  | _ => false

/-- What a step that does not write takes from the tables. -/
inductive Reads [JsonStrings] (call : UpdateCall) (t : Tables) : Phase → Phase → Prop where
  | row {row : JobRow} : findJob t call.jobId = some row → Reads call t .started (.rowRead row)
  | segments {row : JobRow} :
    Reads call t (.rowRead row) (.segmentsRead row (selectSegments t call.jobId))
  | edit {row : JobRow} {rows : List SegmentRow} {job job' : DocumentJob} :
    jobOfRows row rows = .ok job →
    job.applyTranslation call.index call.translatedText = .ok job' →
    Reads call t (.segmentsRead row rows) (.ready rows job')
  | reread {p p' : Phase} : p.landed → p'.landed → Reads call t p p'
  | failed {p : Phase} {e : TranslationError} : Reads call t p (.returned (.error e))

theorem finishLoad_ok {t : Tables} {jobId : Str} {row : JobRow} {rows : List SegmentRow}
    {snapshot : DocumentJobSnapshot} (h : finishLoad t jobId row rows = .ok snapshot) :
    jobOfRows row rows = .ok snapshot.job := by
  unfold finishLoad at h
  rw [Except.bind_ok] at h
  obtain ⟨job, hjob, h⟩ := h
  rw [Except.bind_ok] at h
  obtain ⟨options, -, h⟩ := h
  unfold snapshotOf at h
  rw [Except.bind_ok] at h
  obtain ⟨state, -, h⟩ := h
  cases h
  exact hjob

/-- A step of a call reads and leaves the tables alone, or saves the job it has made. -/
theorem advance_cases [JsonStrings] {call : UpdateCall} {now : Int} {t t' : Tables} {p p' : Phase}
    (h : call.advance now t p = some (t', p')) :
    t' = t ∧ Reads call t p p' ∨
      ∃ rows job, p = .ready rows job ∧ p' = .saved ∧
        checkSave call.jobId job (stateAfterUpdate job) = .ok () ∧
        saveTransaction now call.jobId job (stateAfterUpdate job) t = .ok t' := by
  cases p with
  | started =>
    simp only [UpdateCall.advance] at h
    split at h
    · cases h
      exact .inl ⟨rfl, .failed⟩
    · split at h
      · cases h
        exact .inl ⟨rfl, .failed⟩
      · rename_i hrow
        cases h
        exact .inl ⟨rfl, .row hrow⟩
  | rowRead row =>
    cases h
    exact .inl ⟨rfl, .segments⟩
  | segmentsRead row rows =>
    simp only [UpdateCall.advance] at h
    split at h
    · cases h
      exact .inl ⟨rfl, .failed⟩
    · rename_i hload
      split at h
      · cases h
        exact .inl ⟨rfl, .failed⟩
      · rename_i hjob
        cases h
        exact .inl ⟨rfl, .edit (finishLoad_ok hload) hjob⟩
  | ready rows job =>
    simp only [UpdateCall.advance] at h
    split at h
    · cases h
      exact .inl ⟨rfl, .failed⟩
    · rename_i hc
      split at h
      · cases h
        exact .inl ⟨rfl, .failed⟩
      · rename_i hs
        cases h
        exact .inr ⟨rows, job, rfl, rfl, hc, hs⟩
  | saved =>
    simp only [UpdateCall.advance] at h
    split at h
    · cases h
      exact .inl ⟨rfl, .failed⟩
    · cases h
      exact .inl ⟨rfl, .reread rfl rfl⟩
  | rowReread row =>
    cases h
    exact .inl ⟨rfl, .reread rfl rfl⟩
  | segmentsReread row rows =>
    simp only [UpdateCall.advance] at h
    cases hload : finishLoad t call.jobId row rows with
    | error e =>
      rw [hload] at h
      cases h
      exact .inl ⟨rfl, .failed⟩
    | ok snapshot =>
      rw [hload] at h
      cases h
      exact .inl ⟨rfl, .reread rfl rfl⟩
  | returned result => cases h

/-! ## Other operations -/

section Frame

variable {t : Tables} {jobId : Str} {row : JobRow} {job : DocumentJob}

theorem Stored.frame {t' : Tables} (h : Stored t jobId row job)
    (hrow : findJob t' jobId = findJob t jobId)
    (hrows : selectSegments t' jobId = selectSegments t jobId) : Stored t' jobId row job :=
  ⟨hrow.trans h.found, hrows.symm ▸ h.reads⟩

theorem stored_of_saveOther {now : Int} {jobId' : Str} {job' : DocumentJob} {state : DocumentJobState}
    (h : Stored t jobId row job) (hne : jobId' ≠ jobId) :
    Stored (saveDocumentJob now jobId' job' state t).2 jobId row job := by
  rcases saveDocumentJob_cases now jobId' job' state t with hs | ⟨-, hs⟩
  · rw [hs]
    exact h
  · obtain ⟨h1, h2⟩ := others_of_save hs hne.symm
    exact h.frame h1 h2

/-- The state of a job is no part of what its rows read as. -/
theorem stored_of_setState {now : Int} {jobId' : Str} {state : DocumentJobState}
    (h : Stored t jobId row job) :
    ∃ row', Stored (setDocumentJobState now jobId' state t).2 jobId row' job := by
  unfold setDocumentJobState
  split
  · exact ⟨row, h⟩
  · refine ⟨if row.jobId = jobId' then
      { row with state := documentJobStateName state, updatedAt := now } else row, ?_, ?_⟩
    · unfold findJob setState
      rw [find_map_jobs fun row => by split <;> rfl]
      exact congrArg (Option.map _) h.found
    · have hreads := h.reads
      split <;> exact hreads

theorem stored_of_delete {jobId' : Str} (h : Stored t jobId row job) (hne : jobId' ≠ jobId) :
    Stored (deleteDocumentJob jobId' t).2 jobId row job := by
  apply h.frame
  · exact find_filter_other hne t.jobs
  · unfold selectSegments deleteDocumentJob
    rw [filter_filter_other hne]

/-- The operation saves, updates or deletes no job but others. -/
def JobOp.Spares (jobId : Str) : JobOp → Prop
  | .save _ jobId' _ _ => jobId' ≠ jobId
  | .update _ jobId' _ _ => jobId' ≠ jobId
  | .delete jobId' => jobId' ≠ jobId
  | _ => True

theorem stored_of_other [JsonStrings] {op : JobOp} (h : Stored t jobId row job)
    (hop : op.Spares jobId) :
    ∃ row', Stored (op.perform t) jobId row' job := by
  cases op with
  | save now jobId' job' state => exact ⟨row, stored_of_saveOther h hop⟩
  | update now jobId' index translatedText =>
    refine ⟨row, ?_⟩
    change Stored (updateDocumentSegment now jobId' index translatedText t).2 jobId row job
    unfold updateDocumentSegment
    cases editedJob t jobId' index translatedText with
    | error e => exact h
    | ok job' => exact stored_of_saveOther h hop
  | setState now jobId' state => exact stored_of_setState h
  | delete jobId' => exact ⟨row, stored_of_delete h hop⟩
  | saveOptions jobId' options =>
    refine ⟨row, ?_⟩
    change Stored (saveDocumentJobOptions jobId' options t).2 jobId row job
    unfold saveDocumentJobOptions
    cases JobOptions.encode options with
    | error e => exact h
    | ok encoded =>
      simp only
      split
      · exact h
      · exact ⟨h.found, h.reads⟩

end Frame

end LinguaMesh.Storage
