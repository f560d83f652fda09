import LinguaMesh.Lib.Atomic
import LinguaMesh.Lib.Runs
import LinguaMesh.Storage.Jobs
import LinguaMesh.Storage.JobOptions

/-!
# Document job calls, statement by statement

The operations on stored document jobs as programs, any statement of which may fail.
Without faults they do what the operations of `Storage/Jobs` do (`run_call`); with
faults a call leaves the tables as they were or does all of it (`whole_call`).
-/

namespace LinguaMesh.Storage

open Transaction

variable [JobOptions]

abbrev JobSql : Type → Type := Sql TranslationError Tables

namespace Calls

def loadDocumentJobOptions (jobId : Str) : JobSql (Option JobOptions.Options) := do
  match ← query fun t : Tables => t.options.find? (·.1 == jobId) with
  | none => pure none
  | some (_, row) => fromExcept ((JobOptions.decode row).map some)

def loadDocumentJob (jobId : Str) : JobSql (Option DocumentJobSnapshot) := do
  match ← query fun t : Tables => findJob t jobId with
  | none => pure none
  | some row => do
    let rows ← query fun t : Tables => selectSegments t jobId
    let job ← fromExcept (jobOfRows row rows)
    let options ← loadDocumentJobOptions jobId
    let snapshot ← fromExcept (snapshotOf row job options)
    pure (some snapshot)

def reload (jobId : Str) (message : String) : JobSql DocumentJobSnapshot := do
  match ← loadDocumentJob jobId with
  | some snapshot => pure snapshot
  | none => giveUp (.new .persistence message)

/-- The limit on the number of jobs, for a job that is not there. -/
def checkRoom (jobId : Str) : JobSql Unit := do
  let found ← query fun t : Tables => (findJob t jobId).isSome
  if found then pure ()
  else do
    let count ← query fun t : Tables => t.jobs.length
    if maxDocumentJobs ≤ count then
      giveUp (documentConfigurationError "The local document job limit has been reached.")
    else pure ()

/-- One `INSERT INTO document_segments` for each segment. -/
def insertSegments (jobId : Str) : List DocumentSegment → JobSql Unit
  | [] => pure ()
  | s :: segments => do
    execute fun t : Tables =>
      (insertSegment jobId t.segments s).map fun rows => { t with segments := rows }
    insertSegments jobId segments

/-- The body of the transaction of a save. -/
def saveRows (now : Int) (jobId : Str) (job : DocumentJob) (state : DocumentJobState) :
    JobSql Unit := do
  checkRoom jobId
  write fun t : Tables => { t with jobs := upsertJob now jobId job state t.jobs }
  write fun t : Tables => { t with segments := t.segments.filter (·.jobId != jobId) }
  insertSegments jobId job.segments

def saveTransaction (now : Int) (jobId : Str) (job : DocumentJob) (state : DocumentJobState) :
    JobSql Unit := transaction (saveRows now jobId job state)

def saveDocumentJob (now : Int) (jobId : Str) (job : DocumentJob) (state : DocumentJobState) :
    JobSql DocumentJobSnapshot := do
  fromExcept (checkSave jobId job state)
  saveTransaction now jobId job state
  reload jobId "The saved document job could not be reloaded."

def requireJob (jobId : Str) : JobSql DocumentJobSnapshot := do
  match ← loadDocumentJob jobId with
  | some snapshot => pure snapshot
  | none => giveUp (.new .invalidConfiguration "The document job was not found.")

def updateDocumentSegment [JsonStrings] (now : Int) (jobId : Str) (index : Nat)
    (translatedText : Str) : JobSql DocumentJobSnapshot :=
  if maxDocumentJobTextBytes < utf8Len translatedText then
    giveUp (documentConfigurationError
      "The translated document segment exceeds the local size limit.")
  else do
    let snapshot ← requireJob jobId
    let job ← fromExcept
      ((snapshot.job.applyTranslation index translatedText).mapError mapDocumentError)
    saveDocumentJob now jobId job (stateAfterUpdate job)

/-- `UPDATE .. WHERE job_id = ?1`, which gives the number of rows it changed. -/
def updateState (now : Int) (jobId : Str) (state : DocumentJobState) : JobSql Unit :=
  execute fun t : Tables =>
    if (findJob t jobId).isNone then
      .error (.new .invalidConfiguration "The document job was not found.")
    else .ok { t with jobs := setState now jobId state t.jobs }

def setDocumentJobState (now : Int) (jobId : Str) (state : DocumentJobState) :
    JobSql DocumentJobSnapshot := do
  updateState now jobId state
  reload jobId "The document job state could not be reloaded."

def deleteDocumentJob (jobId : Str) : JobSql Bool :=
  statement fun t : Tables => .ok (Storage.deleteDocumentJob jobId t)

/-- `DELETE FROM document_jobs`, which cascades. -/
def cleared (t : Tables) : Tables :=
  ⟨[], t.segments.filter fun row => !t.jobs.any (·.jobId == row.jobId),
    t.options.filter fun o => !t.jobs.any (·.jobId == o.1)⟩

def clearDocumentJobs : JobSql Unit := write cleared

/-- `INSERT .. ON CONFLICT(job_id) DO UPDATE`, with its foreign key. -/
def insertOptions (jobId : Str) (row : JobOptions.Row) : JobSql Unit :=
  execute fun t : Tables =>
    if (findJob t jobId).isNone then .error (mapError "FOREIGN KEY constraint failed")
    else .ok { t with options := upsertOptions jobId row t.options }

def saveDocumentJobOptions (jobId : Str) (options : JobOptions.Options) :
    JobSql DocumentJobSnapshot := do
  let row ← fromExcept (JobOptions.encode options)
  insertOptions jobId row
  reload jobId "The document job options could not be reloaded."

end Calls

/-- A call with its arguments and the clock reading. -/
inductive JobCall where
  | save (now : Int) (jobId : Str) (job : DocumentJob) (state : DocumentJobState)
  | update (now : Int) (jobId : Str) (index : Nat) (translatedText : Str)
  | setState (now : Int) (jobId : Str) (state : DocumentJobState)
  | saveOptions (jobId : Str) (options : JobOptions.Options)
  | delete (jobId : Str)
  | clear

inductive JobAnswer where
  | snapshot (snapshot : DocumentJobSnapshot)
  | deleted (found : Bool)
  | cleared

def JobCall.program [JsonStrings] : JobCall → JobSql JobAnswer
  | save now jobId job state => JobAnswer.snapshot <$> Calls.saveDocumentJob now jobId job state
  | update now jobId index translatedText =>
    JobAnswer.snapshot <$> Calls.updateDocumentSegment now jobId index translatedText
  | setState now jobId state => JobAnswer.snapshot <$> Calls.setDocumentJobState now jobId state
  | saveOptions jobId options => JobAnswer.snapshot <$> Calls.saveDocumentJobOptions jobId options
  | delete jobId => JobAnswer.deleted <$> Calls.deleteDocumentJob jobId
  | clear => (fun _ => JobAnswer.cleared) <$> Calls.clearDocumentJobs

/-- What a call answers and leaves when no statement fails. -/
def JobCall.effect [JsonStrings] (t : Tables) :
    JobCall → Except TranslationError JobAnswer × Tables
  | save now jobId job state =>
    ((saveDocumentJob now jobId job state t).1.map .snapshot,
      (saveDocumentJob now jobId job state t).2)
  | update now jobId index translatedText =>
    ((updateDocumentSegment now jobId index translatedText t).1.map .snapshot,
      (updateDocumentSegment now jobId index translatedText t).2)
  | setState now jobId state =>
    ((setDocumentJobState now jobId state t).1.map .snapshot, (setDocumentJobState now jobId state t).2)
  | saveOptions jobId options =>
    ((saveDocumentJobOptions jobId options t).1.map .snapshot,
      (saveDocumentJobOptions jobId options t).2)
  | delete jobId => (.ok (.deleted (deleteDocumentJob jobId t).1), (deleteDocumentJob jobId t).2)
  | clear => (.ok .cleared, Calls.cleared t)

namespace Calls

/-! ## Runs without faults -/

section Faultless

variable {jobId : Str} {t : Tables}

omit [JobOptions] in
theorem run_fromExcept {ε σ α : Type} (r : Except ε α) (db : σ) :
    fromExcept r db [] = (r, db, []) := rfl

theorem run_loadDocumentJobOptions (jobId : Str) (t : Tables) :
    loadDocumentJobOptions jobId t [] = (Storage.loadDocumentJobOptions t jobId, t, []) := by
  unfold loadDocumentJobOptions Storage.loadDocumentJobOptions
  rw [run_bind_ok (run_query _ t)]
  cases t.options.find? (·.1 == jobId) with
  | none => rfl
  | some o => rfl

theorem run_loadDocumentJob (jobId : Str) (t : Tables) :
    loadDocumentJob jobId t [] = (Storage.loadDocumentJob t jobId, t, []) := by
  unfold loadDocumentJob Storage.loadDocumentJob
  rw [run_bind_ok (run_query _ t)]
  cases hrow : findJob t jobId with
  | none => rfl
  | some row =>
    dsimp only
    rw [run_bind_ok (run_query _ t)]
    cases hjob : jobOfRows row (selectSegments t jobId) with
    | error e => rfl
    | ok job =>
      rw [run_bind_ok (run_fromExcept _ t), Except.ok_bind]
      have hoptions := run_loadDocumentJobOptions jobId t
      cases hload : Storage.loadDocumentJobOptions t jobId with
      | error e =>
        rw [hload] at hoptions
        rw [run_bind_error hoptions]
        rfl
      | ok options =>
        rw [hload] at hoptions
        rw [run_bind_ok hoptions, Except.ok_bind]
        cases snapshotOf row job options with
        | error e => rfl
        | ok snapshot => rfl

theorem run_reload (jobId : Str) (message : String) (t : Tables) :
    reload jobId message t [] = (Storage.reload t jobId message, t, []) := by
  have hload := run_loadDocumentJob jobId t
  unfold reload Storage.reload
  cases h : Storage.loadDocumentJob t jobId with
  | error e =>
    rw [h] at hload
    rw [run_bind_error hload]
    rfl
  | ok found =>
    rw [h] at hload
    rw [run_bind_ok hload]
    cases found <;> rfl

theorem run_checkRoom (jobId : Str) (t : Tables) :
    checkRoom jobId t [] =
      if (findJob t jobId).isNone && maxDocumentJobs ≤ t.jobs.length then
        (.error (documentConfigurationError "The local document job limit has been reached."), t, [])
      else (.ok (), t, []) := by
  unfold checkRoom
  rw [run_bind_ok (run_query _ t)]
  cases hfound : findJob t jobId with
  | some row => rfl
  | none =>
    rw [if_neg (by simp), run_bind_ok (run_query _ t)]
    by_cases hcount : maxDocumentJobs ≤ t.jobs.length
    · rw [if_pos hcount, if_pos (by simp [hcount])]
      rfl
    · rw [if_neg hcount, if_neg (by simp [hcount])]
      rfl

/-- The inserts, one after the other. -/
theorem run_insertSegments (segments : List DocumentSegment) (t : Tables) :
    ∃ t', insertSegments jobId segments t [] =
      match segments.foldlM (insertSegment jobId) t.segments with
      | .ok rows => (.ok (), { t with segments := rows }, [])
      | .error e => (.error e, t', []) := by
  induction segments generalizing t with
  | nil => exact ⟨t, rfl⟩
  | cons s segments ih =>
    unfold insertSegments
    rw [List.foldlM_cons]
    cases hinsert : insertSegment jobId t.segments s with
    | error e =>
      refine ⟨t, ?_⟩
      have hrun : execute (fun t : Tables =>
          (insertSegment jobId t.segments s).map fun rows => { t with segments := rows }) t [] =
          (.error e, t, []) := by
        rw [run_execute, hinsert]
        rfl
      rw [run_bind_error hrun]
      rfl
    | ok rows =>
      have hrun : execute (fun t : Tables =>
          (insertSegment jobId t.segments s).map fun rows => { t with segments := rows }) t [] =
          (.ok (), { t with segments := rows }, []) := by
        rw [run_execute, hinsert]
        rfl
      rw [run_bind_ok hrun, Except.ok_bind]
      exact ih { t with segments := rows }

theorem run_saveTransaction (now : Int) (jobId : Str) (job : DocumentJob) (state : DocumentJobState)
    (t : Tables) :
    saveTransaction now jobId job state t [] =
      match Storage.saveTransaction now jobId job state t with
      | .ok t' => (.ok (), t', [])
      | .error e => (.error e, t, []) := by
  have hroom := run_checkRoom jobId t
  unfold saveTransaction saveRows Storage.saveTransaction
  split at hroom
  · rename_i hfull
    rw [if_pos hfull, run_transaction (run_bind_error hroom)]
  · rename_i hfull
    rw [if_neg hfull]
    obtain ⟨t', hinsert⟩ := @run_insertSegments _ jobId job.segments
      { t with
        jobs := upsertJob now jobId job state t.jobs
        segments := t.segments.filter (·.jobId != jobId) }
    cases hrows : job.segments.foldlM (insertSegment jobId)
        (t.segments.filter (·.jobId != jobId)) with
    | error e =>
      rw [hrows] at hinsert
      rw [run_transaction ((run_bind_ok hroom).trans ((run_bind_ok (run_write _ t)).trans
        ((run_bind_ok (run_write _ _)).trans hinsert)))]
      rfl
    | ok rows =>
      rw [hrows] at hinsert
      rw [run_transaction ((run_bind_ok hroom).trans ((run_bind_ok (run_write _ t)).trans
        ((run_bind_ok (run_write _ _)).trans hinsert)))]
      rfl

theorem run_saveDocumentJob (now : Int) (jobId : Str) (job : DocumentJob) (state : DocumentJobState)
    (t : Tables) :
    saveDocumentJob now jobId job state t [] =
      ((Storage.saveDocumentJob now jobId job state t).1,
        (Storage.saveDocumentJob now jobId job state t).2, []) := by
  have htransaction := run_saveTransaction now jobId job state t
  unfold saveDocumentJob Storage.saveDocumentJob
  cases hcheck : checkSave jobId job state with
  | error e => rfl
  | ok u =>
    rw [run_bind_ok (run_fromExcept _ t)]
    cases hsave : Storage.saveTransaction now jobId job state t with
    | error e =>
      rw [hsave] at htransaction
      rw [run_bind_error htransaction]
    | ok t' =>
      rw [hsave] at htransaction
      rw [run_bind_ok htransaction, run_reload]

theorem run_requireJob (jobId : Str) (t : Tables) :
    requireJob jobId t [] = (Storage.requireJob t jobId, t, []) := by
  have hload := run_loadDocumentJob jobId t
  unfold requireJob Storage.requireJob
  cases h : Storage.loadDocumentJob t jobId with
  | error e =>
    rw [h] at hload
    rw [run_bind_error hload]
    rfl
  | ok found =>
    rw [h] at hload
    rw [run_bind_ok hload]
    cases found <;> rfl

theorem run_updateDocumentSegment [JsonStrings] (now : Int) (jobId : Str) (index : Nat)
    (translatedText : Str) (t : Tables) :
    updateDocumentSegment now jobId index translatedText t [] =
      ((Storage.updateDocumentSegment now jobId index translatedText t).1,
        (Storage.updateDocumentSegment now jobId index translatedText t).2, []) := by
  unfold updateDocumentSegment Storage.updateDocumentSegment editedJob
  split
  · rfl
  · have hrequire := run_requireJob jobId t
    cases h : Storage.requireJob t jobId with
    | error e =>
      rw [h] at hrequire
      rw [run_bind_error hrequire]
      rfl
    | ok snapshot =>
      rw [h] at hrequire
      rw [run_bind_ok hrequire, Except.ok_bind]
      cases hjob : (snapshot.job.applyTranslation index translatedText).mapError mapDocumentError with
      | error e => rfl
      | ok job =>
        rw [run_bind_ok (run_fromExcept _ t), run_saveDocumentJob]

theorem run_setDocumentJobState (now : Int) (jobId : Str) (state : DocumentJobState) (t : Tables) :
    setDocumentJobState now jobId state t [] =
      ((Storage.setDocumentJobState now jobId state t).1,
        (Storage.setDocumentJobState now jobId state t).2, []) := by
  have hupdate : updateState now jobId state t [] = _ := run_execute _ t
  unfold setDocumentJobState Storage.setDocumentJobState
  split at hupdate
  · rename_i heq
    split at heq
    · cases heq
    · rename_i hfound
      cases heq
      rw [run_bind_ok hupdate, if_neg hfound, run_reload]
  · rename_i heq
    split at heq
    · rename_i hfound
      cases heq
      rw [run_bind_error hupdate, if_pos hfound]
    · cases heq

theorem run_saveDocumentJobOptions (jobId : Str) (options : JobOptions.Options) (t : Tables) :
    saveDocumentJobOptions jobId options t [] =
      ((Storage.saveDocumentJobOptions jobId options t).1,
        (Storage.saveDocumentJobOptions jobId options t).2, []) := by
  unfold saveDocumentJobOptions Storage.saveDocumentJobOptions
  cases hrow : JobOptions.encode options with
  | error e => rfl
  | ok row =>
    rw [run_bind_ok (run_fromExcept _ t)]
    have hinsert : insertOptions jobId row t [] = _ := run_execute _ t
    dsimp only
    split at hinsert
    · rename_i heq
      split at heq
      · cases heq
      · rename_i hfound
        cases heq
        rw [run_bind_ok hinsert, if_neg hfound, run_reload]
    · rename_i heq
      split at heq
      · rename_i hfound
        cases heq
        rw [run_bind_error hinsert, if_pos hfound]
      · cases heq

end Faultless

end Calls

/-- When no statement fails, a call is the operation on the tables. -/
theorem run_call [JsonStrings] (call : JobCall) (t : Tables) :
    call.program t [] = ((call.effect t).1, (call.effect t).2, []) := by
  cases call with
  | save now jobId job state =>
    rw [JobCall.program, run_map, Calls.run_saveDocumentJob now jobId job state t]
    rfl
  | update now jobId index translatedText =>
    rw [JobCall.program, run_map, Calls.run_updateDocumentSegment now jobId index translatedText t]
    rfl
  | setState now jobId state =>
    rw [JobCall.program, run_map, Calls.run_setDocumentJobState now jobId state t]
    rfl
  | saveOptions jobId options =>
    rw [JobCall.program, run_map, Calls.run_saveDocumentJobOptions jobId options t]
    rfl
  | delete jobId => rfl
  | clear => rfl

/-! ## Runs with faults -/

namespace Calls

theorem readOnly_loadDocumentJobOptions (jobId : Str) : ReadOnly (loadDocumentJobOptions jobId) := by
  refine readOnly_bind (readOnly_query _) fun found => ?_
  cases found with
  | none => exact readOnly_pure _
  | some o => exact readOnly_fromExcept _

theorem readOnly_loadDocumentJob (jobId : Str) : ReadOnly (loadDocumentJob jobId) := by
  refine readOnly_bind (readOnly_query _) fun found => ?_
  cases found with
  | none => exact readOnly_pure _
  | some row =>
    refine readOnly_bind (readOnly_query _) fun rows => ?_
    refine readOnly_bind (readOnly_fromExcept _) fun job => ?_
    refine readOnly_bind (readOnly_loadDocumentJobOptions jobId) fun options => ?_
    exact readOnly_bind (readOnly_fromExcept _) fun snapshot => readOnly_pure _

theorem readOnly_reload (jobId : Str) (message : String) : ReadOnly (reload jobId message) := by
  refine readOnly_bind (readOnly_loadDocumentJob jobId) fun found => ?_
  cases found with
  | none => exact readOnly_giveUp _
  | some snapshot => exact readOnly_pure _

theorem readOnly_requireJob (jobId : Str) : ReadOnly (requireJob jobId) := by
  refine readOnly_bind (readOnly_loadDocumentJob jobId) fun found => ?_
  cases found with
  | none => exact readOnly_giveUp _
  | some snapshot => exact readOnly_pure _

theorem readOnly_checkRoom (jobId : Str) : ReadOnly (checkRoom jobId) := by
  refine readOnly_bind (readOnly_query _) fun found => ?_
  split
  · exact readOnly_pure _
  · refine readOnly_bind (readOnly_query _) fun count => ?_
    split
    · exact readOnly_giveUp _
    · exact readOnly_pure _

theorem steady_insertSegments (jobId : Str) (segments : List DocumentSegment) (t : Tables) :
    Steady (insertSegments jobId segments) t := by
  induction segments generalizing t with
  | nil => exact steady_pure _
  | cons s segments ih => exact steady_bind (steady_execute _) fun _ t' _ => ih t'

theorem steady_saveRows (now : Int) (jobId : Str) (job : DocumentJob) (state : DocumentJobState)
    (t : Tables) : Steady (saveRows now jobId job state) t := by
  refine steady_bind (readOnly_checkRoom jobId t).1 fun _ t1 _ => ?_
  refine steady_bind (steady_write _) fun _ t2 _ => ?_
  exact steady_bind (steady_write _) fun _ t3 _ => steady_insertSegments jobId _ t3

theorem whole_saveDocumentJob (now : Int) (jobId : Str) (job : DocumentJob)
    (state : DocumentJobState) (t : Tables) : Whole (saveDocumentJob now jobId job state) t := by
  have hrows := steady_saveRows now jobId job state t
  refine whole_after_reading (readOnly_fromExcept _) fun _ => ?_
  exact whole_before_reading (whole_transaction hrows) (steady_transaction hrows)
    fun _ => readOnly_reload _ _

theorem whole_updateDocumentSegment [JsonStrings] (now : Int) (jobId : Str) (index : Nat)
    (translatedText : Str) (t : Tables) :
    Whole (updateDocumentSegment now jobId index translatedText) t := by
  unfold updateDocumentSegment
  split
  · exact whole_of_readOnly (readOnly_giveUp _)
  · refine whole_after_reading (readOnly_requireJob jobId) fun snapshot => ?_
    exact whole_after_reading (readOnly_fromExcept _) fun job =>
      whole_saveDocumentJob now jobId job (stateAfterUpdate job) t

theorem whole_setDocumentJobState (now : Int) (jobId : Str) (state : DocumentJobState)
    (t : Tables) : Whole (setDocumentJobState now jobId state) t :=
  whole_before_reading (whole_statement _) (steady_statement _) fun _ => readOnly_reload _ _

theorem whole_saveDocumentJobOptions (jobId : Str) (options : JobOptions.Options) (t : Tables) :
    Whole (saveDocumentJobOptions jobId options) t := by
  refine whole_after_reading (readOnly_fromExcept _) fun row => ?_
  exact whole_before_reading (whole_statement _) (steady_statement _) fun _ => readOnly_reload _ _

end Calls

/-- A call with faults leaves the tables as they were, with an error, or as the call
without faults leaves them. -/
theorem whole_call [JsonStrings] (call : JobCall) (t : Tables) : Whole call.program t := by
  cases call with
  | save now jobId job state => exact whole_map _ (Calls.whole_saveDocumentJob now jobId job state t)
  | update now jobId index translatedText =>
    exact whole_map _ (Calls.whole_updateDocumentSegment now jobId index translatedText t)
  | setState now jobId state =>
    exact whole_map _ (Calls.whole_setDocumentJobState now jobId state t)
  | saveOptions jobId options =>
    exact whole_map _ (Calls.whole_saveDocumentJobOptions jobId options t)
  | delete jobId => exact whole_map _ (whole_statement _)
  | clear => exact whole_map _ (whole_statement _)

end LinguaMesh.Storage
