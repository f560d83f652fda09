import LinguaMesh.Lib.Runs
import LinguaMesh.Storage.Jobs

/-!
# States of stored jobs

`set_document_job_state` writes any state over any job, so the completion
invariant holds along the runs that mark only finished jobs as completed
(`completed_of_finished`), and not along all runs.

`update_document_segment` writes `Running` or `Completed` over any state: a
paused or cancelled job stays as it is through a sequence of updates exactly
when none of them is accepted (`stopped_iff_rejected`).
-/

namespace LinguaMesh.Storage

open Runs

/-! ## Completion -/

/-- A row of a prose segment without a translation. -/
def SegmentRow.isPending (row : SegmentRow) : Bool :=
  row.kind == documentSegmentKindName .prose && row.translatedText.isNone

theorem segmentRow_isPending (jobId : Str) (s : DocumentSegment) :
    (segmentRow jobId s).isPending = s.isPending := by
  unfold SegmentRow.isPending DocumentSegment.isPending segmentRow
  cases s.kind <;> rfl

section Completion

variable [JobOptions]

/-- No segment of the job `jobId` waits for a translation. -/
def Finished (t : Tables) (jobId : Str) : Prop :=
  ∀ s ∈ t.segments, s.jobId = jobId → s.isPending = false

/-- The completion invariant. -/
def CompletedFinished (t : Tables) : Prop :=
  ∀ row ∈ t.jobs, row.state = documentJobStateName .completed → Finished t row.jobId

instance (t : Tables) (jobId : Str) : Decidable (Finished t jobId) :=
  inferInstanceAs (Decidable (∀ s ∈ t.segments, s.jobId = jobId → s.isPending = false))

instance (t : Tables) : Decidable (CompletedFinished t) :=
  inferInstanceAs (Decidable (∀ row ∈ t.jobs, row.state = documentJobStateName .completed →
    Finished t row.jobId))

/-- An operation that marks a job as completed finds it finished. -/
def MarksFinished (t : Tables) : JobOp → Prop
  | .setState _ jobId state => state = .completed → Finished t jobId
  | _ => True

theorem completed_of_transaction {now : Int} {jobId : Str} {job : DocumentJob}
    {state : DocumentJobState} {t t' : Tables} (h : CompletedFinished t)
    (hc : checkSave jobId job state = .ok ())
    (hs : saveTransaction now jobId job state t = .ok t') : CompletedFinished t' := by
  obtain ⟨hjobs, hsegments, -⟩ := saveTransaction_ok hs
  intro row hrow hstate s hmem hid
  rw [hjobs] at hrow
  rw [hsegments] at hmem
  rcases mem_upsertJob hrow with ⟨hjob, hname⟩ | ⟨hne, hold⟩
  · -- the saved job: its rows are those of a job that passed the check
    have hcompleted : state = .completed := documentJobStateName_inj (hname.symm.trans hstate)
    rcases List.mem_append.mp hmem with hmem | hmem
    · have hkept := (List.mem_filter.mp hmem).2
      rw [hid, hjob] at hkept
      simp at hkept
    · obtain ⟨segment, hsegment, rfl⟩ := List.mem_map.mp hmem
      rw [segmentRow_isPending]
      have hzero := List.length_eq_zero_iff.mp (checkSave_pending (hcompleted ▸ hc))
      exact Bool.eq_false_of_not_eq_true (List.filter_eq_nil_iff.mp hzero segment hsegment)
  · -- another job: its rows were kept
    rcases List.mem_append.mp hmem with hmem | hmem
    · exact h row hold hstate s (List.mem_filter.mp hmem).1 hid
    · obtain ⟨segment, -, rfl⟩ := List.mem_map.mp hmem
      exact absurd hid.symm hne

theorem completed_of_save (now : Int) (jobId : Str) (job : DocumentJob) (state : DocumentJobState)
    {t : Tables} (h : CompletedFinished t) :
    CompletedFinished (saveDocumentJob now jobId job state t).2 := by
  rcases saveDocumentJob_cases now jobId job state t with hs | ⟨hc, hs⟩
  · rw [hs]
    exact h
  · exact completed_of_transaction h hc hs

theorem completed_of_update [JsonStrings] (now : Int) (jobId : Str) (index : Nat) (translatedText : Str)
    {t : Tables} (h : CompletedFinished t) :
    CompletedFinished (updateDocumentSegment now jobId index translatedText t).2 := by
  unfold updateDocumentSegment
  cases editedJob t jobId index translatedText with
  | error e => exact h
  | ok job => exact completed_of_save now jobId job (stateAfterUpdate job) h

theorem completed_of_setState {now : Int} {jobId : Str} {state : DocumentJobState} {t : Tables}
    (h : CompletedFinished t) (hm : state = .completed → Finished t jobId) :
    CompletedFinished (setDocumentJobState now jobId state t).2 := by
  unfold setDocumentJobState
  split
  · exact h
  · intro row hrow hstate
    obtain ⟨row', hrow', rfl⟩ := List.mem_map.mp hrow
    split at hstate
    · rename_i he
      rw [if_pos he, he]
      exact hm (documentJobStateName_inj hstate)
    · rename_i hne
      rw [if_neg hne]
      exact h row' hrow' hstate

theorem completed_of_delete (jobId : Str) {t : Tables} (h : CompletedFinished t) :
    CompletedFinished (deleteDocumentJob jobId t).2 :=
  fun row hrow hstate s hs =>
    h row (List.mem_of_mem_filter hrow) hstate s (List.mem_of_mem_filter hs)

theorem completed_of_saveOptions (jobId : Str) (options : JobOptions.Options) {t : Tables}
    (h : CompletedFinished t) : CompletedFinished (saveDocumentJobOptions jobId options t).2 := by
  unfold saveDocumentJobOptions
  cases JobOptions.encode options with
  | error e => exact h
  | ok row =>
    simp only
    split
    · exact h
    · exact h

/-- Every operation that marks only a finished job as completed keeps the invariant. -/
theorem completed_step [JsonStrings] {t t' : Tables} {op : JobOp} (h : CompletedFinished t)
    (hm : MarksFinished t op) (ht : op.step t = some t') : CompletedFinished t' := by
  cases ht
  cases op with
  | save now jobId job state => exact completed_of_save now jobId job state h
  | update now jobId index translatedText => exact completed_of_update now jobId index translatedText h
  | setState now jobId state => exact completed_of_setState h hm
  | delete jobId => exact completed_of_delete jobId h
  | saveOptions jobId options => exact completed_of_saveOptions jobId options h

/-- In every run from an empty store that marks only finished jobs as completed, a completed
job has no prose segment without a translation. -/
theorem completed_of_finished [JsonStrings] {t : Tables}
    (h : Reach JobOp.step MarksFinished emptyTables t) : CompletedFinished t :=
  h.invariant (fun _ hrow => absurd hrow List.not_mem_nil) fun _ _ _ => completed_step

end Completion

/-- A text job of two lines, with the translations given. -/
def twoLines (first second : Option Str) : DocumentJob :=
  ⟨.txt, "a.txt".toList, [⟨0, .prose, ['A'], first, ['\n']⟩, ⟨1, .prose, ['B'], second, []⟩], none⟩

def jobName : Str := ['j']

/-- Tables without options, of jobs that are not JSON. -/
@[reducible] def noOptions : JobOptions := ⟨Unit, Unit, fun _ => .ok (), fun _ => .ok ()⟩

@[reducible] def plainStrings : JsonStrings := ⟨fun _ => none⟩

/-- The tables after a job was saved as running and its state was set. -/
def savedThen [JobOptions] (job : DocumentJob) (state : DocumentJobState) : Tables :=
  (setDocumentJobState 1 jobName state (saveDocumentJob 0 jobName job .running emptyTables).2).2

theorem savedThen_reach [JobOptions] [JsonStrings] {job : DocumentJob} {state : DocumentJobState}
    {ok : Tables → JobOp → Prop} (h1 : ok emptyTables (.save 0 jobName job .running))
    (h2 : ok (saveDocumentJob 0 jobName job .running emptyTables).2 (.setState 1 jobName state)) :
    Reach JobOp.step ok emptyTables (savedThen job state) :=
  (Reach.refl.next h1 rfl).next h2 rfl

section Lines

local instance : JobOptions := noOptions
local instance : JsonStrings := plainStrings

theorem completed_of_finished_twoLines :
    CompletedFinished (savedThen (twoLines (some ['C']) (some ['D'])) .completed) :=
  completed_of_finished (savedThen_reach trivial fun _ => by decide +kernel)

/-- A job is marked as completed while its second line waits. -/
theorem completed_unfinished :
    Reach JobOp.step (fun _ _ => True) emptyTables (savedThen (twoLines (some ['C']) none) .completed) ∧
      ¬ CompletedFinished (savedThen (twoLines (some ['C']) none) .completed) :=
  ⟨savedThen_reach trivial trivial, by decide +kernel⟩

end Lines

/-! ## Pause and cancellation -/

/-- The update has a text within the limit, for a prose segment of a job that can be loaded,
and leaves the translations of the job within the limit. -/
def Accepts [JobOptions] [JsonStrings] (t : Tables) (jobId : Str) (index : Nat) (translatedText : Str) : Prop :=
  utf8Len translatedText ≤ maxDocumentJobTextBytes ∧
    ∃ snapshot job, loadDocumentJob t jobId = .ok (some snapshot) ∧
      snapshot.job.applyTranslation index translatedText = .ok job ∧
      translatedBytes job.segments ≤ maxDocumentJobTextBytes

/-- A late result: an update call on the job, with the clock reading of its save. -/
structure SegmentUpdate where
  now : Int
  index : Nat
  translatedText : Str

section Updates

variable [JobOptions] [JsonStrings] {t : Tables} {jobId : Str}

/-- The tables after a sequence of updates of one job. -/
def applyUpdates (jobId : Str) (t : Tables) (updates : List SegmentUpdate) : Tables :=
  updates.foldl (fun t u => (updateDocumentSegment u.now jobId u.index u.translatedText t).2) t

/-- The job is there and its state is one that an update writes. -/
def Advanced (t : Tables) (jobId : Str) : Prop :=
  ∃ row, findJob t jobId = some row ∧ ∃ job, row.state = documentJobStateName (stateAfterUpdate job)

/-- The checks of the save that an accepted update makes. -/
theorem checkSave_edited {snapshot : DocumentJobSnapshot} {job : DocumentJob} {u : SegmentUpdate}
    (hl : loadDocumentJob t jobId = .ok (some snapshot))
    (he : snapshot.job.applyTranslation u.index u.translatedText = .ok job)
    (hb : translatedBytes job.segments ≤ maxDocumentJobTextBytes) :
    checkSave jobId job (stateAfterUpdate job) = .ok () := by
  obtain ⟨row, hstored, -⟩ := loadDocumentJob_ok hl
  unfold checkSave
  rw [validate_edited hstored.validated he hb, Except.ok_bind, if_neg]
  unfold stateAfterUpdate
  split
  · rename_i hzero
    exact fun h => h.2 hzero
  · exact fun h => by cases h.1

/-- A rejected update changes nothing. -/
theorem rejected_update {u : SegmentUpdate} (h : ¬ Accepts t jobId u.index u.translatedText) :
    (updateDocumentSegment u.now jobId u.index u.translatedText t).2 = t := by
  unfold updateDocumentSegment
  cases hj : editedJob t jobId u.index u.translatedText with
  | error e => rfl
  | ok job =>
    rcases saveDocumentJob_cases u.now jobId job (stateAfterUpdate job) t with hs | ⟨hc, -⟩
    · exact hs
    · obtain ⟨hlen, snapshot, hl, he⟩ := editedJob_ok.mp hj
      have hsize := (validate_iff.mp (validate_of_checkSave hc)).size
      exact absurd ⟨hlen, snapshot, job, hl, he, by simpa using (not_or.mp hsize).2⟩ h

/-- An accepted update writes its state over the one that was there. -/
theorem accepted_update {u : SegmentUpdate} (h : Accepts t jobId u.index u.translatedText) :
    Advanced (updateDocumentSegment u.now jobId u.index u.translatedText t).2 jobId := by
  obtain ⟨hlen, snapshot, job, hl, he, hb⟩ := h
  have hj : editedJob t jobId u.index u.translatedText = .ok job :=
    editedJob_ok.mpr ⟨hlen, snapshot, hl, he⟩
  have hc := checkSave_edited hl he hb
  have hv := validate_of_checkSave hc
  obtain ⟨row, hstored, -⟩ := loadDocumentJob_ok hl
  have hroom : findJob t jobId ≠ none := by
    rw [hstored.found]
    exact Option.some_ne_none row
  obtain ⟨t', hs⟩ : ∃ t', saveTransaction u.now jobId job (stateAfterUpdate job) t = .ok t' :=
    saveTransaction_run hv (.inl hroom)
  obtain ⟨row', hstored', hstate⟩ := stored_of_save hs hv
  unfold updateDocumentSegment saveDocumentJob
  simp only [hj, hc, hs]
  exact ⟨row', hstored'.found, job, hstate⟩

/-- What an update has written stays within what updates write. -/
theorem advanced_updates (updates : List SegmentUpdate) (h : Advanced t jobId) :
    Advanced (applyUpdates jobId t updates) jobId := by
  induction updates generalizing t with
  | nil => exact h
  | cons u updates ih =>
    refine ih ?_
    change Advanced (updateDocumentSegment u.now jobId u.index u.translatedText t).2 jobId
    by_cases ha : Accepts t jobId u.index u.translatedText
    · exact accepted_update ha
    · rw [rejected_update ha]
      exact h

/-- A job that is paused or cancelled keeps its state through a sequence of updates exactly
when the store accepts none of them. -/
theorem stopped_iff_rejected {row : JobRow} (hrow : findJob t jobId = some row)
    (hstopped : row.state = documentJobStateName .paused ∨
      row.state = documentJobStateName .cancelled) (updates : List SegmentUpdate) :
    (∃ row', findJob (applyUpdates jobId t updates) jobId = some row' ∧ row'.state = row.state) ↔
      ∀ u ∈ updates, ¬ Accepts t jobId u.index u.translatedText := by
  induction updates with
  | nil => exact ⟨fun _ u hu => absurd hu List.not_mem_nil, fun _ => ⟨row, hrow, rfl⟩⟩
  | cons u updates ih =>
    rw [List.forall_mem_cons]
    by_cases ha : Accepts t jobId u.index u.translatedText
    · refine ⟨fun ⟨row', hrow', hstate⟩ => ?_, fun h => absurd ha h.1⟩
      obtain ⟨row'', hrow'', job, hjob⟩ := advanced_updates updates (accepted_update ha)
      have he : row' = row'' := Option.some.inj (hrow'.symm.trans hrow'')
      rw [← he, hstate] at hjob
      unfold stateAfterUpdate at hjob
      rcases hstopped with hs | hs <;> rw [hs] at hjob <;> split at hjob <;>
        exact nomatch documentJobStateName_inj hjob
    · have hsame : applyUpdates jobId t (u :: updates) = applyUpdates jobId t updates :=
        congrArg (fun t => applyUpdates jobId t updates) (rejected_update ha)
      rw [hsame, ih]
      exact ⟨fun h => ⟨ha, h⟩, fun h => h.2⟩

end Updates

section Late

local instance : JobOptions := noOptions
local instance : JsonStrings := plainStrings

/-- A late result for a line that is not there leaves the paused job paused. -/
theorem stopped_iff_rejected_paused :
    (∃ row', findJob (applyUpdates jobName (savedThen (twoLines none none) .paused)
        [⟨2, 7, ['C']⟩]) jobName = some row' ∧ row'.state = "paused") ↔
      ∀ u ∈ [SegmentUpdate.mk 2 7 ['C']],
        ¬ Accepts (savedThen (twoLines none none) .paused) jobName u.index u.translatedText :=
  @stopped_iff_rejected _ _ _ _ ⟨jobName, "paused", "txt", "a.txt".toList, none, 0, 1⟩
    (by decide +kernel) (.inl rfl) _

/-- A late result for the first line sets the paused job running, and one for the last line
completes a cancelled job. -/
theorem stopped_overwritten :
    Reach JobOp.step (fun _ _ => True) emptyTables (savedThen (twoLines none none) .paused) ∧
      (findJob (savedThen (twoLines none none) .paused) jobName).map (·.state) = some "paused" ∧
      (findJob (applyUpdates jobName (savedThen (twoLines none none) .paused) [⟨2, 0, ['C']⟩])
        jobName).map (·.state) = some "running" ∧
      (findJob (applyUpdates jobName (savedThen (twoLines (some ['C']) none) .cancelled)
        [⟨2, 1, ['D']⟩]) jobName).map (·.state) = some "completed" :=
  ⟨savedThen_reach trivial trivial, by decide +kernel, by decide +kernel, by decide +kernel⟩

end Late

end LinguaMesh.Storage
