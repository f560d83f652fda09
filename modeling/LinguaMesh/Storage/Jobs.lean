import LinguaMesh.Storage.Tables

/-!
# Operations on stored document jobs

The public operations on the tables, each with its result and the tables after
it, and what a save leaves behind: the rows of the job it was given
(`stored_of_save`), and every other job as it was (`others_of_save`).
-/

namespace LinguaMesh.Storage

/-! ## Rows with a key -/

section Keys

variable {α : Type} {key : α → Str} {jobId jobId' : Str}

/-- A search for a key in the rows whose keys were kept. -/
theorem find_filter_keys (keep : Str → Bool) (rows : List α) :
    (rows.filter fun row => keep (key row)).find? (key · == jobId) =
      if keep jobId then rows.find? (key · == jobId) else none := by
  rw [List.find?_filter]
  cases hkeep : keep jobId with
  | true =>
    rw [if_pos rfl]
    congr 1
    funext row
    by_cases he : key row = jobId
    · simp [he, hkeep]
    · simp [he]
  | false =>
    rw [if_neg Bool.false_ne_true, List.find?_eq_none]
    intro row _ he
    simp only [decide_eq_true_eq, beq_iff_eq] at he
    exact Bool.false_ne_true (hkeep.symm.trans (he.2 ▸ he.1))

theorem find_filter_other (hne : jobId' ≠ jobId) (rows : List α) :
    (rows.filter (key · != jobId')).find? (key · == jobId) = rows.find? (key · == jobId) := by
  rw [find_filter_keys (· != jobId'), if_pos (bne_iff_ne.mpr hne.symm)]

theorem filter_filter_other (hne : jobId' ≠ jobId) (rows : List α) :
    (rows.filter (key · != jobId')).filter (key · == jobId) = rows.filter (key · == jobId) := by
  rw [List.filter_filter]
  refine List.filter_congr fun row _ => ?_
  by_cases he : key row = jobId
  · simp [he, hne.symm]
  · simp [he]

theorem find_filter_self (rows : List α) :
    (rows.filter (key · != jobId)).find? (key · == jobId) = none := by
  rw [find_filter_keys (· != jobId), if_neg (by simp)]

end Keys

/-! ## Rows of a job -/

section Rows

variable {now : Int} {jobId : Str} {job : DocumentJob} {state : DocumentJobState}

theorem insertSegments_ok {segments : List DocumentSegment} {rows rows' : List SegmentRow}
    (h : segments.foldlM (insertSegment jobId) rows = .ok rows') :
    rows' = rows ++ segments.map (segmentRow jobId) := by
  induction segments generalizing rows with
  | nil =>
    cases h
    simp
  | cons s segments ih =>
    rw [List.foldlM_cons, Except.bind_ok] at h
    obtain ⟨next, h1, h2⟩ := h
    unfold insertSegment at h1
    split at h1
    · cases h1
    · split at h1
      · cases h1
      · cases h1
        rw [ih h2]
        simp

theorem validateSegment_ok {i : Nat} {s : DocumentSegment} (h : validateSegment i s = .ok ()) :
    s.index = i ∧ s.lineEnding ∈ lineEndings := by
  unfold validateSegment at h
  split at h
  · cases h
  · rename_i hc
    simpa only [ne_eq, not_or, not_not] using hc

theorem validateSegments_cons {i : Nat} {s : DocumentSegment} {segments : List DocumentSegment} :
    validateSegments i (s :: segments) = .ok () ↔
      validateSegment i s = .ok () ∧ validateSegments (i + 1) segments = .ok () := by
  change (validateSegment i s >>= fun _ => validateSegments (i + 1) segments) = .ok () ↔ _
  rw [Except.bind_ok]
  constructor
  · rintro ⟨_, h1, h2⟩
    exact ⟨h1, h2⟩
  · rintro ⟨h1, h2⟩
    exact ⟨(), h1, h2⟩

/-- The rows of a validated job violate no constraint. -/
theorem insertSegments_run {i : Nat} {segments : List DocumentSegment} {rows : List SegmentRow}
    (h : validateSegments i segments = .ok ())
    (hrows : ∀ row ∈ rows, row.jobId = jobId → row.segmentIndex < i) :
    segments.foldlM (insertSegment jobId) rows = .ok (rows ++ segments.map (segmentRow jobId)) := by
  induction segments generalizing i rows with
  | nil => simp [pure, Except.pure]
  | cons s segments ih =>
    obtain ⟨h1, h2⟩ := validateSegments_cons.mp h
    obtain ⟨hindex, hending⟩ := validateSegment_ok h1
    have hinsert : insertSegment jobId rows s = .ok (rows ++ [segmentRow jobId s]) := by
      unfold insertSegment
      rw [if_neg (not_not.mpr hending), if_neg]
      intro hany
      obtain ⟨row, hrow, he⟩ := List.any_eq_true.mp hany
      simp only [Bool.and_eq_true, beq_iff_eq] at he
      have := hrows row hrow he.1
      omega
    rw [List.foldlM_cons, hinsert, Except.ok_bind, ih h2]
    · simp
    · intro row hrow hid
      rcases List.mem_append.mp hrow with hrow | hrow
      · have := hrows row hrow hid
        omega
      · rw [List.mem_singleton.mp hrow]
        simp only [segmentRow]
        omega

theorem le_index {i : Nat} {segments : List DocumentSegment}
    (h : validateSegments i segments = .ok ()) : ∀ s ∈ segments, i ≤ s.index := by
  induction segments generalizing i with
  | nil => exact fun s hs => absurd hs List.not_mem_nil
  | cons s segments ih =>
    obtain ⟨h1, h2⟩ := validateSegments_cons.mp h
    intro s' hs'
    rcases List.mem_cons.mp hs' with rfl | hs'
    · exact (validateSegment_ok h1).1.ge
    · have := ih h2 s' hs'
      omega

/-- The rows of a validated job are in the order of their index. -/
theorem sorted_rows {i : Nat} {segments : List DocumentSegment}
    (h : validateSegments i segments = .ok ()) :
    (segments.map (segmentRow jobId)).Pairwise fun a b => a.segmentIndex ≤ b.segmentIndex := by
  induction segments generalizing i with
  | nil => exact .nil
  | cons s segments ih =>
    obtain ⟨h1, h2⟩ := validateSegments_cons.mp h
    refine List.pairwise_cons.mpr ⟨fun row hrow => ?_, ih h2⟩
    obtain ⟨s', hs', rfl⟩ := List.mem_map.mp hrow
    have h3 := le_index h2 s' hs'
    have h4 := (validateSegment_ok h1).1
    simp only [segmentRow]
    omega

theorem toSegment_segmentRow (s : DocumentSegment) : (segmentRow jobId s).toSegment = .ok s := by
  unfold SegmentRow.toSegment segmentRow
  simp only [parse_documentSegmentKindName, Except.ok_bind]

theorem toSegments_rows (segments : List DocumentSegment) :
    (segments.map (segmentRow jobId)).mapM SegmentRow.toSegment = .ok segments := by
  induction segments with
  | nil => rfl
  | cons s segments ih =>
    rw [List.map_cons, List.mapM_cons, toSegment_segmentRow, ih]
    rfl

theorem checkSave_pending (h : checkSave jobId job .completed = .ok ()) : job.pendingCount = 0 := by
  unfold checkSave at h
  rw [Except.bind_ok] at h
  obtain ⟨-, -, h⟩ := h
  by_contra hne
  rw [if_pos ⟨rfl, hne⟩] at h
  cases h

theorem validate_of_checkSave (h : checkSave jobId job state = .ok ()) :
    validateDocumentJobIdentity jobId job = .ok () := by
  unfold checkSave at h
  rw [Except.bind_ok] at h
  obtain ⟨_, h, -⟩ := h
  exact h

/-- What an accepted identity says, check by check. -/
structure ValidIdentity (jobId : Str) (job : DocumentJob) : Prop where
  jobId : ¬ (jobId.isEmpty || 128 < utf8Len jobId || jobId.any isControl) = true
  sourceName : ¬ (job.sourceName.isEmpty || 255 < utf8Len job.sourceName ||
    job.sourceName.any (fun c => isControl c || c == '/' || c == '\\')) = true
  count : ¬ maxDocumentSegments < job.segments.length
  payload : ¬ (isPackageFormat job.format != job.package.isSome) = true
  payloadSize : ¬ (job.package.any fun package => maxDocumentBytes < package.length) = true
  segments : validateSegments 0 job.segments = .ok ()
  size : ¬ (maxDocumentJobTextBytes < sourceBytes job.segments ∨
    maxDocumentJobTextBytes < translatedBytes job.segments)

theorem validate_iff :
    validateDocumentJobIdentity jobId job = .ok () ↔ ValidIdentity jobId job := by
  unfold validateDocumentJobIdentity
  constructor
  · intro h
    split at h
    · cases h
    · rename_i h1
      split at h
      · cases h
      · rename_i h2
        split at h
        · cases h
        · rename_i h3
          split at h
          · cases h
          · rename_i h4
            split at h
            · cases h
            · rename_i h5
              rw [Except.bind_ok] at h
              obtain ⟨_, h6, h⟩ := h
              split at h
              · cases h
              · rename_i h7
                exact ⟨h1, h2, h3, h4, h5, h6, h7⟩
  · rintro ⟨h1, h2, h3, h4, h5, h6, h7⟩
    rw [if_neg h1, if_neg h2, if_neg h3, if_neg h4, if_neg h5, h6, Except.ok_bind, if_neg h7]

theorem validateSegments_of_identity (h : validateDocumentJobIdentity jobId job = .ok ()) :
    validateSegments 0 job.segments = .ok () := (validate_iff.mp h).segments

theorem mem_upsertJob {row : JobRow} {jobs : List JobRow}
    (h : row ∈ upsertJob now jobId job state jobs) :
    row.jobId = jobId ∧ row.state = documentJobStateName state ∨ row.jobId ≠ jobId ∧ row ∈ jobs := by
  unfold upsertJob at h
  split at h
  · obtain ⟨row', hrow', rfl⟩ := List.mem_map.mp h
    split
    · rename_i he
      exact .inl ⟨he, rfl⟩
    · rename_i hne
      exact .inr ⟨hne, hrow'⟩
  · rename_i hno
    rcases List.mem_append.mp h with h | h
    · refine .inr ⟨fun he => hno ?_, h⟩
      exact List.any_eq_true.mpr ⟨row, h, by simpa using he⟩
    · rw [List.mem_singleton.mp h]
      exact .inl ⟨rfl, rfl⟩

/-- An upsert of one job keeps the key of every row it meets. -/
theorem find_map_jobs {f : JobRow → JobRow} (hf : ∀ row, (f row).jobId = row.jobId)
    (jobs : List JobRow) (jobId' : Str) :
    (jobs.map f).find? (·.jobId == jobId') = (jobs.find? (·.jobId == jobId')).map f := by
  rw [List.find?_map]
  exact congrArg (Option.map f) (congrArg (List.find? · jobs) (funext fun row => by simp [hf]))

/-- The row of the job after an upsert. -/
theorem find_upsertJob (jobs : List JobRow) :
    ∃ row, (upsertJob now jobId job state jobs).find? (·.jobId == jobId) = some row ∧
      row.jobId = jobId ∧ row.state = documentJobStateName state ∧
      row.format = documentFormatName job.format ∧ row.sourceName = job.sourceName ∧
      row.packageBlob = job.package := by
  unfold upsertJob
  split
  · rename_i hany
    obtain ⟨row, hrow⟩ := Option.isSome_iff_exists.mp (List.find?_isSome.mpr (List.any_eq_true.mp hany))
    have hid : row.jobId = jobId := by simpa using List.find?_some hrow
    rw [find_map_jobs (fun row => by split <;> rfl), hrow]
    exact ⟨_, rfl, by simp [hid]⟩
  · rename_i hno
    have hnone : jobs.find? (·.jobId == jobId) = none := by
      rw [List.find?_eq_none]
      exact fun row hrow he => hno (List.any_eq_true.mpr ⟨row, hrow, he⟩)
    rw [List.find?_append, hnone]
    exact ⟨⟨jobId, documentJobStateName state, documentFormatName job.format, job.sourceName,
      job.package, now, now⟩, by simp, rfl, rfl, rfl, rfl, rfl⟩

theorem find_upsertJob_other {jobId' : Str} (hne : jobId' ≠ jobId) (jobs : List JobRow) :
    (upsertJob now jobId job state jobs).find? (·.jobId == jobId') =
      jobs.find? (·.jobId == jobId') := by
  unfold upsertJob
  split
  · rw [find_map_jobs fun row => by split <;> rfl]
    cases hrow : jobs.find? (·.jobId == jobId') with
    | none => rfl
    | some row =>
      have hid : row.jobId = jobId' := by simpa using List.find?_some hrow
      simp [hid, hne]
  · rw [List.find?_append]
    simp [Ne.symm hne]

theorem jobOfRows_ok {row : JobRow} {rows : List SegmentRow}
    (h : jobOfRows row rows = .ok job) : rows.mapM SegmentRow.toSegment = .ok job.segments ∧
      parseDocumentFormat row.format = .ok job.format ∧ job.sourceName = row.sourceName ∧
      job.package = row.packageBlob ∧ validateDocumentJobIdentity row.jobId job = .ok () := by
  unfold jobOfRows at h
  rw [Except.bind_ok] at h
  obtain ⟨segments, hsegments, h⟩ := h
  rw [Except.bind_ok] at h
  obtain ⟨format, hformat, h⟩ := h
  simp only at h
  rw [Except.bind_ok] at h
  obtain ⟨_, hv, h⟩ := h
  cases h
  exact ⟨hsegments, hformat, rfl, rfl, hv⟩

theorem jobOfRows_segmentRows {row : JobRow} (hid : row.jobId = jobId)
    (hformat : row.format = documentFormatName job.format) (hname : row.sourceName = job.sourceName)
    (hpackage : row.packageBlob = job.package)
    (hv : validateDocumentJobIdentity jobId job = .ok ()) :
    jobOfRows row (job.segments.map (segmentRow jobId)) = .ok job := by
  unfold jobOfRows
  simp only [toSegments_rows, hformat, parse_documentFormatName, hname, hpackage, hid,
    Except.ok_bind, hv]

theorem validateSegments_set {i k : Nat} {segments : List DocumentSegment} {s : DocumentSegment}
    {translated : Str} (h : validateSegments k segments = .ok ()) (hs : segments[i]? = some s)
    (hk : s.kind = .prose) :
    validateSegments k (segments.set i { s with translatedText := some translated }) = .ok () := by
  induction segments generalizing i k with
  | nil => cases hs
  | cons s' segments ih =>
    obtain ⟨h1, h2⟩ := validateSegments_cons.mp h
    cases i with
    | zero =>
      cases hs
      refine validateSegments_cons.mpr ⟨?_, h2⟩
      obtain ⟨hindex, hending⟩ := validateSegment_ok h1
      unfold validateSegment
      rw [if_neg (by simp [hindex, hending]), if_neg (by simp [hk])]
    | succ i => exact validateSegments_cons.mpr ⟨h1, ih h2 hs⟩

theorem map_set_same {α β : Type} {f : α → β} {l : List α} {i : Nat} {a b : α}
    (hl : l[i]? = some a) (h : f b = f a) : (l.set i b).map f = l.map f := by
  obtain ⟨hlt, rfl⟩ := List.getElem?_eq_some_iff.mp hl
  rw [List.map_set, h, ← List.map_set, List.set_getElem_self]

theorem sourceBytes_set {i : Nat} {segments : List DocumentSegment} {s : DocumentSegment}
    {translated : Option Str} (hs : segments[i]? = some s) :
    sourceBytes (segments.set i { s with translatedText := translated }) = sourceBytes segments := by
  exact congrArg List.sum (map_set_same hs rfl)

/-- A validated job stays so with a translation that keeps the limit. -/
theorem validate_edited [JsonStrings] {job' : DocumentJob} {index : Nat} {translated : Str}
    (hv : validateDocumentJobIdentity jobId job = .ok ())
    (he : job.applyTranslation index translated = .ok job')
    (hb : translatedBytes job'.segments ≤ maxDocumentJobTextBytes) :
    validateDocumentJobIdentity jobId job' = .ok () := by
  obtain ⟨s, hs, hk, rfl⟩ := DocumentJob.applyTranslation_ok he
  have hv := validate_iff.mp hv
  refine validate_iff.mpr { hv with
    count := by simpa only [List.length_set] using hv.count
    segments := validateSegments_set hv.segments hs hk
    size := ?_ }
  have hsize := hv.size
  rw [sourceBytes_set hs]
  simp only [not_or, not_lt] at hsize hb ⊢
  exact ⟨hsize.1, hb⟩

end Rows

variable [JobOptions]

/-! ## Operations -/

def saveDocumentJob (now : Int) (jobId : Str) (job : DocumentJob) (state : DocumentJobState)
    (t : Tables) : Except TranslationError DocumentJobSnapshot × Tables :=
  match checkSave jobId job state with
  | .error e => (.error e, t)
  | .ok _ =>
    match saveTransaction now jobId job state t with
    | .error e => (.error e, t)
    | .ok t' => (reload t' jobId "The saved document job could not be reloaded.", t')

/-- The state after an update: completed when no prose segment is left. -/
def stateAfterUpdate (job : DocumentJob) : DocumentJobState :=
  if job.pendingCount = 0 then .completed else .running

/-- The snapshot of a job that has to be there. -/
def requireJob (t : Tables) (jobId : Str) : Except TranslationError DocumentJobSnapshot := do
  match ← loadDocumentJob t jobId with
  | some snapshot => .ok snapshot
  | none => .error (.new .invalidConfiguration "The document job was not found.")

/-- What `update_document_segment` is going to save. -/
def editedJob [JsonStrings] (t : Tables) (jobId : Str) (index : Nat) (translatedText : Str) :
    Except TranslationError DocumentJob :=
  if maxDocumentJobTextBytes < utf8Len translatedText then
    .error (documentConfigurationError
      "The translated document segment exceeds the local size limit.")
  else do
    let snapshot ← requireJob t jobId
    (snapshot.job.applyTranslation index translatedText).mapError mapDocumentError

def updateDocumentSegment [JsonStrings] (now : Int) (jobId : Str) (index : Nat) (translatedText : Str)
    (t : Tables) : Except TranslationError DocumentJobSnapshot × Tables :=
  match editedJob t jobId index translatedText with
  | .error e => (.error e, t)
  | .ok job => saveDocumentJob now jobId job (stateAfterUpdate job) t

def setState (now : Int) (jobId : Str) (state : DocumentJobState) (jobs : List JobRow) :
    List JobRow :=
  jobs.map fun row =>
    if row.jobId = jobId then { row with state := documentJobStateName state, updatedAt := now }
    else row

def setDocumentJobState (now : Int) (jobId : Str) (state : DocumentJobState) (t : Tables) :
    Except TranslationError DocumentJobSnapshot × Tables :=
  if (findJob t jobId).isNone then
    (.error (.new .invalidConfiguration "The document job was not found."), t)
  else
    let t' : Tables := { t with jobs := setState now jobId state t.jobs }
    (reload t' jobId "The document job state could not be reloaded.", t')

/-- `DELETE FROM document_jobs`, which cascades; the result says whether a row was there. -/
def deleteDocumentJob (jobId : Str) (t : Tables) : Bool × Tables :=
  ((findJob t jobId).isSome,
    ⟨t.jobs.filter (·.jobId != jobId), t.segments.filter (·.jobId != jobId),
      t.options.filter (·.1 != jobId)⟩)

def upsertOptions (jobId : Str) (row : JobOptions.Row) (options : List (Str × JobOptions.Row)) :
    List (Str × JobOptions.Row) :=
  if options.any (·.1 == jobId) then options.map fun o => if o.1 = jobId then (jobId, row) else o
  else options ++ [(jobId, row)]

def saveDocumentJobOptions (jobId : Str) (options : JobOptions.Options) (t : Tables) :
    Except TranslationError DocumentJobSnapshot × Tables :=
  match JobOptions.encode options with
  | .error e => (.error e, t)
  | .ok row =>
    if (findJob t jobId).isNone then (.error (mapError "FOREIGN KEY constraint failed"), t)
    else
      let t' : Tables := { t with options := upsertOptions jobId row t.options }
      (reload t' jobId "The document job options could not be reloaded.", t')

/-- An operation with its arguments and the clock reading. -/
inductive JobOp where
  | save (now : Int) (jobId : Str) (job : DocumentJob) (state : DocumentJobState)
  | update (now : Int) (jobId : Str) (index : Nat) (translatedText : Str)
  | setState (now : Int) (jobId : Str) (state : DocumentJobState)
  | delete (jobId : Str)
  | saveOptions (jobId : Str) (options : JobOptions.Options)

/-- The tables after an operation, whatever it returned. -/
def JobOp.perform [JsonStrings] (t : Tables) : JobOp → Tables
  | save now jobId job state => (saveDocumentJob now jobId job state t).2
  | update now jobId index translatedText =>
    (updateDocumentSegment now jobId index translatedText t).2
  | setState now jobId state => (setDocumentJobState now jobId state t).2
  | delete jobId => (deleteDocumentJob jobId t).2
  | saveOptions jobId options => (saveDocumentJobOptions jobId options t).2

def JobOp.step [JsonStrings] (t : Tables) (op : JobOp) : Option Tables := some (op.perform t)

def emptyTables : Tables := ⟨[], [], []⟩

/-! ## What a save leaves -/

section Save

variable {now : Int} {jobId : Str} {job : DocumentJob} {state : DocumentJobState} {t t' : Tables}

theorem saveTransaction_ok (h : saveTransaction now jobId job state t = .ok t') :
    t'.jobs = upsertJob now jobId job state t.jobs ∧
      t'.segments = t.segments.filter (·.jobId != jobId) ++ job.segments.map (segmentRow jobId) ∧
      t'.options = t.options := by
  unfold saveTransaction at h
  split at h
  · cases h
  · rw [Except.bind_ok] at h
    obtain ⟨segments, h1, h2⟩ := h
    cases h2
    exact ⟨rfl, insertSegments_ok h1, rfl⟩

/-- A save either leaves the tables alone, or passed its checks and committed. -/
theorem saveDocumentJob_cases (now : Int) (jobId : Str) (job : DocumentJob)
    (state : DocumentJobState) (t : Tables) :
    (saveDocumentJob now jobId job state t).2 = t ∨ checkSave jobId job state = .ok () ∧
      saveTransaction now jobId job state t = .ok (saveDocumentJob now jobId job state t).2 := by
  unfold saveDocumentJob
  cases hc : checkSave jobId job state with
  | error e => exact .inl rfl
  | ok u =>
    cases hs : saveTransaction now jobId job state t with
    | error e => exact .inl rfl
    | ok t' => exact .inr ⟨rfl, rfl⟩

/-- The job `jobId` is stored in `row` and its segment rows, and reads as `job`. -/
structure Stored (t : Tables) (jobId : Str) (row : JobRow) (job : DocumentJob) : Prop where
  found : findJob t jobId = some row
  reads : jobOfRows row (selectSegments t jobId) = .ok job

theorem findJob_id {row : JobRow} (h : findJob t jobId = some row) : row.jobId = jobId := by
  simpa using List.find?_some h

theorem Stored.validated {row : JobRow} (h : Stored t jobId row job) :
    validateDocumentJobIdentity jobId job = .ok () := by
  obtain ⟨-, -, -, -, hv⟩ := jobOfRows_ok h.reads
  rwa [findJob_id h.found] at hv

theorem loadDocumentJob_ok {snapshot : DocumentJobSnapshot}
    (h : loadDocumentJob t jobId = .ok (some snapshot)) :
    ∃ row, Stored t jobId row snapshot.job ∧ parseDocumentJobState row.state = .ok snapshot.state := by
  unfold loadDocumentJob at h
  cases hrow : findJob t jobId with
  | none => simp [hrow] at h
  | some row =>
    simp only [hrow] at h
    rw [Except.bind_ok] at h
    obtain ⟨job, hjob, h⟩ := h
    rw [Except.bind_ok] at h
    obtain ⟨options, -, h⟩ := h
    rw [Except.bind_ok] at h
    obtain ⟨snapshot', hsnapshot, h⟩ := h
    cases h
    unfold snapshotOf at hsnapshot
    rw [Except.bind_ok] at hsnapshot
    obtain ⟨state, hstate, hsnapshot⟩ := hsnapshot
    cases hsnapshot
    exact ⟨row, ⟨hrow, hjob⟩, hstate⟩

theorem editedJob_ok [JsonStrings] {index : Nat} {translatedText : Str} :
    editedJob t jobId index translatedText = .ok job ↔
      utf8Len translatedText ≤ maxDocumentJobTextBytes ∧
        ∃ snapshot, loadDocumentJob t jobId = .ok (some snapshot) ∧
          snapshot.job.applyTranslation index translatedText = .ok job := by
  unfold editedJob
  split
  · rename_i hlt
    exact ⟨(nomatch ·), fun h => absurd h.1 (not_le.mpr hlt)⟩
  · rename_i hle
    rw [Except.bind_ok]
    refine ⟨fun ⟨snapshot, h1, h2⟩ => ⟨not_lt.mp hle, snapshot, ?_, Except.mapError_ok.mp h2⟩,
      fun ⟨_, snapshot, h1, h2⟩ => ⟨snapshot, ?_, Except.mapError_ok.mpr h2⟩⟩
    · unfold requireJob at h1
      rw [Except.bind_ok] at h1
      obtain ⟨found, hfound, h1⟩ := h1
      cases found with
      | none => cases h1
      | some snapshot' =>
        cases h1
        exact hfound
    · unfold requireJob
      rw [h1]
      rfl

theorem selectSegments_of_save (hs : saveTransaction now jobId job state t = .ok t')
    (hv : validateSegments 0 job.segments = .ok ()) :
    selectSegments t' jobId = job.segments.map (segmentRow jobId) := by
  obtain ⟨-, hsegments, -⟩ := saveTransaction_ok hs
  have hkept : (t.segments.filter (·.jobId != jobId)).filter (·.jobId == jobId) = [] := by
    rw [List.filter_filter, List.filter_eq_nil_iff]
    intro row _ h
    simp at h
  have hnew : (job.segments.map (segmentRow jobId)).filter (·.jobId == jobId) =
      job.segments.map (segmentRow jobId) := by
    rw [List.filter_eq_self]
    intro row hrow
    obtain ⟨s, -, rfl⟩ := List.mem_map.mp hrow
    exact beq_self_eq_true _
  unfold selectSegments
  rw [hsegments, List.filter_append, hkept, hnew, List.nil_append]
  exact (sorted_rows hv).insertionSort_eq

/-- After a save the job is stored as it was given. -/
theorem stored_of_save (hs : saveTransaction now jobId job state t = .ok t')
    (hv : validateDocumentJobIdentity jobId job = .ok ()) :
    ∃ row, Stored t' jobId row job ∧ row.state = documentJobStateName state := by
  obtain ⟨hjobs, -, -⟩ := saveTransaction_ok hs
  obtain ⟨row, hrow, hid, hstate, hformat, hname, hpackage⟩ :=
    @find_upsertJob now jobId job state t.jobs
  refine ⟨row, ⟨?_, ?_⟩, hstate⟩
  · unfold findJob
    rw [hjobs]
    exact hrow
  · rw [selectSegments_of_save hs (validateSegments_of_identity hv)]
    exact jobOfRows_segmentRows hid hformat hname hpackage hv

/-- A save leaves the rows of every other job alone. -/
theorem others_of_save (hs : saveTransaction now jobId job state t = .ok t') {jobId' : Str}
    (hne : jobId' ≠ jobId) :
    findJob t' jobId' = findJob t jobId' ∧ selectSegments t' jobId' = selectSegments t jobId' := by
  obtain ⟨hjobs, hsegments, -⟩ := saveTransaction_ok hs
  constructor
  · unfold findJob
    rw [hjobs]
    exact find_upsertJob_other hne t.jobs
  · have hkept : (t.segments.filter (·.jobId != jobId)).filter (·.jobId == jobId') =
        t.segments.filter (·.jobId == jobId') := filter_filter_other hne.symm _
    have hnew : (job.segments.map (segmentRow jobId)).filter (·.jobId == jobId') = [] := by
      rw [List.filter_eq_nil_iff]
      intro row hrow
      obtain ⟨s, -, rfl⟩ := List.mem_map.mp hrow
      simpa [segmentRow] using Ne.symm hne
    unfold selectSegments
    rw [hsegments, List.filter_append, hkept, hnew, List.append_nil]

/-- A validated job that is there, or for which there is room, can be saved. -/
theorem saveTransaction_run (hv : validateDocumentJobIdentity jobId job = .ok ())
    (hroom : findJob t jobId ≠ none ∨ t.jobs.length < maxDocumentJobs) :
    ∃ t', saveTransaction now jobId job state t = .ok t' := by
  unfold saveTransaction
  rw [if_neg]
  · rw [insertSegments_run (validateSegments_of_identity hv)]
    · exact ⟨_, rfl⟩
    · intro row hrow hid
      have hne := (List.mem_filter.mp hrow).2
      rw [hid] at hne
      simp at hne
  · simp only [Bool.and_eq_true, Option.isNone_iff_eq_none, decide_eq_true_eq, not_and, not_le]
    exact fun hnone => hroom.resolve_left fun h => h hnone

end Save

end LinguaMesh.Storage
