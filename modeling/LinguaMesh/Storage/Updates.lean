import LinguaMesh.Lib.Runs
import LinguaMesh.Storage.Handles
import LinguaMesh.Storage.States

/-!
# Segment updates over several handles

The calls of any number of handles, whose steps interleave freely with each other
and with other operations. The transaction of a call writes every segment as it
was read. So an update that commits between another one's read and its commit is
overwritten (`updates_lost`); without that, no update is lost (`updates_kept`).
-/

namespace LinguaMesh.Storage

open Runs

/-! ## Jobs that differ in translations -/

/-- The parts of a job row that make the job. -/
def ReadsAs (row : JobRow) (job : DocumentJob) : Prop :=
  parseDocumentFormat row.format = .ok job.format ∧ job.sourceName = row.sourceName ∧
    job.package = row.packageBlob

theorem readsAs_of_rows {row : JobRow} {rows : List SegmentRow} {job : DocumentJob}
    (h : jobOfRows row rows = .ok job) : ReadsAs row job := by
  obtain ⟨-, hformat, hname, hpackage, -⟩ := jobOfRows_ok h
  exact ⟨hformat, hname, hpackage⟩

/-- The segment rows and the parts of the job row determine the job. -/
theorem jobOfRows_same {row row' : JobRow} {rows : List SegmentRow} {job0 job job' : DocumentJob}
    (hr : ReadsAs row job0) (hr' : ReadsAs row' job0) (h : jobOfRows row rows = .ok job)
    (h' : jobOfRows row' rows = .ok job') : job = job' := by
  obtain ⟨hsegments, hformat, hname, hpackage, -⟩ := jobOfRows_ok h
  obtain ⟨hsegments', hformat', hname', hpackage', -⟩ := jobOfRows_ok h'
  have h1 : job.segments = job'.segments := Except.ok.inj (hsegments.symm.trans hsegments')
  have h2 : job.format = job'.format :=
    (Except.ok.inj (hformat.symm.trans hr.1)).trans (Except.ok.inj (hformat'.symm.trans hr'.1)).symm
  have h3 : job.sourceName = job'.sourceName :=
    (hname.trans hr.2.1.symm).trans (hname'.trans hr'.2.1.symm).symm
  have h4 : job.package = job'.package :=
    (hpackage.trans hr.2.2.symm).trans (hpackage'.trans hr'.2.2.symm).symm
  cases job
  cases job'
  simp_all only

def untranslated (s : DocumentSegment) : DocumentSegment := { s with translatedText := none }

/-- The segments of the jobs agree but for translations. -/
def SameSources (job job0 : DocumentJob) : Prop :=
  job.segments.map untranslated = job0.segments.map untranslated

section Sources

variable {job job0 : DocumentJob} {i : Nat} {s : DocumentSegment}

theorem SameSources.get (h : SameSources job job0) (hs : job.segments[i]? = some s) :
    ∃ s0, job0.segments[i]? = some s0 ∧ untranslated s0 = untranslated s := by
  have hi := congrArg (·[i]?) h
  simp only [List.getElem?_map, hs, Option.map_some] at hi
  exact Option.map_eq_some_iff.mp hi.symm

theorem SameSources.set (h : SameSources job job0) (hs : job.segments[i]? = some s)
    {translated : Option Str} : SameSources
      { job with segments := job.segments.set i { s with translatedText := translated } } job0 := by
  unfold SameSources
  rw [← h]
  exact map_set_same hs rfl

theorem same_translated {s0 : DocumentSegment} (h : untranslated s0 = untranslated s)
    (translated : Option Str) :
    { s with translatedText := translated } = { s0 with translatedText := translated } :=
  congrArg (fun s : DocumentSegment => { s with translatedText := translated }) h.symm

theorem sourceText_untranslated (job : DocumentJob) :
    job.sourceText = (job.segments.map untranslated).flatMap fun s => s.sourceText ++ s.lineEnding := by
  rw [List.flatMap_map]
  rfl

/-- The form of a translation depends on the format and the sources only. -/
theorem SameSources.encodeTranslation [JsonStrings] (h : SameSources job job0)
    (hformat : job.format = job0.format) (raw translated : Str) :
    job.encodeTranslation raw translated = job0.encodeTranslation raw translated := by
  unfold DocumentJob.encodeTranslation
  rw [hformat, sourceText_untranslated job, h, ← sourceText_untranslated]

end Sources

/-! ## The system -/

section Handles

variable [JobOptions]

/-- The tables and the calls `C` of all handles. -/
structure System (C : Type) where
  tables : Tables
  phase : C → Phase

inductive Action (C : Type) where
  | advance (c : C) (now : Int)
  /-- A statement of the call fails: the database is busy, or out of space. -/
  | fail (c : C) (e : TranslationError)
  | other (op : JobOp)

variable [JsonStrings] {C : Type}

def System.step [DecidableEq C] (calls : C → UpdateCall) (s : System C) : Action C → Option (System C)
  | .advance c now =>
    ((calls c).advance now s.tables (s.phase c)).map fun next =>
      ⟨next.1, Function.update s.phase c next.2⟩
  | .fail c e =>
    match s.phase c with
    | .returned _ => none
    | _ => some ⟨s.tables, Function.update s.phase c (.returned (.error e))⟩
  | .other op => some ⟨op.perform s.tables, s.phase⟩

/-- Nobody but the calls saves, updates or deletes the job. -/
def Undisturbed (jobId : Str) : Action C → Prop
  | .other op => op.Spares jobId
  | _ => True

/-- The segment rows that a call about to commit has read. -/
def Phase.commitRows : Phase → Option (List SegmentRow)
  | .ready rows _ => some rows
  | _ => none

/-- A call on the job commits only while the segment rows it has read are those stored. -/
def Fresh (calls : C → UpdateCall) (jobId : Str) (s : System C) : Action C → Prop
  | .advance c _ => (calls c).jobId = jobId →
      ∀ rows ∈ (s.phase c).commitRows, selectSegments s.tables jobId = rows
  | _ => True

/-! ## No update is lost -/

/-- The segment of the call has the translation given, and is as it was otherwise. -/
def Holds (job0 : DocumentJob) (call : UpdateCall) (job : DocumentJob) : Prop :=
  ∃ s, job0.segments[call.index]? = some s ∧
    job.segments[call.index]? = some { s with
      translatedText := some (job0.encodeTranslation s.sourceText call.translatedText) }

section Kept

variable (calls : C → UpdateCall) (jobId : Str) (job0 : DocumentJob)

/-- What a call on the job knows of it between two of its steps. -/
def Known (call : UpdateCall) : Phase → Prop
  | .rowRead row | .segmentsRead row _ => ReadsAs row job0
  | .ready rows job' => ∃ row job, ReadsAs row job0 ∧ jobOfRows row rows = .ok job ∧
      job.applyTranslation call.index call.translatedText = .ok job'
  | _ => True

/-- `job` is `job0` with the translations of the calls that landed. -/
structure Merged (phase : C → Phase) (job : DocumentJob) : Prop where
  format : job.format = job0.format
  sourceName : job.sourceName = job0.sourceName
  package : job.package = job0.package
  sources : SameSources job job0
  landed : ∀ c, (calls c).jobId = jobId → (phase c).landed → Holds job0 (calls c) job
  others : ∀ i, (∀ c, (calls c).jobId = jobId → (calls c).index ≠ i) →
    job.segments[i]? = job0.segments[i]?

/-- The invariant of a run. -/
structure Kept (s : System C) : Prop where
  stored : ∃ row job, Stored s.tables jobId row job ∧ Merged calls jobId job0 s.phase job
  known : ∀ c, (calls c).jobId = jobId → Known job0 (calls c) (s.phase c)

end Kept

section Step

variable {calls : C → UpdateCall} {jobId : Str} {job0 job : DocumentJob} {phase : C → Phase}

theorem Merged.readsAs {row : JobRow} (h : Merged calls jobId job0 phase job)
    (hr : ReadsAs row job) : ReadsAs row job0 := by
  obtain ⟨hformat, hname, hpackage⟩ := hr
  exact ⟨h.format ▸ hformat, h.sourceName ▸ hname, h.package ▸ hpackage⟩

theorem Known.reads {c : C} {t : Tables} {row : JobRow} {p p' : Phase}
    (hs : Stored t jobId row job) (hm : Merged calls jobId job0 phase job)
    (hid : (calls c).jobId = jobId) (hr : Reads (calls c) t p p') (h : Known job0 (calls c) p) :
    Known job0 (calls c) p' := by
  cases hr with
  | row hrow =>
    rw [hid, hs.found] at hrow
    cases hrow
    exact hm.readsAs (readsAs_of_rows hs.reads)
  | segments => exact h
  | edit hjob he => exact ⟨_, _, h, hjob, he⟩
  | @reread _ p' _ hl =>
    cases p' <;> trivial
  | failed => trivial

theorem landed_of_reads {call : UpdateCall} {t : Tables} {p p' : Phase} (hr : Reads call t p p')
    (hl : p'.landed) : p.landed := by
  cases hr with
  | reread h _ => exact h
  | _ => exact nomatch hl

variable [DecidableEq C]

/-- A step of a call that does not land keeps what the job holds. -/
theorem Merged.wait {c : C} {p : Phase} (h : Merged calls jobId job0 phase job)
    (hp : (calls c).jobId = jobId → p.landed → (phase c).landed) :
    Merged calls jobId job0 (Function.update phase c p) job := by
  refine { h with landed := fun c' hid hl => ?_ }
  by_cases he : c' = c
  · subst he
    rw [Function.update_self] at hl
    exact h.landed c' hid (hp hid hl)
  · rw [Function.update_of_ne he] at hl
    exact h.landed c' hid hl

/-- The call that lands sets its segment, and no other one. -/
theorem Merged.land {c : C} {job' : DocumentJob} (h : Merged calls jobId job0 phase job)
    (hid : (calls c).jobId = jobId)
    (hdistinct : ∀ c', (calls c').jobId = jobId → (calls c').index = (calls c).index → c' = c)
    (he : job.applyTranslation (calls c).index (calls c).translatedText = .ok job') :
    Merged calls jobId job0 (Function.update phase c .saved) job' := by
  obtain ⟨s, hs, -, rfl⟩ := DocumentJob.applyTranslation_ok he
  refine ⟨h.format, h.sourceName, h.package, h.sources.set hs, fun c' hid' hl => ?_, fun i hi => ?_⟩
  · by_cases hc : c' = c
    · subst hc
      obtain ⟨s0, hs0, hsame⟩ := h.sources.get hs
      obtain ⟨hlt, -⟩ := List.getElem?_eq_some_iff.mp hs
      refine ⟨s0, hs0, ?_⟩
      have hsource : s0.sourceText = s.sourceText := congrArg (·.sourceText) hsame
      rw [List.getElem?_set_self hlt, h.sources.encodeTranslation h.format, same_translated hsame,
        hsource]
    · rw [Function.update_of_ne hc] at hl
      obtain ⟨s', hs', hheld⟩ := h.landed c' hid' hl
      refine ⟨s', hs', ?_⟩
      rw [List.getElem?_set_ne fun hi => hc (hdistinct c' hid' hi.symm)]
      exact hheld
  · rw [List.getElem?_set_ne (hi c hid)]
    exact h.others i hi

/-- A step that knows what it should keeps what the other calls know. -/
theorem known_update {c : C} {p : Phase} {s : System C} (h : Kept calls jobId job0 s)
    (hp : (calls c).jobId = jobId → Known job0 (calls c) p) (c' : C)
    (hid : (calls c').jobId = jobId) :
    Known job0 (calls c') (Function.update s.phase c p c') := by
  by_cases he : c' = c
  · subst he
    rw [Function.update_self]
    exact hp hid
  · rw [Function.update_of_ne he]
    exact h.known c' hid

theorem kept_advance {c : C} {now : Int} {s s' : System C} (h : Kept calls jobId job0 s)
    (hdistinct : ∀ c c', (calls c).jobId = jobId → (calls c').jobId = jobId →
      (calls c').index = (calls c).index → c' = c)
    (hf : Fresh calls jobId s (.advance c now)) (hs : s.step calls (.advance c now) = some s') :
    Kept calls jobId job0 s' := by
  obtain ⟨⟨t', p'⟩, hadvance, rfl⟩ := Option.map_eq_some_iff.mp hs
  obtain ⟨row, job, hstored, hmerged⟩ := h.stored
  rcases advance_cases hadvance with ⟨rfl, hr⟩ | ⟨rows, job', hp, rfl, hc, htransaction⟩
  · exact ⟨⟨row, job, hstored, hmerged.wait fun _ => landed_of_reads hr⟩,
      known_update h fun hid => Known.reads hstored hmerged hid hr (h.known c hid)⟩
  · refine ⟨?_, known_update h fun _ => trivial⟩
    by_cases hid : (calls c).jobId = jobId
    · -- the rows read are those that are stored, so the call has edited the stored job
      have hknown := h.known c hid
      rw [hp] at hknown
      obtain ⟨row', job'', hr, hread, he⟩ := hknown
      rw [← hf hid rows (by rw [hp]; rfl)] at hread
      have hsame := jobOfRows_same hr (hmerged.readsAs (readsAs_of_rows hstored.reads)) hread
        hstored.reads
      subst hsame
      rw [hid] at hc htransaction
      obtain ⟨row'', hstored', -⟩ := stored_of_save htransaction (validate_of_checkSave hc)
      exact ⟨row'', job', hstored', hmerged.land hid (fun c' hid' => hdistinct c c' hid hid') he⟩
    · obtain ⟨h1, h2⟩ := others_of_save htransaction (Ne.symm hid)
      exact ⟨row, job, hstored.frame h1 h2, hmerged.wait fun he => absurd he hid⟩

theorem kept_step {s s' : System C} {a : Action C} (h : Kept calls jobId job0 s)
    (hdistinct : ∀ c c', (calls c).jobId = jobId → (calls c').jobId = jobId →
      (calls c').index = (calls c).index → c' = c)
    (hu : Undisturbed jobId a) (hf : Fresh calls jobId s a) (hs : s.step calls a = some s') :
    Kept calls jobId job0 s' := by
  cases a with
  | advance c now => exact kept_advance h hdistinct hf hs
  | fail c e =>
    obtain ⟨row, job, hstored, hmerged⟩ := h.stored
    simp only [System.step] at hs
    split at hs
    · cases hs
    · cases hs
      exact ⟨⟨row, job, hstored, hmerged.wait fun _ hl => nomatch hl⟩, known_update h fun _ => trivial⟩
  | other op =>
    obtain ⟨row, job, hstored, hmerged⟩ := h.stored
    cases hs
    obtain ⟨row', hstored'⟩ := stored_of_other hstored hu
    exact ⟨⟨row', job, hstored', hmerged⟩, h.known⟩

/-- Calls that update different segments of a stored job, each of which commits only over
the rows it has read: whatever state a run of them reaches, the job is stored, every call that
returned `Ok` has its translation in its segment, and the segments of no call are unchanged. -/
theorem updates_kept {t0 : Tables} {row0 : JobRow} {s : System C}
    (hs : Stored t0 jobId row0 job0)
    (hdistinct : ∀ c c', (calls c).jobId = jobId → (calls c').jobId = jobId →
      (calls c').index = (calls c).index → c' = c)
    (h : Reach (System.step calls) (fun s a => Undisturbed jobId a ∧ Fresh calls jobId s a)
      ⟨t0, fun _ => .started⟩ s) :
    ∃ row job, Stored s.tables jobId row job ∧
      (∀ c snapshot, (calls c).jobId = jobId → s.phase c = .returned (.ok snapshot) →
        Holds job0 (calls c) job) ∧
      ∀ i, (∀ c, (calls c).jobId = jobId → (calls c).index ≠ i) →
        job.segments[i]? = job0.segments[i]? := by
  have hkept : Kept calls jobId job0 s := by
    refine h.invariant ⟨⟨row0, job0, hs, rfl, rfl, rfl, rfl, fun _ _ hl => (nomatch hl),
      fun _ _ => rfl⟩, fun _ _ => trivial⟩ ?_
    intro t a t' ht hok ha
    exact kept_step ht hdistinct hok.1 hok.2 ha
  obtain ⟨row, job, hstored, hmerged⟩ := hkept.stored
  refine ⟨row, job, hstored, fun c snapshot hid hc => hmerged.landed c hid ?_, hmerged.others⟩
  rw [hc]
  rfl

end Step

instance (jobId : Str) (a : Action C) : Decidable (Undisturbed jobId a) :=
  match a with
  | .other (.save _ _ _ _) => inferInstanceAs (Decidable (_ ≠ _))
  | .other (.update _ _ _ _) => inferInstanceAs (Decidable (_ ≠ _))
  | .other (.delete _) => inferInstanceAs (Decidable (_ ≠ _))
  | .other (.setState _ _ _) | .other (.saveOptions _ _) | .advance _ _ | .fail _ _ => isTrue trivial

instance (calls : C → UpdateCall) (jobId : Str) (s : System C) (a : Action C) :
    Decidable (Fresh calls jobId s a) :=
  match a with
  | .other _ | .fail _ _ => isTrue trivial
  | .advance _ _ => inferInstanceAs (Decidable (_ → _))

end Handles

/-! ## Two calls -/

def twoCalls : Bool → UpdateCall
  | false => ⟨jobName, 0, ['C']⟩
  | true => ⟨jobName, 1, ['D']⟩

def Phase.succeeded [JobOptions] : Phase → Bool
  | .returned (.ok _) => true
  | _ => false

section Lines

local instance : JobOptions := noOptions
local instance : JsonStrings := plainStrings

def savedLines : Tables := (saveDocumentJob 0 jobName (twoLines none none) .running emptyTables).2

theorem savedLines_stored :
    Stored savedLines jobName ⟨jobName, "running", "txt", "a.txt".toList, none, 0, 0⟩ (twoLines none none) :=
  ⟨by decide +kernel, by decide +kernel⟩

/-- Steps of the two calls in the order given. -/
def advances (order : List Bool) : List (Action Bool) := order.map fun c => .advance c 1

/-- One call after the other. -/
def inTurn : List (Action Bool) := advances (List.replicate 7 false ++ List.replicate 7 true)

/-- Both calls read before one of them commits. -/
def overlapping : List (Action Bool) :=
  advances ([false, false, false, true, true, true] ++ List.replicate 4 false ++ List.replicate 4 true)

theorem updates_kept_inTurn :
    ∃ s, run (System.step twoCalls) ⟨savedLines, fun _ => .started⟩ inTurn = some s ∧
      ∃ row job, Stored s.tables jobName row job ∧
        (∀ c snapshot, (twoCalls c).jobId = jobName → s.phase c = .returned (.ok snapshot) →
          Holds (twoLines none none) (twoCalls c) job) ∧
        ∀ i, (∀ c, (twoCalls c).jobId = jobName → (twoCalls c).index ≠ i) →
          job.segments[i]? = (twoLines none none).segments[i]? := by
  obtain ⟨s, hs⟩ := Option.isSome_iff_exists.mp (show
    (run (System.step twoCalls) ⟨savedLines, fun _ => .started⟩ inTurn).isSome by decide +kernel)
  exact ⟨s, hs, updates_kept savedLines_stored (by decide) (.of_run hs (by decide +kernel))⟩

/-- Both calls return `Ok`, and the first translation is gone. -/
theorem updates_lost :
    ∃ s, Reach (System.step twoCalls) (fun _ a => Undisturbed jobName a)
        ⟨savedLines, fun _ => .started⟩ s ∧
      (∀ c, (s.phase c).succeeded) ∧ s.tables.segments.map (·.translatedText) = [none, some ['D']] := by
  have h : (run (System.step twoCalls) ⟨savedLines, fun _ => .started⟩ overlapping).any (fun s =>
      (∀ c, (s.phase c).succeeded) ∧ s.tables.segments.map (·.translatedText) = [none, some ['D']]) := by
    decide +kernel
  obtain ⟨s, hs, hend⟩ := (Option.any_eq_true _ _).mp h
  exact ⟨s, .of_run hs (by decide +kernel), of_decide_eq_true hend⟩

end Lines

end LinguaMesh.Storage
