import LinguaMesh.Document.Cues
import LinguaMesh.Document.Translation

/-!
# The timing lines of a translated subtitle file

A translation is put in the place of a line of text, and may be several lines.
The timing lines of the output are those of the source if and only if every run of
prose lines starts the same cues in the translation as in the source
(`RunsKept`): none, in the text of a cue.

That a cue too many is not made up for elsewhere is a simulation between the
check of the source and the check of the output (`Abreast`): the second never
counts fewer cues, when the ones that are still owed are counted too.
-/

namespace LinguaMesh

open Run

/-! ## Timing lines -/

namespace CueScan

/-- The check of lines, one after the other. -/
def scan (format : DocumentFormat) (s : CueScan) (lines : List Str) : Run DocumentError CueScan :=
  lines.foldlM (fun s line => s.line format line) s

/-- The state after lines that pass the check. -/
def after (format : DocumentFormat) (s : CueScan) (lines : List Str) : CueScan :=
  (s.scan format lines).toOption.getD s

/-- Whether a file may end. -/
def Complete (s : CueScan) : Prop :=
  ¬ (s.expectingTimestamp ∨ s.cueCount = 0 ∨ (¬ s.metadata ∧ ¬ s.cueStart ∧ ¬ s.cueHasText))

/-- A timing line that has to come. -/
def owed (s : CueScan) : Nat := if s.Late then 1 else 0

def Busy (s : CueScan) : Prop := s.Silent ∨ s.Late

end CueScan

/-- The lines that are counted as a cue. -/
def timingsFrom (format : DocumentFormat) : CueScan → List Str → List Str
  | _, [] => []
  | s, line :: lines =>
    match s.line format line with
    | .ok s' => (if s.cueCount < s'.cueCount then [line] else []) ++ timingsFrom format s' lines
    | .error _ => []

def trimmedLines (text : Str) : List Str := (splitLines text).map fun l => trim l.1

/-- The timing lines of the cues of a text, in order. -/
def cueTimings (format : DocumentFormat) (text : Str) : List Str :=
  timingsFrom format ⟨true, false, 0, false, false⟩ (trimmedLines text)

section Scan

variable {format : DocumentFormat} {s s' t t' : CueScan} {line : Str} {lines lines' : List Str}

theorem scan_cons : s.scan format (line :: lines) = .ok t ↔
    ∃ s', CueStep format s line s' ∧ s'.scan format lines = .ok t := by
  unfold CueScan.scan
  rw [List.foldlM_cons, Except.bind_ok]
  simp only [line_ok]

theorem scan_append : s.scan format (lines ++ lines') = .ok t ↔
    ∃ s', s.scan format lines = .ok s' ∧ s'.scan format lines' = .ok t := by
  unfold CueScan.scan
  rw [List.foldlM_append, Except.bind_ok]

theorem after_of_scan (h : s.scan format lines = .ok t) : s.after format lines = t := by
  unfold CueScan.after
  rw [h]
  rfl

/-- A step counts one cue or none. -/
theorem CueStep.count (h : CueStep format s line s') :
    s'.cueCount = s.cueCount ∨ s'.cueCount = s.cueCount + 1 := by
  cases h with
  | timing => exact .inr rfl
  | _ => exact .inl rfl

theorem timings_cons (h : CueStep format s line s') : timingsFrom format s (line :: lines) =
    (if s.cueCount < s'.cueCount then [line] else []) ++ timingsFrom format s' lines := by
  rw [timingsFrom, h.line]

theorem timings_append (h : s.scan format lines = .ok s') :
    timingsFrom format s (lines ++ lines') =
      timingsFrom format s lines ++ timingsFrom format s' lines' := by
  induction lines generalizing s with
  | nil =>
    cases h
    rfl
  | cons line lines ih =>
    obtain ⟨t, hline, h⟩ := scan_cons.mp h
    rw [List.cons_append, timings_cons hline, timings_cons hline, ih h, List.append_assoc]

theorem length_timings (h : s.scan format lines = .ok s') :
    s'.cueCount = s.cueCount + (timingsFrom format s lines).length := by
  induction lines generalizing s with
  | nil =>
    cases h
    rfl
  | cons line lines ih =>
    obtain ⟨t, hline, h⟩ := scan_cons.mp h
    rw [timings_cons hline, List.length_append, ih h]
    rcases hline.count with hc | hc
    · rw [hc, if_neg (Nat.lt_irrefl _), List.length_nil, Nat.zero_add]
    · rw [hc, if_pos (Nat.lt_succ_self _), List.length_singleton, Nat.add_assoc]

theorem timings_silent (h : CueStep format s line s') (hs : s'.cueCount = s.cueCount) :
    timingsFrom format s (line :: lines) = timingsFrom format s' lines := by
  rw [timings_cons h, hs, if_neg (Nat.lt_irrefl _), List.nil_append]

/-! ## Two checks abreast -/

theorem owed_of_not_late (h : ¬ s.Late) : s.owed = 0 := if_neg h

theorem owed_of_silent (h : s.Silent) : s.owed = 0 := by
  refine owed_of_not_late fun hl => ?_
  rcases h with hm | ⟨-, he⟩
  · exact absurd (hl.1.symm.trans hm) Bool.false_ne_true
  · exact absurd (he.symm.trans hl.2.2) Bool.false_ne_true

/-- A blank line is refused while a timing line is owed. -/
theorem CueStep.blank_owed (h : CueStep format s [] s') : s.owed = 0 := by
  refine owed_of_not_late fun hl => ?_
  cases h with
  | blank _ hok => exact absurd ((hok hl.1).1.symm.trans hl.2.2) Bool.false_ne_true
  | note h | skipped h | header h | timing h | identifier h | text h => exact absurd rfl h

/-- What is counted and what is owed never gets less. -/
theorem CueStep.sum_le (h : CueStep format s line s') :
    s.cueCount + s.owed ≤ s'.cueCount + s'.owed := by
  have started (hs : s.cueStart = true) : s.owed = 0 :=
    owed_of_not_late fun hl => absurd (hl.2.1.symm.trans hs) Bool.false_ne_true
  have le_one : s.owed ≤ 1 := by
    unfold CueScan.owed
    split <;> omega
  cases h with
  | blank hnil hok =>
    have : s.owed = 0 := owed_of_not_late fun hl =>
      absurd ((hok hl.1).1.symm.trans hl.2.2) Bool.false_ne_true
    rw [this]
    exact Nat.le_add_right _ _
  | note _ _ hs =>
    rw [started hs]
    exact Nat.le_add_right _ _
  | skipped => exact Nat.le_refl _
  | header =>
    refine Nat.add_le_add_left ?_ _
    unfold CueScan.owed
    split
    · rename_i hl
      rw [if_pos ⟨hl.1, rfl, hl.2.2⟩]
    · exact Nat.zero_le _
  | timing =>
    dsimp only
    omega
  | identifier _ _ _ _ _ hs =>
    rw [started hs]
    exact Nat.le_add_right _ _
  | text => exact Nat.le_refl _

/-- In the text of a block a line moves at most from what is owed to what is counted. -/
theorem CueStep.busy (h : CueStep format s line s') (hs : s.Busy) (hl : line ≠ []) :
    s'.Busy ∧ s'.cueCount + s'.owed = s.cueCount + s.owed := by
  rcases hs with hs | hs
  · obtain ⟨hs', hcount⟩ := h.silent hs hl
    exact ⟨.inl hs', by rw [hcount, owed_of_silent hs, owed_of_silent hs']⟩
  · have howed : s.owed = 1 := if_pos hs
    obtain ⟨hm, hc, he⟩ := hs
    cases h with
    | blank hnil => exact absurd hnil hl
    | note _ _ hs => exact absurd (hc.symm.trans hs) Bool.false_ne_true
    | skipped _ _ hm' => exact absurd (hm.symm.trans hm') Bool.false_ne_true
    | header => exact ⟨.inr ⟨hm, rfl, he⟩, by rw [howed]; exact congrArg _ (if_pos ⟨hm, rfl, he⟩)⟩
    | timing => exact ⟨.inl (.inr ⟨rfl, rfl⟩), by rw [howed]; rfl⟩
    | identifier _ _ _ _ he' => exact absurd (he'.symm.trans he) Bool.false_ne_true
    | text _ _ _ he' => exact absurd (he'.symm.trans he) Bool.false_ne_true

theorem sum_le_of_scan (h : s.scan format lines = .ok s') :
    s.cueCount + s.owed ≤ s'.cueCount + s'.owed := by
  induction lines generalizing s with
  | nil =>
    cases h
    exact Nat.le_refl _
  | cons line lines ih =>
    obtain ⟨t, hline, h⟩ := scan_cons.mp h
    exact hline.sum_le.trans (ih h)

/-- The check of the source and that of an output at the same place of the structure. -/
inductive Abreast : CueScan → CueScan → Prop where
  | start (n n' : Nat) : Abreast ⟨true, false, n, false, false⟩ ⟨true, false, n', false, false⟩
  | identifier (n n' : Nat) (t t' : Bool) : Abreast ⟨true, true, n, t, false⟩ ⟨true, true, n', t', false⟩
  | busy {s s' : CueScan} : s.Busy → Abreast s s'

/-- A line that both checks read. -/
theorem Abreast.step {d : Nat} (h : Abreast s s')
    (hsum : s.cueCount + s.owed + d ≤ s'.cueCount + s'.owed) (hline : CueStep format s line t)
    (hline' : CueStep format s' line t') :
    Abreast t t' ∧ t.cueCount + t.owed + d ≤ t'.cueCount + t'.owed := by
  by_cases hl : line = []
  · subst hl
    have hzero := hline.blank_owed
    have hzero' := hline'.blank_owed
    rw [hline.of_blank, hline'.of_blank]
    refine ⟨.start _ _, ?_⟩
    rw [hzero, hzero'] at hsum
    exact hsum
  have hle := hline'.sum_le
  cases h with
  | busy hs =>
    obtain ⟨ht, heq⟩ := hline.busy hs hl
    exact ⟨.busy ht, by omega⟩
  | start n n' =>
    have hcount : n + d ≤ n' := hsum
    cases hline with
    | blank hnil => exact absurd hnil hl
    | skipped _ _ hm => cases hm
    | text _ _ _ _ hc => cases hc
    | note => exact ⟨.busy (.inl (.inl rfl)), hsum.trans hle⟩
    | header => exact ⟨.busy (.inl (.inr ⟨rfl, rfl⟩)), hsum.trans hle⟩
    | timing _ hn _ hh hc hv =>
      refine ⟨.busy (.inl (.inr ⟨rfl, rfl⟩)), ?_⟩
      cases hline' with
      | blank hnil => exact absurd hnil hl
      | note _ hi => exact absurd ⟨hi, rfl⟩ hn
      | skipped _ _ hm => cases hm
      | header _ _ _ hh' =>
        have : n' = 0 := hh'.2.1
        exact absurd ⟨hh'.1, show n = 0 by omega, hh'.2.2⟩ hh
      | timing =>
        show n + 1 + 0 + d ≤ n' + 1 + 0
        omega
      | identifier _ _ _ _ _ _ hv' => exact absurd hv hv'
      | text _ _ _ _ hc => cases hc
    | identifier _ hi _ hh _ _ hv =>
      cases hline' with
      | blank hnil => exact absurd hnil hl
      | note _ hi' => exact absurd hi' hi
      | skipped _ _ hm => cases hm
      | header _ _ _ hh' =>
        have : n' = 0 := hh'.2.1
        exact absurd ⟨hh'.1, show n = 0 by omega, hh'.2.2⟩ hh
      | timing _ _ _ _ _ hv' => exact absurd hv' hv
      | identifier => exact ⟨.identifier _ _ _ _, hsum⟩
      | text _ _ _ _ hc => cases hc
  | identifier n n' u u' =>
    have hcount : n + d ≤ n' := hsum
    cases hline with
    | blank hnil => exact absurd hnil hl
    | skipped _ _ hm => cases hm
    | text _ _ _ _ hc => cases hc
    | identifier _ _ _ _ he => cases he
    | note => exact ⟨.busy (.inl (.inl rfl)), hsum.trans hle⟩
    | header _ hn =>
      refine ⟨.busy (.inr ⟨rfl, rfl, rfl⟩), ?_⟩
      cases hline' with
      | blank hnil => exact absurd hnil hl
      | note _ hi => exact absurd ⟨hi, rfl⟩ hn
      | skipped _ _ hm => cases hm
      | header | timing =>
        show n + 1 + d ≤ n' + 1
        omega
      | identifier _ _ _ _ he => cases he
      | text _ _ _ _ hc => cases hc
    | timing _ hn _ hh hc hv =>
      refine ⟨.busy (.inl (.inr ⟨rfl, rfl⟩)), ?_⟩
      cases hline' with
      | blank hnil => exact absurd hnil hl
      | note _ hi => exact absurd ⟨hi, rfl⟩ hn
      | skipped _ _ hm => cases hm
      | header _ _ _ hh' =>
        have : n' = 0 := hh'.2.1
        exact absurd ⟨hh'.1, show n = 0 by omega, hh'.2.2⟩ hh
      | timing =>
        show n + 1 + 0 + d ≤ n' + 1 + 0
        omega
      | identifier _ _ _ _ he => cases he
      | text _ _ _ _ hc => cases hc

end Scan

/-! ## Runs of prose lines -/

/-- A line of the source, whether it is prose, and the lines that it is in the output. -/
structure ToldLine where
  source : Str
  prose : Bool
  told : List Str

def sources (lines : List ToldLine) : List Str := lines.map (·.source)

def retellings (lines : List ToldLine) : List Str := lines.flatMap (·.told)

/-- Read from the same state, the lines start the same cues in the output as in the source. -/
def Alike (format : DocumentFormat) (s : CueScan) (lines : List ToldLine) : Prop :=
  timingsFrom format s (retellings lines) = timingsFrom format s (sources lines)

/-- Every run of prose lines is alike, each read from the state that the source is in before it;
`run` is the part of a run before the lines, and `s` the state before the run. -/
def RunsKept (format : DocumentFormat) : CueScan → List ToldLine → List ToldLine → Prop
  | s, run, [] => Alike format s run
  | s, run, l :: lines =>
    if l.prose then RunsKept format s (run ++ [l]) lines
    else Alike format s run ∧
      RunsKept format ((s.after format (sources run)).after format [l.source]) [] lines

/-- The lines are prose where `subtitle_line_kinds` says so, and the others are kept. -/
def Follows (format : DocumentFormat) : LineKindScan → Nat → List ToldLine → Prop
  | _, _, [] => True
  | k, index, l :: lines =>
    l.prose = !k.structural format index l.source ∧ (l.prose = false → l.told = [l.source]) ∧
      Follows format (k.after format l.source) (index + 1) lines

section Runs

variable {format : DocumentFormat} {k : LineKindScan} {s s' t t' : CueScan} {l : ToldLine}
  {lines run : List ToldLine} {index : Nat}

@[simp] theorem sources_nil : sources [] = [] := rfl

@[simp] theorem sources_cons : sources (l :: lines) = l.source :: sources lines := rfl

@[simp] theorem sources_append : sources (run ++ lines) = sources run ++ sources lines :=
  List.map_append

@[simp] theorem retellings_nil : retellings [] = [] := rfl

@[simp] theorem retellings_cons : retellings (l :: lines) = l.told ++ retellings lines :=
  List.flatMap_cons

@[simp] theorem retellings_append :
    retellings (run ++ lines) = retellings run ++ retellings lines := List.flatMap_append

theorem CueScan.Complete.owed_eq (h : s.Complete) : s.owed = 0 :=
  owed_of_not_late fun hl => h (.inl hl.2.2)

/-- The lines pass the check from `s` to the end of the file. -/
def CueScan.Passes (format : DocumentFormat) (s : CueScan) (lines : List Str) : Prop :=
  ∃ t, s.scan format lines = .ok t ∧ t.Complete

theorem passes_cons {line : Str} {rest : List Str} : s.Passes format (line :: rest) ↔
    ∃ t, CueStep format s line t ∧ t.Passes format rest := by
  unfold CueScan.Passes
  simp only [scan_cons]
  constructor
  · rintro ⟨e, ⟨t, hline, hscan⟩, hend⟩
    exact ⟨t, hline, e, hscan, hend⟩
  · rintro ⟨t, hline, e, hscan, hend⟩
    exact ⟨e, ⟨t, hline, hscan⟩, hend⟩

/-- A line that is read in one way. -/
theorem passes_step {line : Str} {rest : List Str} (h : CueStep format s line t) :
    s.Passes format (line :: rest) ↔ t.Passes format rest := by
  rw [passes_cons]
  constructor
  · rintro ⟨u, hline, hpass⟩
    cases Except.ok.inj (hline.line.symm.trans h.line)
    exact hpass
  · exact fun hpass => ⟨t, h, hpass⟩

theorem passes_append {front rest : List Str} : s.Passes format (front ++ rest) ↔
    ∃ t, s.scan format front = .ok t ∧ t.Passes format rest := by
  unfold CueScan.Passes
  simp only [scan_append]
  constructor
  · rintro ⟨e, ⟨t, hfront, hscan⟩, hend⟩
    exact ⟨t, hfront, e, hscan, hend⟩
  · rintro ⟨t, hfront, e, hscan, hend⟩
    exact ⟨e, ⟨t, hfront, hscan⟩, hend⟩

theorem InStep.text_busy (h : InStep ⟨false, false, false⟩ s) : s.Busy := by
  cases h with
  | text e n u he =>
    cases e with
    | false => exact .inl (.inr ⟨rfl, rfl⟩)
    | true => exact .inr ⟨rfl, rfl, rfl⟩

/-- An output that is as far as its source does not count fewer cues to the end. -/
theorem length_le {d : Nat} (hfollows : Follows format k index lines) (hstep : InStep k s)
    (habreast : Abreast s s') (hsum : s.cueCount + s.owed + d ≤ s'.cueCount + s'.owed)
    (hpass : s.Passes format (sources lines)) (hpass' : s'.Passes format (retellings lines)) :
    s.cueCount + (timingsFrom format s (sources lines)).length + d ≤
      s'.cueCount + (timingsFrom format s' (retellings lines)).length := by
  obtain ⟨t, hscan, hend⟩ := hpass
  obtain ⟨t', hscan', hend'⟩ := hpass'
  rw [← length_timings hscan, ← length_timings hscan']
  induction lines generalizing k s s' index with
  | nil =>
    cases hscan
    cases hscan'
    rwa [hend.owed_eq, hend'.owed_eq] at hsum
  | cons l lines ih =>
    obtain ⟨hprose, htold, hfollows⟩ := hfollows
    obtain ⟨u, hline, hscan⟩ := scan_cons.mp hscan
    rw [retellings_cons] at hscan'
    obtain ⟨u', hlines', hscan'⟩ := scan_append.mp hscan'
    have hstep' := hstep.after hline
    cases hp : l.prose with
    | true =>
      rw [hp] at hprose
      obtain ⟨rfl, hne, -⟩ := hstep.prose hline (by simpa using hprose)
      obtain ⟨hu, heq⟩ := hline.busy hstep.text_busy hne
      refine ih hfollows hstep' (.busy hu) ?_ hscan hscan'
      have := sum_le_of_scan hlines'
      omega
    | false =>
      rw [htold hp] at hlines'
      obtain ⟨v, hline', hv⟩ := scan_cons.mp hlines'
      cases hv
      obtain ⟨hnext, hle⟩ := habreast.step hsum hline hline'
      exact ih hfollows hstep' hnext hle hscan hscan'

/-- A blank line or the first line of a metadata block, where no timing line is owed. -/
theorem CueStep.quiet {line : Str} (h : CueStep format s line s')
    (hl : line = [] ∨ isMetadataLine format line) : s.owed = 0 ∧ s'.cueCount = s.cueCount := by
  rcases hl with rfl | hn
  · exact ⟨h.blank_owed, by rw [h.of_blank]⟩
  cases h with
  | blank hnil =>
    subst hnil
    simp [isMetadataLine] at hn
  | note _ _ hs =>
    exact ⟨owed_of_not_late fun hl => absurd (hl.2.1.symm.trans hs) Bool.false_ne_true, rfl⟩
  | skipped _ _ hm => exact ⟨owed_of_silent (.inl hm), rfl⟩
  | header _ _ _ hh => exact absurd hh.2.2 (not_header_of_metadata hn)
  | timing _ _ _ _ _ hv => exact absurd hv (not_timing_of_metadata hn)
  | identifier _ hi => exact absurd hn hi
  | text _ _ _ he hc => exact ⟨owed_of_silent (.inr ⟨hc, he⟩), rfl⟩

theorem CueStep.note_silent {line : Str} (h : CueStep format s line s')
    (hn : isMetadataLine format line) : s'.Silent := by
  cases h with
  | blank hnil =>
    subst hnil
    simp [isMetadataLine] at hn
  | note => exact .inl rfl
  | skipped _ _ hm => exact .inl hm
  | header _ _ _ hh => exact absurd hh.2.2 (not_header_of_metadata hn)
  | timing _ _ _ _ _ hv => exact absurd hv (not_timing_of_metadata hn)
  | identifier _ hi => exact absurd hn hi
  | text _ _ _ he hc => exact .inr ⟨hc, he⟩

/-- A structural line that comes after prose. -/
theorem structural_text {line : Str} (hindex : 0 < index)
    (h : LineKindScan.structural ⟨false, false, false⟩ format index line = true) :
    line = [] ∨ isMetadataLine format line := by
  unfold LineKindScan.structural at h
  have : (index == 0) = false := by simp [Nat.ne_of_gt hindex]
  simpa [this] using h

/-- The cues of an output are those of its source if and only if each run of prose is alike: from
a place in the prose (first part), or in a metadata block after prose (second part). -/
theorem timings_iff (lines : List ToldLine) :
    (∀ run {k index s t t'}, Follows format k index lines → InStep k t →
      s.scan format (sources run) = .ok t → s.scan format (retellings run) = .ok t' →
      t.cueCount + t.owed = s.cueCount + s.owed →
      (run ≠ [] → k = ⟨false, false, false⟩ ∧ 0 < index) →
      t.Passes format (sources lines) → t'.Passes format (retellings lines) →
      (timingsFrom format s (retellings (run ++ lines)) = timingsFrom format s (sources (run ++ lines)) ↔
        RunsKept format s run lines)) ∧
    (∀ {e index s s'}, Follows format ⟨false, e, true⟩ index lines → s.Silent → s'.Silent →
      s'.cueCount = s.cueCount →
      s.Passes format (sources lines) → s'.Passes format (retellings lines) →
      (timingsFrom format s' (retellings lines) = timingsFrom format s (sources lines) ↔
        RunsKept format s [] lines)) := by
  induction lines with
  | nil =>
    refine ⟨fun run {k index s t t'} _ _ _ _ _ _ _ _ => ?_, fun {e index s s'} _ _ _ _ _ _ => ?_⟩
    · rw [List.append_nil]
      exact Iff.rfl
    · exact ⟨fun _ => rfl, fun _ => rfl⟩
  | cons l lines ih =>
    obtain ⟨ihrun, ihquiet⟩ := ih
    constructor
    · intro run k index s t t' hfollows hstep hscan hscan' hsum hrun hpass hpass'
      have hall := hfollows
      obtain ⟨hprose, htold, hfollows⟩ := hfollows
      have hpass1 := hpass
      rw [sources_cons] at hpass1
      obtain ⟨u, hline, hrest⟩ := passes_cons.mp hpass1
      have hstep' := hstep.after hline
      cases hp : l.prose with
      | true =>
        rw [hp] at hprose
        obtain ⟨rfl, hne, hn⟩ := hstep.prose hline (by simpa using hprose)
        obtain ⟨-, heq⟩ := hline.busy hstep.text_busy hne
        have hk : LineKindScan.after ⟨false, false, false⟩ format l.source = ⟨false, false, false⟩ := by
          rw [after_of_ne_nil hne hn]
          simp
        rw [retellings_cons] at hpass'
        obtain ⟨u', hlines', hrest'⟩ := passes_append.mp hpass'
        have := ihrun (run ++ [l]) hfollows hstep'
          (by rw [sources_append, scan_append]; exact ⟨t, hscan, scan_cons.mpr ⟨u, hline, rfl⟩⟩)
          (by rw [retellings_append, scan_append]; exact ⟨t', hscan', by simpa using hlines'⟩)
          (heq.trans hsum) (fun _ => ⟨hk, Nat.succ_pos _⟩) hrest hrest'
        rw [RunsKept, if_pos hp, ← this, List.append_assoc, List.singleton_append]
      | false =>
        have hpass1' := hpass'
        rw [retellings_cons, htold hp, List.singleton_append] at hpass1'
        obtain ⟨u', hline', hrest'⟩ := passes_cons.mp hpass1'
        rw [RunsKept, if_neg (by simp [hp]), after_of_scan hscan,
          after_of_scan (scan_cons.mpr ⟨u, hline, rfl⟩), sources_append, retellings_append,
          timings_append hscan, timings_append hscan']
        by_cases hempty : run = []
        · subst hempty
          cases hscan
          cases hscan'
          cases Except.ok.inj (hline.line.symm.trans hline'.line)
          have := ihrun [] hfollows hstep' rfl rfl rfl (fun h => absurd rfl h) hrest hrest'
          rw [retellings_cons, htold hp, List.singleton_append, sources_cons, timings_cons hline,
            timings_cons hline, ← this]
          simp [Alike]
        obtain ⟨rfl, hindex⟩ := hrun hempty
        have hl := structural_text hindex (by simpa [hp] using hprose)
        obtain ⟨howed, hcount⟩ := hline.quiet hl
        obtain ⟨howed', hcount'⟩ := hline'.quiet hl
        have hlength := length_timings hscan
        have hlength' := length_timings hscan'
        by_cases halike : Alike format s run
        · -- the two checks are in one state again, or silent until they are
          have hsame : t'.cueCount = t.cueCount := by rw [hlength, hlength', halike]
          have hstart : timingsFrom format t' (retellings (l :: lines)) =
                timingsFrom format t (sources (l :: lines)) ↔ RunsKept format u [] lines := by
            rw [retellings_cons, htold hp, List.singleton_append, sources_cons,
              timings_silent hline hcount, timings_silent hline' hcount']
            rcases hl with hnil | hn
            · rw [hnil] at hline hline' hfollows
              cases hline.of_blank
              cases hline'.of_blank
              rw [hsame] at hrest' ⊢
              exact ihrun [] hfollows (.start _) rfl rfl rfl (fun h => absurd rfl h) hrest hrest'
            · have hne : l.source ≠ [] := by
                intro hnil
                simp [hnil, isMetadataLine] at hn
              rw [after_note hne hn] at hfollows
              exact ihquiet hfollows (hline.note_silent hn) (hline'.note_silent hn)
                (by rw [hcount, hcount', hsame]) hrest hrest'
          have hrun : timingsFrom format s (retellings run) = timingsFrom format s (sources run) := halike
          rw [← hstart, hrun, List.append_cancel_left_eq]
          exact ⟨fun h => ⟨halike, h⟩, fun h => h.2⟩
        · -- a run that is not alike starts more cues, or others
          refine iff_of_false (fun heq => ?_) fun h => halike h.1
          have hle := sum_le_of_scan hscan'
          rw [← hsum, howed, howed'] at hle
          obtain ⟨d, hd⟩ := Nat.exists_eq_add_of_le hle
          have htotal := length_le hall hstep (.busy hstep.text_busy) (d := d) (by omega) hpass hpass'
          have := congrArg List.length heq
          rw [List.length_append, List.length_append] at this
          exact halike (List.append_inj heq (by omega)).1
    · intro e index s s' hfollows hsilent hsilent' hcount hpass hpass'
      obtain ⟨hprose, htold, hfollows⟩ := hfollows
      have hp : l.prose = false := by
        rw [hprose]
        simp [LineKindScan.structural]
      rw [retellings_cons, htold hp, List.singleton_append] at hpass' ⊢
      rw [sources_cons] at hpass ⊢
      obtain ⟨u, hline, hrest⟩ := passes_cons.mp hpass
      obtain ⟨u', hline', hrest'⟩ := passes_cons.mp hpass'
      have hafter : (s.after format (sources [])).after format [l.source] = u :=
        after_of_scan (scan_cons.mpr ⟨u, hline, rfl⟩)
      rw [RunsKept, if_neg (by simp [hp]), hafter]
      by_cases hnil : l.source = []
      · rw [hnil] at hline hline' hfollows ⊢
        cases hline.of_blank
        cases hline'.of_blank
        rw [timings_silent hline rfl, timings_silent hline' rfl]
        rw [hcount] at hrest' ⊢
        rw [and_iff_right (show Alike format s [] from rfl)]
        exact ihrun [] hfollows (.start _) rfl rfl rfl (fun h => absurd rfl h) hrest hrest'
      · obtain ⟨hu, heq⟩ := hline.silent hsilent hnil
        obtain ⟨hu', heq'⟩ := hline'.silent hsilent' hnil
        rw [timings_silent hline heq, timings_silent hline' heq', and_iff_right (show Alike format s [] from rfl)]
        rw [after_metadata hnil] at hfollows
        exact ihquiet hfollows hu hu' (by rw [heq, heq', hcount]) hrest hrest'

end Runs

end LinguaMesh
