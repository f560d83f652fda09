import LinguaMesh.Document.CueLines

/-!
# Subtitle warnings

`subtitle_warnings` finds the cues of a file by a walk of its own, from blank line
to blank line. It takes a header only in the first line of the file, and expects
a timing line in the first or in the second line of every other block, metadata
blocks apart.

`walkedCues` are the cues it finds (`loop_walked`), `recognisedCues` those of
`validate_structure`. The walk errs or finds too many in three kinds of WebVTT
blocks (`blockWalks`), all of them accepted: a header block that is not the first,
an identifier before a header line, and one before a metadata line.
-/

namespace LinguaMesh

open Run

inductive DocumentWarningKind where
  | pdfImageOnlyPage
  | pdfUncertainReadingOrder
  | pdfReconstructionLimited
  | subtitleLineLengthExceeded
  | subtitleReadingSpeedHigh
  deriving DecidableEq, Repr

structure DocumentWarning where
  kind : DocumentWarningKind
  page : Option Nat
  cue : Option Nat
  deriving DecidableEq, Repr

def defaultSubtitleMaxLineChars : Nat := 42
def defaultSubtitleMaxReadingSpeed : Nat := 17

/-! ## The warnings of a cue -/

def isBlankLine (line : Str) : Bool := (trim line).isEmpty

/-- `u64::saturating_mul`. -/
def saturatingMul (a b : Nat) : Nat := min u64Max (a * b)

/-- The warnings of a cue, from its number, its time range and its lines. -/
def cueWarnings (maxLineChars maxReadingSpeed cueNumber : Nat) (range : Nat × Nat)
    (cueLines : List Str) : List DocumentWarning :=
  let longLine := cueLines.any fun line => maxLineChars < line.length
  let durationMillis := range.2 - range.1
  let characterCount := min u64Max (cueLines.flatten.countP (!isWhitespace ·))
  (if longLine then [⟨.subtitleLineLengthExceeded, none, some cueNumber⟩] else []) ++
  if 0 < durationMillis ∧
      saturatingMul maxReadingSpeed durationMillis < saturatingMul characterCount 1000 then
    [⟨.subtitleReadingSpeedHigh, none, some cueNumber⟩]
  else []

/-- `subtitle_warnings` between two blocks. -/
structure CueWalk where
  cursor : Nat
  cueNumber : Nat
  warnings : List DocumentWarning

/-- The timing line of a block and its index, `line` being its first line. -/
def timestampLineOf (format : DocumentFormat) (cursor : Nat) (line : Str) (after : List Str) :
    Run DocumentError (Str × Nat) :=
  if validTimestampLine (trim line) format then .ok (trim line, cursor)
  else match after with
    | [] => fail .invalidStructure
    | next :: _ =>
      if validTimestampLine (trim next) format then .ok (trim next, cursor + 1)
      else fail .invalidStructure

/-- The rest of a turn, after the timing line of a cue. -/
def CueWalk.cue (format : DocumentFormat) (maxLineChars maxReadingSpeed : Nat) (lines : List Str)
    (s : CueWalk) (timestampLine : Str) (textStart : Nat) :
    Run DocumentError (Turn CueWalk (List DocumentWarning)) := do
  let range ← ofOption .invalidStructure (subtitleTimestampRange timestampLine format)
  let cueLines := (lines.drop textStart).takeWhile (!isBlankLine ·)
  if cueLines = [] then fail .invalidStructure
  else .ok (.next ⟨textStart + cueLines.length, s.cueNumber + 1,
    s.warnings ++ cueWarnings maxLineChars maxReadingSpeed (s.cueNumber + 1) range cueLines⟩)

/-- A turn of the loop: the blank lines, and the block after them. -/
def CueWalk.turn (format : DocumentFormat) (maxLineChars maxReadingSpeed : Nat) (lines : List Str)
    (s : CueWalk) : Run DocumentError (Turn CueWalk (List DocumentWarning)) :=
  let cursor := s.cursor + ((lines.drop s.cursor).takeWhile isBlankLine).length
  match lines.drop cursor with
  | [] => .ok (.done s.warnings)
  | line :: after =>
    if (format = .webVtt ∧ cursor = 0 ∧ startsWith (trim line) "WEBVTT") ∨
        isMetadataLine format (trim line) then
      .ok (.next { s with cursor := cursor + 1 + (after.takeWhile (!isBlankLine ·)).length })
    else do
      let (timestampLine, cursor) ← timestampLineOf format cursor line after
      s.cue format maxLineChars maxReadingSpeed lines timestampLine (cursor + 1)

def sourceLines (text : Str) : List Str := (splitLines text).map Prod.fst

def subtitleWarnings (format : DocumentFormat) (text : Str) (maxLineChars maxReadingSpeed : Nat) :
    Run DocumentError (List DocumentWarning) :=
  let lines := sourceLines text
  loop (CueWalk.turn format maxLineChars maxReadingSpeed lines) (lines.length + 1) ⟨0, 0, []⟩

/-- `pdf.rs`: the warnings of a package. -/
class PdfWarnings where
  warnings : Bytes → Run DocumentError (List DocumentWarning)

namespace DocumentJob

variable [JsonReader] [PdfWarnings]

def warningsWithSubtitleLimits (job : DocumentJob) (maxSubtitleLineChars maxSubtitleReadingSpeed : Nat) :
    Run DocumentError (List DocumentWarning) :=
  match job.format with
  | .pdf => do
    let package ← ofOption .invalidStructure job.package
    PdfWarnings.warnings package
  | .srt | .webVtt => do
    validateStructure job.format job.sourceText none
    subtitleWarnings job.format job.sourceText maxSubtitleLineChars maxSubtitleReadingSpeed
  | _ => .ok []

def warnings (job : DocumentJob) : Run DocumentError (List DocumentWarning) :=
  job.warningsWithSubtitleLimits defaultSubtitleMaxLineChars defaultSubtitleMaxReadingSpeed

end DocumentJob

/-! ## Cues -/

/-- A timing line and the lines of text after it. -/
structure Cue where
  timing : Str
  text : List Str
  deriving DecidableEq, Repr

/-- The text of the cue that is open before the lines, and the cues that the check counts in them. -/
def cuesFrom (format : DocumentFormat) : CueScan → List Str → List Str × List Cue
  | _, [] => ([], [])
  | s, line :: lines =>
    match s.line format (trim line) with
    | .error _ => ([], [])
    | .ok s' =>
      let (text, cues) := cuesFrom format s' lines
      if s.cueCount < s'.cueCount then ([], ⟨trim line, text⟩ :: cues)
      else if s.isPayload (trim line) then (line :: text, cues)
      else (text, cues)

/-- The cues that `validate_structure` recognises in a text, in order. -/
def recognisedCues (format : DocumentFormat) (text : Str) : List Cue :=
  (cuesFrom format ⟨true, false, 0, false, false⟩ (sourceLines text)).2

/-- The warnings of cues, the first of them with the number after `number`. -/
def warningsFrom (format : DocumentFormat) (maxLineChars maxReadingSpeed : Nat) :
    Nat → List Cue → List DocumentWarning
  | _, [] => []
  | number, cue :: cues =>
    cueWarnings maxLineChars maxReadingSpeed (number + 1)
        ((subtitleTimestampRange cue.timing format).getD (0, 0)) cue.text ++
      warningsFrom format maxLineChars maxReadingSpeed (number + 1) cues

/-! ## The walk by blocks -/

def walkedCue (format : DocumentFormat) (timing : Str) (text : List Str) :
    Run DocumentError (List Cue) :=
  if text = [] ∨ ¬ validTimestampLine timing format then fail .invalidStructure
  else .ok [⟨timing, text⟩]

/-- The cue that the walk finds in a block; `first` means that it begins the file. -/
def walkedBlock (format : DocumentFormat) (first : Bool) : List Str → Run DocumentError (List Cue)
  | [] => .ok []
  | line :: lines =>
    if (format = .webVtt ∧ first ∧ startsWith (trim line) "WEBVTT") ∨
        isMetadataLine format (trim line) then .ok []
    else if validTimestampLine (trim line) format then walkedCue format (trim line) lines
    else match lines with
      | [] => fail .invalidStructure
      | next :: lines => walkedCue format (trim next) lines

def walkedCues (format : DocumentFormat) : Bool → List (List Str) → Run DocumentError (List Cue)
  | _, [] => .ok []
  | first, block :: blocks =>
    (walkedBlock format first block).bind fun cues =>
      (walkedCues format false blocks).map (cues ++ ·)

/-- The end of a file, or a blank line. -/
def Ends (tail : List Str) : Prop :=
  tail = [] ∨ ∃ line rest, isBlankLine line = true ∧ tail = line :: rest

section Walk

variable {format : DocumentFormat} {first : Bool} {block tail : List Str}

/-- Blank lines before a block are passed over. -/
theorem walkedCues_blank {line : Str} (hline : isBlankLine line = true) :
    walkedCues format first ((line :: tail).splitOnP isBlankLine) =
      walkedCues format false (tail.splitOnP isBlankLine) := by
  rw [List.splitOnP_cons_eq_if_modifyHead, if_pos hline]
  show (walkedCues format false (tail.splitOnP isBlankLine)).map ([] ++ ·) = _
  exact congrFun Except.map_id _

/-- The walk over the lines up to a blank one, and over those after it. -/
theorem walkedCues_append (hblock : ∀ line ∈ block, isBlankLine line = false)
    (htail : Ends tail) :
    walkedCues format first ((block ++ tail).splitOnP isBlankLine) =
      (walkedBlock format first block).bind fun cues =>
        (walkedCues format false (tail.splitOnP isBlankLine)).map (cues ++ ·) := by
  rcases htail with rfl | ⟨line, rest, hline, rfl⟩
  · rw [List.append_nil, List.splitOnP_eq_singleton hblock]
    rfl
  · rw [List.splitOnP_append_cons_of_forall_mem hblock line hline, walkedCues_blank hline]
    rfl

theorem walkedCues_blanks {blanks : List Str} (hblanks : ∀ line ∈ blanks, isBlankLine line = true) :
    walkedCues format first ((blanks ++ tail).splitOnP isBlankLine) =
      walkedCues format (first && blanks.isEmpty) (tail.splitOnP isBlankLine) := by
  induction blanks generalizing first with
  | nil => simp
  | cons line blanks ih =>
    rw [List.cons_append, walkedCues_blank (hblanks line List.mem_cons_self),
      ih fun l h => hblanks l (List.mem_cons_of_mem _ h)]
    simp

end Walk

/-! ## The loop -/

theorem takeWhile_block {block tail : List Str} (hblock : ∀ line ∈ block, isBlankLine line = false)
    (htail : Ends tail) : (block ++ tail).takeWhile (!isBlankLine ·) = block := by
  rw [List.takeWhile_append_of_pos fun line h => by simp [hblock line h]]
  rcases htail with rfl | ⟨line, rest, hline, rfl⟩
  · simp
  · simp [hline]

section Turn

variable {format : DocumentFormat} {maxLineChars maxReadingSpeed number : Nat}
  {warnings : List DocumentWarning} {front blanks block tail : List Str}

theorem drop_front (rest : List Str) : (front ++ rest).drop front.length = rest :=
  List.drop_left

theorem takeWhile_blanks (hblanks : ∀ line ∈ blanks, isBlankLine line = true)
    (hblock : ∀ line ∈ block, isBlankLine line = false) (hne : block ≠ []) :
    (blanks ++ (block ++ tail)).takeWhile isBlankLine = blanks := by
  rw [List.takeWhile_append_of_pos hblanks]
  cases block with
  | nil => exact absurd rfl hne
  | cons line block => simp [hblock line List.mem_cons_self]

theorem not_timing_blank {line : Str} (h : isBlankLine line = true) :
    validTimestampLine (trim line) format = false := by
  rw [List.isEmpty_iff.mp h]
  rfl

theorem cue_eq {timing : Str} {lines text : List Str} {cursor textStart textEnd : Nat}
    (htext : (lines.drop textStart).takeWhile (!isBlankLine ·) = text)
    (hend : textEnd = textStart + text.length) :
    CueWalk.cue format maxLineChars maxReadingSpeed lines ⟨cursor, number, warnings⟩ timing textStart =
      (walkedCue format timing text).map fun cues =>
        .next ⟨textEnd, number + cues.length,
          warnings ++ warningsFrom format maxLineChars maxReadingSpeed number cues⟩ := by
  subst hend
  unfold CueWalk.cue walkedCue validTimestampLine
  dsimp only
  rw [htext]
  cases hrange : subtitleTimestampRange timing format with
  | none => simp [ofOption, fail, Except.map]
  | some range =>
    by_cases hnil : text = []
    · simp [ofOption, fail, Except.map, hnil]
    · simp [ofOption, Except.map, warningsFrom, hnil, hrange]

/-- A turn takes the blank lines and the block after them. -/
theorem turn_block (hblanks : ∀ line ∈ blanks, isBlankLine line = true)
    (hblock : ∀ line ∈ block, isBlankLine line = false) (hne : block ≠ []) (htail : Ends tail) :
    CueWalk.turn format maxLineChars maxReadingSpeed (front ++ (blanks ++ (block ++ tail)))
        ⟨front.length, number, warnings⟩ =
      (walkedBlock format (front.isEmpty && blanks.isEmpty) block).map fun cues =>
        .next ⟨front.length + blanks.length + block.length, number + cues.length,
          warnings ++ warningsFrom format maxLineChars maxReadingSpeed number cues⟩ := by
  have hdrop : (front ++ (blanks ++ (block ++ tail))).drop (front.length + blanks.length) =
      block ++ tail := by
    rw [← List.append_assoc front, ← List.length_append, List.drop_left]
  have htext (text : List Str) (rest : List Str) (h : block = text ++ rest) :
      ((front ++ (blanks ++ (block ++ tail))).drop
        (front.length + blanks.length + text.length)).takeWhile (!isBlankLine ·) = rest := by
    rw [← List.drop_drop, hdrop, h, List.append_assoc, List.drop_left]
    exact takeWhile_block (fun line hl => hblock line (h ▸ List.mem_append_right _ hl)) htail
  unfold CueWalk.turn
  dsimp only
  rw [drop_front, takeWhile_blanks hblanks hblock hne, hdrop]
  cases block with
  | nil => exact absurd rfl hne
  | cons line after =>
    have hfirst : (front.isEmpty && blanks.isEmpty) = true ↔ front.length + blanks.length = 0 := by
      simp
    have hafter : ∀ line ∈ after, isBlankLine line = false :=
      fun l h => hblock l (List.mem_cons_of_mem _ h)
    rw [List.cons_append]
    dsimp only
    rw [takeWhile_block hafter htail, walkedBlock.eq_def]
    dsimp only
    by_cases hskip : (format = .webVtt ∧ (front.isEmpty && blanks.isEmpty) = true ∧
        startsWith (trim line) "WEBVTT" = true) ∨ isMetadataLine format (trim line) = true
    · rw [if_pos hskip, if_pos (by rwa [hfirst] at hskip)]
      simp [Except.map, warningsFrom]
      omega
    rw [if_neg hskip, if_neg (by rwa [hfirst] at hskip), timestampLineOf.eq_def]
    by_cases hv : validTimestampLine (trim line) format = true
    · rw [if_pos hv, if_pos hv]
      refine cue_eq (htext [line] after rfl) ?_
      simp only [List.length_cons]
      omega
    rw [if_neg hv, if_neg hv]
    cases after with
    | nil =>
      rcases htail with rfl | ⟨next, rest, hnext, rfl⟩
      · rfl
      · simp [not_timing_blank hnext, fail, Except.map]
    | cons next after =>
      rw [List.cons_append]
      dsimp only
      by_cases hv : validTimestampLine (trim next) format = true
      · rw [if_pos hv]
        refine cue_eq (htext [line, next] after rfl) ?_
        simp only [List.length_cons]
        omega
      · rw [if_neg hv, walkedCue, if_pos (.inr hv)]
        rfl

theorem turn_end (hblanks : ∀ line ∈ blanks, isBlankLine line = true) :
    CueWalk.turn format maxLineChars maxReadingSpeed (front ++ blanks) ⟨front.length, number, warnings⟩ =
      .ok (.done warnings) := by
  have htake : blanks.takeWhile isBlankLine = blanks := List.takeWhile_eq_self_iff.mpr hblanks
  unfold CueWalk.turn
  dsimp only
  rw [drop_front, htake, ← List.length_append, List.drop_length]

/-- The lines up to a blank one. -/
theorem exists_lines (lines : List Str) : ∃ block tail, lines = block ++ tail ∧
    (∀ line ∈ block, isBlankLine line = false) ∧ Ends tail := by
  induction lines with
  | nil => exact ⟨[], [], rfl, fun _ h => absurd h List.not_mem_nil, .inl rfl⟩
  | cons line lines ih =>
    cases hline : isBlankLine line with
    | true =>
      exact ⟨[], line :: lines, rfl, fun _ h => absurd h List.not_mem_nil, .inr ⟨line, lines, hline, rfl⟩⟩
    | false =>
      obtain ⟨block, tail, rfl, hblock, htail⟩ := ih
      exact ⟨line :: block, tail, rfl, List.forall_mem_cons.mpr ⟨hline, hblock⟩, htail⟩

/-- Blank lines, then a block or nothing. -/
theorem exists_blanks (lines : List Str) : ∃ blanks rest, lines = blanks ++ rest ∧
    (∀ line ∈ blanks, isBlankLine line = true) ∧
    (rest = [] ∨ ∃ block tail, rest = block ++ tail ∧ block ≠ [] ∧
      (∀ line ∈ block, isBlankLine line = false) ∧ Ends tail) := by
  induction lines with
  | nil => exact ⟨[], [], rfl, fun _ h => absurd h List.not_mem_nil, .inl rfl⟩
  | cons line lines ih =>
    cases hline : isBlankLine line with
    | true =>
      obtain ⟨blanks, rest, rfl, hblanks, hrest⟩ := ih
      exact ⟨line :: blanks, rest, rfl, List.forall_mem_cons.mpr ⟨hline, hblanks⟩, hrest⟩
    | false =>
      obtain ⟨block, tail, rfl, hblock, htail⟩ := exists_lines lines
      exact ⟨[], _, rfl, fun _ h => absurd h List.not_mem_nil, .inr ⟨line :: block, tail, rfl,
        List.cons_ne_nil _ _, List.forall_mem_cons.mpr ⟨hline, hblock⟩, htail⟩⟩

theorem warningsFrom_append (cues rest : List Cue) :
    warningsFrom format maxLineChars maxReadingSpeed number (cues ++ rest) =
      warningsFrom format maxLineChars maxReadingSpeed number cues ++
        warningsFrom format maxLineChars maxReadingSpeed (number + cues.length) rest := by
  induction cues generalizing number with
  | nil => rfl
  | cons cue cues ih =>
    rw [List.cons_append, warningsFrom, warningsFrom, ih, List.append_assoc, List.length_cons,
      Nat.add_right_comm, Nat.add_assoc]

/-- The loop gives the warnings of the cues that the walk finds. -/
theorem loop_walked {fuel : Nat} {rest : List Str} (hfuel : rest.length < fuel) :
    loop (CueWalk.turn format maxLineChars maxReadingSpeed (front ++ rest)) fuel
        ⟨front.length, number, warnings⟩ =
      (walkedCues format front.isEmpty (rest.splitOnP isBlankLine)).map fun cues =>
        warnings ++ warningsFrom format maxLineChars maxReadingSpeed number cues := by
  induction fuel generalizing front number warnings rest with
  | zero => exact absurd hfuel (Nat.not_lt_zero _)
  | succ fuel ih =>
    obtain ⟨blanks, rest, rfl, hblanks, rfl | ⟨block, tail, rfl, hne, hblock, htail⟩⟩ :=
      exists_blanks rest
    · rw [List.append_nil, loop_done (turn_end hblanks)]
      have h : walkedCues format front.isEmpty ((blanks ++ []).splitOnP isBlankLine) = _ :=
        walkedCues_blanks hblanks
      rw [List.append_nil] at h
      rw [h]
      simp [Except.map, walkedCues, walkedBlock, Except.bind, warningsFrom]
    · rw [walkedCues_blanks hblanks, walkedCues_append hblock htail]
      have hturn : CueWalk.turn format maxLineChars maxReadingSpeed
          (front ++ (blanks ++ (block ++ tail))) ⟨front.length, number, warnings⟩ = _ :=
        turn_block hblanks hblock hne htail
      cases hwalked : walkedBlock format (front.isEmpty && blanks.isEmpty) block with
      | error e =>
        rw [hwalked] at hturn
        rw [loop, hturn]
        rfl
      | ok cues =>
        rw [hwalked] at hturn
        rw [loop_next hturn]
        have hlines : front ++ (blanks ++ (block ++ tail)) = (front ++ blanks ++ block) ++ tail := by
          simp only [List.append_assoc]
        have hcursor : front.length + blanks.length + block.length =
            (front ++ blanks ++ block).length := by
          simp only [List.length_append]
        have hlater : (front ++ blanks ++ block).isEmpty = false := by
          simp [hne]
        have hlength : tail.length < fuel := by
          have hpos := List.length_pos_of_ne_nil hne
          simp only [List.length_append] at hfuel
          omega
        rw [hlines, hcursor, ih hlength, hlater]
        cases walkedCues format false (tail.splitOnP isBlankLine) with
        | error e => rfl
        | ok rest => simp [Except.map, Except.bind, warningsFrom_append]

end Turn

/-! ## The cues of the check -/

/-- A block in which the walk finds the cue of the check. -/
def BlockWalks (format : DocumentFormat) (before : Bool) : List Str → Prop
  | [] => True
  | line :: lines =>
    isMetadataLine format line ∨
      ¬ (format = .webVtt ∧ before ∧ startsWith line "WEBVTT") ∧
      (validTimestampLine line format ∨ ∀ next ∈ lines.head?,
        ¬ isMetadataLine format next ∧ ¬ (format = .webVtt ∧ before ∧ startsWith next "WEBVTT"))

def BlocksWalk (format : DocumentFormat) : Bool → List (List Str) → Prop
  | _, [] => True
  | before, block :: blocks =>
    BlockWalks format before (block.map trim) ∧
      BlocksWalk format (before && !(blockOf format before (block.map trim)).isCue) blocks

/-- No line is the text of a cue before the next timing line. -/
def CueScan.Closed (s : CueScan) : Prop :=
  s.metadata = true ∨ s.cueStart = true ∨ s.expectingTimestamp = true ∨ s.cueCount = 0

section Cues

variable {format : DocumentFormat} {s s' u : CueScan} {line : Str} {lines block tail : List Str}
  {n : Nat} {t : Bool}

theorem CueScan.Closed.isPayload (h : s.Closed) (line : Str) : s.isPayload line = false := by
  unfold CueScan.isPayload
  rcases h with h | h | h | h <;> simp [h]

theorem CueStep.closed (h : CueStep format s line s') (hs : s.Closed) :
    s'.Closed ∨ s'.cueCount = s.cueCount + 1 := by
  cases h with
  | blank => exact .inl (.inr (.inl rfl))
  | note => exact .inl (.inl rfl)
  | skipped => exact .inl hs
  | header _ _ _ hh => exact .inl (.inr (.inr (.inr hh.2.1)))
  | timing => exact .inr rfl
  | identifier => exact .inl (.inr (.inr (.inl rfl)))
  | text _ hm _ he hc => simpa [CueScan.Closed, hm, he, hc] using hs

/-- A line that is neither a timing line nor text. -/
theorem cuesFrom_pass (h : CueStep format s (trim line) s') (hcount : s'.cueCount = s.cueCount)
    (hs : s.Closed) : cuesFrom format s (line :: lines) = cuesFrom format s' lines := by
  rw [cuesFrom, h.line]
  dsimp only
  rw [hcount, if_neg (Nat.lt_irrefl _), hs.isPayload, if_neg Bool.false_ne_true]

theorem cuesFrom_timing (h : CueStep format s (trim line) s') (hcount : s'.cueCount = s.cueCount + 1) :
    cuesFrom format s (line :: lines) =
      ([], ⟨trim line, (cuesFrom format s' lines).1⟩ :: (cuesFrom format s' lines).2) := by
  rw [cuesFrom, h.line]
  dsimp only
  rw [hcount, if_pos (Nat.lt_succ_self _)]

/-- Between cues no text is open. -/
theorem cuesFrom_closed (hs : s.Closed) : (cuesFrom format s lines).1 = [] := by
  induction lines generalizing s with
  | nil => rfl
  | cons line lines ih =>
    cases hline : s.line format (trim line) with
    | error e => rw [cuesFrom, hline]
    | ok s' =>
      have h := CueStep.of_line hline
      rcases h.count with hcount | hcount
      · have hs' := (h.closed hs).resolve_right (by omega)
        rw [cuesFrom_pass h hcount hs, ih hs']
      · rw [cuesFrom_timing h hcount]

theorem trim_ne_nil (h : isBlankLine line = false) : trim line ≠ [] :=
  List.isEmpty_eq_false_iff.mp h

/-- A block without a cue. -/
theorem cuesFrom_silent (hblock : ∀ line ∈ block, isBlankLine line = false) (hs : s.Silent)
    (hclosed : s.Closed) (hscan : s.scan format (block.map trim) = .ok u) :
    cuesFrom format s (block ++ tail) = cuesFrom format u tail := by
  induction block generalizing s with
  | nil =>
    cases hscan
    rfl
  | cons line block ih =>
    obtain ⟨s', hline, hscan⟩ := scan_cons.mp hscan
    obtain ⟨hs', hcount⟩ := hline.silent hs (trim_ne_nil (hblock line List.mem_cons_self))
    have hclosed' := (hline.closed hclosed).resolve_right (by omega)
    rw [List.cons_append, cuesFrom_pass hline hcount hclosed]
    exact ih (fun l h => hblock l (List.mem_cons_of_mem _ h)) hs' hclosed' hscan

/-- The text of a cue. -/
theorem cuesFrom_text (hblock : ∀ line ∈ block, isBlankLine line = false)
    (hscan : CueScan.scan format ⟨false, false, n + 1, t, false⟩ (block.map trim) = .ok u) :
    cuesFrom format ⟨false, false, n + 1, t, false⟩ (block ++ tail) =
      (block ++ (cuesFrom format u tail).1, (cuesFrom format u tail).2) := by
  induction block generalizing t with
  | nil =>
    cases hscan
    rfl
  | cons line block ih =>
    have hl := trim_ne_nil (hblock line List.mem_cons_self)
    obtain ⟨s', hline, hscan⟩ := scan_cons.mp hscan
    obtain rfl : s' = ⟨false, false, n + 1, true, false⟩ := by
      cases hline with
      | blank hnil => exact absurd hnil hl
      | skipped _ _ hm => cases hm
      | note _ _ hc | identifier _ _ _ _ _ hc => cases hc
      | header _ _ _ hh => exact absurd hh.2.1 (Nat.succ_ne_zero n)
      | timing _ _ _ _ hc => simp at hc
      | text => rfl
    have hpayload : CueScan.isPayload ⟨false, false, n + 1, t, false⟩ (trim line) = true := by
      simp [CueScan.isPayload, hl]
    rw [List.cons_append, cuesFrom, hline.line]
    dsimp only
    rw [if_neg (Nat.lt_irrefl _), hpayload, if_pos rfl,
      ih (fun l h => hblock l (List.mem_cons_of_mem _ h)) hscan]
    rfl

/-- A blank line closes the text. -/
theorem cuesFrom_blank (hline : isBlankLine line = true) (h : CueStep format s (trim line) s') :
    cuesFrom format s (line :: lines) =
      cuesFrom format ⟨true, false, s.cueCount, false, false⟩ lines := by
  have hnil : trim line = [] := List.isEmpty_iff.mp hline
  rw [hnil] at h
  rw [cuesFrom, hnil, h.line, h.of_blank]
  dsimp only
  rw [if_neg (Nat.lt_irrefl _)]
  rfl

theorem cuesFrom_ends (htail : Ends tail) (hpass : s.Passes format (tail.map trim)) :
    (cuesFrom format s tail).1 = [] := by
  rcases htail with rfl | ⟨line, rest, hline, rfl⟩
  · rfl
  · obtain ⟨s', hstep, -⟩ := passes_cons.mp hpass
    rw [cuesFrom_blank hline hstep]
    exact cuesFrom_closed (.inr (.inl rfl))

/-- A cue has text. -/
theorem text_ne_nil (htail : Ends tail)
    (hpass : CueScan.Passes format ⟨false, false, n + 1, false, false⟩ ((block ++ tail).map trim)) :
    block ≠ [] := by
  rintro rfl
  rcases htail with rfl | ⟨line, rest, hline, rfl⟩
  · obtain ⟨u, hu, hend⟩ := hpass
    cases hu
    exact hend (.inr (.inr (by simp)))
  · obtain ⟨s', hstep, -⟩ := passes_cons.mp hpass
    rw [List.isEmpty_iff.mp hline] at hstep
    cases hstep with
    | blank _ hok => cases (hok rfl).2 (Nat.succ_pos n)
    | note h | skipped h | header h | timing h | identifier h | text h => exact absurd rfl h

/-- A cue from its timing line on. -/
theorem cue_walked (hblock : ∀ line ∈ block, isBlankLine line = false) (htail : Ends tail)
    (hv : validTimestampLine (trim line) format = true)
    (hstep : CueStep format s (trim line) ⟨false, false, s.cueCount + 1, false, false⟩)
    (hscan : CueScan.scan format ⟨false, false, s.cueCount + 1, false, false⟩ (block.map trim) = .ok u)
    (hpass : u.Passes format (tail.map trim)) :
    ∃ cues, walkedCue format (trim line) block = .ok cues ∧
      (cuesFrom format s (line :: (block ++ tail))).2 = cues ++ (cuesFrom format u tail).2 := by
  have hne : block ≠ [] := by
    refine @text_ne_nil format block tail s.cueCount htail ?_
    rw [List.map_append]
    exact passes_append.mpr ⟨u, hscan, hpass⟩
  refine ⟨_, if_neg (by simp [hne, hv]), ?_⟩
  rw [cuesFrom_timing hstep rfl, cuesFrom_text hblock hscan, cuesFrom_ends htail hpass, List.append_nil]
  rfl

theorem walkedCue_length {timing : Str} {cues : List Cue}
    (h : walkedCue format timing block = .ok cues) : ∃ cue, cues = [cue] := by
  unfold walkedCue at h
  split at h
  · cases h
  · cases h
    exact ⟨_, rfl⟩

/-- After an identifier comes a line that is not blank. -/
theorem not_passes_identified (htail : Ends tail) :
    ¬ CueScan.Passes format ⟨true, true, n, t, false⟩ (tail.map trim) := by
  rintro hpass
  rcases htail with rfl | ⟨line, rest, hline, rfl⟩
  · obtain ⟨u, hu, hend⟩ := hpass
    cases hu
    exact hend (.inl rfl)
  · obtain ⟨s', hstep, -⟩ := passes_cons.mp hpass
    rw [List.isEmpty_iff.mp hline] at hstep
    cases hstep with
    | blank _ hok => cases (hok rfl).1
    | note h | skipped h | header h | timing h | identifier h | text h => exact absurd rfl h

/-- The walk finds the cue of a block, or a cue too many, or it errs. -/
theorem block_walked (hblock : ∀ line ∈ block, isBlankLine line = false) (htail : Ends tail)
    (hscan : CueScan.scan format ⟨true, false, n, false, false⟩ (block.map trim) = .ok u)
    (hpass : u.Passes format (tail.map trim)) :
    (BlockWalks format (decide (n = 0)) (block.map trim) ∧
      ∃ cues, walkedBlock format false block = .ok cues ∧
        (cuesFrom format ⟨true, false, n, false, false⟩ (block ++ tail)).2 =
          cues ++ (cuesFrom format u tail).2) ∨
    (¬ BlockWalks format (decide (n = 0)) (block.map trim) ∧
      ∀ cues, walkedBlock format false block = .ok cues →
        (cuesFrom format ⟨true, false, n, false, false⟩ (block ++ tail)).2.length <
          cues.length + (cuesFrom format u tail).2.length) := by
  have hclosed : CueScan.Closed ⟨true, false, n, false, false⟩ := .inr (.inl rfl)
  cases block with
  | nil =>
    cases hscan
    exact .inl ⟨trivial, [], rfl, rfl⟩
  | cons line block =>
    have hl := trim_ne_nil (hblock line List.mem_cons_self)
    have hrest : ∀ line ∈ block, isBlankLine line = false :=
      fun l h => hblock l (List.mem_cons_of_mem _ h)
    obtain ⟨s', hline, hscan⟩ := scan_cons.mp hscan
    rw [List.map_cons, BlockWalks, walkedBlock.eq_def]
    dsimp only
    cases hline with
    | blank hnil => exact absurd hnil hl
    | skipped _ _ hm => cases hm
    | text _ _ _ _ hc => cases hc
    | note _ hi hc =>
      refine .inl ⟨.inl hi, [], if_pos (.inr hi), ?_⟩
      rw [List.cons_append, cuesFrom_pass (.note hl hi hc) rfl hclosed,
        cuesFrom_silent hrest (.inl rfl) (.inl rfl) hscan]
      rfl
    | header _ hi hm hh =>
      obtain ⟨h1, h2, h3⟩ := hh
      have h2 : n = 0 := h2
      subst h2
      have hmeta : ¬ isMetadataLine format (trim line) := fun h => hi ⟨h, rfl⟩
      refine .inr ⟨fun h => (h.resolve_left hmeta).1 ⟨h1, decide_eq_true (show (0 : Nat) = 0 from rfl), h3⟩,
        fun cues hcues => ?_⟩
      rw [if_neg (by simp [hmeta]), if_neg (not_timing_of_header h3 format)] at hcues
      rw [List.cons_append, cuesFrom_pass (.header hl hi hm ⟨h1, rfl, h3⟩) rfl hclosed,
        cuesFrom_silent hrest (.inr ⟨rfl, rfl⟩) (.inr (.inr (.inr rfl))) hscan]
      cases block with
      | nil => cases hcues
      | cons next block =>
        obtain ⟨cue, rfl⟩ := walkedCue_length hcues
        rw [List.length_singleton]
        omega
    | timing _ hi hm hh hc hv =>
      have hmeta : ¬ isMetadataLine format (trim line) := fun h => hi ⟨h, rfl⟩
      have hheader : ¬ (format = .webVtt ∧ decide (n = 0) = true ∧ startsWith (trim line) "WEBVTT") := by
        simpa [CueScan.AtHeader] using hh
      rw [if_neg (by simp [hmeta]), if_pos hv]
      exact .inl ⟨.inr ⟨hheader, .inl hv⟩, cue_walked hrest htail hv (.timing hl hi hm hh hc hv) hscan hpass⟩
    | identifier _ hi hm hh he hc hv hid =>
      have hheader : ¬ (format = .webVtt ∧ decide (n = 0) = true ∧ startsWith (trim line) "WEBVTT") := by
        simpa [CueScan.AtHeader] using hh
      rw [if_neg (by simp [hi]), if_neg hv, List.cons_append,
        cuesFrom_pass (.identifier hl hi hm hh he hc hv hid) rfl hclosed]
      cases block with
      | nil =>
        cases hscan
        exact absurd hpass (not_passes_identified htail)
      | cons next block =>
        have hl := trim_ne_nil (hrest next List.mem_cons_self)
        have hrest : ∀ line ∈ block, isBlankLine line = false :=
          fun l h => hrest l (List.mem_cons_of_mem _ h)
        obtain ⟨s', hline, hscan⟩ := scan_cons.mp hscan
        dsimp only
        have hbad (hnot : ¬ validTimestampLine (trim next) format) {cues : List Cue}
            (hcues : walkedCue format (trim next) block = .ok cues) : False := by
          rw [walkedCue, if_pos (.inr hnot)] at hcues
          cases hcues
        cases hline with
        | blank hnil => exact absurd hnil hl
        | skipped _ _ hm => cases hm
        | identifier _ _ _ _ he => cases he
        | text _ _ _ he => cases he
        | note _ hn _ =>
          refine .inr ⟨fun h => ?_, fun cues hcues => (hbad (not_timing_of_metadata hn) hcues).elim⟩
          exact (((h.resolve_left hi).2.resolve_left hv) _ rfl).1 hn
        | header _ _ _ hh' =>
          refine .inr ⟨fun h => ?_, fun cues hcues => (hbad (not_timing_of_header hh'.2.2 format) hcues).elim⟩
          exact (((h.resolve_left hi).2.resolve_left hv) _ rfl).2
            ⟨hh'.1, decide_eq_true hh'.2.1, hh'.2.2⟩
        | timing _ hn hm' hh' hc' hv' =>
          have hmeta : ¬ isMetadataLine format (trim next) := fun h => hn ⟨h, rfl⟩
          have hheader' : ¬ (format = .webVtt ∧ decide (n = 0) = true ∧ startsWith (trim next) "WEBVTT") := by
            simpa [CueScan.AtHeader] using hh'
          refine .inl ⟨.inr ⟨hheader, .inr ?_⟩,
            cue_walked hrest htail hv' (.timing hl hn hm' hh' hc' hv') hscan hpass⟩
          rintro _ ⟨⟩
          exact ⟨hmeta, hheader'⟩

/-- The walk finds the cues of the check, or it errs or finds too many. -/
theorem blocks_walked (hpass : CueScan.Passes format ⟨true, false, n, false, false⟩ (lines.map trim)) :
    (BlocksWalk format (decide (n = 0)) (lines.splitOnP isBlankLine) →
      walkedCues format false (lines.splitOnP isBlankLine) =
        .ok (cuesFrom format ⟨true, false, n, false, false⟩ lines).2) ∧
    (¬ BlocksWalk format (decide (n = 0)) (lines.splitOnP isBlankLine) → ∀ cues,
      walkedCues format false (lines.splitOnP isBlankLine) = .ok cues →
        (cuesFrom format ⟨true, false, n, false, false⟩ lines).2.length < cues.length) := by
  induction h : lines.length using Nat.strongRecOn generalizing lines n with
  | ind length ih =>
    obtain ⟨block, tail, rfl, hblock, htail⟩ := exists_lines lines
    rw [List.map_append] at hpass
    obtain ⟨u, hscan, hpass⟩ := passes_append.mp hpass
    have hwalked := block_walked hblock htail hscan hpass
    rw [walkedCues_append hblock htail]
    -- the rest of the file
    obtain ⟨P, hsplit, hok, hmany⟩ : ∃ P,
        (BlocksWalk format (decide (n = 0)) ((block ++ tail).splitOnP isBlankLine) ↔
          BlockWalks format (decide (n = 0)) (block.map trim) ∧ P) ∧
        (P → walkedCues format false (tail.splitOnP isBlankLine) = .ok (cuesFrom format u tail).2) ∧
        (¬ P → ∀ cues, walkedCues format false (tail.splitOnP isBlankLine) = .ok cues →
          (cuesFrom format u tail).2.length < cues.length) := by
      rcases htail with rfl | ⟨line, rest, hline, rfl⟩
      · refine ⟨True, ?_, fun _ => rfl, fun h => absurd trivial h⟩
        rw [List.append_nil, List.splitOnP_eq_singleton hblock]
        exact Iff.rfl
      · obtain ⟨s', hstep, hrest⟩ := passes_cons.mp hpass
        have hnil : trim line = [] := List.isEmpty_iff.mp hline
        rw [cuesFrom_blank hline hstep, walkedCues_blank hline]
        rw [hnil] at hstep
        have hcount := count_block (fun l h => ?_) hscan hstep
        · rw [hstep.of_blank, hcount] at hrest
          have ih := ih rest.length (by simp at h; omega) hrest rfl
          rw [List.splitOnP_append_cons_of_forall_mem hblock line hline, hcount]
          refine ⟨_, ?_, ih⟩
          rw [BlocksWalk]
          cases (blockOf format (decide (n = 0)) (block.map trim)).isCue <;> simp
        · obtain ⟨l', hl', rfl⟩ := List.mem_map.mp h
          exact trim_ne_nil (hblock l' hl')
    have result {cues : List Cue} (h : ((walkedBlock format false block).bind fun cues =>
        (walkedCues format false (tail.splitOnP isBlankLine)).map (cues ++ ·)) = .ok cues) :
        ∃ front rest, walkedBlock format false block = .ok front ∧
          walkedCues format false (tail.splitOnP isBlankLine) = .ok rest ∧ cues = front ++ rest := by
      obtain ⟨front, hfront, h⟩ := Except.bind_ok.mp h
      obtain ⟨rest, hrest, h⟩ := Except.map_eq_ok.mp h
      exact ⟨front, rest, hfront, hrest, h.symm⟩
    rw [hsplit]
    rcases hwalked with ⟨hwalks, front, hfront, heq⟩ | ⟨hbad, hless⟩
    · refine ⟨fun h => ?_, fun h cues hcues => ?_⟩
      · rw [hfront, hok h.2, heq]
        rfl
      · obtain ⟨front', rest, hfront', hrest, rfl⟩ := result hcues
        obtain rfl : front' = front := Except.ok.inj (hfront'.symm.trans hfront)
        have hlater := hmany (fun hP => h ⟨hwalks, hP⟩) rest hrest
        rw [heq, List.length_append, List.length_append]
        omega
    · refine ⟨fun h => absurd h.1 hbad, fun _ cues hcues => ?_⟩
      obtain ⟨front, rest, hfront, hrest, rfl⟩ := result hcues
      have hlater : (cuesFrom format u tail).2.length ≤ rest.length := by
        by_cases hP : P
        · rw [Except.ok.inj ((hok hP).symm.trans hrest)]
        · exact Nat.le_of_lt (hmany hP rest hrest)
      have hnow := hless front hfront
      rw [List.length_append]
      omega

end Cues

/-! ## Counting warnings -/

section Count

variable {format : DocumentFormat} {first : Bool} {number : Nat} {cues : List Cue}

/-- With no speed too high, a cue has at most the warning of its lines. -/
theorem cueWarnings_lines (maxLineChars cueNumber : Nat) (range : Nat × Nat) (text : List Str) :
    cueWarnings maxLineChars u64Max cueNumber range text =
      if (text.any fun line => maxLineChars < line.length) then
        [⟨.subtitleLineLengthExceeded, none, some cueNumber⟩]
      else [] := by
  have hslow : ¬ (0 < range.2 - range.1 ∧ saturatingMul u64Max (range.2 - range.1) <
      saturatingMul (min u64Max (text.flatten.countP (!isWhitespace ·))) 1000) := by
    rintro ⟨hpos, hlt⟩
    have hle : saturatingMul (min u64Max (text.flatten.countP (!isWhitespace ·))) 1000 ≤ u64Max :=
      Nat.min_le_left _ _
    have hmax : saturatingMul u64Max (range.2 - range.1) = u64Max :=
      Nat.min_eq_left (Nat.le_mul_of_pos_right _ hpos)
    omega
  unfold cueWarnings
  dsimp only
  rw [if_neg hslow, List.append_nil]

theorem length_warningsFrom_le :
    (warningsFrom format 0 u64Max number cues).length ≤ cues.length := by
  induction cues generalizing number with
  | nil => exact Nat.le_refl 0
  | cons cue cues ih =>
    rw [warningsFrom, cueWarnings_lines, List.length_append, List.length_cons]
    have ih : (warningsFrom format 0 u64Max (number + 1) cues).length ≤ cues.length := ih
    split
    · rw [List.length_singleton]
      omega
    · rw [List.length_nil]
      omega

/-- Every cue with text has a line that is longer than nothing. -/
theorem length_warningsFrom (h : ∀ cue ∈ cues, cue.text.any (0 < ·.length)) :
    (warningsFrom format 0 u64Max number cues).length = cues.length := by
  induction cues generalizing number with
  | nil => rfl
  | cons cue cues ih =>
    rw [warningsFrom, cueWarnings_lines, if_pos (h cue List.mem_cons_self), List.length_append,
      ih fun c hc => h c (List.mem_cons_of_mem _ hc), List.length_singleton, List.length_cons,
      Nat.add_comm]

theorem walkedBlock_text {block : List Str} (hblock : ∀ line ∈ block, isBlankLine line = false)
    (h : walkedBlock format first block = .ok cues) : ∀ cue ∈ cues, cue.text.any (0 < ·.length) := by
  have walked {timing : Str} {text : List Str} (htext : ∀ line ∈ text, isBlankLine line = false)
      (h : walkedCue format timing text = .ok cues) : ∀ cue ∈ cues, cue.text.any (0 < ·.length) := by
    unfold walkedCue at h
    split at h
    · cases h
    · rename_i hnot
      cases h
      rintro _ (_ | ⟨_, ⟨⟩⟩)
      obtain ⟨line, text, rfl⟩ := List.exists_cons_of_ne_nil (fun h => hnot (.inl h))
      have hline := htext line List.mem_cons_self
      refine List.any_eq_true.mpr ⟨line, List.mem_cons_self, decide_eq_true ?_⟩
      refine List.length_pos_of_ne_nil fun hnil => ?_
      rw [hnil] at hline
      cases hline
  unfold walkedBlock at h
  split at h
  · cases h
    exact fun _ h => absurd h List.not_mem_nil
  rename_i line lines
  split at h
  · cases h
    exact fun _ h => absurd h List.not_mem_nil
  have hlines : ∀ line ∈ lines, isBlankLine line = false :=
    fun l h => hblock l (List.mem_cons_of_mem _ h)
  split at h
  · exact walked hlines h
  · split at h
    · cases h
    · exact walked (fun l h => hlines l (List.mem_cons_of_mem _ h)) h

theorem walkedCues_text {blocks : List (List Str)}
    (hblocks : ∀ block ∈ blocks, ∀ line ∈ block, isBlankLine line = false)
    (h : walkedCues format first blocks = .ok cues) : ∀ cue ∈ cues, cue.text.any (0 < ·.length) := by
  induction blocks generalizing first cues with
  | nil =>
    cases h
    exact fun _ h => absurd h List.not_mem_nil
  | cons block blocks ih =>
    obtain ⟨front, hfront, h⟩ := Except.bind_ok.mp h
    obtain ⟨rest, hrest, rfl⟩ := Except.map_eq_ok.mp h
    intro cue hcue
    rcases List.mem_append.mp hcue with hcue | hcue
    · exact walkedBlock_text (hblocks block List.mem_cons_self) hfront cue hcue
    · exact ih (fun b hb => hblocks b (List.mem_cons_of_mem _ hb)) hrest cue hcue

theorem not_blank_of_splitOnP (lines : List Str) :
    ∀ block ∈ lines.splitOnP isBlankLine, ∀ line ∈ block, isBlankLine line = false := by
  induction h : lines.length using Nat.strongRecOn generalizing lines with
  | ind length ih =>
    obtain ⟨block, tail, rfl, hblock, htail⟩ := exists_lines lines
    rcases htail with rfl | ⟨line, rest, hline, rfl⟩
    · rw [List.append_nil, List.splitOnP_eq_singleton hblock]
      exact List.forall_mem_singleton.mpr hblock
    · rw [List.splitOnP_append_cons_of_forall_mem hblock line hline]
      exact List.forall_mem_cons.mpr ⟨hblock, ih rest.length (by simp at h; omega) rest rfl⟩

end Count

/-! ## Accepted files -/

section Accepted

variable {format : DocumentFormat} {lines : List Str}

theorem startsWith_trim {line : Str} (h : startsWith (trimStart line) "WEBVTT") :
    startsWith (trim line) "WEBVTT" := by
  obtain ⟨rest, hrest⟩ := List.isPrefixOf_iff_prefix.mp h
  unfold trim startsWith
  rw [← hrest, List.isPrefixOf_iff_prefix]
  clear hrest
  induction rest using List.reverseRecOn with
  | nil => decide
  | append_singleton rest c ih =>
    unfold trimEnd at ih ⊢
    rw [← List.append_assoc, List.rdropWhile_concat]
    split
    · exact ih
    · rw [List.append_assoc]
      exact List.prefix_append _ _

theorem blocksWalk_srt (before : Bool) (blocks : List (List Str)) : BlocksWalk .srt before blocks := by
  induction blocks generalizing before with
  | nil => trivial
  | cons block blocks ih =>
    refine ⟨?_, ih _⟩
    cases block with
    | nil => trivial
    | cons line block =>
      have hheader (text : Str) :
          ¬ (DocumentFormat.srt = .webVtt ∧ before = true ∧ startsWith text "WEBVTT" = true) := by
        simp
      exact .inr ⟨hheader _, .inr fun next _ => ⟨Bool.false_ne_true, hheader next⟩⟩

/-- Only WebVTT has a header. -/
theorem walkedCues_srt (blocks : List (List Str)) :
    walkedCues .srt true blocks = walkedCues .srt false blocks := by
  cases blocks with
  | nil => rfl
  | cons block blocks =>
    cases block with
    | nil => rfl
    | cons line block =>
      unfold walkedCues walkedBlock
      simp

/-- The cues of an accepted file. -/
theorem file_walked (hpass : CueScan.Passes format ⟨true, false, 0, false, false⟩ (lines.map trim))
    (hformat : format = .srt ∨ format = .webVtt)
    (hheader : format = .webVtt → ∃ line rest, lines = line :: rest ∧ startsWith (trim line) "WEBVTT") :
    (BlocksWalk format true (lines.splitOnP isBlankLine).tail →
      walkedCues format true (lines.splitOnP isBlankLine) =
        .ok (cuesFrom format ⟨true, false, 0, false, false⟩ lines).2) ∧
    (¬ BlocksWalk format true (lines.splitOnP isBlankLine).tail → ∀ cues,
      walkedCues format true (lines.splitOnP isBlankLine) = .ok cues →
        (cuesFrom format ⟨true, false, 0, false, false⟩ lines).2.length < cues.length) := by
  rcases hformat with rfl | rfl
  · rw [walkedCues_srt]
    exact ⟨fun _ => (blocks_walked hpass).1 (blocksWalk_srt _ _), fun h => absurd (blocksWalk_srt _ _) h⟩
  obtain ⟨line, rest, rfl, hline⟩ := hheader rfl
  obtain ⟨block, tail, rfl, hblock, htail⟩ := exists_lines rest
  have hl : trim line ≠ [] := by
    intro hnil
    rw [hnil] at hline
    cases hline
  have hmeta : ¬ isMetadataLine .webVtt (trim line) := fun h => not_header_of_metadata h hline
  have hlines : ∀ l ∈ line :: block, isBlankLine l = false :=
    List.forall_mem_cons.mpr ⟨List.isEmpty_eq_false_iff.mpr hl, hblock⟩
  have hstep : CueStep .webVtt ⟨true, false, 0, false, false⟩ (trim line) ⟨false, false, 0, false, false⟩ :=
    .header hl (fun h => hmeta h.1) rfl ⟨rfl, rfl, hline⟩
  have hfirst : walkedBlock .webVtt true (line :: block) = .ok [] := by
    rw [walkedBlock.eq_def]
    exact if_pos (.inl ⟨rfl, rfl, hline⟩)
  rw [← List.cons_append] at hpass ⊢
  rw [List.map_append] at hpass
  obtain ⟨u, hscan, hpass⟩ := passes_append.mp hpass
  obtain ⟨s', hstep', hscan'⟩ := scan_cons.mp hscan
  obtain rfl : s' = ⟨false, false, 0, false, false⟩ :=
    Except.ok.inj (hstep'.line.symm.trans hstep.line)
  rw [walkedCues_append hlines htail, hfirst, List.cons_append, cuesFrom_pass hstep rfl (.inr (.inl rfl)),
    cuesFrom_silent hblock (.inr ⟨rfl, rfl⟩) (.inr (.inr (.inr rfl))) hscan', ← List.cons_append]
  have hwalked (rest : List (List Str)) : (Except.bind (.ok []) fun cues =>
      (walkedCues .webVtt false rest).map (cues ++ ·)) = walkedCues .webVtt false rest :=
    congrFun Except.map_id _
  rw [hwalked]
  rcases htail with rfl | ⟨next, rest, hnext, rfl⟩
  · rw [List.append_nil, List.splitOnP_eq_singleton hlines]
    exact ⟨fun _ => rfl, fun h => absurd trivial h⟩
  · obtain ⟨s', hblank, hrest⟩ := passes_cons.mp hpass
    rw [List.splitOnP_append_cons_of_forall_mem hlines next hnext, walkedCues_blank hnext,
      cuesFrom_blank hnext hblank]
    rw [List.isEmpty_iff.mp hnext] at hblank
    have hcount := count_block (fun l h => ?_) hscan hblank
    · rw [List.map_cons, blockOf_header hmeta ⟨rfl, decide_eq_true (show (0 : Nat) = 0 from rfl), hline⟩]
        at hcount
      have hzero : u.cueCount = 0 := hcount
      rw [hblank.of_blank, hzero] at hrest
      rw [hzero]
      exact blocks_walked hrest
    · obtain ⟨l', hl', rfl⟩ := List.mem_map.mp h
      exact trim_ne_nil (hlines l' hl')

/-- The lines of an accepted file. -/
theorem header_of_valid {text : Str} (h : validateSubtitles .webVtt text = .ok ()) :
    ∃ line rest, sourceLines text = line :: rest ∧ startsWith (trim line) "WEBVTT" := by
  unfold validateSubtitles at h
  dsimp only at h
  split at h
  · cases h
  rename_i hnot
  unfold sourceLines
  cases hlines : splitLines text with
  | nil => exact absurd (.inl hlines) hnot
  | cons l ls =>
    refine ⟨l.1, _, rfl, startsWith_trim ?_⟩
    simpa [hlines] using hnot

/-- The warnings of an accepted file are those of the cues that the check recognises, whatever the
limits, if and only if every block after the first walks. -/
theorem warnings_recognised_iff [JsonReader] [Packages] [PdfWarnings] {options : ImportOptions}
    {sourceName : Str} {contents : Bytes} {job : DocumentJob}
    (himport : options.run sourceName contents = .ok job)
    (hformat : job.format = .srt ∨ job.format = .webVtt) :
    (∀ maxLineChars maxReadingSpeed,
      job.warningsWithSubtitleLimits maxLineChars maxReadingSpeed =
        .ok (warningsFrom job.format maxLineChars maxReadingSpeed 0
          (recognisedCues job.format job.sourceText))) ↔
      BlocksWalk job.format true ((sourceLines job.sourceText).splitOnP isBlankLine).tail := by
  have hvalid := (told_of_run himport hformat).1
  obtain ⟨-, hpass⟩ := passes_of_valid hvalid
  have hlines : trimmedLines job.sourceText = (sourceLines job.sourceText).map trim := by
    unfold trimmedLines sourceLines
    rw [List.map_map]
    rfl
  rw [hlines] at hpass
  have hwarnings (a b : Nat) : job.warningsWithSubtitleLimits a b =
      (walkedCues job.format true ((sourceLines job.sourceText).splitOnP isBlankLine)).map
        (warningsFrom job.format a b 0) := by
    have hloop := @loop_walked job.format a b 0 [] [] _ (sourceLines job.sourceText)
      (Nat.lt_succ_self _)
    have hchecked : validateStructure job.format job.sourceText none = .ok () := by
      rcases hformat with h | h <;> rw [h] at hvalid ⊢ <;> exact hvalid
    have hsubtitles : job.warningsWithSubtitleLimits a b =
        subtitleWarnings job.format job.sourceText a b := by
      unfold DocumentJob.warningsWithSubtitleLimits
      rw [hchecked]
      rcases hformat with h | h <;> rw [h] <;> rfl
    rw [hsubtitles]
    exact hloop
  have hfile := file_walked hpass hformat fun h => header_of_valid (h ▸ hvalid)
  constructor
  · intro hall
    by_contra hbad
    obtain ⟨cues, hcues, heq⟩ := Except.map_eq_ok.mp ((hwarnings 0 u64Max).symm.trans (hall 0 u64Max))
    have hmany := hfile.2 hbad cues hcues
    have hlength := @length_warningsFrom job.format 0 _
      (walkedCues_text (not_blank_of_splitOnP _) hcues)
    rw [heq] at hlength
    have hle := @length_warningsFrom_le job.format 0 (recognisedCues job.format job.sourceText)
    unfold recognisedCues at hle hlength
    omega
  · intro hwalks a b
    rw [hwarnings, hfile.1 hwalks]
    rfl

end Accepted

/-! ## A second header -/

def headersVtt : Bytes :=
  asciiBytes "WEBVTT\n\nWEBVTT\n\n00:01.000 --> 00:02.000\nHello\n"

def headersVttJob : DocumentJob where
  format := .webVtt
  sourceName := "hello.vtt".toList
  segments := [
    ⟨0, .verbatim, "WEBVTT".toList, none, ['\n']⟩,
    ⟨1, .verbatim, [], none, ['\n']⟩,
    ⟨2, .verbatim, "WEBVTT".toList, none, ['\n']⟩,
    ⟨3, .verbatim, [], none, ['\n']⟩,
    ⟨4, .verbatim, "00:01.000 --> 00:02.000".toList, none, ['\n']⟩,
    ⟨5, .prose, "Hello".toList, none, ['\n']⟩]
  package := none

section Headers

local instance headersReader : JsonReader := noReader
local instance headersPackages : Packages := noPackages
local instance headersPdf : PdfWarnings := ⟨fun _ => .ok []⟩

theorem warnings_recognised_iff_greeting :
    (∀ maxLineChars maxReadingSpeed,
      (greetingSrtJob none).warningsWithSubtitleLimits maxLineChars maxReadingSpeed =
        .ok (warningsFrom .srt maxLineChars maxReadingSpeed 0
          (recognisedCues .srt (greetingSrtJob none).sourceText))) ↔
      BlocksWalk .srt true ((sourceLines (greetingSrtJob none).sourceText).splitOnP isBlankLine).tail :=
  have himport : ImportOptions.plain.run "hello.srt".toList greetingSrt = .ok (greetingSrtJob none) := by
    decide +kernel
  warnings_recognised_iff himport (.inl rfl)

/-- The file is accepted, its one cue recognised, and `warnings` errs. -/
theorem warnings_second_header :
    ImportOptions.plain.run "hello.vtt".toList headersVtt = .ok headersVttJob ∧
      recognisedCues .webVtt headersVttJob.sourceText =
        [⟨"00:01.000 --> 00:02.000".toList, ["Hello".toList]⟩] ∧
      headersVttJob.warnings = .error (.err .invalidStructure) :=
  ⟨by decide +kernel, by decide +kernel, by decide +kernel⟩

end Headers

end LinguaMesh
