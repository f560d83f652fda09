import LinguaMesh.Document.Dubbed

/-!
# Prose lines and cue texts

`subtitle_line_kinds` marks the lines that are translated, `validate_structure`
takes lines as the text of a cue. Block by block, from one blank line to the
next, the two agree, except in three kinds of WebVTT blocks (`Block.Agrees`): a
header of three lines or more, a cue whose text has the first line of a metadata
block, and an identifier that is followed by a header line.
-/

namespace LinguaMesh

open Run

/-! ## Lines that are marked and lines that are read -/

/-- The check takes the line as the text of a cue: its last branch, after a timing line. -/
def CueScan.isPayload (s : CueScan) (line : Str) : Bool :=
  !line.isEmpty && !s.metadata && !s.cueStart && !s.expectingTimestamp && decide (0 < s.cueCount)

def payloadsFrom (format : DocumentFormat) : CueScan → List Str → List Bool
  | _, [] => []
  | s, line :: lines =>
    s.isPayload line :: match s.line format line with
      | .ok s' => payloadsFrom format s' lines
      | .error _ => []

/-- The lines of a text that `validate_structure` takes as the text of a cue. -/
def payloadLines (format : DocumentFormat) (text : Str) : List Bool :=
  payloadsFrom format ⟨true, false, 0, false, false⟩ (trimmedLines text)

/-- The lines that are marked as prose, of trimmed ones. -/
def proseFrom (format : DocumentFormat) : LineKindScan → Nat → List Str → List Bool
  | _, _, [] => []
  | k, index, line :: lines =>
    (!k.structural format index line) :: proseFrom format (k.after format line) (index + 1) lines

theorem not_lineKindsFrom (format : DocumentFormat) (k : LineKindScan) (index : Nat)
    (lines : List (Str × Str)) :
    (lineKindsFrom format k index lines).map (!·) =
      proseFrom format k index (lines.map fun l => trim l.1) := by
  induction lines generalizing k index with
  | nil => rfl
  | cons l lines ih => rw [lineKindsFrom, List.map_cons, List.map_cons, proseFrom, ih]

/-! ## Blocks -/

/-- What a block of lines that are not blank is. -/
inductive Block where
  | empty
  | note
  | header (rest : List Str)
  | cue (text : List Str)
  | lateCue

/-- The rest of a block after an identifier. -/
def identifiedBlock (format : DocumentFormat) (before : Bool) : List Str → Block
  | [] => .empty
  | next :: lines =>
    if isMetadataLine format next then .note
    else if format = .webVtt ∧ before ∧ startsWith next "WEBVTT" then .lateCue
    else .cue lines

/-- A block of an accepted file; `before` means that no cue comes before it. -/
def blockOf (format : DocumentFormat) (before : Bool) : List Str → Block
  | [] => .empty
  | line :: lines =>
    if isMetadataLine format line then .note
    else if format = .webVtt ∧ before ∧ startsWith line "WEBVTT" then .header lines
    else if validTimestampLine line format then .cue lines
    else identifiedBlock format before lines

namespace Block

def isCue : Block → Bool
  | cue _ | lateCue => true
  | _ => false

/-- The lines of the block that are marked as prose are those of a cue. -/
def Agrees (format : DocumentFormat) : Block → Prop
  | empty | note => True
  | header (second :: third :: _) => isMetadataLine format second ∨ isMetadataLine format third
  | header _ => True
  | cue text => ∀ line ∈ text, ¬ isMetadataLine format line
  | lateCue => False

end Block

def BlocksAgree (format : DocumentFormat) : Bool → List (List Str) → Prop
  | _, [] => True
  | before, block :: blocks =>
    (blockOf format before block).Agrees format ∧
      BlocksAgree format (before && !(blockOf format before block).isCue) blocks

section Blocks

variable {format : DocumentFormat} {before : Bool} {line : Str} {block : List Str}

theorem blockOf_note (hi : isMetadataLine format line) :
    blockOf format before (line :: block) = .note := if_pos hi

theorem blockOf_header (hi : ¬ isMetadataLine format line)
    (hh : format = .webVtt ∧ before ∧ startsWith line "WEBVTT") :
    blockOf format before (line :: block) = .header block := by
  rw [blockOf, if_neg hi, if_pos hh]

theorem blockOf_timing (hi : ¬ isMetadataLine format line)
    (hh : ¬ (format = .webVtt ∧ before ∧ startsWith line "WEBVTT")) (hv : validTimestampLine line format) :
    blockOf format before (line :: block) = .cue block := by
  rw [blockOf, if_neg hi, if_neg hh, if_pos hv]

theorem blockOf_identifier (hi : ¬ isMetadataLine format line)
    (hh : ¬ (format = .webVtt ∧ before ∧ startsWith line "WEBVTT"))
    (hv : ¬ validTimestampLine line format) :
    blockOf format before (line :: block) = identifiedBlock format before block := by
  rw [blockOf, if_neg hi, if_neg hh, if_neg hv]

theorem identifiedBlock_note (hi : isMetadataLine format line) :
    identifiedBlock format before (line :: block) = .note := if_pos hi

theorem identifiedBlock_late (hi : ¬ isMetadataLine format line)
    (hh : format = .webVtt ∧ before ∧ startsWith line "WEBVTT") :
    identifiedBlock format before (line :: block) = .lateCue := by
  rw [identifiedBlock, if_neg hi, if_pos hh]

theorem identifiedBlock_timing (hi : ¬ isMetadataLine format line)
    (hh : ¬ (format = .webVtt ∧ before ∧ startsWith line "WEBVTT")) :
    identifiedBlock format before (line :: block) = .cue block := by
  rw [identifiedBlock, if_neg hi, if_neg hh]

end Blocks

/-- In SRT every block agrees. -/
theorem blocksAgree_srt (before : Bool) (blocks : List (List Str)) : BlocksAgree .srt before blocks := by
  induction blocks generalizing before with
  | nil => trivial
  | cons block blocks ih =>
    refine ⟨?_, ih _⟩
    have hmeta (line : Str) : isMetadataLine .srt line = false := rfl
    cases block with
    | nil => trivial
    | cons line block =>
      rw [blockOf, hmeta, if_neg Bool.false_ne_true, if_neg (by simp)]
      split
      · simp [Block.Agrees, hmeta]
      · cases block with
        | nil => trivial
        | cons next block =>
          rw [identifiedBlock, hmeta, if_neg Bool.false_ne_true, if_neg (by simp)]
          simp [Block.Agrees, hmeta]

/-! ## Agreement -/

def KindsAgree (format : DocumentFormat) (k : LineKindScan) (s : CueScan) (index : Nat)
    (lines : List Str) : Prop :=
  proseFrom format k index lines = payloadsFrom format s lines

/-- Agreement after a block, where `n` cues have been counted. -/
def TailAgrees (format : DocumentFormat) (n : Nat) : List Str → Prop
  | [] => True
  | _ :: lines => KindsAgree format ⟨true, false, false⟩ ⟨true, false, n, false, false⟩ 1 lines

section KindsAgree

variable {format : DocumentFormat} {k : LineKindScan} {s s' : CueScan} {index n : Nat} {line : Str}
  {lines block tail : List Str} {t : Bool}

/-- Only the first line of a file is a header by its index. -/
theorem proseFrom_index (hindex : 0 < index) :
    proseFrom format k index lines = proseFrom format k 1 lines := by
  induction lines generalizing k index with
  | nil => rfl
  | cons line lines ih =>
    have hstructural : k.structural format index line = k.structural format 1 line := by
      unfold LineKindScan.structural
      rw [show (index == 0) = false by simp [Nat.ne_of_gt hindex], show ((1 : Nat) == 0) = false by rfl]
    have h1 := ih (k := k.after format line) (Nat.succ_pos index)
    have h2 := ih (k := k.after format line) (Nat.succ_pos 1)
    rw [proseFrom, proseFrom, hstructural, h1, h2]

theorem agree_cons (h : CueStep format s line s') :
    KindsAgree format k s index (line :: lines) ↔
      (!k.structural format index line) = s.isPayload line ∧
        KindsAgree format (k.after format line) s' 1 lines := by
  unfold KindsAgree
  rw [proseFrom, payloadsFrom, h.line, List.cons.injEq, proseFrom_index (Nat.succ_pos index)]

/-- After a block comes a blank line, or nothing. -/
theorem agree_tail (htail : tail = [] ∨ ∃ rest, tail = [] :: rest) (hpass : s.Passes format tail) :
    KindsAgree format k s index tail ↔ TailAgrees format s.cueCount tail := by
  rcases htail with rfl | ⟨rest, rfl⟩
  · exact iff_of_true rfl trivial
  · obtain ⟨s', hline, -⟩ := passes_cons.mp hpass
    rw [agree_cons hline, after_blank, hline.of_blank]
    simp [TailAgrees, LineKindScan.structural, CueScan.isPayload]

theorem CueStep.metadata_kept (h : CueStep format s line s') (hl : line ≠ [])
    (hm : s.metadata = true) : s'.metadata = true := by
  cases h with
  | blank hnil => exact absurd hnil hl
  | note => rfl
  | skipped => exact hm
  | header _ _ hm' | timing _ _ hm' | identifier _ _ hm' | text _ hm' =>
    exact absurd (hm'.symm.trans hm) Bool.false_ne_true

/-- The rest of a metadata block is neither prose nor text. -/
theorem agree_quiet {e : Bool} (hblock : ∀ line ∈ block, line ≠ [])
    (htail : tail = [] ∨ ∃ rest, tail = [] :: rest) (hs : s.Silent)
    (hquiet : s.metadata = true ∨ s.cueCount = 0) (hpass : s.Passes format (block ++ tail)) :
    KindsAgree format ⟨false, e, true⟩ s 1 (block ++ tail) ↔ TailAgrees format s.cueCount tail := by
  induction block generalizing s with
  | nil => exact agree_tail htail hpass
  | cons line block ih =>
    have hl := hblock line List.mem_cons_self
    obtain ⟨s', hline, hpass⟩ := passes_cons.mp hpass
    obtain ⟨hs', hcount⟩ := hline.silent hs hl
    have hpayload : s.isPayload line = false := by
      unfold CueScan.isPayload
      rcases hquiet with h | h <;> simp [h]
    have hquiet' : s'.metadata = true ∨ s'.cueCount = 0 :=
      hquiet.imp (hline.metadata_kept hl) fun h => hcount.trans h
    rw [List.cons_append, agree_cons hline, after_metadata hl, hpayload,
      ih (fun l h => hblock l (List.mem_cons_of_mem _ h)) hs' hquiet' hpass, hcount]
    simp [LineKindScan.structural]

/-- The lines of a cue after its timing line. -/
theorem agree_payload (hblock : ∀ line ∈ block, line ≠ [])
    (htail : tail = [] ∨ ∃ rest, tail = [] :: rest)
    (hpass : CueScan.Passes format ⟨false, false, n + 1, t, false⟩ (block ++ tail)) :
    KindsAgree format ⟨false, false, false⟩ ⟨false, false, n + 1, t, false⟩ 1 (block ++ tail) ↔
      (∀ line ∈ block, ¬ isMetadataLine format line) ∧ TailAgrees format (n + 1) tail := by
  induction block generalizing t with
  | nil => simpa using agree_tail htail hpass
  | cons line block ih =>
    have hl := hblock line List.mem_cons_self
    obtain ⟨s', hline, hpass⟩ := passes_cons.mp hpass
    have hs' : s' = ⟨false, false, n + 1, true, false⟩ := by
      cases hline with
      | blank hnil => exact absurd hnil hl
      | skipped _ _ hm => cases hm
      | note _ _ hc | identifier _ _ _ _ _ hc => cases hc
      | header _ _ _ hh => exact absurd hh.2.1 (Nat.succ_ne_zero n)
      | timing _ _ _ _ hc => simp at hc
      | text => rfl
    subst hs'
    have hpayload : CueScan.isPayload ⟨false, false, n + 1, t, false⟩ line = true := by
      simp [CueScan.isPayload, hl]
    rw [List.cons_append, agree_cons hline, hpayload]
    cases hn : isMetadataLine format line with
    | true => simp [LineKindScan.structural, hn]
    | false =>
      have hafter : LineKindScan.after ⟨false, false, false⟩ format line = ⟨false, false, false⟩ := by
        rw [after_of_ne_nil hl (by simp [hn])]
        simp
      rw [hafter, ih (fun l h => hblock l (List.mem_cons_of_mem _ h)) hpass]
      simp [LineKindScan.structural, hn, hl]

/-- The lines of a header after its second line. -/
theorem agree_headerText (hblock : ∀ line ∈ block, line ≠ [])
    (htail : tail = [] ∨ ∃ rest, tail = [] :: rest)
    (hpass : CueScan.Passes format ⟨false, false, 0, t, false⟩ (block ++ tail)) :
    KindsAgree format ⟨false, false, false⟩ ⟨false, false, 0, t, false⟩ 1 (block ++ tail) ↔
      (∀ line ∈ block.head?, isMetadataLine format line) ∧ TailAgrees format 0 tail := by
  cases block with
  | nil => simpa using agree_tail htail hpass
  | cons line block =>
    have hl := hblock line List.mem_cons_self
    obtain ⟨s', hline, hpass⟩ := passes_cons.mp hpass
    obtain ⟨hs', hcount⟩ := hline.silent (.inr ⟨rfl, rfl⟩) hl
    have hpayload : CueScan.isPayload ⟨false, false, 0, t, false⟩ line = false := by
      simp [CueScan.isPayload]
    rw [List.cons_append, agree_cons hline, hpayload]
    cases hn : isMetadataLine format line with
    | true =>
      rw [after_note hl hn, agree_quiet (fun l h => hblock l (List.mem_cons_of_mem _ h)) htail hs'
        (.inr hcount) hpass, hcount]
      simp [LineKindScan.structural, hn]
    | false => simp [LineKindScan.structural, hn, hl]

/-- A timing line that comes after a header line is marked as prose. -/
theorem not_agree_late (hblock : ∀ line ∈ block, line ≠ [])
    (htail : tail = [] ∨ ∃ rest, tail = [] :: rest)
    (hpass : CueScan.Passes format ⟨false, true, 0, t, false⟩ (block ++ tail)) :
    ¬ KindsAgree format ⟨false, false, false⟩ ⟨false, true, 0, t, false⟩ 1 (block ++ tail) := by
  cases block with
  | nil =>
    rcases htail with rfl | ⟨rest, rfl⟩
    · obtain ⟨u, hu, hend⟩ := hpass
      cases hu
      exact absurd (.inl rfl) hend
    · obtain ⟨s', hline, -⟩ := passes_cons.mp hpass
      cases hline.blank_owed
  | cons line block =>
    have hl := hblock line List.mem_cons_self
    obtain ⟨s', hline, hpass⟩ := passes_cons.mp hpass
    have hn : isMetadataLine format line = false := by
      cases hline with
      | blank hnil => exact absurd hnil hl
      | skipped _ _ hm => cases hm
      | note _ _ hc | identifier _ _ _ _ _ hc => cases hc
      | text _ _ _ he => cases he
      | header _ _ _ hh =>
        cases hn : isMetadataLine format line with
        | false => rfl
        | true => exact absurd hh.2.2 (not_header_of_metadata hn)
      | timing _ _ _ _ _ hv =>
        cases hn : isMetadataLine format line with
        | false => rfl
        | true => exact absurd hv (not_timing_of_metadata hn)
    rw [List.cons_append, agree_cons hline]
    simp [LineKindScan.structural, CueScan.isPayload, hn, hl]

/-- A header block after its first line. -/
theorem agree_header (hblock : ∀ line ∈ block, line ≠ [])
    (htail : tail = [] ∨ ∃ rest, tail = [] :: rest)
    (hpass : CueScan.Passes format ⟨false, false, 0, t, false⟩ (block ++ tail)) :
    KindsAgree format ⟨false, true, false⟩ ⟨false, false, 0, t, false⟩ 1 (block ++ tail) ↔
      (Block.header block).Agrees format ∧ TailAgrees format 0 tail := by
  cases block with
  | nil => simpa [Block.Agrees] using agree_tail htail hpass
  | cons second block =>
    have hl := hblock second List.mem_cons_self
    have hrest : ∀ line ∈ block, line ≠ [] := fun l h => hblock l (List.mem_cons_of_mem _ h)
    obtain ⟨s', hline, hpass⟩ := passes_cons.mp hpass
    have hstructural : LineKindScan.structural ⟨false, true, false⟩ format 1 second = true := by
      simp [LineKindScan.structural]
    have hpayload : CueScan.isPayload ⟨false, false, 0, t, false⟩ second = false := by
      simp [CueScan.isPayload]
    rw [List.cons_append, agree_cons hline, hstructural, hpayload]
    obtain ⟨hs', hcount⟩ := hline.silent (.inr ⟨rfl, rfl⟩) hl
    cases hn : isMetadataLine format second with
    | true =>
      rw [after_note hl hn, agree_quiet hrest htail hs' (.inr hcount) hpass, hcount]
      cases block <;> simp [Block.Agrees, hn]
    | false =>
      obtain ⟨u, rfl⟩ : ∃ u, s' = ⟨false, false, 0, u, false⟩ := by
        cases hline with
        | blank hnil => exact absurd hnil hl
        | skipped _ _ hm => cases hm
        | note _ _ hc | identifier _ _ _ _ _ hc => cases hc
        | timing _ _ _ _ hc => simp at hc
        | header => exact ⟨t, rfl⟩
        | text => exact ⟨true, rfl⟩
      have hafter : LineKindScan.after ⟨false, true, false⟩ format second = ⟨false, false, false⟩ := by
        rw [after_of_ne_nil hl (by simp [hn]), if_pos rfl]
      rw [hafter, agree_headerText hrest htail hpass]
      cases block <;> simp [Block.Agrees, hn]

/-- A block after an identifier. -/
theorem agree_identified (hblock : ∀ line ∈ block, line ≠ [])
    (htail : tail = [] ∨ ∃ rest, tail = [] :: rest)
    (hpass : CueScan.Passes format ⟨true, true, n, t, false⟩ (block ++ tail)) :
    KindsAgree format ⟨false, true, false⟩ ⟨true, true, n, t, false⟩ 1 (block ++ tail) ↔
      (identifiedBlock format (decide (n = 0)) block).Agrees format ∧
        TailAgrees format (if (identifiedBlock format (decide (n = 0)) block).isCue then n + 1 else n)
          tail := by
  cases block with
  | nil =>
    rcases htail with rfl | ⟨rest, rfl⟩
    · obtain ⟨u, hu, hend⟩ := hpass
      cases hu
      exact absurd (.inl rfl) hend
    · obtain ⟨s', hline, -⟩ := passes_cons.mp hpass
      cases hline with
      | blank _ hok => cases (hok rfl).1
      | note h | skipped h | header h | timing h | identifier h | text h => exact absurd rfl h
  | cons next block =>
    have hl := hblock next List.mem_cons_self
    have hrest : ∀ line ∈ block, line ≠ [] := fun l h => hblock l (List.mem_cons_of_mem _ h)
    obtain ⟨s', hline, hpass⟩ := passes_cons.mp hpass
    have hstructural : LineKindScan.structural ⟨false, true, false⟩ format 1 next = true := by
      simp [LineKindScan.structural]
    have hpayload : CueScan.isPayload ⟨true, true, n, t, false⟩ next = false := by
      simp [CueScan.isPayload]
    rw [List.cons_append, agree_cons hline, hstructural, hpayload]
    have hafter (hi : ¬ isMetadataLine format next) :
        LineKindScan.after ⟨false, true, false⟩ format next = ⟨false, false, false⟩ := by
      rw [after_of_ne_nil hl hi, if_pos rfl]
    cases hline with
    | blank hnil => exact absurd hnil hl
    | skipped _ _ hm => cases hm
    | identifier _ _ _ _ he => cases he
    | text _ _ _ he => cases he
    | note _ hi =>
      rw [after_note hl hi, agree_quiet hrest htail (.inl rfl) (.inl rfl) hpass, identifiedBlock_note hi]
      simp [Block.Agrees, Block.isCue]
    | header _ hi _ hh =>
      obtain ⟨h1, rfl, h3⟩ := hh
      have hi : ¬ isMetadataLine format next := fun h => hi ⟨h, rfl⟩
      rw [hafter hi, identifiedBlock_late hi ⟨h1, decide_eq_true (show (0 : Nat) = 0 from rfl), h3⟩]
      exact iff_of_false (fun h => not_agree_late hrest htail hpass h.2) fun h => h.1
    | timing _ hi _ hh =>
      have hi : ¬ isMetadataLine format next := fun h => hi ⟨h, rfl⟩
      have hh : ¬ (format = .webVtt ∧ n = 0 ∧ startsWith next "WEBVTT") := hh
      rw [hafter hi, agree_payload hrest htail hpass, identifiedBlock_timing hi (by simpa using hh)]
      simp [Block.Agrees, Block.isCue]

/-- A block agrees when it is none of the three kinds that do not. -/
theorem agree_block (hblock : ∀ line ∈ block, line ≠ [])
    (htail : tail = [] ∨ ∃ rest, tail = [] :: rest)
    (hpass : CueScan.Passes format ⟨true, false, n, false, false⟩ (block ++ tail)) :
    KindsAgree format ⟨true, false, false⟩ ⟨true, false, n, false, false⟩ index (block ++ tail) ↔
      (blockOf format (decide (n = 0)) block).Agrees format ∧
        TailAgrees format (if (blockOf format (decide (n = 0)) block).isCue then n + 1 else n) tail := by
  cases block with
  | nil => simpa [blockOf, Block.Agrees, Block.isCue] using agree_tail htail hpass
  | cons line block =>
    have hl := hblock line List.mem_cons_self
    have hrest : ∀ line ∈ block, line ≠ [] := fun l h => hblock l (List.mem_cons_of_mem _ h)
    obtain ⟨s', hline, hpass⟩ := passes_cons.mp hpass
    have hstructural : LineKindScan.structural ⟨true, false, false⟩ format index line = true := by
      by_contra hno
      cases ((InStep.start n).prose hline (by simpa using hno)).1
    have hpayload : CueScan.isPayload ⟨true, false, n, false, false⟩ line = false := by
      simp [CueScan.isPayload]
    rw [List.cons_append, agree_cons hline, hstructural, hpayload]
    cases hline with
    | blank hnil => exact absurd hnil hl
    | skipped _ _ hm => cases hm
    | text _ _ _ _ hc => cases hc
    | note _ hi =>
      rw [after_note hl hi, agree_quiet hrest htail (.inl rfl) (.inl rfl) hpass, blockOf_note hi]
      simp [Block.Agrees, Block.isCue]
    | header _ hi _ hh =>
      obtain ⟨h1, h2, h3⟩ := hh
      have h2 : n = 0 := h2
      subst h2
      have hi : ¬ isMetadataLine format line := fun h => hi ⟨h, rfl⟩
      have hafter : LineKindScan.after ⟨true, false, false⟩ format line = ⟨false, true, false⟩ := by
        rw [after_of_ne_nil hl hi, if_neg Bool.false_ne_true,
          if_pos ⟨rfl, not_timing_of_header h3 format⟩]
      rw [hafter, agree_header hrest htail hpass, blockOf_header hi ⟨h1, decide_eq_true (show (0 : Nat) = 0 from rfl), h3⟩]
      simp [Block.isCue]
    | timing _ hi _ hh _ hv =>
      have hi : ¬ isMetadataLine format line := fun h => hi ⟨h, rfl⟩
      have hh : ¬ (format = .webVtt ∧ n = 0 ∧ startsWith line "WEBVTT") := hh
      have hafter : LineKindScan.after ⟨true, false, false⟩ format line = ⟨false, false, false⟩ := by
        rw [after_of_ne_nil hl hi, if_neg Bool.false_ne_true, if_neg (by simp [hv]), if_pos hv]
      rw [hafter, agree_payload hrest htail hpass, blockOf_timing hi (by simpa using hh) hv]
      simp [Block.Agrees, Block.isCue]
    | identifier _ hi _ hh _ _ hv =>
      have hafter : LineKindScan.after ⟨true, false, false⟩ format line = ⟨false, true, false⟩ := by
        rw [after_of_ne_nil hl hi, if_neg Bool.false_ne_true, if_pos ⟨rfl, hv⟩]
      have hh : ¬ (format = .webVtt ∧ n = 0 ∧ startsWith line "WEBVTT") := hh
      rw [hafter, agree_identified hrest htail hpass, blockOf_identifier hi (by simpa using hh) hv]
      simp

/-- The lines up to the first blank one. -/
theorem exists_block (lines : List Str) : ∃ block tail, lines = block ++ tail ∧
    (∀ line ∈ block, line ≠ []) ∧ (tail = [] ∨ ∃ rest, tail = [] :: rest) := by
  induction lines with
  | nil => exact ⟨[], [], rfl, fun _ h => absurd h List.not_mem_nil, .inl rfl⟩
  | cons line lines ih =>
    by_cases hl : line = []
    · subst hl
      exact ⟨[], [] :: lines, rfl, fun _ h => absurd h List.not_mem_nil, .inr ⟨lines, rfl⟩⟩
    · obtain ⟨block, tail, rfl, hblock, htail⟩ := ih
      exact ⟨line :: block, tail, rfl, List.forall_mem_cons.mpr ⟨hl, hblock⟩, htail⟩

theorem CueScan.scan_busy (hblock : ∀ line ∈ block, line ≠ []) (hs : s.Busy)
    (h : s.scan format block = .ok s') : s'.cueCount + s'.owed = s.cueCount + s.owed := by
  induction block generalizing s with
  | nil =>
    cases h
    rfl
  | cons line block ih =>
    obtain ⟨u, hline, h⟩ := scan_cons.mp h
    obtain ⟨hu, heq⟩ := hline.busy hs (hblock line List.mem_cons_self)
    rw [ih (fun l h => hblock l (List.mem_cons_of_mem _ h)) hu h, heq]

/-- The cues that are counted after a block and a blank line. -/
theorem count_block {u : CueScan} (hblock : ∀ line ∈ block, line ≠ [])
    (hscan : CueScan.scan format ⟨true, false, n, false, false⟩ block = .ok s)
    (hblank : CueStep format s [] u) :
    s.cueCount = if (blockOf format (decide (n = 0)) block).isCue then n + 1 else n := by
  have hend := hblank.blank_owed
  have busy {s' : CueScan} {m : Nat} {block : List Str} (hblock : ∀ line ∈ block, line ≠ [])
      (hs' : s'.Busy) (hscan : s'.scan format block = .ok s) (hm : s'.cueCount + s'.owed = m) :
      s.cueCount = m := by
    have := CueScan.scan_busy hblock hs' hscan
    omega
  cases block with
  | nil =>
    cases hscan
    rfl
  | cons line block =>
    have hl := hblock line List.mem_cons_self
    have hrest : ∀ line ∈ block, line ≠ [] := fun l h => hblock l (List.mem_cons_of_mem _ h)
    obtain ⟨s', hline, hscan⟩ := scan_cons.mp hscan
    cases hline with
    | blank hnil => exact absurd hnil hl
    | skipped _ _ hm => cases hm
    | text _ _ _ _ hc => cases hc
    | note _ hi =>
      rw [blockOf_note hi]
      exact busy hrest (.inl (.inl rfl)) hscan rfl
    | header _ hi _ hh =>
      obtain ⟨h1, h2, h3⟩ := hh
      have h2 : n = 0 := h2
      subst h2
      rw [blockOf_header (fun h => hi ⟨h, rfl⟩) ⟨h1, decide_eq_true (show (0 : Nat) = 0 from rfl), h3⟩]
      exact busy hrest (.inl (.inr ⟨rfl, rfl⟩)) hscan rfl
    | timing _ hi _ hh _ hv =>
      have hh : ¬ (format = .webVtt ∧ n = 0 ∧ startsWith line "WEBVTT") := hh
      rw [blockOf_timing (fun h => hi ⟨h, rfl⟩) (by simpa using hh) hv]
      exact busy hrest (.inl (.inr ⟨rfl, rfl⟩)) hscan rfl
    | identifier _ hi _ hh _ _ hv =>
      have hh : ¬ (format = .webVtt ∧ n = 0 ∧ startsWith line "WEBVTT") := hh
      rw [blockOf_identifier hi (by simpa using hh) hv]
      cases block with
      | nil =>
        cases hscan
        cases hblank with
        | blank _ hok => cases (hok rfl).1
        | note h | skipped h | header h | timing h | identifier h | text h => exact absurd rfl h
      | cons next block =>
        have hl := hrest next List.mem_cons_self
        have hrest : ∀ line ∈ block, line ≠ [] := fun l h => hrest l (List.mem_cons_of_mem _ h)
        obtain ⟨s', hline, hscan⟩ := scan_cons.mp hscan
        cases hline with
        | blank hnil => exact absurd hnil hl
        | skipped _ _ hm => cases hm
        | identifier _ _ _ _ he => cases he
        | text _ _ _ he => cases he
        | note _ hi =>
          rw [identifiedBlock_note hi]
          exact busy hrest (.inl (.inl rfl)) hscan rfl
        | header _ hi _ hh =>
          obtain ⟨h1, h2, h3⟩ := hh
          have h2 : n = 0 := h2
          subst h2
          rw [identifiedBlock_late (fun h => hi ⟨h, rfl⟩) ⟨h1, decide_eq_true (show (0 : Nat) = 0 from rfl), h3⟩]
          exact busy hrest (.inr ⟨rfl, rfl, rfl⟩) hscan rfl
        | timing _ hi _ hh =>
          have hh : ¬ (format = .webVtt ∧ n = 0 ∧ startsWith next "WEBVTT") := hh
          rw [identifiedBlock_timing (fun h => hi ⟨h, rfl⟩) (by simpa using hh)]
          exact busy hrest (.inl (.inr ⟨rfl, rfl⟩)) hscan rfl

theorem agree_blocks (hpass : CueScan.Passes format ⟨true, false, n, false, false⟩ lines) :
    KindsAgree format ⟨true, false, false⟩ ⟨true, false, n, false, false⟩ index lines ↔
      BlocksAgree format (decide (n = 0)) (lines.splitOn []) := by
  induction h : lines.length using Nat.strongRecOn generalizing lines n index with
  | ind length ih =>
    obtain ⟨block, tail, rfl, hblock, htail⟩ := exists_block lines
    have hmem : [] ∉ block := fun h => hblock [] h rfl
    rw [agree_block hblock htail hpass]
    rcases htail with rfl | ⟨rest, rfl⟩
    · rw [List.append_nil, List.splitOn_eq_singleton hmem]
      exact Iff.rfl
    · rw [List.splitOn_append_cons_self_of_not_mem hmem, BlocksAgree]
      obtain ⟨s, hscan, hrest⟩ := passes_append.mp hpass
      obtain ⟨u, hblank, hrest⟩ := passes_cons.mp hrest
      rw [hblank.of_blank, count_block hblock hscan hblank] at hrest
      have hagree : TailAgrees format _ ([] :: rest) ↔ _ :=
        ih rest.length (by simp at h; omega) hrest rfl
      rw [hagree]
      cases (blockOf format (decide (n = 0)) block).isCue <;> simp

end KindsAgree

/-! ## Accepted files -/

/-- The lines that are marked as prose are those that the check takes as the text of a cue if and
only if every block agrees. -/
theorem prose_payload_iff [JsonReader] [Packages] {options : ImportOptions} {sourceName : Str}
    {contents : Bytes} {job : DocumentJob} (himport : options.run sourceName contents = .ok job)
    (hformat : job.format = .srt ∨ job.format = .webVtt) :
    (subtitleLineKinds job.format job.sourceText).map (!·) = payloadLines job.format job.sourceText ↔
      BlocksAgree job.format true ((trimmedLines job.sourceText).splitOn []) := by
  obtain ⟨-, hpass⟩ := passes_of_valid (told_of_run himport hformat).1
  unfold subtitleLineKinds
  rw [if_pos hformat, not_lineKindsFrom]
  show KindsAgree job.format ⟨true, false, false⟩ _ 0 (trimmedLines job.sourceText) ↔ _
  exact agree_blocks hpass

/-! ## A header with metadata -/

def captionsVtt : Bytes :=
  asciiBytes "WEBVTT\nKind: captions\nLanguage: en\n\n00:01.000 --> 00:02.000\nHello\n"

def captionsVttJob : DocumentJob where
  format := .webVtt
  sourceName := "hello.vtt".toList
  segments := [
    ⟨0, .verbatim, "WEBVTT".toList, none, ['\n']⟩,
    ⟨1, .verbatim, "Kind: captions".toList, none, ['\n']⟩,
    ⟨2, .prose, "Language: en".toList, none, ['\n']⟩,
    ⟨3, .verbatim, [], none, ['\n']⟩,
    ⟨4, .verbatim, "00:01.000 --> 00:02.000".toList, none, ['\n']⟩,
    ⟨5, .prose, "Hello".toList, none, ['\n']⟩]
  package := none

section Captions

local instance captionsReader : JsonReader := noReader
local instance captionsPackages : Packages := noPackages

theorem prose_payload_iff_greeting :
    (subtitleLineKinds .srt (greetingSrtJob none).sourceText).map (!·) =
        payloadLines .srt (greetingSrtJob none).sourceText ↔
      BlocksAgree .srt true ((trimmedLines (greetingSrtJob none).sourceText).splitOn []) :=
  have himport : ImportOptions.plain.run "hello.srt".toList greetingSrt = .ok (greetingSrtJob none) := by
    decide +kernel
  prose_payload_iff himport (.inl rfl)

/-- The third line of the header is prose, and no text of a cue. -/
theorem prose_payload_captions :
    ImportOptions.plain.run "hello.vtt".toList captionsVtt = .ok captionsVttJob ∧
      (subtitleLineKinds .webVtt captionsVttJob.sourceText).map (!·) =
        [false, false, true, false, false, true] ∧
      payloadLines .webVtt captionsVttJob.sourceText = [false, false, false, false, false, true] :=
  ⟨by decide +kernel, by decide +kernel, by decide +kernel⟩

end Captions

end LinguaMesh
