import LinguaMesh.Document.CueLines

/-!
# The grammar of SRT

An SRT file is a sequence of cues with blank lines between them (`SrtFile`), read
on its trimmed lines. The check accepts no other file, and of these the ones that
have no two blank lines in a row after the first cue began: the state after a
blank line has no text, and the next blank line is taken for the end of an empty
cue.
-/

namespace LinguaMesh

open Run

/-- A cue: a line of digits or none, a timing line, and lines of text. -/
inductive SrtCue : List Str → Prop where
  | plain {timing : Str} {text : List Str} : validTimestampLine timing .srt → text ≠ [] →
    (∀ line ∈ text, line ≠ []) → SrtCue (timing :: text)
  | numbered {number timing : Str} {text : List Str} : number ≠ [] → number.all Char.isDigit →
    validTimestampLine timing .srt → text ≠ [] → (∀ line ∈ text, line ≠ []) →
    SrtCue (number :: timing :: text)

/-- Cues with blank lines between them, and after the last. -/
inductive SrtCues : List Str → Prop where
  | last {cue gap : List Str} : SrtCue cue → (∀ line ∈ gap, line = []) → SrtCues (cue ++ gap)
  | cons {cue gap rest : List Str} : SrtCue cue → gap ≠ [] → (∀ line ∈ gap, line = []) →
    SrtCues rest → SrtCues (cue ++ (gap ++ rest))

/-- The trimmed lines of an SRT file. -/
def SrtFile (lines : List Str) : Prop :=
  ∃ gap rest, (∀ line ∈ gap, line = []) ∧ SrtCues rest ∧ lines = gap ++ rest

/-- Two blank lines in a row come after a line that is not blank. -/
def DoubleBlank (lines : List Str) : Prop := [[], []] <:+: lines.dropWhile (· = [])

/-! ## Blocks of lines -/

section Blocks

variable {block tail cue gap : List Str}

theorem infix_of_block (tail : List Str) (hblock : ∀ line ∈ block, line ≠ []) :
    [[], []] <:+: block ++ tail ↔ [[], []] <:+: tail := by
  induction block with
  | nil => rfl
  | cons line block ih =>
    rw [List.cons_append, List.infix_cons_iff, ih fun l h => hblock l (List.mem_cons_of_mem _ h)]
    refine or_iff_right fun h => ?_
    obtain ⟨rest, hrest⟩ := h
    exact hblock line List.mem_cons_self (List.cons.inj hrest).1.symm

/-- The lines up to the first blank one are cut off in one way. -/
theorem block_unique (h : cue ++ gap = block ++ tail) (hcue : ∀ line ∈ cue, line ≠ [])
    (hblock : ∀ line ∈ block, line ≠ []) (hgap : gap = [] ∨ ∃ rest, gap = [] :: rest)
    (htail : tail = [] ∨ ∃ rest, tail = [] :: rest) : cue = block ∧ gap = tail := by
  induction cue generalizing block with
  | nil =>
    cases block with
    | nil => exact ⟨rfl, h⟩
    | cons line block =>
      rcases hgap with rfl | ⟨rest, rfl⟩
      · cases h
      · exact absurd (List.cons.inj h).1.symm (hblock line List.mem_cons_self)
  | cons line cue ih =>
    cases block with
    | nil =>
      rcases htail with rfl | ⟨rest, rfl⟩
      · cases h
      · exact absurd (List.cons.inj h).1 (hcue line List.mem_cons_self)
    | cons line' block =>
      obtain ⟨rfl, hrest⟩ := List.cons.inj h
      obtain ⟨rfl, rfl⟩ := ih hrest (fun l h => hcue l (List.mem_cons_of_mem _ h))
        fun l h => hblock l (List.mem_cons_of_mem _ h)
      exact ⟨rfl, rfl⟩

theorem blank_head (hgap : ∀ line ∈ gap, line = []) : gap = [] ∨ ∃ rest, gap = [] :: rest := by
  cases gap with
  | nil => exact .inl rfl
  | cons line gap => exact .inr ⟨gap, by rw [hgap line List.mem_cons_self]⟩

theorem SrtCue.ne_blank (h : SrtCue cue) : cue ≠ [] ∧ ∀ line ∈ cue, line ≠ [] := by
  have hnil : ¬ validTimestampLine [] .srt := by decide +kernel
  cases h with
  | plain hv _ htext =>
    refine ⟨List.cons_ne_nil _ _, List.forall_mem_cons.mpr ⟨?_, htext⟩⟩
    rintro rfl
    exact hnil hv
  | numbered hid _ hv _ htext =>
    refine ⟨List.cons_ne_nil _ _, List.forall_mem_cons.mpr ⟨hid, List.forall_mem_cons.mpr ⟨?_, htext⟩⟩⟩
    rintro rfl
    exact hnil hv

theorem SrtCues.head {lines : List Str} (h : SrtCues lines) : ∃ line rest, lines = line :: rest ∧ line ≠ [] := by
  have head {cue rest : List Str} (h : SrtCue cue) : ∃ line rest', cue ++ rest = line :: rest' ∧ line ≠ [] := by
    obtain ⟨hne, hall⟩ := h.ne_blank
    cases cue with
    | nil => exact absurd rfl hne
    | cons line cue => exact ⟨line, cue ++ rest, rfl, hall line List.mem_cons_self⟩
  cases h with
  | last hcue => exact head hcue
  | cons hcue => exact head hcue

/-- Cues that begin with a block, when blank lines come alone. -/
theorem srtCues_block (hblock : ∀ line ∈ block, line ≠ [])
    (htail : tail = [] ∨ ∃ rest, tail = [] :: rest) (hsingle : ¬ [[], []] <:+: tail) :
    SrtCues (block ++ tail) ↔
      SrtCue block ∧ ∀ rest, tail = [] :: rest → rest = [] ∨ SrtCues rest := by
  have short (gap rest : List Str) (hgap : ∀ line ∈ gap, line = [])
      (h : ¬ [[], []] <:+: [] :: (gap ++ rest)) : gap = [] := by
    cases gap with
    | nil => rfl
    | cons line gap =>
      rw [hgap line List.mem_cons_self] at h
      exact absurd ⟨[], gap ++ rest, rfl⟩ h
  constructor
  · intro h
    generalize hlines : block ++ tail = lines at h
    cases h with
    | @last cue gap hcue hgap =>
      obtain ⟨rfl, rfl⟩ := block_unique hlines hblock hcue.ne_blank.2 htail (blank_head hgap)
      refine ⟨hcue, fun rest hrest => .inl ?_⟩
      subst hrest
      exact short rest [] (fun l h => hgap l (List.mem_cons_of_mem _ h)) (by rwa [List.append_nil])
    | @cons cue gap rest' hcue hgapne hgap hrest' =>
      have hhead : gap ++ rest' = [] ∨ ∃ rest, gap ++ rest' = [] :: rest := by
        rcases blank_head hgap with rfl | ⟨gap, rfl⟩
        · exact absurd rfl hgapne
        · exact .inr ⟨gap ++ rest', rfl⟩
      obtain ⟨rfl, rfl⟩ := block_unique hlines hblock hcue.ne_blank.2 htail hhead
      refine ⟨hcue, fun rest hrest => .inr ?_⟩
      cases gap with
      | nil => exact absurd rfl hgapne
      | cons line gap =>
        obtain ⟨rfl, rfl⟩ := List.cons.inj hrest
        rw [short gap rest' (fun l h => hgap l (List.mem_cons_of_mem _ h)) hsingle]
        exact hrest'
  · rintro ⟨hcue, hrest⟩
    rcases htail with rfl | ⟨rest, rfl⟩
    · exact .last hcue fun _ h => absurd h List.not_mem_nil
    · rcases hrest rest rfl with rfl | hcues
      · exact .last hcue fun l h => List.mem_singleton.mp h
      · have hgap : ∀ line ∈ [([] : Str)], line = [] := fun l h => List.mem_singleton.mp h
        exact .cons hcue (List.cons_ne_nil _ _) hgap hcues

end Blocks

/-! ## The check of an SRT file -/

section Check

variable {n : Nat} {t : Bool} {s s' : CueScan} {line : Str} {block tail lines : List Str}

theorem not_atHeader_srt (s : CueScan) (line : Str) : ¬ s.AtHeader .srt line := fun h => nomatch h.1

theorem not_metadata_srt (line : Str) : ¬ isMetadataLine .srt line := Bool.false_ne_true

/-- The text of a cue passes, and so does the end of it. -/
theorem passes_text (hblock : ∀ line ∈ block, line ≠ [])
    (htail : tail = [] ∨ ∃ rest, tail = [] :: rest) :
    CueScan.Passes .srt ⟨false, false, n + 1, t, false⟩ (block ++ tail) ↔
      (t = true ∨ block ≠ []) ∧
        ∀ rest, tail = [] :: rest → CueScan.Passes .srt ⟨true, false, n + 1, false, false⟩ rest := by
  induction block generalizing t with
  | nil =>
    rcases htail with rfl | ⟨rest, rfl⟩
    · constructor
      · rintro ⟨u, hu, hend⟩
        cases hu
        refine ⟨.inl ?_, fun _ h => nomatch h⟩
        cases t with
        | true => rfl
        | false => exact absurd (.inr (.inr ⟨by simp, by simp, by simp⟩)) hend
      · rintro ⟨ht, -⟩
        obtain rfl : t = true := ht.resolve_right fun h => h rfl
        exact ⟨_, rfl, by simp [CueScan.Complete]⟩
    · rw [List.nil_append, passes_cons]
      constructor
      · rintro ⟨u, hline, hpass⟩
        cases hline with
        | blank _ hok =>
          refine ⟨.inl ((hok rfl).2 (Nat.succ_pos n)), fun rest' h => ?_⟩
          obtain ⟨-, rfl⟩ := List.cons.inj h
          exact hpass
        | note h | skipped h | header h | timing h | identifier h | text h => exact absurd rfl h
      · rintro ⟨ht, hpass⟩
        obtain rfl : t = true := ht.resolve_right fun h => h rfl
        exact ⟨_, .blank rfl fun _ => ⟨rfl, fun _ => rfl⟩, hpass rest rfl⟩
  | cons line block ih =>
    have hl := hblock line List.mem_cons_self
    have htext : CueStep .srt ⟨false, false, n + 1, t, false⟩ line ⟨false, false, n + 1, true, false⟩ :=
      .text hl rfl (not_atHeader_srt _ _) rfl rfl
    rw [List.cons_append, passes_step htext, ih fun l h => hblock l (List.mem_cons_of_mem _ h)]
    simp

/-- The rest of a block passes after an identifier when it is a timing line with a text. -/
theorem passes_numbered (hblock : ∀ line ∈ block, line ≠ [])
    (htail : tail = [] ∨ ∃ rest, tail = [] :: rest) :
    CueScan.Passes .srt ⟨true, true, n, false, false⟩ (block ++ tail) ↔
      (∃ timing text, block = timing :: text ∧ validTimestampLine timing .srt ∧ text ≠ []) ∧
        ∀ rest, tail = [] :: rest → CueScan.Passes .srt ⟨true, false, n + 1, false, false⟩ rest := by
  cases block with
  | nil =>
    refine iff_of_false (fun h => ?_) fun h => by simp at h
    rcases htail with rfl | ⟨rest, rfl⟩
    · obtain ⟨u, hu, hend⟩ := h
      cases hu
      exact hend (.inl rfl)
    · obtain ⟨u, hline, -⟩ := passes_cons.mp h
      cases hline with
      | blank _ hok => cases (hok rfl).1
      | note h | skipped h | header h | timing h | identifier h | text h => exact absurd rfl h
  | cons timing text =>
    have hl := hblock timing List.mem_cons_self
    have htext : ∀ line ∈ text, line ≠ [] := fun l h => hblock l (List.mem_cons_of_mem _ h)
    rw [List.cons_append]
    by_cases hv : validTimestampLine timing .srt
    · have hline : CueStep .srt ⟨true, true, n, false, false⟩ timing ⟨false, false, n + 1, false, false⟩ :=
        .timing hl (fun h => not_metadata_srt timing h.1) rfl (not_atHeader_srt _ _) (.inl rfl) hv
      rw [passes_step hline, passes_text htext htail]
      simp [hv]
    · refine iff_of_false (fun h => ?_) ?_
      · obtain ⟨u, hline, -⟩ := passes_cons.mp h
        cases hline with
        | blank hnil => exact absurd hnil hl
        | note _ hi => exact absurd hi (not_metadata_srt timing)
        | skipped _ _ hm => cases hm
        | header _ _ _ hh => exact not_atHeader_srt _ _ hh
        | timing _ _ _ _ _ hv' => exact absurd hv' hv
        | identifier _ _ _ _ he => cases he
        | text _ _ _ he => cases he
      · rintro ⟨⟨timing', text', heq, hv', -⟩, -⟩
        cases heq
        exact hv hv'

/-- A block of lines passes when it is a cue. -/
theorem passes_block (hne : block ≠ []) (hblock : ∀ line ∈ block, line ≠ [])
    (htail : tail = [] ∨ ∃ rest, tail = [] :: rest) :
    CueScan.Passes .srt ⟨true, false, n, false, false⟩ (block ++ tail) ↔
      SrtCue block ∧
        ∀ rest, tail = [] :: rest → CueScan.Passes .srt ⟨true, false, n + 1, false, false⟩ rest := by
  cases block with
  | nil => exact absurd rfl hne
  | cons line block =>
    have hl := hblock line List.mem_cons_self
    have hrest : ∀ line ∈ block, line ≠ [] := fun l h => hblock l (List.mem_cons_of_mem _ h)
    have hmeta : ¬ (isMetadataLine .srt line ∧ (true : Bool)) := fun h => not_metadata_srt line h.1
    rw [List.cons_append]
    by_cases hv : validTimestampLine line .srt
    · have hline : CueStep .srt ⟨true, false, n, false, false⟩ line ⟨false, false, n + 1, false, false⟩ :=
        .timing hl hmeta rfl (not_atHeader_srt _ _) (.inr rfl) hv
      have hcue : SrtCue (line :: block) ↔ block ≠ [] := by
        constructor
        · intro h
          cases h with
          | plain _ h => exact h
          | numbered => exact List.cons_ne_nil _ _
        · exact fun h => .plain hv h hrest
      rw [passes_step hline, passes_text hrest htail, hcue]
      simp
    by_cases hdigits : line.all Char.isDigit
    · have hline : CueStep .srt ⟨true, false, n, false, false⟩ line ⟨true, true, n, false, false⟩ :=
        .identifier hl (not_metadata_srt line) rfl (not_atHeader_srt _ _) rfl rfl hv (.inr ⟨rfl, hdigits⟩)
      have hcue : SrtCue (line :: block) ↔
          ∃ timing text, block = timing :: text ∧ validTimestampLine timing .srt ∧ text ≠ [] := by
        constructor
        · intro h
          cases h with
          | plain hv' => exact absurd hv' hv
          | numbered _ _ hv' htext => exact ⟨_, _, rfl, hv', htext⟩
        · rintro ⟨timing, text, rfl, hv', htext⟩
          exact .numbered hl hdigits hv' htext fun l h => hrest l (List.mem_cons_of_mem _ h)
      rw [passes_step hline, passes_numbered hrest htail, hcue]
    · refine iff_of_false (fun h => ?_) fun h => ?_
      · obtain ⟨u, hline, -⟩ := passes_cons.mp h
        cases hline with
        | blank hnil => exact absurd hnil hl
        | note _ hi => exact absurd hi (not_metadata_srt line)
        | skipped _ _ hm => cases hm
        | header _ _ _ hh => exact not_atHeader_srt _ _ hh
        | timing _ _ _ _ _ hv' => exact absurd hv' hv
        | identifier _ _ _ _ _ _ _ hid => exact hdigits (hid.resolve_left fun h => nomatch h).2
        | text _ _ _ _ hc => cases hc
      · cases h.1 with
        | plain hv' => exact absurd hv' hv
        | numbered _ hdigits' => exact absurd hdigits' hdigits

/-- Leading blank lines do not matter. -/
theorem srtFile_blank : SrtFile ([] :: lines) ↔ SrtFile lines := by
  constructor
  · rintro ⟨gap, rest, hgap, hrest, heq⟩
    cases gap with
    | nil =>
      obtain ⟨line, rest', rfl, hl⟩ := hrest.head
      exact absurd (List.cons.inj heq).1.symm hl
    | cons line gap =>
      exact ⟨gap, rest, fun l h => hgap l (List.mem_cons_of_mem _ h), hrest, (List.cons.inj heq).2⟩
  · rintro ⟨gap, rest, hgap, hrest, rfl⟩
    exact ⟨[] :: gap, rest, List.forall_mem_cons.mpr ⟨rfl, hgap⟩, hrest, rfl⟩

theorem srtFile_block {line : Str} (hl : line ≠ []) : SrtFile (line :: lines) ↔ SrtCues (line :: lines) := by
  constructor
  · rintro ⟨gap, rest, hgap, hrest, heq⟩
    cases gap with
    | nil =>
      rw [heq]
      exact hrest
    | cons line' gap =>
      rw [hgap line' List.mem_cons_self] at heq
      exact absurd (List.cons.inj heq).1 hl
  · exact fun h => ⟨[], _, fun _ h => absurd h List.not_mem_nil, h, rfl⟩

/-- The lines that pass after `n` cues: a file, or more cues after a blank line. -/
theorem passes_iff : CueScan.Passes .srt ⟨true, false, n, false, false⟩ lines ↔
    if n = 0 then SrtFile lines ∧ ¬ DoubleBlank lines
    else (lines = [] ∨ SrtCues lines) ∧ ¬ [[], []] <:+: [] :: lines := by
  induction h : lines.length using Nat.strongRecOn generalizing lines n with
  | ind length ih =>
    obtain ⟨block, tail, rfl, hblock, htail⟩ := exists_block lines
    cases block with
    | nil =>
      rw [List.nil_append] at h ⊢
      rcases htail with rfl | ⟨rest, rfl⟩
      · -- the end of the file
        split
        · rename_i hn
          subst hn
          refine iff_of_false (fun ⟨u, hu, hend⟩ => ?_) fun hfile => ?_
          · cases hu
            exact hend (.inr (.inl rfl))
          · obtain ⟨gap, rest, -, hrest, heq⟩ := hfile.1
            obtain ⟨line, rest', rfl, -⟩ := hrest.head
            cases gap <;> cases heq
        · rename_i hn
          refine iff_of_true ⟨_, rfl, by simp [CueScan.Complete, hn]⟩ ⟨.inl rfl, fun h => ?_⟩
          simpa using h.length_le
      · -- a blank line
        split
        · rename_i hn
          subst hn
          have hline : CueStep .srt ⟨true, false, 0, false, false⟩ [] ⟨true, false, 0, false, false⟩ :=
            .blank rfl fun _ => ⟨rfl, fun h => absurd h (Nat.lt_irrefl 0)⟩
          rw [passes_step hline, ih rest.length (by simp at h; omega) rfl, if_pos rfl, srtFile_blank]
          rfl
        · rename_i hn
          refine iff_of_false (fun h => ?_) fun h => h.2 ⟨[], rest, rfl⟩
          obtain ⟨u, hline, -⟩ := passes_cons.mp h
          cases hline with
          | blank _ hok => cases (hok rfl).2 (Nat.pos_of_ne_zero hn)
          | note h | skipped h | header h | timing h | identifier h | text h => exact absurd rfl h
    | cons line block =>
      have hl := hblock line List.mem_cons_self
      have hgrammar : (if n = 0 then SrtFile (line :: block ++ tail) ∧ ¬ DoubleBlank (line :: block ++ tail)
          else (line :: block ++ tail = [] ∨ SrtCues (line :: block ++ tail)) ∧
            ¬ [[], []] <:+: [] :: (line :: block ++ tail)) ↔
          SrtCues (line :: block ++ tail) ∧ ¬ [[], []] <:+: tail := by
        have hinfix := infix_of_block tail hblock
        split
        · have hdrop : (line :: block ++ tail).dropWhile (· = []) = line :: block ++ tail := by
            simp [hl]
          rw [DoubleBlank, hdrop, hinfix]
          exact and_congr_left fun _ => srtFile_block hl
        · have hprefix : ¬ [[], []] <+: [] :: (line :: block ++ tail) := by
            rintro ⟨rest, hrest⟩
            exact hl (List.cons.inj (List.cons.inj hrest).2).1.symm
          rw [List.infix_cons_iff, or_iff_right hprefix, hinfix]
          simp
      rw [hgrammar, passes_block (List.cons_ne_nil _ _) hblock htail]
      by_cases hsingle : [[], []] <:+: tail
      · refine iff_of_false (fun ⟨_, hpass⟩ => ?_) fun h => h.2 hsingle
        rcases htail with rfl | ⟨rest, rfl⟩
        · simpa using hsingle.length_le
        · have := hpass rest rfl
          rw [ih rest.length (by simp at h; omega) rfl, if_neg (Nat.succ_ne_zero n)] at this
          exact this.2 hsingle
      · rw [srtCues_block hblock htail hsingle]
        have hrest : (∀ rest, tail = [] :: rest →
              CueScan.Passes .srt ⟨true, false, n + 1, false, false⟩ rest) ↔
            ∀ rest, tail = [] :: rest → rest = [] ∨ SrtCues rest := by
          refine forall_congr' fun rest => forall_congr' fun heq => ?_
          subst heq
          rw [ih rest.length (by simp at h; omega) rfl, if_neg (Nat.succ_ne_zero n)]
          exact and_iff_left hsingle
        rw [hrest]
        simp [hsingle]

end Check

/-! ## Acceptance -/

section Accept

variable [JsonReader] {text : Str}

omit [JsonReader] in
theorem validate_of_passes (h : CueScan.Passes .srt ⟨true, false, 0, false, false⟩ (trimmedLines text)) :
    validateSubtitles .srt text = .ok () := by
  obtain ⟨t, hscan, hend⟩ := h
  have hscan' : (splitLines text).foldlM (fun s l => s.line .srt (trim l.1))
      (⟨true, false, 0, false, false⟩ : CueScan) = .ok t := by
    rw [CueScan.scan, trimmedLines, List.foldlM_map] at hscan
    exact hscan
  have hlines : splitLines text ≠ [] := by
    intro hnil
    rw [hnil] at hscan'
    cases hscan'
    exact hend (.inr (.inl rfl))
  have hend' : ¬ (t.expectingTimestamp ∨ t.cueCount = 0 ∨
    (¬ t.metadata ∧ ¬ t.cueStart ∧ ¬ t.cueHasText)) := hend
  unfold validateSubtitles
  dsimp only
  rw [if_neg (by simp [hlines]), hscan', Except.ok_bind, if_neg hend']

/-- The check accepts the SRT files without two blank lines in a row after the first cue began. -/
theorem validate_srt : validateStructure .srt text none = .ok () ↔
    SrtFile (trimmedLines text) ∧ ¬ DoubleBlank (trimmedLines text) := by
  have h : CueScan.Passes .srt ⟨true, false, 0, false, false⟩ (trimmedLines text) ↔ _ := passes_iff
  rw [if_pos rfl] at h
  rw [← h]
  exact ⟨fun hvalid => (passes_of_valid hvalid).2, validate_of_passes⟩

/-- The check accepts a text if and only if it is an SRT file, except for the files with two blank
lines in a row after the first cue began. -/
theorem validate_srt_iff (text : Str) :
    (validateStructure .srt text none = .ok () ↔ SrtFile (trimmedLines text)) ↔
      ¬ (SrtFile (trimmedLines text) ∧ DoubleBlank (trimmedLines text)) := by
  rw [validate_srt]
  tauto

end Accept

/-! ## Two blank lines -/

def pausedSrt : Str :=
  "1\n00:00:01,000 --> 00:00:02,000\nHi\n\n\n2\n00:00:03,000 --> 00:00:04,000\nBye\n".toList

section Paused

local instance pausedReader : JsonReader := noReader

/-- Two blank lines between two cues: the file is refused. -/
theorem validate_srt_paused :
    SrtFile (trimmedLines pausedSrt) ∧
      validateStructure .srt pausedSrt none = fail .invalidStructure ∧
      ¬ (validateStructure .srt pausedSrt none = .ok () ↔ SrtFile (trimmedLines pausedSrt)) := by
  have hlines : trimmedLines pausedSrt =
      [] ++ (["1".toList, "00:00:01,000 --> 00:00:02,000".toList, "Hi".toList] ++ ([[], []] ++
        (["2".toList, "00:00:03,000 --> 00:00:04,000".toList, "Bye".toList] ++ []))) := by
    decide +kernel
  have cue {number timing text : Str} (hnumber : number ≠ []) (hdigits : number.all Char.isDigit)
      (htiming : validTimestampLine timing .srt) (htext : text ≠ []) : SrtCue [number, timing, text] :=
    .numbered hnumber hdigits htiming (List.cons_ne_nil _ _) fun l h => by
      rw [List.mem_singleton.mp h]
      exact htext
  have hgap : ∀ line ∈ ([[], []] : List Str), line = [] := fun l h => by simpa using h
  have hfile : SrtFile (trimmedLines pausedSrt) :=
    ⟨[], _, fun _ h => absurd h List.not_mem_nil,
      .cons (cue (by decide) (by decide) (by decide +kernel) (by decide)) (List.cons_ne_nil _ _) hgap
        (.last (cue (by decide) (by decide) (by decide +kernel) (by decide))
          fun _ h => absurd h List.not_mem_nil), hlines⟩
  have hrefused : validateStructure .srt pausedSrt none = fail .invalidStructure := by decide +kernel
  refine ⟨hfile, hrefused, fun h => ?_⟩
  have := h.mpr hfile
  rw [hrefused] at this
  cases this

end Paused

end LinguaMesh
