import LinguaMesh.Document.Subtitles

/-!
# Cues

`validate_structure` and `subtitle_line_kinds` walk over the lines of a subtitle
file with a state each. `CueStep` names what the first does at a line, and
`InStep` says which states of the two belong together.

A line starts a cue when the check counts it as one (`timingsFrom`). In the text
of a cue and in a metadata block no line does until the next blank one
(`CueScan.Silent`); a state is `Late` when it is owed a timing line before that.
-/

namespace LinguaMesh

open Search Run

/-- The file header of WebVTT, as long as there is no cue. -/
def CueScan.AtHeader (format : DocumentFormat) (s : CueScan) (line : Str) : Prop :=
  format = .webVtt ∧ s.cueCount = 0 ∧ startsWith line "WEBVTT"

/-- What the check of a line does. -/
inductive CueStep (format : DocumentFormat) (s : CueScan) (line : Str) : CueScan → Prop where
  | blank : line = [] →
    (s.metadata = false → s.expectingTimestamp = false ∧ (0 < s.cueCount → s.cueHasText)) →
    CueStep format s line ⟨true, false, s.cueCount, false, false⟩
  | note : line ≠ [] → isMetadataLine format line → s.cueStart →
    CueStep format s line { s with metadata := true, cueStart := false }
  | skipped : line ≠ [] → ¬ (isMetadataLine format line ∧ s.cueStart) → s.metadata →
    CueStep format s line s
  | header : line ≠ [] → ¬ (isMetadataLine format line ∧ s.cueStart) → s.metadata = false →
    s.AtHeader format line → CueStep format s line { s with cueStart := false }
  | timing : line ≠ [] → ¬ (isMetadataLine format line ∧ s.cueStart) → s.metadata = false →
    ¬ s.AtHeader format line → (s.expectingTimestamp ∨ s.cueStart) → validTimestampLine line format →
    CueStep format s line ⟨false, false, s.cueCount + 1, false, false⟩
  | identifier : line ≠ [] → ¬ isMetadataLine format line → s.metadata = false →
    ¬ s.AtHeader format line → s.expectingTimestamp = false → s.cueStart →
    ¬ validTimestampLine line format → (format = .webVtt ∨ format = .srt ∧ line.all Char.isDigit) →
    CueStep format s line { s with expectingTimestamp := true }
  | text : line ≠ [] → s.metadata = false → ¬ s.AtHeader format line →
    s.expectingTimestamp = false → s.cueStart = false →
    CueStep format s line { s with cueHasText := true }

theorem CueStep.of_line {format : DocumentFormat} {s s' : CueScan} {line : Str}
    (h : s.line format line = .ok s') : CueStep format s line s' := by
  obtain ⟨cueStart, expecting, count, hasText, metadata⟩ := s
  unfold CueScan.line at h
  dsimp only at h
  split at h
  · rename_i hl
    split at h
    · cases h
      exact .blank hl fun hm => by simp_all
    · split at h
      · cases h
      · cases h
        rename_i hm hno
        have hm : metadata = false := by simpa using hm
        subst hm
        refine .blank hl fun _ => ?_
        simp only [not_or, not_and, Bool.not_eq_true] at hno
        exact ⟨hno.1, fun hc => by simpa using hno.2 hc⟩
  rename_i hl
  split at h
  · rename_i hn
    cases h
    exact .note hl hn.1 hn.2
  rename_i hn
  split at h
  · rename_i hm
    cases h
    exact .skipped hl hn hm
  rename_i hm
  have hm : metadata = false := by simpa using hm
  split at h
  · rename_i hh
    cases h
    exact .header hl hn hm hh
  rename_i hh
  split at h
  · rename_i he
    split at h
    · rename_i hv
      cases h
      subst hm
      exact .timing hl hn rfl hh (.inl he) hv
    · cases h
  rename_i he
  split at h
  · rename_i hv
    cases h
    subst hm
    exact .timing hl hn rfl hh (.inr hv.1) hv.2
  rename_i hv
  split at h
  · rename_i hs
    split at h
    · rename_i hid
      cases h
      exact .identifier hl (fun hi => hn ⟨hi, hs⟩) hm hh (by simpa using he) hs (fun hi => hv ⟨hs, hi⟩) hid
    · cases h
  · rename_i hs
    cases h
    exact .text hl hm hh (by simpa using he) (by simpa using hs)

theorem CueStep.line {format : DocumentFormat} {s s' : CueScan} {line : Str}
    (h : CueStep format s line s') : s.line format line = .ok s' := by
  obtain ⟨cueStart, expecting, count, hasText, metadata⟩ := s
  unfold CueScan.line
  dsimp only
  cases h with
  | blank hl hok =>
    rw [if_pos hl]
    cases metadata with
    | true => rfl
    | false =>
      obtain ⟨he, ht⟩ := hok rfl
      have he : expecting = false := he
      subst he
      rw [if_neg Bool.false_ne_true, if_neg (by simpa using ht)]
  | note hl hi hs => rw [if_neg hl, if_pos ⟨hi, hs⟩]
  | skipped hl hn hm => rw [if_neg hl, if_neg hn, if_pos hm]
  | header hl hn hm hh =>
    have hm : metadata = false := hm
    have hheader : format = .webVtt ∧ count = 0 ∧ startsWith line "WEBVTT" := hh
    subst hm
    rw [if_neg hl, if_neg hn, if_neg Bool.false_ne_true, if_pos hheader]
  | timing hl hn hm hh hs hv =>
    have hheader : ¬ (format = .webVtt ∧ count = 0 ∧ startsWith line "WEBVTT") := hh
    have hm : metadata = false := hm
    subst hm
    rw [if_neg hl, if_neg hn, if_neg Bool.false_ne_true, if_neg hheader]
    cases expecting with
    | true => rw [if_pos rfl, if_pos hv]
    | false =>
      have hs : cueStart = true := by simpa using hs
      rw [if_neg Bool.false_ne_true, if_pos ⟨hs, hv⟩]
  | identifier hl hi hm hh he hs hv hid =>
    have hheader : ¬ (format = .webVtt ∧ count = 0 ∧ startsWith line "WEBVTT") := hh
    have hm : metadata = false := hm
    have he : expecting = false := he
    subst hm he
    rw [if_neg hl, if_neg (fun h => hi h.1), if_neg Bool.false_ne_true, if_neg hheader,
      if_neg Bool.false_ne_true, if_neg (fun h => hv h.2), if_pos hs, if_pos hid]
  | text hl hm hh he hs =>
    have hheader : ¬ (format = .webVtt ∧ count = 0 ∧ startsWith line "WEBVTT") := hh
    have hm : metadata = false := hm
    have he : expecting = false := he
    have hs : cueStart = false := hs
    subst hm he hs
    rw [if_neg hl, if_neg (by simp), if_neg Bool.false_ne_true, if_neg hheader,
      if_neg Bool.false_ne_true, if_neg (by simp), if_neg Bool.false_ne_true]

theorem line_ok {format : DocumentFormat} {s s' : CueScan} {line : Str} :
    s.line format line = .ok s' ↔ CueStep format s line s' := ⟨CueStep.of_line, CueStep.line⟩

/-! ## Header lines -/

theorem trim_cons {c : Char} (hc : isWhitespace c = false) (s : Str) : ∃ t, trim (c :: s) = c :: t := by
  unfold trim trimStart trimEnd
  rw [List.dropWhile_cons, if_neg (by simp [hc])]
  induction s using List.reverseRecOn with
  | nil => exact ⟨[], by simp [List.rdropWhile, hc]⟩
  | append_singleton s d ih =>
    rw [← List.cons_append, List.rdropWhile_concat]
    split
    · exact ih
    · exact ⟨s ++ [d], rfl⟩

theorem rsplitOnce_cons {sep c : Char} {s : Str} {r : Str × Str} (hc : c ≠ sep)
    (h : rsplitOnce sep (c :: s) = some r) : ∃ t, r.1 = c :: t := by
  unfold rsplitOnce at h
  split at h
  · rename_i hmem
    cases h
    have hs : sep ∈ s.reverse := by simpa [hc.symm] using hmem
    obtain ⟨x, xs, hx⟩ : ∃ x xs, s.reverse.dropWhile (· ≠ sep) = x :: xs := by
      cases hd : s.reverse.dropWhile (· ≠ sep) with
      | nil => simpa using List.dropWhile_eq_nil_iff.mp hd sep hs
      | cons x xs => exact ⟨x, xs, rfl⟩
    refine ⟨xs.reverse, ?_⟩
    rw [List.reverse_cons, List.dropWhile_append, hx]
    simp
  · cases h

/-- A time begins with a digit. -/
theorem timestampMillis_cons {c : Char} (hc : c.isDigit = false) (hcolon : c ≠ ':')
    (hdot : c ≠ '.') (hcomma : c ≠ ',') (s : Str) (format : DocumentFormat) :
    timestampMillis (c :: s) format = none := by
  unfold timestampMillis
  cases hr : rsplitOnce (if format = .srt then ',' else '.') (c :: s) with
  | none => rfl
  | some r =>
    obtain ⟨clock, milliseconds⟩ := r
    obtain ⟨t, rfl⟩ : ∃ t, clock = c :: t := rsplitOnce_cons (by split <;> assumption) hr
    have hfield : ∃ field ∈ (c :: t).splitOn ':', isClockField field = false := by
      rw [List.splitOn_cons_eq_if_modifyHead, if_neg (by simpa using hcolon)]
      cases hf : t.splitOn ':' with
      | nil => exact absurd hf (List.splitOn_ne_nil _ _)
      | cons field fields => exact ⟨c :: field, List.mem_cons_self, by simp [isClockField, hc]⟩
    have hall : ¬ ((c :: t).splitOn ':').all isClockField := by
      obtain ⟨field, hmem, hfalse⟩ := hfield
      intro h
      rw [List.all_eq_true.mp h field hmem] at hfalse
      cases hfalse
    dsimp only
    rw [Option.bind_eq_bind, Option.bind_some]
    dsimp only
    split
    · rfl
    · rw [if_pos (.inr hall)]
      rfl

/-- A header line is not a timing line. -/
theorem not_timing_of_header {line : Str} (h : startsWith line "WEBVTT") (format : DocumentFormat) :
    ¬ validTimestampLine line format := by
  obtain ⟨rest, rfl⟩ := List.isPrefixOf_iff_prefix.mp h
  unfold validTimestampLine subtitleTimestampRange
  cases hs : splitOnce "-->" ("WEBVTT".toList ++ rest) with
  | none => simp
  | some r =>
    obtain ⟨start, stop⟩ := r
    obtain ⟨i, hi, heq⟩ := Option.map_eq_some_iff.mp hs
    obtain ⟨t, rfl⟩ : ∃ t, start = 'W' :: t := by
      cases i with
      | zero =>
        obtain ⟨t, ht⟩ := find_eq_zero.mp hi
        cases ht
      | succ i =>
        cases heq
        exact ⟨_, rfl⟩
    obtain ⟨u, hu⟩ := trim_cons (c := 'W') (by decide) t
    simp [hu, timestampMillis_cons (c := 'W') (by decide) (by decide) (by decide) (by decide)]

/-! ## Lines in step -/

namespace CueScan

/-- No line starts a cue before the next blank one. -/
def Silent (s : CueScan) : Prop :=
  s.metadata = true ∨ s.cueStart = false ∧ s.expectingTimestamp = false

/-- The next line has to be a timing line, or a header line. -/
def Late (s : CueScan) : Prop :=
  s.metadata = false ∧ s.cueStart = false ∧ s.expectingTimestamp = true

instance (s : CueScan) : Decidable s.Late := by unfold Late; infer_instance

end CueScan

/-- The states of `subtitle_line_kinds` and of the check before a line. -/
inductive InStep : LineKindScan → CueScan → Prop where
  | start (n : Nat) : InStep ⟨true, false, false⟩ ⟨true, false, n, false, false⟩
  | identifier (n : Nat) (t : Bool) : InStep ⟨false, true, false⟩ ⟨true, true, n, t, false⟩
  | header (t : Bool) : InStep ⟨false, true, false⟩ ⟨false, false, 0, t, false⟩
  | text (e : Bool) (n : Nat) (t : Bool) : (e = true → n = 0) →
    InStep ⟨false, false, false⟩ ⟨false, e, n, t, false⟩
  | metadata (e : Bool) {s : CueScan} : s.Silent → InStep ⟨false, e, true⟩ s

section Steps

variable {format : DocumentFormat} {k : LineKindScan} {s s' : CueScan} {line : Str}

theorem isMetadataLine_iff : isMetadataLine format line ↔
    format = .webVtt ∧ (line = "NOTE".toList ∨ line = "STYLE".toList ∨ line = "REGION".toList) := by
  simp [isMetadataLine]

theorem not_timing_of_metadata (h : isMetadataLine format line) :
    ¬ validTimestampLine line format := by
  obtain ⟨rfl, rfl | rfl | rfl⟩ := isMetadataLine_iff.mp h <;> decide +kernel

theorem not_header_of_metadata (h : isMetadataLine format line) : ¬ startsWith line "WEBVTT" := by
  obtain ⟨-, rfl | rfl | rfl⟩ := isMetadataLine_iff.mp h <;> decide

/-- After a line that is not blank. -/
theorem after_of_ne_nil (hl : line ≠ []) (hn : ¬ isMetadataLine format line) (c e : Bool) :
    LineKindScan.after ⟨c, e, false⟩ format line =
      if e then ⟨false, false, false⟩
      else if c ∧ ¬ validTimestampLine line format then ⟨false, true, false⟩
      else if validTimestampLine line format then ⟨false, e, false⟩ else ⟨c, e, false⟩ := by
  unfold LineKindScan.after
  cases e <;> cases c <;> simp [hl, hn]

theorem after_metadata (hl : line ≠ []) (e : Bool) :
    LineKindScan.after ⟨false, e, true⟩ format line = ⟨false, e, true⟩ := by
  unfold LineKindScan.after
  simp [hl]

theorem after_note (hl : line ≠ []) (hn : isMetadataLine format line) (c e m : Bool) :
    LineKindScan.after ⟨c, e, m⟩ format line = ⟨false, e, true⟩ := by
  unfold LineKindScan.after
  simp [hl, hn]

theorem after_blank : LineKindScan.after k format [] = ⟨true, false, false⟩ := rfl

/-- The silence lasts until the next blank line. -/
theorem CueStep.silent (h : CueStep format s line s') (hs : s.Silent) (hl : line ≠ []) :
    s'.Silent ∧ s'.cueCount = s.cueCount := by
  cases h with
  | blank hnil => exact absurd hnil hl
  | note => exact ⟨.inl rfl, rfl⟩
  | skipped => exact ⟨hs, rfl⟩
  | header _ _ hm => exact ⟨.inr ⟨rfl, (hs.resolve_left (by simp [hm])).2⟩, rfl⟩
  | timing _ _ hm _ hc =>
    obtain ⟨h1, h2⟩ := hs.resolve_left (by simp [hm])
    simp [h1, h2] at hc
  | identifier _ _ hm _ _ hc =>
    obtain ⟨h1, -⟩ := hs.resolve_left (by simp [hm])
    simp [h1] at hc
  | text _ _ _ he hc => exact ⟨.inr ⟨hc, he⟩, rfl⟩

theorem CueStep.of_blank (h : CueStep format s [] s') : s' = ⟨true, false, s.cueCount, false, false⟩ := by
  cases h with
  | blank => rfl
  | note h | skipped h | header h | timing h | identifier h | text h => exact absurd rfl h

theorem InStep.after (h : InStep k s) (hline : CueStep format s line s') :
    InStep (k.after format line) s' := by
  by_cases hl : line = []
  · subst hl
    rw [hline.of_blank, after_blank]
    exact .start _
  by_cases hn : isMetadataLine format line
  · have hsilent : s'.Silent := by
      cases hline with
      | blank hnil => exact absurd hnil hl
      | note => exact .inl rfl
      | skipped _ _ hm => exact .inl hm
      | header _ _ _ hh => exact absurd hh.2.2 (not_header_of_metadata hn)
      | timing _ _ _ _ _ hv => exact absurd hv (not_timing_of_metadata hn)
      | identifier _ hi => exact absurd hn hi
      | text _ _ _ he hc => exact .inr ⟨hc, he⟩
    obtain ⟨c, e, m⟩ := k
    rw [after_note hl hn]
    exact .metadata e hsilent
  cases h with
  | start n =>
    rw [after_of_ne_nil hl hn]
    cases hline with
    | blank hnil => exact absurd hnil hl
    | note _ hi => exact absurd hi hn
    | skipped _ _ hm => cases hm
    | header _ _ _ hh =>
      have hzero : n = 0 := hh.2.1
      subst hzero
      split
      · exact .text false 0 false fun h => nomatch h
      split
      · exact .header false
      split
      · exact .text false 0 false fun h => nomatch h
      · simp_all
    | timing _ _ _ _ _ hv =>
      simp only [hv]
      exact .text false _ false fun h => nomatch h
    | identifier _ _ _ _ _ _ hv =>
      simp only [hv]
      exact .identifier n false
    | text _ _ _ _ hc => cases hc
  | identifier n t =>
    rw [after_of_ne_nil hl hn, if_pos rfl]
    cases hline with
    | blank hnil => exact absurd hnil hl
    | note _ hi => exact absurd hi hn
    | skipped _ _ hm => cases hm
    | header _ _ _ hh => exact .text true n t fun _ => hh.2.1
    | timing => exact .text false _ false fun h => nomatch h
    | identifier _ _ _ _ he => cases he
    | text _ _ _ he => cases he
  | header t =>
    rw [after_of_ne_nil hl hn, if_pos rfl]
    cases hline with
    | blank hnil => exact absurd hnil hl
    | note _ hi => exact absurd hi hn
    | skipped _ _ hm => cases hm
    | header => exact .text false 0 t fun h => nomatch h
    | timing _ _ _ _ hc => simp at hc
    | identifier _ _ _ _ _ hc => cases hc
    | text => exact .text false 0 true fun h => nomatch h
  | text e n t he =>
    have hafter : LineKindScan.after ⟨false, false, false⟩ format line = ⟨false, false, false⟩ := by
      rw [after_of_ne_nil hl hn]
      simp
    rw [hafter]
    cases hline with
    | blank hnil => exact absurd hnil hl
    | note _ hi => exact absurd hi hn
    | skipped _ _ hm => cases hm
    | header => exact .text e n t he
    | timing => exact .text false _ false fun h => nomatch h
    | identifier _ _ _ _ _ hc => cases hc
    | text _ _ _ he' => exact .text e n true he
  | metadata e hsilent =>
    rw [after_metadata hl]
    exact .metadata e (hline.silent hsilent hl).1

/-- A line of prose comes in the text of a block. -/
theorem InStep.prose (h : InStep k s) (hline : CueStep format s line s') {index : Nat}
    (hprose : k.structural format index line = false) :
    k = ⟨false, false, false⟩ ∧ line ≠ [] ∧ ¬ isMetadataLine format line := by
  unfold LineKindScan.structural at hprose
  simp only [Bool.or_eq_false_iff, List.isEmpty_eq_false_iff] at hprose
  obtain ⟨⟨⟨⟨⟨⟨⟨hl, hh⟩, hm⟩, hn⟩, he⟩, ht⟩, hd⟩, hv⟩ := hprose
  have hn : ¬ isMetadataLine format line := by simpa using hn
  refine ⟨?_, hl, hn⟩
  cases h with
  | text => rfl
  | identifier | header => cases he
  | metadata => cases hm
  | start n =>
    have ht : validTimestampLine line format = false := by simpa using ht
    have hv : format ≠ .webVtt := by
      rw [hh, ht] at hv
      simpa using hv
    cases hline with
    | blank hnil => exact absurd hnil hl
    | note _ hi => exact absurd hi hn
    | skipped _ _ hm => cases hm
    | header _ _ _ hh' => exact absurd hh'.1 hv
    | timing _ _ _ _ _ hv' => exact absurd hv' (by simp [ht])
    | identifier _ _ _ _ _ _ _ hid =>
      obtain ⟨rfl, hdigits⟩ := hid.resolve_left hv
      simp [hdigits, hl] at hd
    | text _ _ _ _ hc => cases hc

end Steps

end LinguaMesh
