import LinguaMesh.Document.CueTimings

/-!
# Translating a subtitle file

The segments of a subtitle file are its lines. The lines of the output are the
structural lines, and the lines of the translations in the place of the prose;
so the output has the timing lines of its source if and only if no run of
translations starts other cues than the run of lines that it stands for.
-/

namespace LinguaMesh

open Run

/-! ## Lines of a text that is put together -/

/-- The trimmed lines of a part of a text; an empty part has none. -/
def linesOf (text : Str) : List Str := (splitLinesFrom [] text).map fun l => trim l.1

theorem trimmedLines_eq {text : Str} (h : text ≠ []) : trimmedLines text = linesOf text := by
  unfold trimmedLines splitLines linesOf
  rw [if_neg h]

theorem splitLinesFrom_append (line front rest : Str) :
    splitLinesFrom line (front ++ '\n' :: rest) =
      splitLinesFrom line (front ++ ['\n']) ++ splitLinesFrom [] rest := by
  induction front generalizing line with
  | nil => simp [splitLinesFrom]
  | cons c front ih =>
    rw [List.cons_append, List.cons_append, splitLinesFrom, splitLinesFrom]
    split
    · rw [ih, List.cons_append]
    · exact ih _

theorem linesOf_append (front rest : Str) :
    linesOf (front ++ ['\n'] ++ rest) = linesOf (front ++ ['\n']) ++ linesOf rest := by
  unfold linesOf
  rw [List.append_assoc, List.singleton_append, splitLinesFrom_append, List.map_append]

theorem splitLinesFrom_line {text : Str} (h : '\n' ∉ text) (line : Str) (rest : Str) :
    splitLinesFrom line (text ++ rest) = splitLinesFrom (line ++ text) rest := by
  induction text generalizing line with
  | nil => rw [List.nil_append, List.append_nil]
  | cons c text ih =>
    rw [List.mem_cons, not_or] at h
    rw [List.cons_append, splitLinesFrom, if_neg (Ne.symm h.1), ih h.2, List.append_assoc]
    rfl

theorem trim_cr (s : Str) : trim (s ++ ['\r']) = trim s := by
  have hcr : isWhitespace '\r' = true := by decide
  unfold trim trimEnd trimStart
  induction s with
  | nil => simp [hcr]
  | cons c s ih =>
    rw [List.cons_append, List.dropWhile_cons, List.dropWhile_cons]
    split
    · exact ih
    · rw [← List.cons_append, List.rdropWhile_concat, if_pos hcr]

/-- The lines of a file, each with its line ending. -/
inductive IsLines : List (Str × Str) → Prop where
  | nil : IsLines []
  | last {line : Str} : line ≠ [] → '\n' ∉ line → IsLines [(line, [])]
  | cons {line ending : Str} {lines : List (Str × Str)} : '\n' ∉ line →
    (ending = ['\n'] ∨ ending = ['\r', '\n']) → IsLines lines → IsLines ((line, ending) :: lines)

theorem isLines_splitLinesFrom {line : Str} (h : '\n' ∉ line) (text : Str) :
    IsLines (splitLinesFrom line text) := by
  induction text generalizing line with
  | nil =>
    unfold splitLinesFrom
    split
    · exact .nil
    · exact .last ‹_› h
  | cons c text ih =>
    unfold splitLinesFrom
    split
    · split
      · exact .cons (fun hm => h (List.dropLast_subset _ hm)) (.inr rfl) (ih List.not_mem_nil)
      · exact .cons h (.inl rfl) (ih List.not_mem_nil)
    · rename_i hc
      refine ih fun hm => ?_
      rcases List.mem_append.mp hm with hm | hm
      · exact h hm
      · exact hc (List.mem_singleton.mp hm).symm

/-- A line is one line, with its line ending. -/
theorem linesOf_line {line ending : Str} {lines : List (Str × Str)}
    (h : IsLines ((line, ending) :: lines)) : linesOf (line ++ ending) = [trim line] := by
  unfold linesOf
  cases h with
  | last hne hn =>
    rw [splitLinesFrom_line hn, List.nil_append, splitLinesFrom, if_neg hne]
    rfl
  | cons hn he =>
    rw [splitLinesFrom_line hn, List.nil_append]
    rcases he with rfl | rfl
    · rw [splitLinesFrom, if_pos rfl]
      split
      · rename_i hlast
        have hline : line.dropLast ++ ['\r'] = line := List.dropLast_append_getLast? _ hlast
        conv_rhs => rw [← hline, trim_cr]
        rfl
      · rfl
    · have hlast : (line ++ ['\r']).getLast? = some '\r' := List.getLast?_concat
      rw [splitLinesFrom, if_neg (by decide), splitLinesFrom, if_pos rfl, if_pos hlast,
        List.dropLast_concat]
      rfl

/-- Text with the line ending of a line that is not the last of its file. -/
theorem linesOf_ended {ending : Str} (he : ending = ['\n'] ∨ ending = ['\r', '\n']) (text rest : Str) :
    linesOf (text ++ ending ++ rest) = linesOf (text ++ ending) ++ linesOf rest := by
  rcases he with rfl | rfl
  · exact linesOf_append text rest
  · have := linesOf_append (text ++ ['\r']) rest
    simpa using this

/-! ## The lines of a translated job -/

/-- A segment of a subtitle file, with the lines of its translation if it is prose. -/
def toldLine (calls : List (Nat × Str)) (s : DocumentSegment) : ToldLine where
  source := trim s.sourceText
  prose := s.kind == .prose
  told := if s.kind = .prose then linesOf ((lastCall calls s.index).getD [] ++ s.lineEnding)
    else [trim s.sourceText]

section Told

variable [JsonStrings] {format : DocumentFormat} {calls : List (Nat × Str)} {job : DocumentJob}
  {segments : List DocumentSegment}

omit [JsonStrings] in
/-- The segments that the lines of a subtitle file become. -/
theorem lineSegmentsFrom_told (calls : List (Nat × Str)) (hformat : format = .srt ∨ format = .webVtt)
    {kinds : List Bool} {k : LineKindScan} {lines : List (Str × Str)} (inFencedCode : Bool)
    (segments : List DocumentSegment)
    (hkinds : kinds.drop segments.length = lineKindsFrom format k segments.length lines) :
    ∃ rest, lineSegmentsFrom format kinds inFencedCode segments lines = segments ++ rest ∧
      Follows format k segments.length (rest.map (toldLine calls)) ∧
      rest.map (fun s => (s.sourceText, s.lineEnding)) = lines := by
  have hmarkdown : (format == .markdown) = false := by
    rcases hformat with rfl | rfl <;> rfl
  induction lines generalizing k segments inFencedCode with
  | nil => exact ⟨[], (List.append_nil _).symm, trivial, rfl⟩
  | cons l lines ih =>
    obtain ⟨line, ending⟩ := l
    rw [lineKindsFrom] at hkinds
    obtain ⟨hlt, hget, hdrop⟩ : ∃ h : segments.length < kinds.length,
        kinds[segments.length] = k.structural format segments.length (trim line) ∧
        kinds.drop (segments.length + 1) =
          lineKindsFrom format (k.after format (trim line)) (segments.length + 1) lines := by
      have hlt : segments.length < kinds.length := by
        by_contra hle
        rw [List.drop_eq_nil_of_le (Nat.le_of_not_lt hle)] at hkinds
        cases hkinds
      rw [List.drop_eq_getElem_cons hlt] at hkinds
      obtain ⟨h1, h2⟩ := List.cons.inj hkinds
      exact ⟨hlt, h1, h2⟩
    have hkind : verbatimLine format (kinds.getD segments.length false) inFencedCode line =
        k.structural format segments.length (trim line) := by
      rw [List.getD_eq_getElem?_getD, List.getElem?_eq_getElem hlt, Option.getD_some, hget, verbatimLine,
        hmarkdown]
      simp
    rw [lineSegmentsFrom, hkind]
    generalize hs : DocumentSegment.fresh segments.length
      (if k.structural format segments.length (trim line) then .verbatim else .prose) line ending = s
    obtain ⟨rest, hrest, hfollows, hlines⟩ := ih
      (inFencedCode ^^ isFence format line) (segments ++ [s]) (by simpa using hdrop)
    refine ⟨s :: rest, by rw [hrest, List.append_assoc]; rfl, ?_, ?_⟩
    · rw [List.length_append, List.length_singleton] at hfollows
      subst hs
      refine ⟨?_, ?_, hfollows⟩
      · cases hk : k.structural format segments.length (trim line) <;>
          simp [toldLine, DocumentSegment.fresh, hk]
      · cases hk : k.structural format segments.length (trim line) <;>
          simp [toldLine, DocumentSegment.fresh]
    · subst hs
      rw [List.map_cons, hlines]
      rfl

/-- The output of a segment of a subtitle file. -/
theorem output_told (hformat : job.format = .srt ∨ job.format = .webVtt) {s : DocumentSegment}
    (hfresh : s.translatedText = none) :
    (job.retold calls s).output =
      if s.kind = .prose then (lastCall calls s.index).getD [] else s.sourceText := by
  have hencode (raw translated : Str) : job.encodeTranslation raw translated = translated := by
    rcases hformat with h | h <;> rw [DocumentJob.encodeTranslation, h]
  unfold DocumentSegment.output
  cases hk : s.kind with
  | verbatim => simp [hk]
  | prose =>
    simp only [DocumentJob.retold, hk, hfresh, Option.or_none, if_pos]
    cases lastCall calls s.index with
    | none => rfl
    | some x => exact hencode _ x

/-- The lines of the output are those of its segments. -/
theorem linesOf_output (hformat : job.format = .srt ∨ job.format = .webVtt)
    (hfresh : ∀ s ∈ segments, s.translatedText = none)
    (hlines : IsLines (segments.map fun s => (s.sourceText, s.lineEnding))) :
    linesOf (segments.flatMap fun s =>
        (job.retold calls s).output ++ (job.retold calls s).lineEnding) =
      retellings (segments.map (toldLine calls)) := by
  induction segments with
  | nil => rfl
  | cons s segments ih =>
    have htold : linesOf ((job.retold calls s).output ++ s.lineEnding) = (toldLine calls s).told := by
      rw [output_told hformat (hfresh s List.mem_cons_self), toldLine]
      split
      · rfl
      · exact linesOf_line hlines
    rw [List.flatMap_cons, List.map_cons, retellings_cons, DocumentJob.retold_lineEnding, ← htold]
    have hrest : IsLines (segments.map fun s => (s.sourceText, s.lineEnding)) ∧
        (s.lineEnding = ['\n'] ∨ s.lineEnding = ['\r', '\n'] ∨ segments = []) := by
      rw [List.map_cons] at hlines
      generalize hl : (s.sourceText, s.lineEnding) = l at hlines
      generalize hls : segments.map (fun s => (s.sourceText, s.lineEnding)) = ls at hlines
      cases hlines with
      | last => exact ⟨.nil, .inr (.inr (List.map_eq_nil_iff.mp hls))⟩
      | cons _ he hrest =>
        obtain ⟨-, rfl⟩ := Prod.mk.inj hl
        exact ⟨hrest, by rcases he with he | he <;> simp [he]⟩
    have ih := ih (fun t ht => hfresh t (List.mem_cons_of_mem _ ht)) hrest.1
    rcases hrest.2 with he | he | rfl
    · rw [linesOf_ended (.inl he), ih]
    · rw [linesOf_ended (.inr he), ih]
    · simp

end Told

/-! ## Reconstruction -/

section Reconstruct

variable [JsonReader] {format : DocumentFormat} {text : Str}

omit [JsonReader] in
theorem passes_of_valid (h : validateSubtitles format text = .ok ()) :
    text ≠ [] ∧ CueScan.Passes format ⟨true, false, 0, false, false⟩ (trimmedLines text) := by
  obtain ⟨t, hscan, hend⟩ : CueScan.Passes format ⟨true, false, 0, false, false⟩ (trimmedLines text) := by
    unfold validateSubtitles at h
    dsimp only at h
    split at h
    · cases h
    obtain ⟨t, hscan, h⟩ := Except.bind_ok.mp h
    split at h
    · cases h
    · refine ⟨t, ?_, ‹_›⟩
      unfold CueScan.scan trimmedLines
      rw [List.foldlM_map]
      exact hscan
  refine ⟨?_, t, hscan, hend⟩
  rintro rfl
  obtain ⟨u, hline, hu⟩ := scan_cons.mp (show CueScan.scan format ⟨true, false, 0, false, false⟩ ([] :: []) =
    .ok t from hscan)
  cases hu
  cases hline.of_blank
  exact hend (.inr (.inl rfl))

/-- A file that is not CSV, JSON or a package is imported by its lines or tokens. -/
theorem fromText_of_run [Packages] {options : ImportOptions} {sourceName : Str} {contents : Bytes}
    {job : DocumentJob} (h : options.run sourceName contents = .ok job)
    (hcsv : job.format ≠ .csv) (hjson : job.format ≠ .json) (hpackage : ¬ job.format.isPackage) :
    ∃ text, Accepted contents job.format text ∧ job = DocumentJob.fromText sourceName job.format text := by
  have read {format : DocumentFormat} {text : Str}
      (hread : DocumentJob.readText sourceName contents = .ok (format, text))
      (hjob : job = DocumentJob.fromText sourceName format text) :
      ∃ text, Accepted contents job.format text ∧
        job = DocumentJob.fromText sourceName job.format text := by
    have hformat : job.format = format := by
      rw [hjob]
      exact (DocumentJob.fromText_spec sourceName format text).1
    rw [hformat]
    exact ⟨text, (DocumentJob.post_readText sourceName contents).ok hread, hjob⟩
  have jsonPaths {includePaths excludePaths : Option (List Str)}
      (h : DocumentJob.fromUtf8WithJsonPaths sourceName contents includePaths excludePaths = .ok job) :
      ∃ text, Accepted contents job.format text ∧
        job = DocumentJob.fromText sourceName job.format text := by
    obtain ⟨⟨format, text⟩, hread, h⟩ := Except.bind_ok.mp h
    dsimp only at h
    split at h
    · exact absurd ((post_fromJsonText sourceName text _ _).ok h).1 hjson
    split at h
    · exact absurd ((post_fromCsvText sourceName text none).ok h).1 hcsv
    · exact read hread (Except.ok.inj h).symm
  cases options with
  | csvColumns selected =>
    obtain ⟨⟨format, text⟩, hread, h⟩ := Except.bind_ok.mp h
    dsimp only at h
    split at h
    · exact absurd ((post_fromCsvText sourceName text selected).ok h).1 hcsv
    · exact read hread (Except.ok.inj h).symm
  | jsonPaths includePaths excludePaths => exact jsonPaths h
  | plain =>
    unfold ImportOptions.run DocumentJob.fromUtf8 at h
    dsimp only at h
    split at h
    · cases h
    split at h
    · rename_i hformat
      unfold DocumentJob.fromPackage at h
      split at h
      · cases h
      · obtain ⟨segments, -, h⟩ := Except.bind_ok.mp h
        cases h
        exact absurd hformat hpackage
    · exact jsonPaths h

/-- The structure of an imported subtitle file. -/
theorem told_of_run [Packages] {options : ImportOptions} {sourceName : Str} {contents : Bytes}
    {job : DocumentJob} (himport : options.run sourceName contents = .ok job)
    (hformat : job.format = .srt ∨ job.format = .webVtt) :
    validateSubtitles job.format job.sourceText = .ok () ∧
      job.segments = lineSegments job.format job.sourceText := by
  obtain ⟨text, haccepted, hjob⟩ := fromText_of_run himport (by rcases hformat with h | h <;> simp [h])
    (by rcases hformat with h | h <;> simp [h]) (by rcases hformat with h | h <;> rw [h] <;> decide)
  have hsegments : job.segments = lineSegments job.format text := by
    conv_lhs => rw [hjob]
    rcases hformat with h | h <;> rw [h] <;> rfl
  have htext : job.sourceText = text := by
    rw [DocumentJob.sourceText_eq, hsegments]
    exact (segmented_lineSegments job.format text).text
  rw [htext]
  refine ⟨?_, hsegments⟩
  have hvalid := haccepted.valid
  rcases hformat with h | h <;> rw [h] at hvalid ⊢ <;> exact hvalid

/-- The output of a subtitle file has the timing lines of its source if and only if no run of prose
lines is translated to lines that start other cues. -/
theorem timings_kept_iff [JsonStrings] [Packages] {options : ImportOptions} {sourceName : Str}
    {contents : Bytes} {job job' : DocumentJob} {calls : List (Nat × Str)} {out : Str}
    (himport : options.run sourceName contents = .ok job)
    (hformat : job.format = .srt ∨ job.format = .webVtt)
    (happly : job.applyTranslations calls = .ok job') (hout : job'.reconstruct = .ok out) :
    cueTimings job.format out = cueTimings job.format job.sourceText ↔
      RunsKept job.format ⟨true, false, 0, false, false⟩ [] (job.segments.map (toldLine calls)) := by
  obtain ⟨hvalid, hsegments⟩ := told_of_run himport hformat
  have hsegmented := segmented_lineSegments job.format job.sourceText
  rw [← hsegments] at hsegmented
  obtain ⟨hne, hpass⟩ := passes_of_valid hvalid
  -- the source
  have hkinds : (subtitleLineKinds job.format job.sourceText).drop ([] : List DocumentSegment).length =
      lineKindsFrom job.format ⟨true, false, false⟩ ([] : List DocumentSegment).length
        (splitLines job.sourceText) := by
    unfold subtitleLineKinds
    rw [if_pos hformat]
    rfl
  obtain ⟨rest, hrest, hfollows, hlines⟩ := lineSegmentsFrom_told calls hformat false [] hkinds
  obtain rfl : job.segments = rest := hsegments.trans hrest
  have hsources : sources (job.segments.map (toldLine calls)) = trimmedLines job.sourceText := by
    unfold sources trimmedLines
    rw [← hlines, List.map_map, List.map_map]
    rfl
  -- the output
  obtain ⟨hjob', -⟩ := DocumentJob.applyTranslations_eq hsegmented.indices happly
  have hpackage : ¬ job'.format.isPackage := by
    rw [hjob']
    rcases hformat with h | h <;> rw [h] <;> decide
  have hdone := DocumentJob.pendingCount_of_reconstruct hpackage hout
  have houtput := DocumentJob.output_of_reconstruct hpackage hdone hout
  have hvalid' : validateSubtitles job.format out = .ok () := by
    rw [DocumentJob.reconstruct_eq hpackage hdone, houtput] at hout
    split at hout
    · cases hout
    · obtain ⟨_, hvalid', -⟩ := Except.bind_ok.mp hout
      rw [hjob'] at hvalid'
      rcases hformat with h | h <;> rw [h] at hvalid' ⊢ <;> exact hvalid'
  obtain ⟨hne', hpass'⟩ := passes_of_valid hvalid'
  have hisLines : IsLines (splitLines job.sourceText) := by
    unfold splitLines
    rw [if_neg hne]
    exact isLines_splitLinesFrom List.not_mem_nil _
  have htold : trimmedLines out = retellings (job.segments.map (toldLine calls)) := by
    rw [trimmedLines_eq hne', ← houtput, hjob', DocumentJob.output, List.flatMap_map]
    exact linesOf_output hformat hsegmented.fresh (hlines ▸ hisLines)
  unfold cueTimings
  rw [← hsources, htold]
  rw [← hsources] at hpass
  rw [htold] at hpass'
  exact (timings_iff _).1 [] hfollows (.start 0) rfl rfl rfl (fun h => absurd rfl h) hpass hpass'

end Reconstruct

/-! ## One cue -/

def greetingSrt : Bytes := asciiBytes "1\n00:00:01,000 --> 00:00:02,000\nHello\n"

def greetingSrtJob (translated : Option String) : DocumentJob where
  format := .srt
  sourceName := "hello.srt".toList
  segments := [
    ⟨0, .verbatim, "1".toList, none, ['\n']⟩,
    ⟨1, .verbatim, "00:00:01,000 --> 00:00:02,000".toList, none, ['\n']⟩,
    ⟨2, .prose, "Hello".toList, translated.map String.toList, ['\n']⟩]
  package := none

section Greeting

local instance dubbedReader : JsonReader := noReader
local instance dubbedStrings : JsonStrings := noStrings
local instance dubbedPackages : Packages := noPackages

theorem greetingSrt_import :
    ImportOptions.plain.run "hello.srt".toList greetingSrt = .ok (greetingSrtJob none) := by
  decide +kernel

theorem timings_kept_iff_greeting :
    cueTimings .srt "1\n00:00:01,000 --> 00:00:02,000\nSalut\n42\n".toList =
        cueTimings .srt (greetingSrtJob none).sourceText ↔
      RunsKept .srt ⟨true, false, 0, false, false⟩ []
        ((greetingSrtJob none).segments.map (toldLine [(2, "Salut\n42".toList)])) :=
  have happly : (greetingSrtJob none).applyTranslations [(2, "Salut\n42".toList)] =
      .ok (greetingSrtJob (some "Salut\n42")) := by decide +kernel
  have hout : (greetingSrtJob (some "Salut\n42")).reconstruct =
      .ok "1\n00:00:01,000 --> 00:00:02,000\nSalut\n42\n".toList := by decide +kernel
  timings_kept_iff greetingSrt_import (.inl rfl) happly hout

/-- A translation with a blank line and a timing line is one more cue. -/
theorem timings_kept_added :
    ImportOptions.plain.run "hello.srt".toList greetingSrt = .ok (greetingSrtJob none) ∧
      (greetingSrtJob none).applyTranslations [(2, "Hi\n\n00:00:05,000 --> 00:00:06,000\nBye".toList)] =
        .ok (greetingSrtJob (some "Hi\n\n00:00:05,000 --> 00:00:06,000\nBye")) ∧
      ∃ out, (greetingSrtJob (some "Hi\n\n00:00:05,000 --> 00:00:06,000\nBye")).reconstruct = .ok out ∧
        cueTimings .srt (greetingSrtJob none).sourceText = ["00:00:01,000 --> 00:00:02,000".toList] ∧
        cueTimings .srt out =
          ["00:00:01,000 --> 00:00:02,000".toList, "00:00:05,000 --> 00:00:06,000".toList] :=
  ⟨by decide +kernel, by decide +kernel,
    "1\n00:00:01,000 --> 00:00:02,000\nHi\n\n00:00:05,000 --> 00:00:06,000\nBye\n".toList,
    by decide +kernel, by decide +kernel, by decide +kernel⟩

end Greeting

end LinguaMesh
