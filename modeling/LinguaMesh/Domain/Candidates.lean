import LinguaMesh.Domain.Glossary

/-!
# Protected candidates

The scanners of the domain crate: fenced code, inline code, placeholders, URLs
and email addresses, and the matches of a glossary. Each gives spans
`(start, stop)` of the source.

`Within source c` says that a candidate lies in the source and is not empty;
`collect*_within` prove it for every scanner. `head_*` say how the span of each
automatic scanner begins: only an email address can begin with an underscore,
and then no character of an email's local part stands before it
(`automatic_underscore`).
-/

namespace LinguaMesh

open Search

/-! ## The scanners -/

def fence : Str := "```".toList

/-- Fenced code from `cursor` on. Each span takes at least six characters, so
`source.length` rounds of fuel are never used up (`fencedFrom_fuel`). -/
def fencedFrom (source : Str) : Nat → Nat → List (Nat × Nat)
  | 0, _ => []
  | fuel + 1, cursor =>
    match find fence (source.drop cursor) with
    | none => []
    | some relativeOpen =>
      let opened := cursor + relativeOpen
      match find fence (source.drop (opened + 3)) with
      | none => []
      | some relativeClose =>
        let stop := opened + 3 + relativeClose + 3
        (opened, stop) :: fencedFrom source fuel stop

def collectFencedCodeCandidates (source : Str) : List (Nat × Nat) :=
  fencedFrom source (source.length + 1) 0

/-- Inline code from `cursor` on; a fence is stepped over. -/
def inlineFrom (source : Str) : Nat → Nat → List (Nat × Nat)
  | 0, _ => []
  | fuel + 1, cursor =>
    match find ['`'] (source.drop cursor) with
    | none => []
    | some relativeOpen =>
      let opened := cursor + relativeOpen
      if fence.isPrefixOf (source.drop opened) then inlineFrom source fuel (opened + 3)
      else
        match find ['`'] (source.drop (opened + 1)) with
        | none => []
        | some relativeClose =>
          let stop := opened + 1 + relativeClose + 1
          (opened, stop) :: inlineFrom source fuel stop

def collectInlineCodeCandidates (source : Str) : List (Nat × Nat) :=
  inlineFrom source (source.length + 1) 0

def isPlaceholderBody (body : Str) : Bool :=
  !body.isEmpty && utf8Len body ≤ 128 &&
  body.all fun c => c.isAlphanum || c == '_' || c == '.' || c == '-'

def placeholderPercentEnd (remainder : Str) : Option Nat :=
  match remainder with
  | '%' :: rest =>
    if rest.head?.any ("sduif%@".toList.contains ·) then some 2
    else if "%(".toList.isPrefixOf remainder then
      match find ")s".toList remainder with
      | none => none
      | some close => if 2 < close then some (close + 2) else none
    else none
  | _ => none

/-- The end of the placeholder that `remainder` begins with, relative to it. -/
def placeholderEnd (remainder : Str) : Option Nat :=
  if "\x7b\x7b".toList.isPrefixOf remainder then (find "\x7d\x7d".toList remainder).map (· + 2)
  else if "$\x7b".toList.isPrefixOf remainder then (find "\x7d".toList remainder).map (· + 1)
  else if remainder.head? = some '{' then
    match find "\x7d".toList remainder with
    | none => none
    | some relative => if isPlaceholderBody (slice remainder 1 relative) then some (relative + 1) else none
  else if remainder.head? = some '%' then placeholderPercentEnd remainder
  else none

def collectPlaceholderCandidates (source : Str) : List (Nat × Nat) :=
  (List.range source.length).filterMap fun start =>
    (placeholderEnd (source.drop start)).map fun relative => (start, start + relative)

def isUrlCharacter (c : Char) : Bool := !(isWhitespace c || "<>[]\x7b\x7d\"".toList.contains c)

def isUrlTrailer (c : Char) : Bool := ".,;:!?".toList.contains c

def collectUrlCandidates (source : Str) : List (Nat × Nat) :=
  (List.range source.length).filterMap fun start =>
    let remainder := source.drop start
    if "https://".toList.isPrefixOf remainder || "http://".toList.isPrefixOf remainder then
      let url := (remainder.takeWhile isUrlCharacter).rdropWhile isUrlTrailer
      if url.isEmpty then none else some (start, start + url.length)
    else none

def isEmailLocal (c : Char) : Bool :=
  c.isAlphanum || c == '.' || c == '_' || c == '+' || c == '-'

def isEmailDomain (c : Char) : Bool := c.isAlphanum || c == '.' || c == '-' || c == '_'

def collectEmailCandidates (source : Str) : List (Nat × Nat) :=
  (List.range source.length).filterMap fun at_ =>
    if source[at_]? = some '@' then
      let start := at_ - ((source.take at_).rtakeWhile isEmailLocal).length
      let right := (source.drop (at_ + 1)).takeWhile isEmailDomain
      if start < at_ && right.contains '.' then some (start, at_ + 1 + right.length) else none
    else none

def automaticCandidates (source : Str) : List (Nat × Nat) :=
  collectFencedCodeCandidates source ++ collectInlineCodeCandidates source ++
  collectPlaceholderCandidates source ++ collectUrlCandidates source ++
  collectEmailCandidates source

structure ProtectedCandidate where
  start : Nat
  stop : Nat
  replacement : Str
  priority : Int
  deriving DecidableEq, Repr

/-- `i32::MIN`, the priority of an automatic candidate. -/
def automaticPriority : Int := -2 ^ 31

/-- An automatic span, restored to itself. -/
def automaticCandidate (source : Str) (span : Nat × Nat) : ProtectedCandidate :=
  ⟨span.1, span.2, slice source span.1 span.2, automaticPriority⟩

section
variable [UnicodeTables]

/-- The match of a rule at `start`, if there is one. -/
def glossaryCandidateAt (source : Str) (entry : GlossaryEntry) (start : Nat) :
    Option ProtectedCandidate :=
  match takeBytes (utf8Len entry.sourceTerm) (source.drop start) with
  | none => none
  | some candidate =>
    let stop := start + candidate.length
    let isMatch := if entry.caseSensitive then candidate == entry.sourceTerm
      else eqIgnoreAsciiCase candidate entry.sourceTerm
    if !isMatch || (entry.wholeWord && !isWholeWordMatch source start stop) then none
    else some ⟨start, stop, if entry.immutable then candidate else entry.targetTerm, entry.priority⟩

def collectGlossaryCandidates (source : Str) (sourceLocale : Option Str) (targetLocale : Str)
    (glossary : Glossary) : List ProtectedCandidate :=
  (glossary.entries.filter fun entry =>
    entry.enabled && localeMatches entry.sourceLocale sourceLocale &&
    localeMatches entry.targetLocale (some targetLocale)).flatMap fun entry =>
      if utf8Len entry.sourceTerm = 0 then []
      else (List.range source.length).filterMap (glossaryCandidateAt source entry)

end

/-! ## Fuel -/

theorem find_drop_none {pat source : Str} {cursor : Nat} (hp : pat ≠ [])
    (h : source.length ≤ cursor) : find pat (source.drop cursor) = none := by
  rw [List.drop_of_length_le h]
  simp [find, hp]

theorem fencedFrom_fuel {source : Str} {fuel cursor : Nat} (h : source.length < cursor + fuel) :
    fencedFrom source (fuel + 1) cursor = fencedFrom source fuel cursor := by
  induction fuel generalizing cursor with
  | zero =>
    simp only [fencedFrom, @find_drop_none fence source cursor (by decide) (show source.length ≤ cursor by omega)]
  | succ fuel ih =>
    rw [fencedFrom]
    conv => rhs; rw [fencedFrom]
    split
    · rfl
    · rename_i relativeOpen ho
      simp only
      split
      · rfl
      · rename_i relativeClose hc
        rw [ih (by omega)]

theorem inlineFrom_fuel {source : Str} {fuel cursor : Nat} (h : source.length < cursor + fuel) :
    inlineFrom source (fuel + 1) cursor = inlineFrom source fuel cursor := by
  induction fuel generalizing cursor with
  | zero =>
    simp only [inlineFrom, @find_drop_none ['`'] source cursor (by decide) (show source.length ≤ cursor by omega)]
  | succ fuel ih =>
    rw [inlineFrom]
    conv => rhs; rw [inlineFrom]
    split
    · rfl
    · rename_i relativeOpen ho
      simp only
      split
      · rw [ih (by omega)]
      · split
        · rfl
        · rename_i relativeClose hc
          rw [ih (by omega)]

/-! ## Bounds -/

/-- A span that lies in the source and is not empty. -/
def Within (source : Str) (start stop : Nat) : Prop := start < stop ∧ stop ≤ source.length

theorem fencedFrom_within {source : Str} {fuel cursor : Nat} {span : Nat × Nat}
    (h : span ∈ fencedFrom source fuel cursor) :
    Within source span.1 span.2 ∧ fence <+: source.drop span.1 := by
  induction fuel generalizing cursor with
  | zero => simp [fencedFrom] at h
  | succ fuel ih =>
    rw [fencedFrom] at h
    split at h
    · simp at h
    · rename_i relativeOpen ho
      simp only at h
      split at h
      · simp at h
      · rename_i relativeClose hc
        rcases List.mem_cons.mp h with rfl | h
        · obtain ⟨⟨A, B, e, hA⟩, -⟩ := find_eq_some ho
          have hl := find_le_length hc
          rw [List.length_drop] at hl
          have hf : fence.length = 3 := rfl
          refine ⟨⟨by simp only; omega, by simp only; omega⟩, ?_⟩
          simp only
          rw [← List.drop_drop, e, ← hA, List.append_assoc, List.drop_left]
          exact List.prefix_append _ _
        · exact ih h

theorem inlineFrom_within {source : Str} {fuel cursor : Nat} {span : Nat × Nat}
    (h : span ∈ inlineFrom source fuel cursor) :
    Within source span.1 span.2 ∧ ['`'] <+: source.drop span.1 := by
  induction fuel generalizing cursor with
  | zero => simp [inlineFrom] at h
  | succ fuel ih =>
    rw [inlineFrom] at h
    split at h
    · simp at h
    · rename_i relativeOpen ho
      simp only at h
      split at h
      · exact ih h
      · split at h
        · simp at h
        · rename_i relativeClose hc
          rcases List.mem_cons.mp h with rfl | h
          · obtain ⟨⟨A, B, e, hA⟩, -⟩ := find_eq_some ho
            have hl := find_le_length hc
            rw [List.length_drop] at hl
            have hf : ['`'].length = 1 := rfl
            refine ⟨⟨by simp only; omega, by simp only; omega⟩, ?_⟩
            simp only
            rw [← List.drop_drop, e, ← hA, List.append_assoc, List.drop_left]
            exact List.prefix_append _ _
          · exact ih h

theorem head_of_starts {a : Char} {pat r : Str} (h : (a :: pat).isPrefixOf r = true) :
    r.head? = some a := by
  obtain ⟨B, rfl⟩ := List.isPrefixOf_iff_prefix.mp h
  rfl

theorem placeholderPercentEnd_le {r : Str} {n : Nat} (h : placeholderPercentEnd r = some n) :
    0 < n ∧ n ≤ r.length := by
  unfold placeholderPercentEnd at h
  split at h
  · rename_i rest
    split at h
    · rename_i hs
      cases h
      cases rest with
      | nil => simp at hs
      | cons d rest => simp
    · split at h
      · split at h
        · cases h
        · rename_i close hc
          have hl := find_le_length hc
          have h2 : ")s".toList.length = 2 := rfl
          split at h
          · cases h; omega
          · cases h
      · cases h
  · cases h

theorem placeholderEnd_spec {r : Str} {n : Nat} (h : placeholderEnd r = some n) :
    0 < n ∧ n ≤ r.length ∧ r.head? ≠ some '_' := by
  have h1 : "\x7d".toList.length = 1 := rfl
  have h2 : "\x7d\x7d".toList.length = 2 := rfl
  unfold placeholderEnd at h
  split at h
  · rename_i hp
    obtain ⟨m, hm, rfl⟩ := Option.map_eq_some_iff.mp h
    have := find_le_length hm
    exact ⟨by omega, by omega, by rw [head_of_starts hp]; decide⟩
  · split at h
    · rename_i hp
      obtain ⟨m, hm, rfl⟩ := Option.map_eq_some_iff.mp h
      have := find_le_length hm
      exact ⟨by omega, by omega, by rw [head_of_starts hp]; decide⟩
    · split at h
      · rename_i hp
        split at h
        · cases h
        · rename_i m hm
          have := find_le_length hm
          split at h
          · cases h; exact ⟨by omega, by omega, by rw [hp]; decide⟩
          · cases h
      · split at h
        · rename_i hp
          obtain ⟨h3, h4⟩ := placeholderPercentEnd_le h
          exact ⟨h3, h4, by rw [hp]; decide⟩
        · cases h

theorem head_drop {source : Str} {start : Nat} : (source.drop start).head? = source[start]? := by
  rw [List.head?_drop]

theorem placeholder_spec {source : Str} {span : Nat × Nat}
    (h : span ∈ collectPlaceholderCandidates source) :
    Within source span.1 span.2 ∧ source[span.1]? ≠ some '_' := by
  unfold collectPlaceholderCandidates at h
  obtain ⟨start, -, h⟩ := List.mem_filterMap.mp h
  obtain ⟨n, hn, rfl⟩ := Option.map_eq_some_iff.mp h
  obtain ⟨h1, h2, h3⟩ := placeholderEnd_spec hn
  rw [head_drop] at h3
  rw [List.length_drop] at h2
  exact ⟨⟨by simp only; omega, by simp only; omega⟩, h3⟩

theorem url_spec {source : Str} {span : Nat × Nat} (h : span ∈ collectUrlCandidates source) :
    Within source span.1 span.2 ∧ source[span.1]? ≠ some '_' := by
  unfold collectUrlCandidates at h
  obtain ⟨start, hs, h⟩ := List.mem_filterMap.mp h
  simp only at h
  split at h
  · rename_i hp
    split at h
    · cases h
    · rename_i hne
      cases h
      have hl := ((List.rdropWhile_prefix isUrlTrailer
        ((source.drop start).takeWhile isUrlCharacter)).trans
        (List.takeWhile_prefix isUrlCharacter)).length_le
      rw [List.length_drop] at hl
      have hpos := List.length_pos_of_ne_nil (fun e => hne (List.isEmpty_iff.mpr e))
      refine ⟨⟨by simp only; omega, ?_⟩, ?_⟩
      · simp only
        have := List.mem_range.mp hs
        omega
      · simp only
        rw [← head_drop]
        rcases Bool.or_eq_true _ _ |>.mp hp with hp | hp <;> rw [head_of_starts hp] <;> decide
  · cases h

theorem rdropWhile_eq_take {source : Str} {n : Nat} (p : Char → Bool) (hn : n ≤ source.length) :
    (source.take n).rdropWhile p = source.take (n - ((source.take n).rtakeWhile p).length) := by
  have h := List.rdropWhile_append_rtakeWhile (p := p) (l := source.take n)
  have hl := congrArg List.length h
  rw [List.length_append, List.length_take_of_le hn] at hl
  have : (source.take n).rdropWhile p <+: source :=
    (List.rdropWhile_prefix p _).trans (List.take_prefix n source)
  rw [show n - ((source.take n).rtakeWhile p).length = ((source.take n).rdropWhile p).length by omega]
  exact List.prefix_iff_eq_take.mp this

/-- An email address takes every character its local part could begin with. -/
theorem email_spec {source : Str} {span : Nat × Nat} (h : span ∈ collectEmailCandidates source) :
    Within source span.1 span.2 ∧
      ∀ c, (source.take span.1).getLast? = some c → isEmailLocal c = false := by
  unfold collectEmailCandidates at h
  obtain ⟨at_, hs, h⟩ := List.mem_filterMap.mp h
  simp only at h
  split at h
  · split at h
    · rename_i hc
      cases h
      simp only [Bool.and_eq_true, decide_eq_true_eq] at hc
      have hat := List.mem_range.mp hs
      have hr := (List.takeWhile_prefix isEmailDomain (l := source.drop (at_ + 1))).length_le
      rw [List.length_drop] at hr
      refine ⟨⟨by simp only; omega, by simp only; omega⟩, ?_⟩
      intro c hlast
      simp only at hlast
      rw [← rdropWhile_eq_take] at hlast
      · have hne : (source.take at_).rdropWhile isEmailLocal ≠ [] := by
          rintro e; rw [e] at hlast; cases hlast
        have := List.rdropWhile_last_not isEmailLocal _ hne
        rw [List.getLast?_eq_some_getLast hne] at hlast
        cases hlast
        simpa using this
      · omega
    · cases h
  · cases h

theorem fenced_spec {source : Str} {span : Nat × Nat}
    (h : span ∈ collectFencedCodeCandidates source) :
    Within source span.1 span.2 ∧ source[span.1]? ≠ some '_' := by
  obtain ⟨h1, h2⟩ := fencedFrom_within h
  rw [← head_drop, head_of_starts (List.isPrefixOf_iff_prefix.mpr h2)]
  exact ⟨h1, by decide⟩

theorem inline_spec {source : Str} {span : Nat × Nat}
    (h : span ∈ collectInlineCodeCandidates source) :
    Within source span.1 span.2 ∧ source[span.1]? ≠ some '_' := by
  obtain ⟨h1, h2⟩ := inlineFrom_within h
  rw [← head_drop, head_of_starts (List.isPrefixOf_iff_prefix.mpr h2)]
  exact ⟨h1, by decide⟩

theorem automatic_spec {source : Str} {span : Nat × Nat} (h : span ∈ automaticCandidates source) :
    Within source span.1 span.2 ∧ (source[span.1]? ≠ some '_' ∨
      ∀ c, (source.take span.1).getLast? = some c → isEmailLocal c = false) := by
  simp only [automaticCandidates, List.mem_append] at h
  rcases h with (((h | h) | h) | h) | h
  · obtain ⟨h1, h2⟩ := fenced_spec h; exact ⟨h1, .inl h2⟩
  · obtain ⟨h1, h2⟩ := inline_spec h; exact ⟨h1, .inl h2⟩
  · obtain ⟨h1, h2⟩ := placeholder_spec h; exact ⟨h1, .inl h2⟩
  · obtain ⟨h1, h2⟩ := url_spec h; exact ⟨h1, .inl h2⟩
  · obtain ⟨h1, h2⟩ := email_spec h; exact ⟨h1, .inr h2⟩

section
variable [UnicodeTables]

theorem glossaryCandidateAt_spec {source : Str} {entry : GlossaryEntry} {start : Nat}
    {c : ProtectedCandidate} (hs : start < source.length) (ht : utf8Len entry.sourceTerm ≠ 0)
    (h : glossaryCandidateAt source entry start = some c) : Within source c.start c.stop := by
  unfold glossaryCandidateAt at h
  split at h
  · cases h
  · rename_i candidate hc
    have hl := (takeBytes_starts hc).length_le
    have hpos := List.length_pos_of_ne_nil (takeBytes_ne_nil ht hc)
    rw [List.length_drop] at hl
    simp only [Option.ite_none_left_eq_some, Option.some.injEq] at h
    obtain ⟨-, rfl⟩ := h
    exact ⟨by simp only; omega, by simp only; omega⟩

theorem glossary_within {source : Str} {sourceLocale : Option Str} {targetLocale : Str}
    {glossary : Glossary} {c : ProtectedCandidate}
    (h : c ∈ collectGlossaryCandidates source sourceLocale targetLocale glossary) :
    Within source c.start c.stop := by
  unfold collectGlossaryCandidates at h
  obtain ⟨entry, -, h⟩ := List.mem_flatMap.mp h
  split at h
  · simp at h
  · rename_i ht
    obtain ⟨start, hs, h⟩ := List.mem_filterMap.mp h
    exact glossaryCandidateAt_spec (List.mem_range.mp hs) ht h

end

end LinguaMesh
