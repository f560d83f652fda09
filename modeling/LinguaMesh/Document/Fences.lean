import LinguaMesh.Document.Import

/-!
# Fenced code

A fence is a line that begins with three or more backticks or tildes. Outside of
code it opens a block; the block goes on to a fence of its character that is at
least as long and has nothing after it (`fenceRole`). The importer takes every
fence for the other end of a block, so it is outside of code where the number of
fences before is even.

Each block adds its two ends to that number and its stray fences, which neither
open nor close it (`countP_isFence`); `code_verbatim_iff` says when they do no harm.
-/

namespace LinguaMesh

/-! ## The discipline -/

structure CodeFence where
  char : Char
  length : Nat
  deriving DecidableEq, Repr

/-- The fence that a line begins with after blanks, and what comes after it. -/
def fenceOf (line : Str) : Option (CodeFence × Str) :=
  match trimStart line with
  | [] => none
  | c :: cs =>
    let length := ((c :: cs).takeWhile (· == c)).length
    if (c = '`' ∨ c = '~') ∧ 3 ≤ length then some (⟨c, length⟩, (c :: cs).drop length) else none

/-- A fence of the same character, not shorter and with nothing after it. -/
def CodeFence.closedBy (fence : CodeFence) (line : Str) : Bool :=
  (fenceOf line).any fun (other, rest) =>
    other.char == fence.char && fence.length ≤ other.length && (trim rest).isEmpty

/-- What a line is to the blocks of code. -/
inductive FenceRole where
  | outside | opening | inside | stray | closing
  deriving DecidableEq, Repr

/-- The role of a line after which `fence` is open. -/
def fenceRole (fence : Option CodeFence) (line : Str) : FenceRole :=
  match fence with
  | none => if (fenceOf line).isSome then .opening else .outside
  | some fence =>
    if fence.closedBy line then .closing
    else if (fenceOf line).isSome then .stray
    else .inside

/-- The fence that is open after the line. -/
def fenceAfter (fence : Option CodeFence) (line : Str) : Option CodeFence :=
  match fenceRole fence line with
  | .opening => (fenceOf line).map Prod.fst
  | .closing => none
  | _ => fence

def fenceRoles : Option CodeFence → List Str → List FenceRole
  | _, [] => []
  | fence, line :: lines => fenceRole fence line :: fenceRoles (fenceAfter fence line) lines

/-! ## The lines of a Markdown text -/

/-- A text starts with three times a character when its run of that character is that long. -/
theorem isPrefixOf_triple (c : Char) (s : Str) :
    [c, c, c].isPrefixOf s = true ↔ 3 ≤ (s.takeWhile (· == c)).length := by
  match s with
  | [] => simp
  | [a] => by_cases ha : a = c <;> simp [ha]
  | [a, b] => by_cases ha : a = c <;> by_cases hb : b = c <;> simp [ha, hb]
  | a :: b :: d :: s =>
    by_cases ha : a = c <;> by_cases hb : b = c <;> by_cases hd : d = c <;>
      simp [ha, hb, hd, Ne.symm]

theorem isPrefixOf_fence (c d : Char) (cs : Str) : [d, d, d].isPrefixOf (c :: cs) = true ↔
    c = d ∧ 3 ≤ ((c :: cs).takeWhile (· == c)).length := by
  rw [isPrefixOf_triple]
  by_cases hc : c = d
  · rw [hc]
    exact (and_iff_right rfl).symm
  · simp [hc]

theorem isFence_eq (line : Str) : isFence .markdown line = (fenceOf line).isSome := by
  unfold isFence fenceOf startsWith
  cases hline : trimStart line with
  | nil => rfl
  | cons c cs =>
    rw [Bool.eq_iff_iff, show (DocumentFormat.markdown == .markdown) = true from rfl, Bool.true_and,
      Bool.or_eq_true]
    refine (or_congr (isPrefixOf_fence c '`' cs) (isPrefixOf_fence c '~' cs)).trans ?_
    rw [← or_and_right]
    split <;> simp_all

/-! ## Roles -/

section Roles

variable {fence : Option CodeFence} {line : Str} {lines : List Str} {i : Nat}

theorem fenceRoles_getElem? : (fenceRoles fence lines)[i]? =
    lines[i]?.map (fenceRole ((lines.take i).foldl fenceAfter fence)) := by
  induction lines generalizing fence i with
  | nil => rfl
  | cons line lines ih =>
    cases i with
    | zero => rfl
    | succ i => exact ih

theorem fenceRoles_length : (fenceRoles fence lines).length = lines.length := by
  induction lines generalizing fence with
  | nil => rfl
  | cons line lines ih => exact congrArg _ ih

theorem fenceRoles_take : (fenceRoles fence lines).take i = fenceRoles fence (lines.take i) := by
  induction lines generalizing fence i with
  | nil => cases i <;> rfl
  | cons line lines ih =>
    cases i with
    | zero => rfl
    | succ i => exact congrArg _ ih

/-- A line that is a fence opens a block, closes one or is stray, and no other line does. -/
theorem fenceRole_cases (fence : Option CodeFence) (line : Str) :
    (fenceRole fence line = .outside ∧ fence.isSome = false ∧ isFence .markdown line = false ∧
      (fenceAfter fence line).isSome = false) ∨
    (fenceRole fence line = .opening ∧ fence.isSome = false ∧ isFence .markdown line = true ∧
      (fenceAfter fence line).isSome = true) ∨
    (fenceRole fence line = .inside ∧ fence.isSome = true ∧ isFence .markdown line = false ∧
      (fenceAfter fence line).isSome = true) ∨
    (fenceRole fence line = .stray ∧ fence.isSome = true ∧ isFence .markdown line = true ∧
      (fenceAfter fence line).isSome = true) ∨
    (fenceRole fence line = .closing ∧ fence.isSome = true ∧ isFence .markdown line = true ∧
      (fenceAfter fence line).isSome = false) := by
  rw [isFence_eq]
  unfold fenceAfter
  cases fence with
  | none =>
    cases hopens : (fenceOf line).isSome with
    | false => simp [fenceRole, hopens]
    | true => simp [fenceRole, hopens]
  | some fence =>
    cases hcloses : fence.closedBy line with
    | true =>
      have hfence : (fenceOf line).isSome = true := by
        unfold CodeFence.closedBy at hcloses
        cases hline : fenceOf line with
        | none => rw [hline] at hcloses; cases hcloses
        | some found => rfl
      simp [fenceRole, hcloses, hfence]
    | false =>
      cases hopens : (fenceOf line).isSome with
      | false => simp [fenceRole, hcloses, hopens]
      | true => simp [fenceRole, hcloses, hopens]

/-- A fence ends a block or is stray. -/
theorem countP_isFence (fence : Option CodeFence) (lines : List Str) :
    (lines.countP (isFence .markdown) + fence.isSome.toNat) % 2 =
    ((lines.foldl fenceAfter fence).isSome.toNat + (fenceRoles fence lines).count .stray) % 2 := by
  induction lines generalizing fence with
  | nil => simp [fenceRoles]
  | cons line lines ih =>
    have ih := ih (fenceAfter fence line)
    rw [List.countP_cons, List.foldl_cons, fenceRoles, List.count_cons]
    rcases fenceRole_cases fence line with
      ⟨hrole, hopen, hfence, hafter⟩ | ⟨hrole, hopen, hfence, hafter⟩ |
      ⟨hrole, hopen, hfence, hafter⟩ | ⟨hrole, hopen, hfence, hafter⟩ |
      ⟨hrole, hopen, hfence, hafter⟩ <;>
    · rw [hafter] at ih
      rw [hrole, hopen, hfence]
      simp at ih ⊢
      omega

end Roles

/-! ## The segments -/

/-- The lines of a Markdown text, without their endings. -/
def markdownLines (text : Str) : List Str := (splitLines text).map Prod.fst

/-- Every line of a block of code, with both fences, is kept as it is. -/
def CodeVerbatim (text : Str) (job : DocumentJob) : Prop :=
  ∀ (i : Nat) role segment, (fenceRoles none (markdownLines text))[i]? = some role →
    role ≠ .outside → job.segments[i]? = some segment → segment.kind = .verbatim

/-- Before every line of code an even number of fences is stray. -/
def StraysEven (text : Str) : Prop :=
  ∀ (i : Nat) line, (markdownLines text)[i]? = some line →
    (fenceRoles none (markdownLines text))[i]? = some .inside → trim line ≠ [] →
      ((fenceRoles none (markdownLines text)).take i).count .stray % 2 = 0

section Segments

variable {format : DocumentFormat} {kinds : List Bool} {inFencedCode : Bool}
  {segments : List DocumentSegment} {lines : List (Str × Str)}

theorem lineSegmentsFrom_prefix :
    segments <+: lineSegmentsFrom format kinds inFencedCode segments lines := by
  induction lines generalizing inFencedCode segments with
  | nil => exact List.prefix_rfl
  | cons l lines ih => exact (List.prefix_append _ _).trans ih

theorem lineSegmentsFrom_next {segment : DocumentSegment} :
    (lineSegmentsFrom format kinds inFencedCode (segments ++ [segment]) lines)[segments.length]? =
      some segment := by
  have hprefix : segments ++ [segment] <+:
      lineSegmentsFrom format kinds inFencedCode (segments ++ [segment]) lines :=
    lineSegmentsFrom_prefix
  obtain ⟨after, hafter⟩ := hprefix
  rw [← hafter, List.append_assoc]
  simp

/-- The segment of a line: verbatim inside of an odd number of fences. -/
theorem lineSegmentsFrom_getElem? {i n : Nat} {line : Str} (h : (lines.map Prod.fst)[i]? = some line)
    (hn : n = segments.length + i) :
    ∃ segment, (lineSegmentsFrom .markdown [] inFencedCode segments lines)[n]? = some segment ∧
      (segment.kind = .verbatim ↔ isFence .markdown line = true ∨ trim line = [] ∨
        (((lines.map Prod.fst).take i).countP (isFence .markdown) + inFencedCode.toNat) % 2 = 1) := by
  induction lines generalizing inFencedCode segments i with
  | nil => cases h
  | cons l lines ih =>
    obtain ⟨text, ending⟩ := l
    rw [lineSegmentsFrom]
    cases i with
    | zero =>
      cases h
      refine ⟨_, by rw [hn]; exact lineSegmentsFrom_next, ?_⟩
      cases inFencedCode <;> cases hfence : isFence .markdown text <;>
        simp [DocumentSegment.fresh, verbatimLine, hfence]
    | succ i =>
      have hn (segment : DocumentSegment) : n = (segments ++ [segment]).length + i := by
        rw [List.length_append, List.length_singleton]
        omega
      obtain ⟨segment, hsegment, hkind⟩ := ih h (hn _)
      refine ⟨segment, hsegment, hkind.trans ?_⟩
      rw [List.map_cons, List.take_succ_cons, List.countP_cons]
      refine or_congr_right (or_congr_right ?_)
      cases inFencedCode <;> cases isFence .markdown text <;> simp
      omega

end Segments

/-! ## Code is verbatim -/

/-- A line that is not outside of code is kept unless an odd number of fences before is stray. -/
theorem kept_iff {lines : List Str} {line : Str}
    (h : fenceRole (lines.foldl fenceAfter none) line ≠ .outside) :
    (isFence .markdown line = true ∨ trim line = [] ∨
        lines.countP (isFence .markdown) % 2 = 1) ↔
      (fenceRole (lines.foldl fenceAfter none) line = .inside → trim line ≠ [] →
        (fenceRoles none lines).count .stray % 2 = 0) := by
  have hparity := countP_isFence none lines
  rcases fenceRole_cases (lines.foldl fenceAfter none) line with
    ⟨hrole, -⟩ | ⟨hrole, -, hfence, -⟩ | ⟨hrole, hopen, hfence, -⟩ | ⟨hrole, -, hfence, -⟩ |
    ⟨hrole, -, hfence, -⟩
  · exact absurd hrole h
  · simp [hrole, hfence]
  · rw [hopen] at hparity
    simp only [hrole, hfence, true_implies, Bool.false_eq_true, false_or]
    simp only [Option.isSome_none, Bool.toNat_false, Bool.toNat_true] at hparity
    by_cases hblank : trim line = []
    · simp [hblank]
    · simp only [hblank, false_or, not_false_iff, true_implies, ne_eq]
      omega
  · simp [hrole, hfence]
  · simp [hrole, hfence]

section Import

variable [JsonReader]

/-- The segment of a line of a Markdown text. -/
theorem fromText_getElem? (sourceName : Str) {text : Str} {i : Nat} {line : Str}
    (h : (markdownLines text)[i]? = some line) :
    ∃ segment, (DocumentJob.fromText sourceName .markdown text).segments[i]? = some segment ∧
      (segment.kind = .verbatim ↔ isFence .markdown line = true ∨ trim line = [] ∨
        ((markdownLines text).take i).countP (isFence .markdown) % 2 = 1) :=
  lineSegmentsFrom_getElem? h (Nat.zero_add i).symm

/-- The blocks of code of a text are kept exactly when no line of them, blank lines and fences
apart, comes after an odd number of stray fences. -/
theorem code_verbatim_iff (sourceName text : Str) :
    CodeVerbatim text (DocumentJob.fromText sourceName .markdown text) ↔ StraysEven text := by
  constructor
  · intro hverbatim i line hline hinside hblank
    obtain ⟨segment, hsegment, hkind⟩ := fromText_getElem? sourceName hline
    have hkept := hkind.mp (hverbatim i _ segment hinside (by decide) hsegment)
    rw [fenceRoles_getElem?, hline, Option.map_some, Option.some_inj] at hinside
    rw [fenceRoles_take]
    exact (kept_iff (by rw [hinside]; decide)).mp hkept hinside hblank
  · intro hstrays i role segment hrole hcode hsegment
    have hi : i < (markdownLines text).length := by
      have hlength := (List.getElem?_eq_some_iff.mp hrole).1
      rwa [fenceRoles_length] at hlength
    obtain ⟨line, hline⟩ : ∃ line, (markdownLines text)[i]? = some line :=
      ⟨_, List.getElem?_eq_getElem hi⟩
    obtain ⟨segment', hsegment', hkind⟩ := fromText_getElem? sourceName hline
    obtain rfl : segment' = segment := Option.some_inj.mp (hsegment'.symm.trans hsegment)
    have hstrays := hstrays i line hline
    rw [hrole, fenceRoles_take] at hstrays
    rw [fenceRoles_getElem?, hline, Option.map_some, Option.some_inj] at hrole
    subst hrole
    exact hkind.mpr ((kept_iff hcode).mpr fun hinside => hstrays (congrArg some hinside))

end Import

/-! ### A tilde fence among backticks -/

section Nested

local instance nestedReader : JsonReader := noReader

/-- The tildes are code, and the line after them is sent. -/
theorem nested_code_sent : ∃ text : Str,
    markdownLines text = ["```".toList, "~~~".toList, "code".toList, "~~~".toList, "```".toList] ∧
      ¬ CodeVerbatim text (DocumentJob.fromText "notes.md".toList .markdown text) := by
  refine ⟨"```\n~~~\ncode\n~~~\n```\n".toList, by decide +kernel, fun hverbatim => ?_⟩
  have hcode := hverbatim 2 .inside
    ⟨2, .prose, "code".toList, none, "\n".toList⟩ (by decide +kernel) (by decide) (by decide +kernel)
  cases hcode

end Nested

end LinguaMesh
