import LinguaMesh.Domain.Candidates

/-!
# Protected sources

`buildProtectedSource` replaces the selected candidates of a source by markers;
`ProtectedTextRestorer` puts the replacements back, marker by marker, while the
model output arrives in deltas (`push`) and at its end (`finish`).
-/

namespace LinguaMesh

open Search

def protectedTokenPrefix : Str := "__LINGUAMESH_PROTECTED_".toList
def protectedTokenSuffix : Str := "__".toList

structure ProtectedSpan where
  token : Str
  source : Str
  replacement : Str
  deriving DecidableEq, Repr

structure ProtectedSource where
  text : Str
  spans : List ProtectedSpan
  deriving DecidableEq, Repr

/-! ## Building -/

/-- The sort order: by start, then higher priority first, then longer first. -/
def candidateLe (left right : ProtectedCandidate) : Bool :=
  left.start < right.start || (left.start == right.start &&
    (right.priority < left.priority || (left.priority == right.priority &&
      right.stop - right.start ≤ left.stop - left.start)))

/-- The greedy choice: a candidate is taken when it starts at or after the end of the last one
taken. -/
def selectCandidates : Option Nat → List ProtectedCandidate → List ProtectedCandidate
  | _, [] => []
  | previous, c :: cs =>
    if c.start < c.stop && previous.all (· ≤ c.start) then
      c :: selectCandidates (some c.stop) cs
    else selectCandidates previous cs

/-- Underscores are appended while the source contains the token. A token longer than the source
is not contained, so the fuel is not used up (`extendToken_fresh`). -/
def extendToken (source : Str) : Nat → Str → Str
  | 0, token => token
  | fuel + 1, token =>
    if contains source token then extendToken source fuel (token ++ ['_']) else token

def tokenFor (source : Str) (index : Nat) : Str :=
  extendToken source (source.length + 1)
    (protectedTokenPrefix ++ Nat.toDigits 10 index ++ protectedTokenSuffix)

/-- The loop over the selected candidates from `index` on, the text before `cursor` done. -/
def insertTokens (source : Str) : Nat → Nat → List ProtectedCandidate → Str × List ProtectedSpan
  | _, cursor, [] => (source.drop cursor, [])
  | index, cursor, c :: cs =>
    let token := tokenFor source index
    let rest := insertTokens source (index + 1) c.stop cs
    (slice source cursor c.start ++ token ++ rest.1,
      ⟨token, slice source c.start c.stop, c.replacement⟩ :: rest.2)

section
variable [UnicodeTables]

/-- All candidates, in the order the source collects them. -/
def allCandidates (source : Str) (sourceLocale targetLocale : Option Str)
    (glossary : Option Glossary) : List ProtectedCandidate :=
  (automaticCandidates source).map (automaticCandidate source) ++
    match targetLocale, glossary with
    | some targetLocale, some glossary =>
      collectGlossaryCandidates source sourceLocale targetLocale glossary
    | _, _ => []

def selectedCandidates (source : Str) (sourceLocale targetLocale : Option Str)
    (glossary : Option Glossary) : List ProtectedCandidate :=
  selectCandidates none
    ((allCandidates source sourceLocale targetLocale glossary).insertionSort
      fun left right => candidateLe left right)

def buildProtectedSource (source : Str) (sourceLocale targetLocale : Option Str)
    (glossary : Option Glossary) : Except GlossaryError ProtectedSource := do
  if let some glossary := glossary then glossary.validate
  let inserted := insertTokens source 0 0
    (selectedCandidates source sourceLocale targetLocale glossary)
  return ⟨inserted.1, inserted.2⟩

def protectSourceTextWithGlossary (source : Str) (sourceLocale : Option Str) (targetLocale : Str)
    (glossary : Option Glossary) : Except GlossaryError ProtectedSource :=
  buildProtectedSource source sourceLocale (some targetLocale) glossary

/-- Without a glossary nothing can fail (`protectSourceText_ok`). -/
def protectSourceText (source : Str) : ProtectedSource :=
  match buildProtectedSource source none none none with
  | .ok p => p
  | .error _ => ⟨[], []⟩

theorem protectSourceText_ok (source : Str) :
    buildProtectedSource source none none none = .ok (protectSourceText source) := rfl

end

/-! ## Restoring -/

inductive ProtectedTextError where
  | duplicateMarker
  | missingMarker
  | invalidMarker
  deriving DecidableEq, Repr

/-- The `Display` text. -/
def ProtectedTextError.message : ProtectedTextError → String
  | duplicateMarker => "Provider output repeated a protected marker."
  | missingMarker => "Provider output omitted a protected marker."
  | invalidMarker => "Provider output contained an invalid protected marker."

structure ProtectedTextRestorer where
  spans : List ProtectedSpan
  pending : Str
  seen : List Bool
  deriving DecidableEq, Repr

def ProtectedSource.restorer (p : ProtectedSource) : ProtectedTextRestorer :=
  ⟨p.spans, [], List.replicate p.spans.length false⟩

def appendPlainText (output plain : Str) : Except ProtectedTextError Str :=
  if contains plain protectedTokenPrefix then .error .invalidMarker else .ok (output ++ plain)

/-- `Iterator::min_by_key` on the first component: the first of the least. -/
def minByPosition : List (Nat × Nat) → Option (Nat × Nat)
  | [] => none
  | x :: xs =>
    match minByPosition xs with
    | none => some x
    | some y => if x.1 ≤ y.1 then some x else some y

/-- The leftmost marker of the pending text: its position and its span's index. -/
def nextMarker (pending : Str) (spans : List ProtectedSpan) : Option (Nat × Nat) :=
  minByPosition (spans.zipIdx.filterMap fun (span, index) =>
    (find span.token pending).map fun position => (position, index))

/-- The suffix held back: for each span in turn its marker's prefixes, longest first, and the
first of all these that ends the text. -/
def longestMarkerPrefixSuffix (text : Str) (spans : List ProtectedSpan) : Nat :=
  ((spans.flatMap fun span =>
    (List.range' 1 (min span.token.length text.length)).reverse.map fun size => (span, size)).findSome?
      fun (span, size) =>
        if (span.token.take size).isSuffixOf text then some size else none).getD 0

/-- The loop of `push`. Every round marks a span that was not seen, so a budget of one round for
each span is enough (`pushLoop_iff`). -/
def pushLoop (spans : List ProtectedSpan) (fuel : Nat) (pending : Str) (seen : List Bool)
    (output : Str) : Except ProtectedTextError (Str × Str × List Bool) :=
  match nextMarker pending spans with
  | none => do
    let keep := longestMarkerPrefixSuffix pending spans
    let split := pending.length - keep
    let output ← appendPlainText output (pending.take split)
    .ok (output, pending.drop split, seen)
  | some (position, index) =>
    if seen[index]?.getD false then .error .duplicateMarker
    else
      match fuel, spans[index]? with
      | fuel + 1, some span => do
        let output ← appendPlainText output (pending.take position)
        pushLoop spans fuel (pending.drop (position + span.token.length)) (seen.set index true)
          (output ++ span.replacement)
      | _, _ => .error .duplicateMarker

namespace ProtectedTextRestorer

def push (r : ProtectedTextRestorer) (delta : Str) :
    Except ProtectedTextError (Str × ProtectedTextRestorer) :=
  let pending := r.pending ++ delta
  if r.spans.isEmpty then .ok (pending, { r with pending := [] })
  else do
    let (output, pending, seen) ← pushLoop r.spans r.spans.length pending r.seen []
    .ok (output, { r with pending := pending, seen := seen })

def finish (r : ProtectedTextRestorer) :
    Except ProtectedTextError (Str × ProtectedTextRestorer) := do
  let (output, r) ← r.push []
  let output ← if r.pending.isEmpty then .ok output else appendPlainText output r.pending
  if r.seen.any (!·) then .error .missingMarker
  else .ok (output, { r with pending := [] })

/-- Push the deltas in order, then finish: everything that was returned, in order. -/
def restore (r : ProtectedTextRestorer) : List Str → Except ProtectedTextError Str
  | [] => do
    let (output, _) ← r.finish
    .ok output
  | delta :: deltas => do
    let (output, r) ← r.push delta
    let rest ← r.restore deltas
    .ok (output ++ rest)

end ProtectedTextRestorer

end LinguaMesh
