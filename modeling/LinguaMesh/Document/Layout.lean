import LinguaMesh.Document.Job

/-!
# Laying a text out as segments

An importer writes its segments one after the other: each gets the next index
and no translation (`pushSegment`). `Segmented text segments` says what comes out:
the indices count from zero, the texts with their line endings spell `text`, and
nothing is translated yet.
-/

namespace LinguaMesh

/-- A segment that is not translated yet. -/
def DocumentSegment.fresh (index : Nat) (kind : DocumentSegmentKind) (text ending : Str) :
    DocumentSegment := ⟨index, kind, text, none, ending⟩

/-- `segments.push(DocumentSegment { index: segments.len(), .. })`, without a line ending. -/
def pushSegment (segments : List DocumentSegment) (kind : DocumentSegmentKind) (text : Str) :
    List DocumentSegment := segments ++ [.fresh segments.length kind text []]

/-- The text of segments: each with its line ending. -/
def spelled (segments : List DocumentSegment) : Str :=
  segments.flatMap fun s => s.sourceText ++ s.lineEnding

theorem DocumentJob.sourceText_eq (job : DocumentJob) : job.sourceText = spelled job.segments := rfl

@[simp] theorem spelled_nil : spelled [] = [] := rfl

@[simp] theorem spelled_append (s t : List DocumentSegment) :
    spelled (s ++ t) = spelled s ++ spelled t := List.flatMap_append

@[simp] theorem spelled_cons (s : DocumentSegment) (t : List DocumentSegment) :
    spelled (s :: t) = s.sourceText ++ s.lineEnding ++ spelled t := List.flatMap_cons

theorem spelled_mapIdx {α : Type} {f : Nat → α → DocumentSegment} {spell : α → Str} {l : List α}
    (h : ∀ i a, (f i a).sourceText ++ (f i a).lineEnding = spell a) :
    spelled (l.mapIdx f) = l.flatMap spell := by
  induction l generalizing f with
  | nil => rfl
  | cons a l ih =>
    rw [List.mapIdx_cons, spelled_cons, List.flatMap_cons, h, ih fun i b => h (i + 1) b]

structure Segmented (text : Str) (segments : List DocumentSegment) : Prop where
  indices : segments.map (·.index) = List.range segments.length
  text : spelled segments = text
  fresh : ∀ s ∈ segments, s.translatedText = none

namespace Segmented

variable {text : Str} {segments : List DocumentSegment}

theorem nil : Segmented [] [] := ⟨rfl, rfl, fun _ h => absurd h List.not_mem_nil⟩

theorem snoc (h : Segmented text segments) (kind : DocumentSegmentKind) (new ending : Str) :
    Segmented (text ++ new ++ ending) (segments ++ [.fresh segments.length kind new ending]) := by
  refine ⟨?_, ?_, ?_⟩
  · rw [List.map_append, h.indices, List.length_append, List.length_singleton, List.range_succ]
    rfl
  · simp [h.text, DocumentSegment.fresh]
  · intro s hs
    rcases List.mem_append.mp hs with hs | hs
    · exact h.fresh s hs
    · rw [List.mem_singleton.mp hs]
      rfl

theorem push (h : Segmented text segments) (kind : DocumentSegmentKind) (new : Str) :
    Segmented (text ++ new) (pushSegment segments kind new) := by
  simpa [pushSegment] using h.snoc kind new []

/-- The segments that a list of items becomes, each at its own index. -/
theorem mapIdx {α : Type} {f : Nat → α → DocumentSegment} {spell : α → Str} {l : List α}
    (hindex : ∀ i a, (f i a).index = i)
    (htext : ∀ i a, (f i a).sourceText ++ (f i a).lineEnding = spell a)
    (hfresh : ∀ i a, (f i a).translatedText = none) : Segmented (l.flatMap spell) (l.mapIdx f) := by
  refine ⟨?_, spelled_mapIdx htext, ?_⟩
  · refine List.ext_getElem (by simp) fun i h1 h2 => ?_
    simp [hindex]
  · intro s hs
    obtain ⟨i, h, rfl⟩ := List.mem_mapIdx.mp hs
    exact hfresh _ _

end Segmented

theorem index_of_getElem {segments : List DocumentSegment} {i : Nat} {s : DocumentSegment}
    (h : segments.map (·.index) = List.range segments.length) (hs : segments[i]? = some s) :
    s.index = i := by
  have hi : i < segments.length := (List.getElem?_eq_some_iff.mp hs).1
  have h1 : (segments.map (·.index))[i]? = (List.range segments.length)[i]? := by rw [h]
  rw [List.getElem?_map, hs, List.getElem?_range hi] at h1
  exact Option.some.inj h1

theorem getElem_of_mem {segments : List DocumentSegment} {s : DocumentSegment}
    (h : segments.map (·.index) = List.range segments.length) (hs : s ∈ segments) :
    segments[s.index]? = some s := by
  obtain ⟨i, hi⟩ := List.mem_iff_getElem?.mp hs
  rwa [index_of_getElem h hi]

end LinguaMesh
