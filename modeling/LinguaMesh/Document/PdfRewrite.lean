import LinguaMesh.Document.PdfPages
import Mathlib.Data.List.Dedup

/-!
# Rewriting a PDF

`reconstruct` copies each stream with its spans replaced, and splices the new
objects into the file from the last to the first. The spans of one scan are in
order, so the cursor of the copy only moves on (`post_rewriteStream`); but the
spans of a stream object that is listed twice start over, and the second copy
starts before the cursor (`rewriteStream_twice`).

`reconstruct_returns_iff`: this is the only way in which the reconstruction of
an imported document can fail to return.
-/

namespace LinguaMesh.Pdf

open Search Run

variable {F : Type}

/-! ## Streams -/

section Streams

variable {data : Bytes} {pairs : List (PdfTextSpan F × DocumentSegment)}

theorem post_pdfEscape (text : Str) : Post (pdfEscape text) fun _ => True := by
  unfold pdfEscape
  split <;> trivial

/-- A span whose range starts at the cursor or later moves the cursor to its end. -/
theorem post_rewriteSpan {acc : Nat × Bytes} {pair : PdfTextSpan F × DocumentSegment}
    (h1 : acc.1 ≤ pair.1.start) (h2 : pair.1.start ≤ pair.1.stop)
    (h3 : pair.1.stop ≤ data.length) :
    Post (rewriteSpan data acc pair) fun acc' => acc'.1 = pair.1.stop := by
  obtain ⟨span, segment⟩ := pair
  unfold rewriteSpan
  refine (post_sliceOf h1 (le_trans h2 h3)).bind fun before _ => ?_
  split
  · trivial
  · split
    · exact (post_sliceOf h2 h3).bind fun _ _ => rfl
    · refine (post_ofOption (Q := fun _ => True) fun _ _ => trivial).bind fun translated _ => ?_
      exact (post_pdfEscape translated).bind fun _ _ => rfl

theorem post_rewriteSpans {acc : Nat × Bytes}
    (h : Ordered PdfTextSpan.start PdfTextSpan.stop data.length (pairs.map Prod.fst))
    (hc : ∀ pair ∈ pairs, acc.1 ≤ pair.1.start) (hl : acc.1 ≤ data.length) :
    Post (pairs.foldlM (rewriteSpan data) acc) fun acc' => acc'.1 ≤ data.length := by
  induction pairs generalizing acc with
  | nil => exact hl
  | cons pair pairs ih =>
    rw [List.map_cons] at h
    have hb := h.bounds pair.1 (by simp)
    rw [List.foldlM_cons]
    refine (post_rewriteSpan (hc pair (by simp)) hb.1 hb.2).bind fun acc' hacc => ?_
    refine ih h.tail (fun pair' hp => ?_) (hacc ▸ hb.2)
    rw [hacc]
    exact h.head_le (List.mem_map_of_mem hp)

theorem post_rewriteStream
    (h : Ordered PdfTextSpan.start PdfTextSpan.stop data.length (pairs.map Prod.fst)) :
    Post (rewriteStream data pairs) fun _ => True := by
  unfold rewriteStream
  refine (post_rewriteSpans h (fun _ _ => Nat.zero_le _) (Nat.zero_le _)).bind fun acc hacc => ?_
  exact (post_tailOf hacc).bind fun _ _ => trivial

/-- A pair that `rewriteSpan` accepts: the segment has the span's text, and its translation,
if it needs one, is empty. -/
def Ready (pair : PdfTextSpan F × DocumentSegment) : Prop :=
  pair.2.sourceText = pair.1.text ∧ (pair.2.kind = .prose → pair.2.translatedText = some [])

theorem rewriteSpan_ready {acc : Nat × Bytes} {pair : PdfTextSpan F × DocumentSegment}
    (hr : Ready pair) (h1 : acc.1 ≤ pair.1.start) (h2 : pair.1.start ≤ pair.1.stop)
    (h3 : pair.1.stop ≤ data.length) :
    ∃ out, rewriteSpan data acc pair = .ok (pair.1.stop, out) := by
  obtain ⟨span, segment⟩ := pair
  obtain ⟨htext, htranslated⟩ := hr
  simp only at htext htranslated h1 h2 h3
  unfold rewriteSpan
  simp only [sliceOf_ok h1 (le_trans h2 h3), Except.ok_bind, htext, ne_eq, not_true_eq_false,
    if_false]
  cases hk : segment.kind with
  | verbatim =>
    simp only [sliceOf_ok h2 h3, Except.ok_bind]
    exact ⟨_, rfl⟩
  | prose =>
    rw [htranslated hk]
    exact ⟨_, rfl⟩

theorem rewriteSpans_ready (acc : Nat × Bytes) (hr : ∀ pair ∈ pairs, Ready pair)
    (h : Ordered PdfTextSpan.start PdfTextSpan.stop data.length (pairs.map Prod.fst))
    (hc : ∀ pair ∈ pairs, acc.1 ≤ pair.1.start) :
    ∃ acc', pairs.foldlM (rewriteSpan data) acc = .ok acc' ∧ acc.1 ≤ acc'.1 ∧
      ∀ pair ∈ pairs, pair.1.stop ≤ acc'.1 := by
  induction pairs generalizing acc with
  | nil => exact ⟨acc, rfl, Nat.le_refl _, by simp⟩
  | cons pair pairs ih =>
    rw [List.map_cons] at h
    have hb := h.bounds pair.1 (by simp)
    have hp := hc pair (by simp)
    obtain ⟨out, hout⟩ := rewriteSpan_ready (hr pair (by simp)) hp hb.1 hb.2
    obtain ⟨acc', hacc, hle, hstop⟩ := ih (pair.1.stop, out)
      (fun p hp => hr p (by simp [hp])) h.tail fun p hp => h.head_le (List.mem_map_of_mem hp)
    refine ⟨acc', by rw [List.foldlM_cons, hout]; exact hacc, ?_, ?_⟩
    · simp only at hle
      omega
    · intro p hmem
      rcases List.mem_cons.mp hmem with rfl | hmem
      · exact hle
      · exact hstop p hmem

theorem rewriteSpan_back {acc : Nat × Bytes} {pair : PdfTextSpan F × DocumentSegment}
    (h : pair.1.start < acc.1) : rewriteSpan data acc pair = .error .panic := by
  obtain ⟨span, segment⟩ := pair
  unfold rewriteSpan
  simp only at h ⊢
  rw [sliceOf_panic (by omega)]
  rfl

/-- Two copies of the spans of one scan: the second starts before the cursor. -/
theorem rewriteStream_twice {id p q : Nat} {base rest : List (PdfTextSpan F)}
    (hr : ∀ pair ∈ pairs, Ready pair) (hf : Found data.length id base) (hne : base ≠ [])
    (h : pairs.map Prod.fst = base.map (PdfTextSpan.onPage p) ++
      (base.map (PdfTextSpan.onPage q) ++ rest)) :
    rewriteStream data pairs = .error .panic := by
  obtain ⟨first, second, rfl, hfirst, hsecond⟩ := List.map_eq_append_iff.mp h
  obtain ⟨span, base, rfl⟩ := List.exists_cons_of_ne_nil hne
  rw [List.map_cons, List.cons_append] at hsecond
  obtain ⟨pair, second, rfl, hpair, -⟩ := List.map_eq_cons_iff.mp hsecond
  obtain ⟨acc, hacc, -, hstop⟩ := rewriteSpans_ready (0, [])
    (fun pr hp => hr pr (by simp [hp])) (hfirst ▸ ordered_onPage p hf.ordered)
    fun _ _ => Nat.zero_le _
  -- the first span of the first copy is already behind the cursor
  have hcursor : span.stop ≤ acc.1 := by
    have hmem : span.onPage p ∈ first.map Prod.fst := by
      rw [hfirst]
      simp
    obtain ⟨pr, hpr, he⟩ := List.mem_map.mp hmem
    have hle := hstop pr hpr
    rw [he] at hle
    exact hle
  have hlt : span.start < span.stop := hf.nonempty span (by simp)
  have hstart : pair.1.start = span.start := by rw [hpair]; rfl
  have hpanic : rewriteSpan data acc pair = .error .panic := rewriteSpan_back (by omega)
  unfold rewriteStream
  rw [List.foldlM_append, hacc]
  simp only [Except.ok_bind, List.foldlM_cons, hpanic]
  rfl

end Streams

/-! ## Objects -/

theorem post_setLength (dictionary : Bytes) (length : Nat) :
    Post (setLength dictionary length) fun _ => True := by
  unfold setLength
  refine (post_ofOption fun _ h => h).bind fun lengthStart hl => ?_
  have h1 : lengthStart + 7 ≤ dictionary.length := position_le hl
  have h2 : lengthStart + 7 ≤ skip isSpace dictionary (lengthStart + 7) := le_skip
  have h3 : skip isSpace dictionary (lengthStart + 7) ≤ dictionary.length := skip_le h1
  rw [splice_ok (le_trans h2 le_skip) (skip_le h3)]
  trivial

theorem post_dropFilter (dictionary : Bytes) (compressed : Bool) :
    Post (dropFilter dictionary compressed) fun _ => True := by
  unfold dropFilter
  split
  · trivial
  · cases hp : position dictionary "/Filter" with
    | none => trivial
    | some filterStart =>
      have h1 : filterStart + 7 ≤ dictionary.length := position_le hp
      simp only
      rw [splice_ok (le_trans (Nat.le_add_right _ 7) le_skip) (skip_le h1)]
      trivial

variable {pdf : Bytes} {objects : List PdfObject}

section Zlib

variable [Zlib]

/-- What the reader of a stream has found: its object, and the keyword in its body. -/
theorem streamBytes_ok {id : Nat} {data : Bytes} (h : streamBytes pdf objects id = .ok data) :
    ∃ object body relativeStream stream compressed, objectById objects id = .ok object ∧
      objectBody pdf object = .ok body ∧ position body "stream" = some relativeStream ∧
      streamData pdf object = .ok (stream, compressed) ∧
      decodeStream stream compressed = .ok data := by
  unfold streamBytes at h
  rw [Except.bind_ok] at h
  obtain ⟨object, hobject, h⟩ := h
  rw [Except.bind_ok] at h
  obtain ⟨⟨stream, compressed⟩, hstream, h⟩ := h
  have hstream' := hstream
  unfold streamData at hstream'
  rw [Except.bind_ok] at hstream'
  obtain ⟨body, hbody, hstream'⟩ := hstream'
  rw [Except.bind_ok] at hstream'
  obtain ⟨relativeStream, hrel, -⟩ := hstream'
  exact ⟨object, body, relativeStream, stream, compressed, hobject, hbody, ofOption_eq_ok.mp hrel,
    hstream, h⟩

theorem post_encodeStream (rewritten : Bytes) (compressed : Bool) :
    Post (encodeStream rewritten compressed) fun _ => True := by
  unfold encodeStream
  split
  · exact post_ofOption fun _ _ => trivial
  · trivial

theorem post_rewriteObject {object : PdfObject} {pairs : List (PdfTextSpan F × DocumentSegment)}
    (hl : Laid pdf.length objects) (ho : object ∈ objects)
    (h : ∀ stream compressed data, streamData pdf object = .ok (stream, compressed) →
      decodeStream stream compressed = .ok data →
      Ordered PdfTextSpan.start PdfTextSpan.stop data.length (pairs.map Prod.fst)) :
    Post (rewriteObject pdf object pairs) fun _ => True := by
  unfold rewriteObject
  refine (post_objectBody hl ho).bind fun body _ => ?_
  refine (post_ofOption fun _ h => h).bind fun relativeStream hrel => ?_
  have h1 : relativeStream + 6 ≤ body.length := position_le hrel
  refine (post_streamData hl ho).self.bind fun r hr => ?_
  obtain ⟨stream, compressed⟩ := r
  refine (post_decodeStream stream compressed).self.bind fun decoded hd => ?_
  refine (post_rewriteStream (h stream compressed decoded hr.1 hd.1)).bind fun rewritten _ => ?_
  refine (post_encodeStream rewritten compressed).bind fun encoded _ => ?_
  refine (post_sliceOf (Nat.zero_le _) (by omega)).bind fun dictionary _ => ?_
  refine (post_setLength dictionary encoded.length).bind fun dictionary _ => ?_
  refine (post_dropFilter dictionary compressed).bind fun dictionary _ => ?_
  have hw := hl.wellFormed object ho
  exact (post_sliceOf hw.1.le (le_trans hw.2.1 (hl.bodyEnd_le ho))).bind fun _ _ => trivial

theorem rewriteObject_panic {id : Nat} {data : Bytes} {object : PdfObject}
    {pairs : List (PdfTextSpan F × DocumentSegment)}
    (hd : streamBytes pdf objects id = .ok data) (ho : objectById objects id = .ok object)
    (h : rewriteStream data pairs = .error .panic) :
    rewriteObject pdf object pairs = .error .panic := by
  obtain ⟨object', body, relativeStream, stream, compressed, h1, h2, h3, h4, h5⟩ := streamBytes_ok hd
  rw [ho] at h1
  cases h1
  unfold rewriteObject
  simp only [h2, h3, h4, h5, h, ofOption, Except.ok_bind]
  rfl

end Zlib

/-! ## Documents -/

/-- The translations of an import, set on its prose segments. -/
def setTranslations (translations : Nat → Option Str) (job : DocumentJob) : DocumentJob :=
  { job with
    segments := job.segments.map fun segment =>
      if segment.kind = .prose then { segment with translatedText := translations segment.index }
      else segment }

/-- A replacement of the object `id`. -/
def Replaces (objects : List PdfObject) (id : Nat) (r : Replacement) : Prop :=
  ∃ object ∈ objects, object.id = id ∧ r.start = object.start ∧ r.stop = object.stop

theorem Replaces.bounds {size id : Nat} {r : Replacement} (h : Replaces objects id r)
    (hl : Laid size objects) : r.start < r.stop ∧ r.stop ≤ size := by
  obtain ⟨object, ho, -, h1, h2⟩ := h
  have hw := hl.wellFormed object ho
  have hb := (hl.ordered.bounds object ho).2
  unfold PdfObject.WellFormed at hw
  omega

/-- Replacements of two objects do not overlap. -/
theorem Replaces.disjoint {size id id' : Nat} {r r' : Replacement} (h : Replaces objects id r)
    (h' : Replaces objects id' r') (hl : Laid size objects) (hne : id ≠ id') :
    r.stop ≤ r'.start ∨ r'.stop ≤ r.start := by
  obtain ⟨object, ho, hid, h1, h2⟩ := h
  obtain ⟨object', ho', hid', h1', h2'⟩ := h'
  rw [h1, h2, h1', h2']
  rcases hl.ordered.disjoint ho ho' with he | hd
  · exact absurd (by rw [← hid, he, hid']) hne
  · exact hd

theorem disjoint_replacements {size : Nat} {keys : List Nat} {replacements : List Replacement}
    (hl : Laid size objects) (hk : keys.Nodup)
    (h : List.Forall₂ (Replaces objects) keys replacements) :
    replacements.Pairwise fun r r' => r.stop ≤ r'.start ∨ r'.stop ≤ r.start := by
  induction h with
  | nil => exact .nil
  | @cons id r keys replacements h0 hrest ih =>
    have hk' := List.nodup_cons.mp hk
    refine List.pairwise_cons.mpr ⟨fun r' hr' => ?_, ih hk'.2⟩
    obtain ⟨id', hid', h'⟩ := exists_of_mem_results hrest hr'
    exact h0.disjoint h' hl fun he => hk'.1 (he ▸ hid')

/-- Sorted by their starts, the largest first, replacements fall. -/
theorem falling_sorted {size : Nat} {keys : List Nat} {replacements : List Replacement}
    (hl : Laid size objects) (hk : keys.Nodup)
    (h : List.Forall₂ (Replaces objects) keys replacements) :
    Falling Replacement.start Replacement.stop
      (replacements.mergeSort fun left right => right.start ≤ left.start) := by
  have hperm := List.mergeSort_perm replacements fun left right => right.start ≤ left.start
  have hsorted : (replacements.mergeSort fun left right => right.start ≤ left.start).Pairwise
      fun left right => decide (right.start ≤ left.start) := by
    apply List.pairwise_mergeSort
    · simp only [decide_eq_true_eq]
      omega
    · simp only [Bool.or_eq_true, decide_eq_true_eq]
      omega
  have hdisjoint := (hperm.pairwise_iff fun h => Or.symm h).mpr (disjoint_replacements hl hk h)
  refine (hsorted.and hdisjoint).imp_of_mem fun {r r'} hr hr' hrr => ?_
  obtain ⟨id, -, hid⟩ := exists_of_mem_results h (hperm.mem_iff.mp hr)
  have hb := hid.bounds hl
  have hle : r'.start ≤ r.start := by simpa using hrr.1
  rcases hrr.2 with hlt | hlt
  · omega
  · exact hlt

theorem map_fst_byObject {spans : List (PdfTextSpan F)} {segments : List DocumentSegment}
    (hlen : spans.length = segments.length) (id : Nat) :
    (byObject (spans.zip segments) id).map Prod.fst = spansOf id spans := by
  have h : (spans.zip segments).map Prod.fst = spans := List.map_fst_zip (le_of_eq hlen)
  conv_rhs => rw [← h]
  rw [spansOf, List.filter_map]
  rfl

section Documents

variable [F32 F] [Zlib]

theorem post_reconstruct (hash : HashOrder) (job : DocumentJob) {package : Bytes}
    (h : ∀ document : PdfDocument F, parsePdf package = .ok document →
      ∀ id data, streamBytes package document.objects id = .ok data →
      Ordered PdfTextSpan.start PdfTextSpan.stop data.length (spansOf id document.spans)) :
    Returns (reconstruct F hash job package) := by
  unfold reconstruct
  refine (post_parsePdf package).self.bind fun document hdocument => ?_
  obtain ⟨hparse, hl⟩ := hdocument
  split
  · trivial
  · rename_i hlen
    split
    · trivial
    · simp only
      have hkeys : (hash.order ((document.spans.zip job.segments).map (·.1.objectId)).dedup).Nodup :=
        (hash.perm _).nodup_iff.mpr (List.nodup_dedup _)
      refine (Post.mapM (R := Replaces document.objects) fun id _ => ?_).bind
        fun replacements hreps => ?_
      · unfold replacement
        refine (post_ofOption fun _ h => h).bind fun object hobject => ?_
        have hmem := List.mem_of_find?_eq_some hobject
        refine (post_rewriteObject hl hmem fun stream compressed data hs hd => ?_).bind
          fun bytes _ => ?_
        · rw [map_fst_byObject (not_not.mp hlen)]
          refine h document hparse id data ?_
          unfold streamBytes objectById
          rw [hobject]
          simp only [ofOption, Except.ok_bind, hs]
          exact hd
        · exact ⟨object, hmem, by simpa using List.find?_some hobject, rfl, rfl⟩
      · refine (post_splices (falling_sorted hl hkeys hreps) fun r hr => ?_).bind fun output _ => ?_
        · obtain ⟨id, -, hid⟩ := exists_of_mem_results hreps ((List.mergeSort_perm _ _).mem_iff.mp hr)
          exact ⟨(hid.bounds hl).1.le, (hid.bounds hl).2⟩
        · split
          · trivial
          · exact (post_parsePdf output).bind fun _ _ => trivial

omit [F32 F] [Zlib] in
theorem key_mem {pairs : List (PdfTextSpan F × DocumentSegment)} {id : Nat}
    (h : byObject pairs id ≠ []) : id ∈ (pairs.map (·.1.objectId)).dedup := by
  obtain ⟨pair, hpair⟩ := List.exists_mem_of_ne_nil _ h
  obtain ⟨hmem, hid⟩ := List.mem_filter.mp hpair
  exact List.mem_dedup.mpr (List.mem_map.mpr ⟨pair, hmem, by simpa using hid⟩)

/-- The order that gives `id` first. -/
def HashOrder.first (id : Nat) : HashOrder where
  order keys := if id ∈ keys then id :: keys.erase id else keys
  perm keys := by
    split
    · exact (List.perm_cons_erase ‹_›).symm
    · exact .refl keys

omit [Zlib] in
theorem ready_segments {spans : List (PdfTextSpan F)} {format : DocumentFormat}
    {name : Str} {package : Option Bytes} :
    ∀ pair ∈ spans.zip (setTranslations (fun _ => some [])
      ⟨format, name, spans.mapIdx (segmentOf spans), package⟩).segments, Ready pair := by
  intro pair hpair
  obtain ⟨i, hi, rfl⟩ := List.mem_iff_getElem.mp hpair
  simp only [setTranslations, List.getElem_zip, List.getElem_map, List.getElem_mapIdx]
  unfold Ready
  simp only
  split
  · exact ⟨rfl, fun _ => rfl⟩
  · rename_i hk
    exact ⟨rfl, fun h => absurd h hk⟩

theorem reconstruct_panics {document : PdfDocument F} {package : Bytes} (job : DocumentJob)
    (hparse : parsePdf package = .ok document) (hs : SharedText F package)
    (hlen : document.spans.length = job.segments.length)
    (hready : ∀ pair ∈ document.spans.zip job.segments, Ready pair) :
    ∃ hash, reconstruct F hash job package = .error .panic := by
  obtain ⟨objects, ids, id, base, hobjects, hids, hcount, hbase, hne⟩ := hs
  obtain ⟨hobjects', ids', hids', hcollected⟩ := parsePdf_ok hparse
  rw [hobjects] at hobjects'
  cases hobjects'
  rw [hids] at hids'
  cases hids'
  obtain ⟨pages, hpages, hspans⟩ := spansOf_collected hcollected hbase
  obtain ⟨data, hdata, hfound⟩ := streamSpans_found hbase
  obtain ⟨p, q, pages, rfl⟩ : ∃ p q rest, pages = p :: q :: rest := by
    match pages, hpages with
    | p :: q :: rest, _ => exact ⟨p, q, rest, rfl⟩
    | [_], hp => simp only [List.length_singleton] at hp; omega
    | [], hp => simp only [List.length_nil] at hp; omega
  have hfst := map_fst_byObject hlen id
  rw [hspans, List.flatMap_cons, List.flatMap_cons] at hfst
  have htwice : rewriteStream data (byObject (document.spans.zip job.segments) id) =
      .error .panic :=
    rewriteStream_twice (fun pair hp => hready pair (List.mem_of_mem_filter hp)) hfound hne hfst
  obtain ⟨object, -, -, -, -, hobject, -⟩ := streamBytes_ok hdata
  have hpanic : replacement package document.objects (document.spans.zip job.segments) id =
      .error .panic := by
    unfold replacement
    rw [hobject]
    simp only [Except.ok_bind, rewriteObject_panic hdata hobject htwice]
    rfl
  have hbyObject : byObject (document.spans.zip job.segments) id ≠ [] := by
    intro he
    rw [he] at hfst
    obtain ⟨span, base, rfl⟩ := List.exists_cons_of_ne_nil hne
    cases hfst
  have hsegments : job.segments ≠ [] := by
    intro he
    rw [he, List.zip_nil_right] at hbyObject
    exact hbyObject rfl
  refine ⟨HashOrder.first id, ?_⟩
  unfold reconstruct
  rw [hparse]
  simp only [Except.ok_bind, hlen, ne_eq, not_true_eq_false, if_false, List.isEmpty_iff, hsegments,
    HashOrder.first, if_pos (key_mem hbyObject), mapM_panic hpanic]
  rfl

/-! ## Imported documents -/

theorem fromPdfBytes_ok {name : Str} {contents : Bytes} {job : DocumentJob}
    (h : fromPdfBytes F name contents = .ok job) : ∃ document : PdfDocument F,
      parsePdf contents = .ok document ∧
        job = ⟨.pdf, name, document.spans.mapIdx (segmentOf document.spans), some contents⟩ := by
  unfold fromPdfBytes at h
  cases hf : DocumentFormat.fromName name with
  | error e => simp [hf, fail] at h
  | ok format =>
    simp only [hf] at h
    split at h
    · cases h
    · split at h
      · cases h
      · rw [Except.bind_ok] at h
        obtain ⟨segments, hsegments, h⟩ := h
        cases h
        unfold inspect at hsegments
        rw [Except.bind_ok] at hsegments
        obtain ⟨document, hdocument, hsegments⟩ := hsegments
        cases hsegments
        exact ⟨document, hdocument, rfl⟩

variable (F) in
/-- The spans of each stream are a left-to-right walk of its data: each range lies inside the
data, and starts where the one before it ends or later. -/
def SpansInOrder (package : Bytes) (job : DocumentJob) : Prop :=
  ∀ document : PdfDocument F, parsePdf package = .ok document → ∀ id data,
    streamBytes package document.objects id = .ok data →
      Ordered PdfTextSpan.start PdfTextSpan.stop data.length
        ((byObject (document.spans.zip job.segments) id).map Prod.fst)

/-- The reconstruction of an imported PDF returns for all translations, with every span in
order, exactly when no stream object that shows text is listed twice by its pages. -/
theorem reconstruct_returns_iff {name : Str} {contents : Bytes} {job : DocumentJob}
    (h : fromPdfBytes F name contents = .ok job) :
    (∀ hash translations,
        Returns (reconstruct F hash (setTranslations translations job) contents) ∧
        SpansInOrder F contents (setTranslations translations job)) ↔
      ¬ SharedText F contents := by
  obtain ⟨document, hparse, rfl⟩ := fromPdfBytes_ok h
  constructor
  · intro hreturns hs
    obtain ⟨hash, hpanic⟩ := reconstruct_panics (setTranslations (fun _ => some [])
      ⟨.pdf, name, document.spans.mapIdx (segmentOf document.spans), some contents⟩) hparse hs
      (by simp [setTranslations]) ready_segments
    have hr := (hreturns hash fun _ => some []).1
    rw [hpanic] at hr
    exact hr
  · intro hs hash translations
    refine ⟨post_reconstruct hash _ fun document hd id data hdata =>
      ordered_of_unshared hd hs hdata, fun document' hd id data hdata => ?_⟩
    rw [hparse] at hd
    cases hd
    rw [map_fst_byObject (by simp [setTranslations])]
    exact ordered_of_unshared hparse hs hdata

end Documents

/-! ## Two files -/

/-- `f32` on the integers it holds exactly. -/
@[reducible] def integerF32 : F32 Int where
  ofNat n := n
  abs n := n.natAbs
  eq a b := a == b
  lt a b := decide (a < b)
  le a b := decide (a ≤ b)
  isIntegral _ := true
  toU32 n := n.toNat
  parse digits :=
    if digits ≠ [] ∧ digits.all isDigit then
      some (digits.foldl (fun n b => n * 10 + ((b.toNat - 0x30 : Nat) : Int)) 0)
    else none

/-- A codec no uncompressed stream asks. -/
@[reducible] def noZlib : Zlib := ⟨fun _ _ => none, fun _ => none⟩

/-- A file of one page, or of two pages that show the same stream. -/
def pageFile (pages : String) : Bytes :=
  asciiBytes "%PDF-1.4\n1 0 obj\n<</Type/Catalog/Pages 2 0 R>>\nendobj\n" ++ asciiBytes pages ++
    asciiBytes "5 0 obj\n<</Length 13>>\nstream\nBT (A) Tj ET\n\nendstream\nendobj\n%%EOF\n"

def onePage : Bytes := pageFile "3 0 obj\n<</Type/Page/Parent 2 0 R/Contents 5 0 R>>\nendobj\n"

def twoPages : Bytes := pageFile
  "3 0 obj\n<</Type/Page/Parent 2 0 R/Contents 5 0 R>>\nendobj\n4 0 obj\n<</Type/Page/Parent 2 0 R/Contents 5 0 R>>\nendobj\n"

def pdfName : Str := "a.pdf".toList

/-- The job of a file whose spans are all `A`. -/
def lettersJob (lineEndings : List Str) (contents : Bytes) : DocumentJob :=
  ⟨.pdf, pdfName, lineEndings.mapIdx fun index lineEnding =>
    ⟨index, .prose, ['A'], none, lineEnding⟩, some contents⟩

/-- That job with every segment translated as `B`. -/
def translated (lineEndings : List Str) (contents : Bytes) : DocumentJob :=
  setTranslations (fun _ => some ['B']) (lettersJob lineEndings contents)

def keyOrder : HashOrder := ⟨fun keys => keys, fun keys => .refl keys⟩

section Files

local instance : F32 Int := integerF32
local instance : Zlib := noZlib

set_option maxRecDepth 4000

theorem onePage_listed : (parseObjects onePage >>= listedIds Int onePage) = .ok [5] := by
  rw [onePage, pageFile, asciiBytes_ofList, asciiBytes_ofList, asciiBytes_ofList]
  decide +kernel

theorem onePage_unshared : ¬ SharedText Int onePage := by
  rintro ⟨objects, ids, id, base, hobjects, hids, hcount, -, -⟩
  have h := onePage_listed
  rw [hobjects, Except.ok_bind, hids] at h
  cases h
  have := List.count_le_length (a := id) (l := [5])
  simp only [List.length_singleton] at this
  omega

theorem reconstruct_returns_onePage :
    Returns (reconstruct Int keyOrder (translated [[]] onePage) onePage) ∧
      SpansInOrder Int onePage (translated [[]] onePage) :=
  have himport : fromPdfBytes Int pdfName onePage = .ok (lettersJob [[]] onePage) := by
    rw [onePage, pageFile, asciiBytes_ofList, asciiBytes_ofList, asciiBytes_ofList]
    decide +kernel
  (reconstruct_returns_iff himport).mpr onePage_unshared keyOrder fun _ => some ['B']

/-- Two pages of one text: the importer accepts the file, the reconstruction panics. -/
theorem reconstruct_panics_twoPages :
    fromPdfBytes Int pdfName twoPages = .ok (lettersJob [['\n'], []] twoPages) ∧
      reconstruct Int keyOrder (translated [['\n'], []] twoPages) twoPages = .error .panic := by
  rw [twoPages, pageFile, asciiBytes_ofList, asciiBytes_ofList, asciiBytes_ofList]
  exact ⟨by decide +kernel, by decide +kernel⟩

end Files

end LinguaMesh.Pdf
