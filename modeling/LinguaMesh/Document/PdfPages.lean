import LinguaMesh.Document.PdfScan

/-!
# What the pages of a PDF list

`parsePdf` returns on every input (`post_parsePdf`). The spans of a document are
those of the streams its pages list under `/Contents`, one after the other
(`parsePdf_ok`), so the spans of one stream object are collected once for each
reference to it (`spansOf_collected`): in order when there is one reference, and
over again when the object is shared.
-/

namespace LinguaMesh.Pdf

open Search Run

variable {F : Type} [F32 F] [Zlib]

/-! ## Parsing returns -/

theorem post_streamSpans {pdf : Bytes} {objects : List PdfObject} (h : Laid pdf.length objects)
    (page id : Nat) :
    Post (streamSpans (F := F) pdf objects page id) fun _ => True := by
  unfold streamSpans
  refine (post_ofOption fun _ h => h).bind fun object ho => ?_
  refine (post_streamData h (List.mem_of_find?_eq_some ho)).bind fun r _ => ?_
  refine (post_decodeStream r.1 r.2).bind fun decoded _ => ?_
  exact (post_extractStreamSpans decoded id page).returns

theorem post_scanObject {pdf : Bytes} {objects : List PdfObject} (h : Laid pdf.length objects)
    (acc : List (PdfPage F) × List (PdfTextSpan F)) {object : PdfObject} (ho : object ∈ objects) :
    Post (scanObject pdf objects acc object) fun _ => True := by
  unfold scanObject
  refine (post_objectBody h ho).bind fun body _ => ?_
  split
  · trivial
  · split
    · trivial
    · refine (post_referencedObjects body "/Contents").bind fun ids _ => ?_
      refine (Post.foldlM (fun _ => True) trivial fun spans id _ _ => ?_).bind fun _ _ => trivial
      exact (post_streamSpans h acc.1.length id).bind fun _ _ => trivial

theorem post_parsePdf (pdf : Bytes) :
    Post (parsePdf (F := F) pdf) fun document => Laid pdf.length document.objects := by
  unfold parsePdf
  split
  · trivial
  · split
    · trivial
    · refine (post_parseObjects pdf).bind fun objects hobjects => ?_
      refine (Post.foldlM (fun _ => True) trivial fun acc object ho _ =>
        post_scanObject hobjects acc ho).bind fun r _ => ?_
      simp only
      split
      · trivial
      · exact hobjects

/-! ## References -/

variable (F) in
/-- The stream objects that the pages list under `/Contents`, in order. -/
def listedIds (pdf : Bytes) (objects : List PdfObject) : Run DocumentError (List Nat) := do
  let ids ← objects.mapM fun object => do
    let body ← objectBody pdf object
    if isPage body then referencedObjects F body "/Contents" else .ok []
  .ok ids.flatten

/-- The spans of the listed streams, one after the other. -/
def Collected (pdf : Bytes) (objects : List PdfObject) (ids : List Nat)
    (spans : List (PdfTextSpan F)) : Prop :=
  ∃ parts, List.Forall₂ (fun id part => ∃ page, streamSpans pdf objects page id = .ok part) ids parts ∧
    spans = parts.flatten

variable {pdf : Bytes} {objects : List PdfObject}

theorem Collected.append {ids ids' : List Nat} {spans spans' : List (PdfTextSpan F)}
    (h : Collected pdf objects ids spans) (h' : Collected pdf objects ids' spans') :
    Collected pdf objects (ids ++ ids') (spans ++ spans') := by
  obtain ⟨parts, hp, rfl⟩ := h
  obtain ⟨parts', hp', rfl⟩ := h'
  exact ⟨parts ++ parts', List.rel_append hp hp', by simp⟩

theorem collected_page {page : Nat} {ids : List Nat} {before after : List (PdfTextSpan F)}
    (h : ids.foldlM (fun spans id => do
      let found ← streamSpans pdf objects page id
      .ok (spans ++ found)) before = .ok after) :
    ∃ spans, after = before ++ spans ∧ Collected pdf objects ids spans := by
  induction ids generalizing before with
  | nil =>
    cases h
    exact ⟨[], by simp, [], .nil, rfl⟩
  | cons id ids ih =>
    rw [List.foldlM_cons, Except.bind_ok] at h
    obtain ⟨next, h1, h2⟩ := h
    rw [Except.bind_ok] at h1
    obtain ⟨found, h3, h4⟩ := h1
    cases h4
    obtain ⟨spans, rfl, hspans⟩ := ih h2
    refine ⟨found ++ spans, by simp, ?_⟩
    have : Collected pdf objects [id] found := ⟨[found], .cons ⟨page, h3⟩ .nil, by simp⟩
    exact this.append hspans

theorem collected_objects {rest : List PdfObject}
    {before after : List (PdfPage F) × List (PdfTextSpan F)}
    (h : rest.foldlM (scanObject pdf objects) before = .ok after) :
    ∃ ids spans, listedIds F pdf rest = .ok ids ∧ after.2 = before.2 ++ spans ∧
      Collected pdf objects ids spans := by
  induction rest generalizing before with
  | nil =>
    cases h
    exact ⟨[], [], rfl, by simp, [], .nil, rfl⟩
  | cons object rest ih =>
    rw [List.foldlM_cons, Except.bind_ok] at h
    obtain ⟨next, h1, h2⟩ := h
    obtain ⟨ids, spans, h3, h4, h5⟩ := ih h2
    unfold scanObject at h1
    rw [Except.bind_ok] at h1
    obtain ⟨body, hbody, h1⟩ := h1
    have hids : ∀ own, (if isPage body then referencedObjects F body "/Contents" else .ok []) = .ok own →
        listedIds F pdf (object :: rest) = .ok (own ++ ids) := by
      intro own hown
      unfold listedIds at h3 ⊢
      rw [Except.bind_ok] at h3
      obtain ⟨lists, hl, hids⟩ := h3
      cases hids
      rw [List.mapM_cons, hbody]
      simp only [Except.ok_bind, hown, hl]
      rfl
    split at h1
    · rename_i hp
      cases h1
      simp only [Bool.not_eq_true', ← Bool.not_eq_true] at hp
      exact ⟨[] ++ ids, spans, hids [] (by rw [if_neg hp]), h4, h5⟩
    · rename_i hp
      simp only [Bool.not_eq_true', Bool.not_eq_false] at hp
      split at h1
      · cases h1
      · rw [Except.bind_ok] at h1
        obtain ⟨own, hown, h1⟩ := h1
        rw [Except.bind_ok] at h1
        obtain ⟨found, hfound, h1⟩ := h1
        cases h1
        obtain ⟨mine, rfl, hmine⟩ := collected_page hfound
        exact ⟨own ++ ids, mine ++ spans, hids own (by rw [if_pos hp, hown]), by simp [h4],
          hmine.append h5⟩

/-- A document's spans are those of the streams its pages list. -/
theorem parsePdf_ok {document : PdfDocument F} (h : parsePdf pdf = .ok document) :
    parseObjects pdf = .ok document.objects ∧ ∃ ids, listedIds F pdf document.objects = .ok ids ∧
      Collected pdf document.objects ids document.spans := by
  unfold parsePdf at h
  split at h
  · cases h
  · split at h
    · cases h
    · rw [Except.bind_ok] at h
      obtain ⟨objects, hobjects, h⟩ := h
      rw [Except.bind_ok] at h
      obtain ⟨r, hr, h⟩ := h
      simp only at h
      split at h
      · cases h
      · cases h
        obtain ⟨ids, spans, h1, h2, h3⟩ := collected_objects hr
        simp only [List.nil_append] at h2
        exact ⟨hobjects, ids, h1, h2 ▸ h3⟩

/-! ## The spans of one stream -/

/-- The decoded data of the stream object `id`. -/
def streamBytes (pdf : Bytes) (objects : List PdfObject) (id : Nat) : Run DocumentError Bytes := do
  let object ← objectById objects id
  let (stream, compressed) ← streamData pdf object
  decodeStream stream compressed

theorem streamSpans_eq (page id : Nat) : streamSpans (F := F) pdf objects page id =
    streamBytes pdf objects id >>= fun data => extractStreamSpans data id page := by
  unfold streamSpans streamBytes
  simp only [bind_assoc]

theorem streamSpans_onPage (p q id : Nat) : streamSpans (F := F) pdf objects q id =
    (streamSpans pdf objects p id).map (List.map (PdfTextSpan.onPage q)) := by
  rw [streamSpans_eq q, streamSpans_eq p, Except.map_bind]
  exact Except.bind_congr_right fun data => extract_onPage data id p q

/-- Spans read for the stream object `id` are of it, and in order. -/
theorem streamSpans_found {page id : Nat} {spans : List (PdfTextSpan F)}
    (h : streamSpans pdf objects page id = .ok spans) :
    ∃ data, streamBytes pdf objects id = .ok data ∧ Found data.length id spans := by
  rw [streamSpans_eq, Except.bind_ok] at h
  obtain ⟨data, hdata, h⟩ := h
  exact ⟨data, hdata, (post_extractStreamSpans data id page).ok h⟩

/-- The spans of `id` among `spans`. -/
def spansOf (id : Nat) (spans : List (PdfTextSpan F)) : List (PdfTextSpan F) :=
  spans.filter (·.objectId == id)

theorem spansOf_part {page id : Nat} {part : List (PdfTextSpan F)}
    (h : streamSpans pdf objects page id = .ok part) : spansOf id part = part := by
  obtain ⟨data, -, hfound⟩ := streamSpans_found h
  exact List.filter_eq_self.mpr fun span hspan => by simp [hfound.objectId span hspan]

theorem spansOf_other {page id id' : Nat} {part : List (PdfTextSpan F)}
    (h : streamSpans pdf objects page id' = .ok part) (hne : id' ≠ id) : spansOf id part = [] := by
  obtain ⟨data, -, hfound⟩ := streamSpans_found h
  refine List.filter_eq_nil_iff.mpr fun span hspan => ?_
  rw [hfound.objectId span hspan]
  simpa using hne

theorem listed_ok {ids : List Nat} {spans : List (PdfTextSpan F)} {id : Nat}
    (h : Collected pdf objects ids spans) (hid : id ∈ ids) :
    ∃ base : List (PdfTextSpan F), streamSpans pdf objects 0 id = .ok base := by
  obtain ⟨parts, hp, -⟩ := h
  induction hp with
  | nil => exact absurd hid List.not_mem_nil
  | @cons id' part ids parts h0 _ ih =>
    rcases List.mem_cons.mp hid with rfl | hid
    · obtain ⟨page, hpage⟩ := h0
      exact ⟨_, by rw [streamSpans_onPage page, hpage]; rfl⟩
    · exact ih hid

/-- A stream's spans are collected once for each reference to it. -/
theorem spansOf_collected {ids : List Nat} {spans base : List (PdfTextSpan F)} {id : Nat}
    (h : Collected pdf objects ids spans) (hbase : streamSpans pdf objects 0 id = .ok base) :
    ∃ pages : List Nat, pages.length = ids.count id ∧
      spansOf id spans = pages.flatMap fun page => base.map (PdfTextSpan.onPage page) := by
  obtain ⟨parts, hp, rfl⟩ := h
  induction hp with
  | nil => exact ⟨[], rfl, rfl⟩
  | @cons id' part ids parts h0 _ ih =>
    obtain ⟨pages, hlen, hspans⟩ := ih
    obtain ⟨page, hpage⟩ := h0
    have hcons : spansOf id (part :: parts).flatten = spansOf id part ++ spansOf id parts.flatten := by
      simp [spansOf]
    by_cases hid : id' = id
    · subst hid
      refine ⟨page :: pages, by simp [hlen], ?_⟩
      have hpart : part = base.map (PdfTextSpan.onPage page) := by
        rw [streamSpans_onPage 0, hbase] at hpage
        exact (Except.ok.inj hpage).symm
      rw [hcons, spansOf_part hpage, hspans, List.flatMap_cons, hpart]
    · refine ⟨pages, by simp [hlen, hid], ?_⟩
      rw [hcons, spansOf_other hpage hid, hspans, List.nil_append]

theorem listed_of_spansOf {ids : List Nat} {spans : List (PdfTextSpan F)} {id : Nat}
    (h : Collected pdf objects ids spans) (hne : spansOf id spans ≠ []) : id ∈ ids := by
  obtain ⟨parts, hp, rfl⟩ := h
  induction hp with
  | nil => exact absurd rfl hne
  | @cons id' part ids parts h0 _ ih =>
    obtain ⟨page, hpage⟩ := h0
    by_cases hid : id' = id
    · simp [hid]
    · have hcons : spansOf id (part :: parts).flatten = spansOf id parts.flatten := by
        rw [List.flatten_cons, spansOf, List.filter_append]
        exact congrArg (· ++ _) (spansOf_other hpage hid)
      rw [hcons] at hne
      exact List.mem_cons_of_mem _ (ih hne)

variable (F) in
/-- Some stream object that shows text is listed twice. -/
def SharedText (pdf : Bytes) : Prop :=
  ∃ objects ids id base, parseObjects pdf = .ok objects ∧ listedIds F pdf objects = .ok ids ∧
    2 ≤ ids.count id ∧ streamSpans (F := F) pdf objects 0 id = .ok base ∧ base ≠ []

omit [F32 F] [Zlib] in
theorem ordered_onPage {size : Nat} {base : List (PdfTextSpan F)} (page : Nat)
    (h : Ordered PdfTextSpan.start PdfTextSpan.stop size base) :
    Ordered PdfTextSpan.start PdfTextSpan.stop size (base.map (PdfTextSpan.onPage page)) := by
  refine ⟨List.pairwise_map.mpr h.apart, fun span hspan => ?_⟩
  obtain ⟨span', hspan', rfl⟩ := List.mem_map.mp hspan
  exact h.bounds span' hspan'

/-- Without a shared stream, the spans of each stream are in order. -/
theorem ordered_of_unshared {document : PdfDocument F} (h : parsePdf pdf = .ok document)
    (hs : ¬ SharedText F pdf) {id : Nat} {data : Bytes}
    (hd : streamBytes pdf document.objects id = .ok data) :
    Ordered PdfTextSpan.start PdfTextSpan.stop data.length (spansOf id document.spans) := by
  obtain ⟨hobjects, ids, hids, hcollected⟩ := parsePdf_ok h
  by_cases hne : spansOf id document.spans = []
  · rw [hne]
    exact .nil
  · obtain ⟨base, hbase⟩ := listed_ok hcollected (listed_of_spansOf hcollected hne)
    obtain ⟨pages, hlen, hspans⟩ := spansOf_collected hcollected hbase
    obtain ⟨data', hdata', hfound⟩ := streamSpans_found hbase
    rw [hd] at hdata'
    cases hdata'
    have hb : base ≠ [] := by
      rintro rfl
      exact hne (by rw [hspans]; simp)
    have hcount : ids.count id < 2 := by
      by_contra hge
      exact hs ⟨_, ids, id, base, hobjects, hids, by omega, hbase, hb⟩
    rw [hspans]
    match pages, hlen with
    | [], _ => exact .nil
    | [page], _ => simpa using ordered_onPage page hfound.ordered
    | _ :: _ :: _, hlen =>
      simp only [List.length_cons] at hlen
      omega

end LinguaMesh.Pdf
