import LinguaMesh.Document.PlainArchive
import LinguaMesh.Lib.Itemwise

/-!
# Books that are written and read again

File by file, a book is what its chapters read as (`FileTexts`, `inspect_book_iff`). The loop of
`reconstruct` takes the segments of each chapter for it and leaves the other files alone but for the
package documents (`Redone`). So the book that was written is a book whose segments are the
translations (`inspect_reconstruct`).
-/

namespace LinguaMesh.Epub

open Search Run Holes Except
open Ooxml (ArchiveFile ArchiveEntry Zip archive readFile partText toUtf8 pathExtension)

section Texts

variable [QuickXml] [Zip] {package : Bytes} {segments : List DocumentSegment}

/-- The texts that are read from a file. -/
def FileTexts (file : Zip.File) (texts : List Str) : Prop :=
  if translatablePart file.name then
    ∃ xml, file.data.bind fromUtf8 = some xml ∧ ChapterTexts xml texts
  else texts = []

theorem fileTexts_of_parts {all files : List Zip.File} (hnodup : (all.map (·.name)).Nodup)
    (hsub : ∀ f ∈ files, f ∈ all) {xmls : List Str} {textss : List (List Str)}
    (hxmls : ((files.map (·.name)).filter translatablePart).mapM (partText all) = .ok xmls)
    (htexts : List.Forall₂ ChapterTexts xmls textss) :
    ∃ textss', List.Forall₂ FileTexts files textss' ∧ textss'.flatten = textss.flatten := by
  induction files generalizing xmls textss with
  | nil =>
    cases hxmls
    cases htexts
    exact ⟨[], .nil, rfl⟩
  | cons f files ih =>
    obtain ⟨hf, hsub⟩ := List.forall_mem_cons.mp hsub
    rw [List.map_cons] at hxmls
    cases hpart : translatablePart f.name with
    | false =>
      rw [List.filter_cons_of_neg (by simp [hpart])] at hxmls
      obtain ⟨textss', hfiles, hflat⟩ := ih hsub hxmls htexts
      refine ⟨[] :: textss', .cons ?_ hfiles, hflat⟩
      unfold FileTexts
      rw [hpart]
      rfl
    | true =>
      rw [List.filter_cons_of_pos hpart, List.mapM_cons] at hxmls
      obtain ⟨xml, hxml, hxmls⟩ := bind_ok.mp hxmls
      obtain ⟨xmls, hrest, hxmls⟩ := bind_ok.mp hxmls
      obtain rfl := Except.ok.inj hxmls
      cases htexts with
      | cons htext htexts =>
        obtain ⟨textss', hfiles, hflat⟩ := ih hsub hrest htexts
        refine ⟨_ :: textss', .cons ?_ hfiles, by rw [List.flatten_cons, List.flatten_cons, hflat]⟩
        unfold FileTexts
        rw [if_pos hpart]
        exact ⟨xml, (partText_iff hnodup hf).mp hxml, htext⟩

theorem parts_of_fileTexts {all files : List Zip.File} (hnodup : (all.map (·.name)).Nodup)
    (hsub : ∀ f ∈ files, f ∈ all) {textss : List (List Str)} (h : List.Forall₂ FileTexts files textss) :
    ∃ xmls textss', ((files.map (·.name)).filter translatablePart).mapM (partText all) = .ok xmls ∧
      List.Forall₂ ChapterTexts xmls textss' ∧ textss'.flatten = textss.flatten := by
  induction h with
  | nil => exact ⟨[], [], rfl, .nil, rfl⟩
  | @cons f texts files textss hfile _ ih =>
    obtain ⟨hf, hsub⟩ := List.forall_mem_cons.mp hsub
    obtain ⟨xmls, textss', hxmls, htexts, hflat⟩ := ih hsub
    rw [List.map_cons]
    unfold FileTexts at hfile
    cases hpart : translatablePart f.name with
    | false =>
      rw [hpart, if_neg Bool.false_ne_true] at hfile
      rw [List.filter_cons_of_neg (by simp [hpart])]
      exact ⟨xmls, textss', hxmls, htexts, by rw [hflat, hfile]; rfl⟩
    | true =>
      rw [if_pos hpart] at hfile
      obtain ⟨xml, hxml, htext⟩ := hfile
      rw [List.filter_cons_of_pos hpart, List.mapM_cons, (partText_iff hnodup hf).mpr hxml, ok_bind, hxmls]
      exact ⟨xml :: xmls, texts :: textss', rfl, .cons htext htexts,
        by rw [List.flatten_cons, List.flatten_cons, hflat]⟩

/-- What `inspect` takes and gives, file by file. -/
theorem inspect_book_iff : inspect package = .ok segments ↔ package.length ≤ maxDocumentBytes ∧
    ∃ files textss, Zip.files package = some (files.map some) ∧ Book files ∧
      List.Forall₂ FileTexts files textss ∧ segments = segmentsFrom 0 textss.flatten ∧ segments ≠ [] := by
  rw [inspect_iff]
  constructor
  · rintro ⟨names, afiles, xmls, textss, hnames, harchive, hxmls, htexts, hsegments, hne⟩
    obtain ⟨hlen, files, hfiles, book, rfl⟩ := archiveNames_iff.mp hnames
    obtain rfl : afiles = files := Except.ok.inj (harchive.symm.trans (archive_iff hfiles))
    obtain ⟨textss', hread, hflat⟩ := fileTexts_of_parts book.nodup (fun _ => id) hxmls htexts
    exact ⟨hlen, afiles, textss', hfiles, book, hread, by rw [hflat]; exact hsegments, hne⟩
  · rintro ⟨hlen, files, textss, hfiles, book, hread, hsegments, hne⟩
    obtain ⟨xmls, textss', hxmls, htexts, hflat⟩ := parts_of_fileTexts book.nodup (fun _ => id) hread
    exact ⟨_, files, xmls, textss', archiveNames_iff.mpr ⟨hlen, files, hfiles, book, rfl⟩, archive_iff hfiles,
      hxmls, htexts, by rw [hflat]; exact hsegments, hne⟩

end Texts

/-! ## Translations of the segments -/

/-- A segment that is read where the output of a segment was written. -/
def reread (s : DocumentSegment) : DocumentSegment := { s with sourceText := s.output, translatedText := none }

theorem segmentsFrom_output {n : Nat} {texts : List Str} {segs : List DocumentSegment}
    (h : List.Forall₂ (TranslatedAs Visible) (segmentsFrom n texts) segs) :
    segmentsFrom n (segs.map (·.output)) = segs.map reread := by
  induction texts generalizing n segs with
  | nil =>
    cases h
    rfl
  | cons text texts ih =>
    rw [segmentsFrom] at h
    obtain ⟨s, segs, hs, hsegs, rfl⟩ := List.forall₂_cons_left_iff.mp h
    rw [List.map_cons, segmentsFrom, List.map_cons, ih hsegs]
    obtain ⟨index, kind, source, translated, ending⟩ := s
    have hsame := hs.same
    simp only [DocumentSegment.mk.injEq] at hsame
    obtain ⟨rfl, rfl, rfl, -, rfl⟩ := hsame
    have hkind : (if (DocumentSegment.output ⟨index, if source.any (!isWhitespace ·) then .prose else .verbatim,
        source, translated, []⟩).any (!isWhitespace ·) then DocumentSegmentKind.prose else .verbatim) =
          if source.any (!isWhitespace ·) then .prose else .verbatim := by
      cases hblank : source.any (!isWhitespace ·) with
      | false => exact if_neg (by rw [if_neg Bool.false_ne_true]; exact Bool.eq_false_iff.mp hblank)
      | true =>
        obtain ⟨t, ht, -, hvisible⟩ := hs.translated (if_pos hblank)
        dsimp only at ht
        rw [if_pos rfl, ht]
        exact if_pos hvisible
    rw [hkind]
    rfl

/-- The translations of the texts of several chapters are translations of the texts of each. -/
theorem exists_translations {n : Nat} {textss : List (List Str)} {segs : List DocumentSegment}
    (h : List.Forall₂ (TranslatedAs Visible) (segmentsFrom n textss.flatten) segs) :
    ∃ segss, segs = segss.flatten ∧
      List.Forall₂ (fun texts segs => ∃ n, List.Forall₂ (TranslatedAs Visible) (segmentsFrom n texts) segs)
        textss segss := by
  induction textss generalizing n segs with
  | nil =>
    cases h
    exact ⟨[], rfl, .nil⟩
  | cons texts textss ih =>
    rw [List.flatten_cons, segmentsFrom_append] at h
    obtain ⟨a, b, rfl, ha, hb⟩ := forall₂_append_left h
    obtain ⟨segss, rfl, hsegss⟩ := ih hb
    exact ⟨a :: segss, rfl, .cons ⟨n, ha⟩ hsegss⟩

/-! ## The files that are written -/

section Write

variable [QuickXml] [Zip] {targetLocale : Option Str}

/-- What is written for a file with the segments that are for it. -/
inductive Redone (targetLocale : Option Str) (file : Zip.File) : List DocumentSegment → Bytes → Prop where
  | chapter {xml xml' : Str} {segs : List DocumentSegment} : translatablePart file.name = true →
    Rewritten xml segs xml' → Redone targetLocale file segs (toUtf8 xml')
  | opf {xml xml' : Str} : translatablePart file.name = false → isOpf file.name = true →
    file.data.bind fromUtf8 = some xml → rewriteLanguage xml targetLocale = .ok xml' →
    Redone targetLocale file [] (toUtf8 xml')
  | other {data : Bytes} : translatablePart file.name = false → isOpf file.name = false →
    file.data = some data → Redone targetLocale file [] data

/-- The reader takes a chapter with any words for its texts. -/
def TakesFile (file : Zip.File) : Prop :=
  translatablePart file.name = true → ∀ xml spans segs, file.data.bind fromUtf8 = some xml →
    scanXhtml xml = .ok spans → ReadsAs xml spans segs → TakesWords xml spans segs

omit [Zip] in
theorem readsAs_segmentsFrom {xml : Str} {spans : List TextSpan} {texts : List Str} (n : Nat)
    (h : List.Forall₂ (fun (span : TextSpan) text => QuickXml.unescape (slice xml span.1 span.2) = some text)
      spans texts) : ReadsAs xml spans (segmentsFrom n texts) := by
  induction h generalizing n with
  | nil => exact .nil
  | cons hspan _ ih => exact .cons hspan (ih (n + 1))

/-- One file: the cursor goes over the segments that are for it. -/
theorem writeData_ok (laws : Lawful) {file : Zip.File} {texts : List Str} {segs : List DocumentSegment} {n : Nat}
    (hread : FileTexts file texts) (ht : List.Forall₂ (TranslatedAs Visible) (segmentsFrom n texts) segs)
    (htakes : TakesFile file) {data data' : Bytes} {cursor' : Nat} (hdata : file.data = some data)
    {done rest : List DocumentSegment}
    (h : writeData (done ++ segs ++ rest) targetLocale file.name data done.length = .ok (data', cursor')) :
    cursor' = (done ++ segs).length ∧ Redone targetLocale file segs data' := by
  have htext (xml : Str) (hxml : fromUtf8 data = some xml) : file.data.bind fromUtf8 = some xml := by
    rw [hdata]
    exact hxml
  unfold writeData at h
  unfold FileTexts at hread
  split at h
  · rename_i hpart
    rw [if_pos hpart] at hread
    obtain ⟨xml, hxml, spans, hspans, htexts⟩ := hread
    obtain ⟨xml0, hxml0, h⟩ := bind_ok.mp h
    obtain rfl : xml0 = xml := Option.some.inj ((htext xml0 (ofOption_eq_ok.mp hxml0)).symm.trans hxml)
    obtain ⟨⟨output, cursor⟩, hrewrite, h⟩ := bind_ok.mp h
    have hreads := readsAs_segmentsFrom n htexts
    obtain ⟨xml', hok, hrewritten⟩ := rewriteXhtml_ok laws hspans hreads
      (htakes hpart xml0 spans _ hxml hspans hreads) ht done rest
    obtain ⟨rfl, rfl⟩ := Prod.mk.inj (Except.ok.inj (hok.symm.trans hrewrite))
    obtain ⟨rfl, rfl⟩ := Prod.mk.inj (Except.ok.inj h)
    exact ⟨List.length_append.symm, .chapter hpart hrewritten⟩
  · rename_i hpart
    rw [if_neg hpart] at hread
    subst hread
    cases ht
    rw [Bool.not_eq_true] at hpart
    split at h
    · rename_i hopf
      obtain ⟨xml, hxml, h⟩ := bind_ok.mp h
      obtain ⟨output, hrewrite, h⟩ := bind_ok.mp h
      obtain ⟨rfl, rfl⟩ := Prod.mk.inj (Except.ok.inj h)
      exact ⟨by simp, .opf hpart hopf (htext xml (ofOption_eq_ok.mp hxml)) hrewrite⟩
    · rename_i hopf
      obtain ⟨rfl, rfl⟩ := Prod.mk.inj (Except.ok.inj h)
      exact ⟨by simp, .other hpart (Bool.not_eq_true _ ▸ hopf) hdata⟩

/-- The loop of `reconstruct`, file by file. -/
theorem writeFiles_ok (laws : Lawful) {all files : List Zip.File} (hnodup : (all.map (·.name)).Nodup)
    (hsub : ∀ f ∈ files, f ∈ all) {textss : List (List Str)} {segss : List (List DocumentSegment)}
    (hread : List.Forall₂ FileTexts files textss)
    (ht : List.Forall₂ (fun texts segs => ∃ n, List.Forall₂ (TranslatedAs Visible) (segmentsFrom n texts) segs)
      textss segss)
    (htakes : ∀ f ∈ files, TakesFile f) {done rest : List DocumentSegment} {before entries : List Zip.Entry}
    {cursor : Nat}
    (h : (files.map (·.name)).foldlM (writeFile (done ++ segss.flatten ++ rest) targetLocale all)
      (before, done.length) = .ok (entries, cursor)) :
    ∃ new, entries = before ++ new ∧ List.Forall₂ CopyOf files new ∧
      List.Forall₂ (fun pair segs => Redone targetLocale pair.1 segs pair.2.data) (files.zip new) segss := by
  induction hread generalizing segss done before with
  | nil =>
    cases ht
    cases h
    exact ⟨[], (List.append_nil _).symm, .nil, .nil⟩
  | @cons f texts files textss hfile _ ih =>
    cases ht with
    | @cons _ segs _ segss hsegs ht =>
      obtain ⟨n, hsegs⟩ := hsegs
      obtain ⟨hf, hfiles⟩ := List.forall_mem_cons.mp hsub
      obtain ⟨htake, hothers⟩ := List.forall_mem_cons.mp htakes
      rw [List.map_cons, List.foldlM_cons] at h
      obtain ⟨⟨entries1, cursor1⟩, hone, h⟩ := bind_ok.mp h
      unfold writeFile at hone
      obtain ⟨⟨g, data⟩, hreadFile, hone⟩ := bind_ok.mp hone
      obtain ⟨rfl, hdata⟩ := (readFile_iff hnodup hf).mp hreadFile
      obtain ⟨⟨data', cursor'⟩, hwrite, hone⟩ := bind_ok.mp hone
      obtain ⟨rfl, rfl⟩ := Prod.mk.inj (Except.ok.inj hone)
      have hassoc : done ++ (segs :: segss).flatten ++ rest = done ++ segs ++ (segss.flatten ++ rest) := by simp
      rw [hassoc] at hwrite h
      obtain ⟨rfl, hredone⟩ := writeData_ok laws hfile hsegs htake hdata hwrite
      rw [← List.append_assoc (done ++ segs)] at h
      obtain ⟨new, rfl, hcopies, hnew⟩ := ih hfiles ht hothers h
      exact ⟨_ :: new, List.append_assoc _ _ _, .cons ⟨rfl, rfl, rfl⟩ hcopies, .cons hredone hnew⟩

end Write

/-! ## The book that was written -/

section Reread

variable [QuickXml] [Zip] {targetLocale : Option Str}

/-- What the files of a book have to be for the book to be readable once it is written again. -/
structure Exportable (targetLocale : Option Str) (files : List Zip.File) : Prop where
  takes : ∀ f ∈ files, TakesFile f
  directories : ∀ f ∈ files, f.isDir = true → f.data = some []
  opf : ∀ f ∈ files, isOpf f.name = true → ∀ xml xml', f.data.bind fromUtf8 = some xml →
    rewriteLanguage xml targetLocale = .ok xml' → QuickXml.reads xml' = true

/-- A file and the file that is read in its place. -/
def Remade (targetLocale : Option Str) (file file' : Zip.File) : Prop :=
  ∃ segs data, Redone targetLocale file segs data ∧ StoredAs file data file'

omit [Zip] in
theorem rewriteLanguage_nil {xml : Str} (h : rewriteLanguage [] targetLocale = .ok xml) : xml = [] := by
  unfold rewriteLanguage at h
  obtain ⟨-, -, h⟩ := bind_ok.mp h
  split at h
  · exact (Except.ok.inj h).symm
  · rename_i l _
    have hlocal : Localized l [] [] xml := localized_of_loop h [] [] rfl rfl
    unfold Localized at hlocal
    rcases hlocal with ⟨-, hout⟩ | ⟨lead, content, back, hfirst, hnil, -⟩
    · rw [hout]
      rfl
    · have hempty : back = [] := (List.append_eq_nil_iff.mp hnil.symm).2
      have hclose := FirstLanguage.back_eq hfirst
      rw [hempty] at hclose
      obtain ⟨rest, hclose⟩ := hclose
      have hlen := congrArg List.length hclose
      rw [List.length_append] at hlen
      exact absurd hlen (Nat.ne_of_lt (Nat.add_pos_left (by decide) _))

/-- A directory stays one. -/
theorem Redone.directory {file : Zip.File} {texts : List Str} {segs : List DocumentSegment} {data : Bytes}
    (h : Redone targetLocale file segs data) (hread : FileTexts file texts) (hdata : file.data = some []) :
    data = [] := by
  cases h with
  | chapter hpart =>
    unfold FileTexts at hread
    rw [if_pos hpart, hdata] at hread
    obtain ⟨xml, hxml, spans, hspans, -⟩ := hread
    obtain rfl : [] = xml := Option.some.inj hxml
    exact absurd rfl (scanXhtml_ok.mp hspans).2.1
  | opf _ _ hxml hrewrite =>
    rw [hdata] at hxml
    obtain rfl := Option.some.inj hxml
    rw [rewriteLanguage_nil hrewrite]
    rfl
  | other _ _ hsame => exact Option.some.inj (hsame.symm.trans hdata)

theorem Redone.fileTexts {file file' : Zip.File} {segs : List DocumentSegment} {data : Bytes}
    (h : Redone targetLocale file segs data) (hstored : StoredAs file data file') :
    FileTexts file' (segs.map (·.output)) := by
  unfold FileTexts
  rw [hstored.name]
  cases h with
  | @chapter xml xml' _ hpart hrewritten =>
    obtain ⟨spans, spans', -, hspans', htext⟩ := hrewritten
    rw [if_pos hpart, hstored.content]
    exact ⟨xml', fromUtf8_encode xml', spans', hspans', List.forall₂_map_right_iff.mpr htext.contents⟩
  | opf hpart => rw [if_neg (Bool.eq_false_iff.mp hpart), List.map_nil]
  | other hpart => rw [if_neg (Bool.eq_false_iff.mp hpart), List.map_nil]

/-- The files that are read, and their texts. -/
theorem remade_files {files files' : List Zip.File} {new : List Zip.Entry} {textss : List (List Str)}
    {segss : List (List DocumentSegment)} (hread : List.Forall₂ FileTexts files textss)
    (hcopies : List.Forall₂ CopyOf files new)
    (hnew : List.Forall₂ (fun pair segs => Redone targetLocale pair.1 segs pair.2.data) (files.zip new) segss)
    (hstored : List.Forall₂ (fun pair file' => StoredAs pair.1 (ArchiveEntry.stored pair.2) file')
      (files.zip new) files')
    (hdirs : ∀ f ∈ files, f.isDir = true → f.data = some []) :
    List.Forall₂ (Remade targetLocale) files files' ∧
      List.Forall₂ FileTexts files' (segss.map fun segs => segs.map (·.output)) := by
  induction hcopies generalizing textss segss files' with
  | nil =>
    cases hnew
    cases hstored
    exact ⟨.nil, .nil⟩
  | @cons f e files new hcopy _ ih =>
    cases hread with
    | cons hfile hread =>
    cases hnew with
    | cons hredone hnew =>
    cases hstored with
    | cons hstore hstored =>
    obtain ⟨hdir, hdirs⟩ := List.forall_mem_cons.mp hdirs
    obtain ⟨hremade, htexts⟩ := ih hread hnew hstored hdirs
    have hdata : ArchiveEntry.stored e = e.data := by
      unfold ArchiveEntry.stored
      split
      · rename_i he
        rw [hredone.directory hfile (hdir (hcopy.isDir ▸ he))]
      · rfl
    rw [hdata] at hstore
    exact ⟨.cons ⟨_, _, hredone, hstore⟩ hremade, .cons (hredone.fileTexts hstore) htexts⟩

omit [QuickXml] [Zip] in
/-- A package document is no chapter. -/
theorem not_chapter {name : Str} (h : isOpf name = true) : translatablePart name = false := by
  unfold translatablePart isChapter
  unfold isOpf at h
  unfold hasExtension at h ⊢
  cases hext : pathExtension name with
  | none => rw [hext] at h; cases h
  | some e =>
    rw [hext] at h
    simp only [Option.any_some, eqIgnoreAsciiCase, beq_iff_eq] at h ⊢
    rw [h, Bool.and_eq_false_iff]
    exact .inr (by decide)

/-- The files that are read make a book again. -/
theorem Book.remade {files files' : List Zip.File} (book : Book files)
    (h : List.Forall₂ (Remade targetLocale) files files') (hexport : Exportable targetLocale files)
    (hsize : totalSize files' ≤ maxDocumentBytes) : Book files' := by
  have hnames : files'.map (·.name) = files.map (·.name) :=
    map_eq_of_forall₂ (fun _ _ ⟨_, _, _, hstored⟩ => hstored.name) h
  have hmem (p : Str → Prop) (hp : ∃ f ∈ files, p f.name) : ∃ f ∈ files', p f.name := by
    obtain ⟨f, hf, hname⟩ := hp
    have hmem : f.name ∈ files'.map (·.name) := hnames ▸ List.mem_map_of_mem hf
    obtain ⟨f', hf', heq⟩ := List.mem_map.mp hmem
    exact ⟨f', hf', heq ▸ hname⟩
  have hback {f' : Zip.File} (hf' : f' ∈ files') : ∃ f ∈ files, Remade targetLocale f f' :=
    exists_of_forall₂ h hf'
  refine ⟨?_, ?_, fun f' hf' => ?_, hnames ▸ book.nodup, hsize, hmem (· = containerPart) book.container,
    hmem (isOpf · = true) book.opf, hmem (isChapter · = true) book.chapter, fun f' hf' hkind => ?_⟩
  · obtain ⟨f, rest, rfl, hname, hdir⟩ := book.first
    obtain ⟨f', rest', hf, -, rfl⟩ := List.forall₂_cons_left_iff.mp h
    obtain ⟨_, _, _, hstored⟩ := hf
    exact ⟨f', rest', rfl, hstored.name.trans hname, hstored.isDir.trans hdir⟩
  · exact h.length_eq ▸ book.number
  · obtain ⟨f, hf, segs, data, hredone, hstored⟩ := hback hf'
    have hsound := book.sound f hf
    obtain ⟨hencrypted, hsymlink, henclosed⟩ := hstored.plain
    refine ⟨⟨hencrypted, hsymlink, henclosed.trans hsound.plain.2.2⟩, hstored.name ▸ hsound.name, fun hname => ?_⟩
    rw [hstored.name] at hname
    have hdata := hsound.mimetype hname
    cases hredone with
    | chapter hpart => exact absurd hpart (by rw [hname]; decide)
    | opf _ hopf => exact absurd hopf (by rw [hname]; decide)
    | other _ _ hsame => rw [hstored.content, ← hsame, hdata]
  · obtain ⟨f, hf, segs, data, hredone, hstored⟩ := hback hf'
    rw [hstored.name] at hkind
    obtain ⟨text, htext, hreads⟩ := book.xml f hf hkind
    rw [hstored.content]
    cases hredone with
    | chapter hpart =>
      rcases hkind with hname | hopf
      · exact absurd hpart (by rw [hname]; decide)
      · exact absurd hpart (by rw [not_chapter hopf]; decide)
    | @opf xml xml' _ hopf hxml hrewrite =>
      exact ⟨xml', fromUtf8_encode xml', hexport.opf f hf hopf xml xml' hxml hrewrite⟩
    | other _ _ hsame =>
      rw [← hsame]
      exact ⟨text, htext, hreads⟩

theorem reconstruct_ok {package output : Bytes} {segs : List DocumentSegment}
    (h : reconstruct segs package targetLocale = .ok output) : ∃ names files entries,
      archiveNames package = .ok names ∧ archive package = .ok files ∧
      names.foldlM (writeFile segs targetLocale files) ([], 0) = .ok (entries, segs.length) ∧
      Zip.finish entries = some output ∧ output.length ≤ maxDocumentBytes := by
  unfold reconstruct at h
  obtain ⟨names, hnames, h⟩ := bind_ok.mp h
  obtain ⟨files, hfiles, h⟩ := bind_ok.mp h
  obtain ⟨⟨entries, cursor⟩, hloop, h⟩ := bind_ok.mp h
  dsimp only at h
  split at h
  · cases h
  rename_i hcursor
  obtain ⟨written, hfinish, h⟩ := bind_ok.mp h
  split at h
  · cases h
  rename_i hlimit
  obtain rfl := Except.ok.inj h
  rw [not_not] at hcursor
  exact ⟨names, files, entries, hnames, hfiles, hcursor ▸ hloop, ofOption_eq_ok.mp hfinish,
    Nat.le_of_not_lt hlimit⟩

end Reread

/-! ### A book -/

open PlainArchive (plainZip plainFile writeFiles readFiles_writeFiles length_writeFiles keeps_plainZip)

def helloEntries : List (ArchiveEntry Unit) :=
  [⟨mimetypePart, false, (), asciiBytes "application/epub+zip"⟩,
    ⟨containerPart, false, (), asciiBytes "<container/>"⟩,
    ⟨"a.opf".toList, false, (), asciiBytes helloOpf⟩,
    ⟨"a.xhtml".toList, false, (), asciiBytes helloChapter⟩]

def helloFiles : List (ArchiveFile Unit) :=
  helloEntries.map fun entry => plainFile entry.name entry.isDir (ArchiveEntry.stored entry)

theorem exportable_hello :
    letI := PlainXml.plainXml
    letI := plainZip
    Exportable (some "zh".toList) helloFiles := by
  let _ : QuickXml := PlainXml.plainXml
  let _ : Zip := plainZip
  refine ⟨?_, ?_, ?_⟩
  · have hchapter : TakesFile (plainFile "a.xhtml".toList false (asciiBytes helloChapter)) := by
      intro _ xml spans segs hxml hspans hread
      have hdata : (some (asciiBytes helloChapter)).bind fromUtf8 = some helloChapter.toList := by decide +kernel
      obtain rfl := Option.some.inj (hdata.symm.trans hxml)
      have hscan : scanXhtml helloChapter.toList = .ok [(15, 20)] := by decide +kernel
      obtain rfl := Except.ok.inj (hscan.symm.trans hspans)
      refine takesWords_of_clear lawful_plainXml hspans hread ?_
      obtain ⟨s, segs, -, hrest, rfl⟩ := List.forall₂_cons_left_iff.mp hread
      cases hrest
      exact .cons (fun _ => by decide +kernel) .nil
    refine List.forall_mem_cons.mpr ⟨fun h => absurd h (by decide), List.forall_mem_cons.mpr
      ⟨fun h => absurd h (by decide), List.forall_mem_cons.mpr ⟨fun h => absurd h (by decide),
      List.forall_mem_cons.mpr ⟨hchapter, nofun⟩⟩⟩⟩
  · exact fun f hf hdir => absurd hdir (by
      have hall : helloFiles.all (fun f => !f.isDir) = true := by decide
      simpa using List.all_eq_true.mp hall f hf)
  · have hopf : ∀ xml xml', (some (asciiBytes helloOpf)).bind fromUtf8 = some xml →
        rewriteLanguage xml (some "zh".toList) = .ok xml' → QuickXml.reads xml' = true := by
      intro xml xml' hxml hrewrite
      have hdata : (some (asciiBytes helloOpf)).bind fromUtf8 = some helloOpf.toList := by decide +kernel
      obtain rfl := Option.some.inj (hdata.symm.trans hxml)
      have hzh : rewriteLanguage helloOpf.toList (some "zh".toList) =
          .ok "<package><dc:language>zh</dc:language></package>".toList := by decide +kernel
      obtain rfl := Except.ok.inj (hzh.symm.trans hrewrite)
      decide +kernel
    refine List.forall_mem_cons.mpr ⟨fun h => absurd h (by decide), List.forall_mem_cons.mpr
      ⟨fun h => absurd h (by decide), List.forall_mem_cons.mpr ⟨fun _ => hopf,
      List.forall_mem_cons.mpr ⟨fun h => absurd h (by decide), nofun⟩⟩⟩⟩

/-- The book in another language. -/
def nihaoEntries : List (ArchiveEntry Unit) :=
  [⟨mimetypePart, false, (), asciiBytes "application/epub+zip"⟩,
    ⟨containerPart, false, (), asciiBytes "<container/>"⟩,
    ⟨"a.opf".toList, false, (), toUtf8 "<package><dc:language>zh</dc:language></package>".toList⟩,
    ⟨"a.xhtml".toList, false, (), toUtf8 "<html><body><p>你好</p></body></html>".toList⟩]

end LinguaMesh.Epub
