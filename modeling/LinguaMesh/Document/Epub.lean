import LinguaMesh.Document.Opf
import LinguaMesh.Domain.Utf8Encode

/-!
# EPUB packages

`inspect` reads the text spans of the chapters of a book, in the order of the archive, as
the segments of a job; `reconstruct` writes every file again, the chapters with the output
of the segments and the package documents with the language of the job.

The chapters share the segments with one cursor. As a list per chapter (`Chapters`) the
segments show what belongs to what.
-/

namespace LinguaMesh.Epub

open Search Run Holes Except
open Ooxml (ArchiveFile ArchiveEntry Zip Listing pathExtension archive readFile partText toUtf8)

def maxEpubEntries : Nat := 512

def hasExtension (name extension : Str) : Bool :=
  (pathExtension name).any (eqIgnoreAsciiCase · extension)

def mimetypePart : Str := "mimetype".toList

def containerPart : Str := "META-INF/container.xml".toList

def isOpf (name : Str) : Bool := hasExtension name "opf".toList

def isChapter (name : Str) : Bool := hasExtension name "xhtml".toList || hasExtension name "html".toList

def translatablePart (name : Str) : Bool := !"META-INF/".toList.isPrefixOf name && isChapter name

/-- The content of `mimetype`. -/
def checkMimetype {Options : Type} (file : ArchiveFile Options) : Run DocumentError Unit :=
  if file.name = mimetypePart then do
    let contents ← ofOption .invalidStructure file.data
    refuseIf (contents != asciiBytes "application/epub+zip") (.err .invalidStructure)
  else .ok ()

/-- The checks of `archive_names` for one file. -/
def listFile {Options : Type} (s : Listing) (file : Option (ArchiveFile Options)) :
    Run DocumentError Listing := do
  let file ← ofOption .invalidStructure file
  refuseIf (file.encrypted || file.isSymlink || !file.enclosed) (.err .invalidStructure)
  refuseIf (file.name.isEmpty || file.name.contains '\\' || s.names.contains file.name)
    (.err .invalidStructure)
  refuseIf (maxDocumentBytes < s.totalSize + file.size) (.err .tooLarge)
  checkMimetype file
  .ok ⟨s.names ++ [file.name], s.totalSize + file.size⟩

/-- The first file says what the archive is. -/
def checkFirst {Options : Type} (file : Option (ArchiveFile Options)) : Run DocumentError Unit := do
  let first ← ofOption .invalidStructure file
  refuseIf (first.name != mimetypePart || first.isDir || first.encrypted || first.isSymlink)
    (.err .invalidStructure)

section Package

variable [QuickXml] [Zip]

/-- A file that has to be XML. -/
def checkPart (files : List Zip.File) (name : Str) : Run DocumentError Unit := do
  let xml ← partText files name
  validateXml xml

def archiveNames (package : Bytes) : Run DocumentError (List Str) := do
  refuseIf (maxDocumentBytes < package.length) (.err .tooLarge)
  let files ← ofOption .invalidStructure (Zip.files package)
  refuseIf (files.isEmpty || maxEpubEntries < files.length) (.err .invalidStructure)
  checkFirst files.head?.join
  let s ← files.foldlM listFile ⟨[], 0⟩
  refuseIf (!s.names.contains mimetypePart || !s.names.contains containerPart) (.err .invalidStructure)
  refuseIf (!s.names.any isOpf || !s.names.any isChapter) (.err .invalidStructure)
  let files ← archive package
  (s.names.filter fun name => name == containerPart || isOpf name).forM (checkPart files)
  .ok s.names

/-! ## Inspecting -/

omit [Zip] in
def inspectSpan (xml : Str) (segments : List DocumentSegment) (span : TextSpan) :
    Run DocumentError (List DocumentSegment) := do
  let text ← ofOption .invalidStructure (QuickXml.unescape (slice xml span.1 span.2))
  .ok (segments ++ [{
    index := segments.length
    kind := if text.any (!isWhitespace ·) then .prose else .verbatim
    sourceText := text
    translatedText := none
    lineEnding := [] }])

def inspectPart (files : List Zip.File) (segments : List DocumentSegment) (name : Str) :
    Run DocumentError (List DocumentSegment) := do
  let xml ← partText files name
  let spans ← scanXhtml xml
  spans.foldlM (inspectSpan xml) segments

def inspect (package : Bytes) : Run DocumentError (List DocumentSegment) := do
  let names ← archiveNames package
  let files ← archive package
  let segments ← (names.filter translatablePart).foldlM (inspectPart files) []
  if segments.isEmpty then fail .invalidStructure else .ok segments

/-! ## Reconstructing -/

/-- The data that is written for a file, and `segment_cursor`. -/
def writeData (segments : List DocumentSegment) (targetLocale : Option Str) (name : Str) (data : Bytes)
    (cursor : Nat) : Run DocumentError (Bytes × Nat) :=
  if translatablePart name then do
    let xml ← ofOption .invalidStructure (fromUtf8 data)
    let (output, cursor) ← rewriteXhtml xml segments cursor
    .ok (toUtf8 output, cursor)
  else if isOpf name then do
    let xml ← ofOption .invalidStructure (fromUtf8 data)
    let output ← rewriteLanguage xml targetLocale
    .ok (toUtf8 output, cursor)
  else .ok (data, cursor)

/-- A turn of the loop of `reconstruct`. -/
def writeFile (segments : List DocumentSegment) (targetLocale : Option Str) (files : List Zip.File)
    (s : List Zip.Entry × Nat) (name : Str) : Run DocumentError (List Zip.Entry × Nat) := do
  let (file, data) ← readFile files name
  let (data, cursor) ← writeData segments targetLocale name data s.2
  .ok (s.1 ++ [⟨name, file.isDir, file.options, data⟩], cursor)

def reconstruct (segments : List DocumentSegment) (package : Bytes) (targetLocale : Option Str) :
    Run DocumentError Bytes := do
  let names ← archiveNames package
  let files ← archive package
  let (entries, cursor) ← names.foldlM (writeFile segments targetLocale files) ([], 0)
  if cursor ≠ segments.length then fail .invalidStructure
  else do
    let output ← ofOption .invalidStructure (Zip.finish entries)
    if maxDocumentBytes < output.length then fail .outputTooLarge else .ok output

end Package

/-! ## The segments of a book -/

section Inspect

variable [QuickXml]

/-- The texts of the spans of a chapter. -/
def ChapterTexts (xml : Str) (texts : List Str) : Prop :=
  ∃ spans, scanXhtml xml = .ok spans ∧
    List.Forall₂ (fun (span : TextSpan) text => QuickXml.unescape (slice xml span.1 span.2) = some text) spans texts

omit [QuickXml] in
/-- The segments that are made of texts, from the index `n` on. -/
def segmentsFrom : Nat → List Str → List DocumentSegment
  | _, [] => []
  | n, text :: texts =>
    ⟨n, if text.any (!isWhitespace ·) then .prose else .verbatim, text, none, []⟩ :: segmentsFrom (n + 1) texts

omit [QuickXml] in
theorem length_segmentsFrom (n : Nat) (texts : List Str) : (segmentsFrom n texts).length = texts.length := by
  induction texts generalizing n with
  | nil => rfl
  | cons text texts ih => rw [segmentsFrom, List.length_cons, ih, List.length_cons]

omit [QuickXml] in
theorem segmentsFrom_append (n : Nat) (texts texts' : List Str) :
    segmentsFrom n (texts ++ texts') = segmentsFrom n texts ++ segmentsFrom (n + texts.length) texts' := by
  induction texts generalizing n with
  | nil => rfl
  | cons text texts ih =>
    rw [List.cons_append, segmentsFrom, ih, segmentsFrom, List.cons_append, List.length_cons, Nat.add_assoc,
      Nat.add_comm 1]

theorem inspectSpans_iff {xml : Str} {spans : List TextSpan} {before out : List DocumentSegment} :
    spans.foldlM (inspectSpan xml) before = .ok out ↔ ∃ texts,
      List.Forall₂ (fun (span : TextSpan) text => QuickXml.unescape (slice xml span.1 span.2) = some text) spans texts ∧
        out = before ++ segmentsFrom before.length texts := by
  induction spans generalizing before with
  | nil =>
    constructor
    · intro h
      cases h
      exact ⟨[], .nil, (List.append_nil _).symm⟩
    · rintro ⟨texts, htexts, rfl⟩
      cases htexts
      rw [List.foldlM_nil, segmentsFrom, List.append_nil]
      rfl
  | cons span spans ih =>
    rw [List.foldlM_cons]
    constructor
    · intro h
      obtain ⟨next, hnext, h⟩ := Except.bind_ok.mp h
      obtain ⟨text, htext, hnext⟩ := Except.bind_ok.mp hnext
      obtain rfl := Except.ok.inj hnext
      obtain ⟨texts, htexts, rfl⟩ := ih.mp h
      refine ⟨text :: texts, .cons (ofOption_eq_ok.mp htext) htexts, ?_⟩
      rw [List.length_append, List.append_assoc]
      rfl
    · rintro ⟨texts, htexts, rfl⟩
      cases htexts with
      | @cons _ text _ texts htext htexts =>
        unfold inspectSpan at ih ⊢
        rw [htext]
        simp only [ofOption, Except.ok_bind]
        refine ih.mpr ⟨texts, htexts, ?_⟩
        rw [List.length_append, List.append_assoc]
        rfl

variable [Zip] {files : List Zip.File} {package : Bytes} {segments : List DocumentSegment}

/-- The texts of chapters, chapter by chapter. -/
theorem inspectParts_iff {names : List Str} {before out : List DocumentSegment} :
    names.foldlM (inspectPart files) before = .ok out ↔ ∃ xmls textss,
      names.mapM (partText files) = .ok xmls ∧ List.Forall₂ ChapterTexts xmls textss ∧
        out = before ++ segmentsFrom before.length textss.flatten := by
  induction names generalizing before with
  | nil =>
    constructor
    · intro h
      cases h
      exact ⟨[], [], rfl, .nil, (List.append_nil _).symm⟩
    · rintro ⟨xmls, textss, hxmls, htexts, rfl⟩
      cases hxmls
      cases htexts
      rw [List.foldlM_nil, List.flatten_nil, segmentsFrom, List.append_nil]
      rfl
  | cons name names ih =>
    rw [List.foldlM_cons]
    constructor
    · intro h
      obtain ⟨next, hnext, h⟩ := Except.bind_ok.mp h
      obtain ⟨xml, hxml, hnext⟩ := Except.bind_ok.mp hnext
      obtain ⟨spans, hspans, hnext⟩ := Except.bind_ok.mp hnext
      obtain ⟨texts, htexts, rfl⟩ := inspectSpans_iff.mp hnext
      obtain ⟨xmls, textss, hxmls, htextss, rfl⟩ := ih.mp h
      refine ⟨xml :: xmls, texts :: textss, ?_, .cons ⟨spans, hspans, htexts⟩ htextss, ?_⟩
      · rw [List.mapM_cons, hxml, Except.ok_bind, hxmls]
        rfl
      · rw [List.flatten_cons, segmentsFrom_append, List.length_append, length_segmentsFrom,
          List.append_assoc]
    · rintro ⟨xmls, textss, hxmls, htextss, rfl⟩
      rw [List.mapM_cons] at hxmls
      obtain ⟨xml, hxml, hxmls⟩ := Except.bind_ok.mp hxmls
      obtain ⟨xmls, hrest, hxmls⟩ := Except.bind_ok.mp hxmls
      obtain rfl := Except.ok.inj hxmls
      cases htextss with
      | @cons _ texts _ textss htexts htextss =>
        obtain ⟨spans, hspans, htexts⟩ := htexts
        unfold inspectPart at ih ⊢
        rw [hxml, Except.ok_bind, hspans, Except.ok_bind, inspectSpans_iff.mpr ⟨texts, htexts, rfl⟩,
          Except.ok_bind]
        refine ih.mpr ⟨xmls, textss, hrest, htextss, ?_⟩
        rw [List.flatten_cons, segmentsFrom_append, List.length_append, length_segmentsFrom,
          List.append_assoc]

/-- The segments of a book are made of the texts of its chapters. -/
theorem inspect_iff : inspect package = .ok segments ↔ ∃ names files xmls textss,
    archiveNames package = .ok names ∧ archive package = .ok files ∧
      (names.filter translatablePart).mapM (partText files) = .ok xmls ∧
      List.Forall₂ ChapterTexts xmls textss ∧ segments = segmentsFrom 0 textss.flatten ∧ segments ≠ [] := by
  unfold inspect
  constructor
  · intro h
    obtain ⟨names, hnames, h⟩ := Except.bind_ok.mp h
    obtain ⟨files, hfiles, h⟩ := Except.bind_ok.mp h
    obtain ⟨segs, hsegs, h⟩ := Except.bind_ok.mp h
    obtain ⟨xmls, textss, hxmls, htextss, hout⟩ := inspectParts_iff.mp hsegs
    split at h
    · cases h
    · rename_i hne
      cases h
      exact ⟨names, files, xmls, textss, hnames, hfiles, hxmls, htextss, hout,
        fun hnil => hne (List.isEmpty_iff.mpr hnil)⟩
  · rintro ⟨names, files, xmls, textss, hnames, hfiles, hxmls, htextss, rfl, hne⟩
    rw [hnames, Except.ok_bind, hfiles, Except.ok_bind, inspectParts_iff.mpr ⟨xmls, textss, hxmls, htextss, rfl⟩,
      Except.ok_bind]
    exact if_neg fun hempty => hne (List.isEmpty_iff.mp hempty)

end Inspect

end LinguaMesh.Epub
