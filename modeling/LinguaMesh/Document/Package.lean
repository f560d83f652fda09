import LinguaMesh.Document.Ooxml
import LinguaMesh.Document.XmlReader

/-!
# OOXML packages

A package is a zip archive. `inspectKind` reads the text spans of the parts that have
text, in the order of their names, as the segments of a job; `reconstructKind` writes
every file of the archive again, these parts with the output of the segments.

The `zip` crate is a parameter (`Zip`).
-/

namespace LinguaMesh.Ooxml

open Search Run Holes

/-! ## Archives -/

/-- A file of an archive, as `by_index` gives it. -/
structure ArchiveFile (Options : Type) where
  name : Str
  encrypted : Bool
  isSymlink : Bool
  /-- Whether there is an `enclosed_name`. -/
  enclosed : Bool
  isDir : Bool
  size : Nat
  compressedSize : Nat
  options : Options
  /-- `read_to_end`, `none` for an error. -/
  data : Option Bytes

/-- A file that is written. -/
structure ArchiveEntry (Options : Type) where
  name : Str
  isDir : Bool
  options : Options
  data : Bytes

class Zip where
  Options : Type
  /-- `ZipArchive::new`: what `by_index` gives for each index. -/
  files : Bytes → Option (List (Option (ArchiveFile Options)))
  /-- `ZipWriter` for these files, with `finish`; `none` for an error of one of its calls. -/
  finish : List (ArchiveEntry Options) → Option Bytes

abbrev Zip.File [Zip] : Type := ArchiveFile (Zip.Options)

abbrev Zip.Entry [Zip] : Type := ArchiveEntry (Zip.Options)

def maxOoxmlEntries : Nat := 512
def maxOoxmlCompressionRatio : Nat := 200
def minOoxmlRatioCheckBytes : Nat := 1024

/-- The order of `str`. -/
def nameLe : Str → Str → Bool
  | [], _ => true
  | _ :: _, [] => false
  | a :: s, b :: t => if a = b then nameLe s t else a.toNat < b.toNat

/-- `Path::file_name`. -/
def fileName (name : Str) : Option Str :=
  ((name.splitOn '/').filter fun part => part ≠ [] ∧ part ≠ ['.']).getLast?.filter (· ≠ ['.', '.'])

/-- `Path::extension`. -/
def pathExtension (name : Str) : Option Str :=
  ((fileName name).bind (rsplitOnce '.')).bind fun (before, after) =>
    if before = [] then none else some after

def hasXmlExtension (name : Str) : Bool := (pathExtension name).any fun e => asciiLower e == "xml".toList

def unsupportedPackagePart (name : Str) : Bool :=
  let normalized := asciiLower name
  "/vbaproject.bin".toList.isSuffixOf normalized || normalized == "vbaproject.bin".toList ||
    "_xmlsignatures/".toList.isPrefixOf normalized

def docxParts : List Str :=
  ["word/document.xml".toList, "word/footnotes.xml".toList, "word/endnotes.xml".toList,
    "word/comments.xml".toList, "word/glossary/document.xml".toList]

def pptxPrefixes : List Str :=
  ["ppt/slides/slide".toList, "ppt/notesSlides/notesSlide".toList,
    "ppt/slideMasters/slideMaster".toList, "ppt/slideLayouts/slideLayout".toList,
    "ppt/handoutMasters/handoutMaster".toList, "ppt/notesMasters/notesMaster".toList,
    "ppt/comments/comment".toList]

def stripPrefix (p s : Str) : Option Str := if p.isPrefixOf s then some (s.drop p.length) else none

def translatablePart (kind : PackageKind) (name : Str) : Bool :=
  hasXmlExtension name && match kind with
  | .docx => "word/".toList.isPrefixOf name && (docxParts.contains name ||
      ((stripPrefix "word/header".toList name).or (stripPrefix "word/footer".toList name)).any
        hasXmlExtension)
  | .pptx => pptxPrefixes.any (·.isPrefixOf name)
  | .xlsx => name == "xl/sharedStrings.xml".toList || "xl/worksheets/sheet".toList.isPrefixOf name

/-- The names of the files so far, and their size. -/
structure Listing where
  names : List Str
  totalSize : Nat

/-- The checks of `archive_names` for one file. -/
def listFile {Options : Type} (s : Listing) (file : Option (ArchiveFile Options)) :
    Run DocumentError Listing := do
  let file ← ofOption .invalidStructure file
  if file.encrypted || file.isSymlink || !file.enclosed then fail .invalidStructure
  else if file.name.isEmpty || file.name.contains '\\' || s.names.contains file.name then
    fail .invalidStructure
  else if unsupportedPackagePart file.name then fail .unsupportedFormat
  else if minOoxmlRatioCheckBytes ≤ file.size ∧
      (file.compressedSize = 0 ∨ file.compressedSize * maxOoxmlCompressionRatio < file.size) then
    fail .tooLarge
  else if maxDocumentBytes < s.totalSize + file.size then fail .tooLarge
  else .ok ⟨s.names ++ [file.name], s.totalSize + file.size⟩

/-- A part that the kind of package has to have besides its main part. -/
def requiredChild (kind : PackageKind) (names : List Str) : Bool :=
  match kind with
  | .docx => true
  | .pptx => names.any fun name => "ppt/slides/slide".toList.isPrefixOf name && hasXmlExtension name
  | .xlsx => names.any fun name => "xl/worksheets/sheet".toList.isPrefixOf name && hasXmlExtension name

section Package

variable [Zip]

def archiveNames (kind : PackageKind) (package : Bytes) : Run DocumentError (List Str) :=
  if maxDocumentBytes < package.length then fail .tooLarge
  else do
    let files ← ofOption .invalidStructure (Zip.files package)
    if files.isEmpty || maxOoxmlEntries < files.length then fail .invalidStructure
    else do
      let s ← files.foldlM listFile ⟨[], 0⟩
      let names := s.names.insertionSort fun a b => nameLe a b = true
      if !names.contains "[Content_Types].xml".toList || !names.contains kind.mainPart then
        fail .invalidStructure
      else if !requiredChild kind names then fail .invalidStructure
      else .ok names

def archive (package : Bytes) : Run DocumentError (List Zip.File) :=
  ofOption .invalidStructure ((Zip.files package).map (·.filterMap id))

/-- `by_name`, with `read_to_end`. -/
def readFile (files : List Zip.File) (name : Str) : Run DocumentError (Zip.File × Bytes) := do
  let file ← ofOption .invalidStructure (files.find? (·.name == name))
  let data ← ofOption .invalidStructure file.data
  .ok (file, data)

/-- The text of a part. -/
def partText (files : List Zip.File) (name : Str) : Run DocumentError Str := do
  let (_, data) ← readFile files name
  ofOption .invalidStructure (fromUtf8 data)

end Package

/-! ## Inspecting -/

/-- The cells and the shared strings that a selection takes. -/
structure XlsxSelectionContext where
  selectedCellsByPart : List (Str × List Str)
  selectedSharedIndices : List Nat

def isSelected (kind : PackageKind) (selection : Option XlsxSelectionContext) (name : Str)
    (span : TextSpan) : Bool :=
  match kind, selection with
  | .xlsx, some selection =>
    if name = "xl/sharedStrings.xml".toList then
      span.xlsxSharedIndex.any selection.selectedSharedIndices.contains
    else span.xlsxCellRef.any fun cell =>
      (selection.selectedCellsByPart.lookup name).any (·.contains cell)
  | _, _ => true

/-- A paragraph ends before the next text. -/
def lineEndingAfter (kind : PackageKind) (rest : Str) : Str :=
  if kind = .xlsx then []
  else match find kind.paragraphClose rest with
  | some paragraphEnd =>
    if (find kind.textOpen rest).all (paragraphEnd < ·) then ['\n'] else []
  | none => []

section Inspect

variable [QuickXml]

def inspectSpan (kind : PackageKind) (selection : Option XlsxSelectionContext) (name xml : Str)
    (segments : List DocumentSegment) (span : TextSpan) : Run DocumentError (List DocumentSegment) := do
  let text ← ofOption .invalidStructure
    (QuickXml.unescape (slice xml span.contentStart span.contentStop))
  .ok (segments ++ [{
    index := segments.length
    kind := if isSelected kind selection name span && text.any (!isWhitespace ·) then .prose else .verbatim
    sourceText := text
    translatedText := none
    lineEnding := lineEndingAfter kind (xml.drop span.contentStop) }])

variable [Zip]

def inspectPart (kind : PackageKind) (selection : Option XlsxSelectionContext) (files : List Zip.File)
    (segments : List DocumentSegment) (name : Str) : Run DocumentError (List DocumentSegment) := do
  let xml ← partText files name
  let spans ← textSpans kind xml
  spans.foldlM (inspectSpan kind selection name xml) segments

def inspectKind (kind : PackageKind) (package : Bytes) (selection : Option XlsxSelectionContext) :
    Run DocumentError (List DocumentSegment) := do
  let names ← archiveNames kind package
  let files ← archive package
  (names.filter (translatablePart kind)).foldlM (inspectPart kind selection files) []

/-! ## Reconstructing -/

/-- `String::into_bytes`. -/
def toUtf8 (s : Str) : Bytes := s.flatMap String.utf8EncodeChar

/-- The data that is written for a file, and `segment_cursor`. -/
def writeData (kind : PackageKind) (segments : List DocumentSegment) (name : Str) (data : Bytes)
    (cursor : Nat) : Run DocumentError (Bytes × Nat) :=
  if translatablePart kind name then do
    let xml ← ofOption .invalidStructure (fromUtf8 data)
    let (output, cursor) ← rewriteXml kind xml segments cursor
    .ok (toUtf8 output, cursor)
  else .ok (data, cursor)

/-- A turn of the loop of `reconstruct_kind`. -/
def writeFile (kind : PackageKind) (segments : List DocumentSegment) (files : List Zip.File)
    (s : List Zip.Entry × Nat) (name : Str) : Run DocumentError (List Zip.Entry × Nat) := do
  let (file, data) ← readFile files name
  let (data, cursor) ← writeData kind segments name data s.2
  .ok (s.1 ++ [⟨name, file.isDir, file.options, data⟩], cursor)

def reconstructKind (kind : PackageKind) (segments : List DocumentSegment) (package : Bytes) :
    Run DocumentError Bytes := do
  let names ← archiveNames kind package
  let files ← archive package
  let (entries, cursor) ← names.foldlM (writeFile kind segments files) ([], 0)
  if cursor ≠ segments.length then fail .invalidStructure
  else do
    let output ← ofOption .invalidStructure (Zip.finish entries)
    if maxDocumentBytes < output.length then fail .outputTooLarge else .ok output

/-! ## The parts of a package -/

/-- The texts of the parts that have text, in order. -/
def packageParts (kind : PackageKind) (package : Bytes) : Run DocumentError (List Str) := do
  let names ← archiveNames kind package
  let files ← archive package
  (names.filter (translatablePart kind)).mapM (partText files)

/-- What `reconstruct_kind` does with one of these parts. -/
def rewriteTurn (kind : PackageKind) (segments : List DocumentSegment) (s : List Str × Nat) (xml : Str) :
    Run DocumentError (List Str × Nat) := do
  let (output, cursor) ← rewriteXml kind xml segments s.2
  .ok (s.1 ++ [output], cursor)

def rewriteParts (kind : PackageKind) (segments : List DocumentSegment) (xmls : List Str) :
    Run DocumentError (List Str × Nat) :=
  xmls.foldlM (rewriteTurn kind segments) ([], 0)

/-- Parts, the segments that are read from them in order, and the parts after a rewriting: each
segment is of one part. -/
inductive PartsRewritten (kind : PackageKind) : List Str → List DocumentSegment → List Str → Prop where
  | nil : PartsRewritten kind [] [] []
  | cons {xml xml' : Str} {segs rest : List DocumentSegment} {xmls xmls' : List Str} :
    Rewritten kind xml segs xml' → PartsRewritten kind xmls rest xmls' →
    PartsRewritten kind (xml :: xmls) (segs ++ rest) (xml' :: xmls')

/-- The parts with the translations as they are. -/
def fillParts (kind : PackageKind) : List Str → List DocumentSegment → List Str
  | [], _ => []
  | xml :: xmls, segs =>
    match textSpans kind xml with
    | .ok spans => filled xml 0 (spans.map TextSpan.range) (segs.take spans.length) ::
        fillParts kind xmls (segs.drop spans.length)
    | .error _ => xml :: fillParts kind xmls segs

/-- The spans of a part read as the sources of the segments. -/
def ReadsAs (xml : Str) (spans : List TextSpan) (segs : List DocumentSegment) : Prop :=
  List.Forall₂ (fun span s =>
    QuickXml.unescape (slice xml span.contentStart span.contentStop) = some s.sourceText) spans segs

inductive PartsRead (kind : PackageKind) : List Str → List DocumentSegment → Prop where
  | nil : PartsRead kind [] []
  | cons {xml : Str} {spans : List TextSpan} {segs rest : List DocumentSegment} {xmls : List Str} :
    textSpans kind xml = .ok spans → ReadsAs xml spans segs → PartsRead kind xmls rest →
    PartsRead kind (xml :: xmls) (segs ++ rest)

variable {kind : PackageKind} {selection : Option XlsxSelectionContext} {package : Bytes}
  {files : List Zip.File} {xmls : List Str} {segs : List DocumentSegment}

omit [Zip] in
theorem inspectSpans_ok {name xml : Str} {spans : List TextSpan} {before out : List DocumentSegment}
    (h : spans.foldlM (inspectSpan kind selection name xml) before = .ok out) :
    ∃ segs, out = before ++ segs ∧ ReadsAs xml spans segs := by
  induction spans generalizing before with
  | nil =>
    cases h
    exact ⟨[], (List.append_nil _).symm, .nil⟩
  | cons span spans ih =>
    rw [List.foldlM_cons] at h
    obtain ⟨next, hnext, h⟩ := Except.bind_ok.mp h
    obtain ⟨text, htext, hnext⟩ := Except.bind_ok.mp hnext
    obtain rfl := Except.ok.inj hnext
    obtain ⟨segs, rfl, hsegs⟩ := ih h
    exact ⟨_ :: segs, List.append_assoc _ _ _, .cons (ofOption_eq_ok.mp htext) hsegs⟩

theorem inspectParts_ok {names : List Str} {before out : List DocumentSegment}
    (h : names.foldlM (inspectPart kind selection files) before = .ok out) :
    ∃ xmls segs, names.mapM (partText files) = .ok xmls ∧ out = before ++ segs ∧
      PartsRead kind xmls segs := by
  induction names generalizing before with
  | nil =>
    cases h
    exact ⟨[], [], rfl, (List.append_nil _).symm, .nil⟩
  | cons name names ih =>
    rw [List.foldlM_cons] at h
    obtain ⟨next, hnext, h⟩ := Except.bind_ok.mp h
    obtain ⟨xml, hxml, hnext⟩ := Except.bind_ok.mp hnext
    obtain ⟨spans, hspans, hnext⟩ := Except.bind_ok.mp hnext
    obtain ⟨segs, rfl, hsegs⟩ := inspectSpans_ok hnext
    obtain ⟨xmls, rest, hxmls, rfl, hrest⟩ := ih h
    refine ⟨xml :: xmls, segs ++ rest, ?_, List.append_assoc _ _ _, .cons hspans hsegs hrest⟩
    rw [List.mapM_cons, hxml, Except.ok_bind, hxmls]
    rfl

/-- The segments of a package are those of its parts. -/
theorem inspectKind_ok {segments : List DocumentSegment}
    (h : inspectKind kind package selection = .ok segments) :
    ∃ xmls, packageParts kind package = .ok xmls ∧ PartsRead kind xmls segments := by
  unfold inspectKind at h
  obtain ⟨names, hnames, h⟩ := Except.bind_ok.mp h
  obtain ⟨files, hfiles, h⟩ := Except.bind_ok.mp h
  obtain ⟨xmls, segs, hxmls, hsegs, hread⟩ := inspectParts_ok h
  refine ⟨xmls, ?_, by rwa [hsegs, List.nil_append]⟩
  unfold packageParts
  rw [hnames, Except.ok_bind, hfiles, Except.ok_bind, hxmls]

/-! ## Rewriting the parts -/

omit [Zip] in
theorem ReadsAs.assigned {xml : Str} {spans : List TextSpan} {segs' : List DocumentSegment}
    (h : ReadsAs xml spans segs) (ht : List.Forall₂ (TranslatedAs ('\x00' ∉ ·)) segs segs') :
    AssignedSpans xml spans segs' := by
  induction h generalizing segs' with
  | nil =>
    cases ht
    exact .nil
  | cons hspan _ ih =>
    cases ht with
    | cons hseg hsegs => exact .cons (hseg.assigned hspan) (ih hsegs)

omit [Zip] in
theorem TakesWords.translated {xml : Str} {spans : List TextSpan} {segs' : List DocumentSegment}
    {Good : Str → Prop} (h : TakesWords xml spans segs) (ht : List.Forall₂ (TranslatedAs Good) segs segs') :
    TakesWords xml spans segs' :=
  fun _ hwords => h _ (forall₂_trans (fun _ _ _ h1 h2 => h1.trans h2) ht hwords)

omit [Zip] in
theorem fillParts_cons {xml : Str} {spans : List TextSpan} {rest : List DocumentSegment}
    (hspans : textSpans kind xml = .ok spans) (hlen : segs.length = spans.length) :
    fillParts kind (xml :: xmls) (segs ++ rest) =
      filled xml 0 (spans.map TextSpan.range) segs :: fillParts kind xmls rest := by
  rw [fillParts, hspans]
  dsimp only
  rw [← hlen, List.take_left, List.drop_left]

omit [Zip] in
/-- The loop gives each part its own segments, in order. -/
theorem rewriteTurns_ok (laws : QuickXml.Lawful) (hread : PartsRead kind xmls segs)
    {segs' : List DocumentSegment} (ht : List.Forall₂ (TranslatedAs ('\x00' ∉ ·)) segs segs')
    (hwords : ∀ words, List.Forall₂ (TranslatedAs IsWord) segs words →
      ∀ xml ∈ fillParts kind xmls words, QuickXml.reads xml = true)
    (done rest : List DocumentSegment) (out : List Str) :
    ∃ xmls', xmls.foldlM (rewriteTurn kind (done ++ segs' ++ rest)) (out, done.length) =
      .ok (out ++ xmls', done.length + segs'.length) ∧ PartsRewritten kind xmls segs' xmls' := by
  induction hread generalizing segs' done out with
  | nil =>
    cases ht
    exact ⟨[], by simp [List.foldlM, pure, Except.pure], .nil⟩
  | @cons xml spans own later xmls hspans hreads _ ih =>
    obtain ⟨own', later', rfl, hown, hlater⟩ := forall₂_append_left ht
    have hlen {words : List DocumentSegment} {Good : Str → Prop}
        (h : List.Forall₂ (TranslatedAs Good) own words) : words.length = spans.length :=
      h.length_eq.symm.trans hreads.length_eq.symm
    have htakes : TakesWords xml spans own := by
      intro words hwords'
      obtain ⟨others, hothers⟩ := exists_words later
      have hall := hwords _ (List.rel_append hwords' hothers)
      rw [fillParts_cons hspans (hlen hwords')] at hall
      exact hall _ List.mem_cons_self
    obtain ⟨xml', hrewrite, hrewritten⟩ := rewriteXml_ok laws hspans (hreads.assigned hown)
      (htakes.translated hown) done (later' ++ rest)
    obtain ⟨xmls', hfold, hparts⟩ := ih hlater (fun words hwords' => by
      obtain ⟨others, hothers⟩ := exists_words own
      have hall := hwords _ (List.rel_append hothers hwords')
      rw [fillParts_cons hspans (hlen hothers)] at hall
      exact fun xml hxml => hall xml (List.mem_cons_of_mem _ hxml)) (done ++ own') (out ++ [xml'])
    refine ⟨xml' :: xmls', ?_, .cons hrewritten hparts⟩
    have hsegs : done ++ (own' ++ later') ++ rest = done ++ own' ++ (later' ++ rest) := by
      simp only [List.append_assoc]
    rw [List.foldlM_cons, hsegs, rewriteTurn, hrewrite, Except.ok_bind]
    simp only [List.append_assoc, List.length_append, List.singleton_append, Nat.add_assoc] at hfold ⊢
    exact hfold

omit [Zip] in
theorem rewriteTurns_words (laws : QuickXml.Lawful) (hread : PartsRead kind xmls segs)
    {words : List DocumentSegment} (hwords : List.Forall₂ (TranslatedAs IsWord) segs words)
    (done rest : List DocumentSegment) (out : List Str) :
    xmls.foldlM (rewriteTurn kind (done ++ words ++ rest)) (out, done.length) =
      .ok (out ++ fillParts kind xmls words, done.length + words.length) := by
  induction hread generalizing words done out with
  | nil =>
    cases hwords
    simp [List.foldlM, pure, Except.pure, fillParts]
  | @cons xml spans own later xmls hspans hreads _ ih =>
    obtain ⟨own', later', rfl, hown, hlater⟩ := forall₂_append_left hwords
    have hlen : own'.length = spans.length := hown.length_eq.symm.trans hreads.length_eq.symm
    have hassigned := hreads.assigned (hown.imp fun _ _ h => h.mono fun _ => IsWord.nulFree)
    have hrewrite := rewriteXml_words laws hspans hassigned ⟨own, hown⟩ done (later' ++ rest)
    have hfold := ih hlater (done ++ own') (out ++ [filled xml 0 (spans.map TextSpan.range) own'])
    have hsegs : done ++ (own' ++ later') ++ rest = done ++ own' ++ (later' ++ rest) := by
      simp only [List.append_assoc]
    rw [List.foldlM_cons, hsegs, rewriteTurn, hrewrite, Except.ok_bind, fillParts_cons hspans hlen]
    simp only [List.append_assoc, List.length_append, List.singleton_append, Nat.add_assoc] at hfold ⊢
    exact hfold

omit [Zip] in
theorem PartsRewritten.reads {segs' : List DocumentSegment} {xmls' : List Str}
    (h : PartsRewritten kind xmls segs' xmls') : ∀ xml ∈ xmls', QuickXml.reads xml = true := by
  induction h with
  | nil => exact fun _ hxml => absurd hxml List.not_mem_nil
  | cons hpart _ ih =>
    obtain ⟨_, _, -, hspans', -, -⟩ := hpart
    exact List.forall_mem_cons.mpr ⟨(textSpans_ok.mp hspans').1, ih⟩

omit [Zip] in
/-- The parts can be rewritten with any translations if and only if the reader takes them with any
words for the texts that are to be translated. -/
theorem rewriteParts_iff (laws : QuickXml.Lawful) (hread : PartsRead kind xmls segs) :
    (∀ segs', List.Forall₂ (TranslatedAs ('\x00' ∉ ·)) segs segs' →
      ∃ xmls', rewriteParts kind segs' xmls = .ok (xmls', segs'.length) ∧
        PartsRewritten kind xmls segs' xmls') ↔
    ∀ words, List.Forall₂ (TranslatedAs IsWord) segs words →
      ∀ xml ∈ fillParts kind xmls words, QuickXml.reads xml = true := by
  constructor
  · intro h words hwords
    obtain ⟨xmls', hrewrite, hparts⟩ := h words (hwords.imp fun _ _ hs => hs.mono fun _ => IsWord.nulFree)
    have hfold := rewriteTurns_words laws hread hwords [] [] []
    rw [List.nil_append, List.append_nil] at hfold
    obtain ⟨rfl, -⟩ := Prod.mk.inj (Except.ok.inj (hfold.symm.trans hrewrite))
    exact hparts.reads
  · intro hwords segs' ht
    obtain ⟨xmls', hfold, hparts⟩ := rewriteTurns_ok laws hread ht hwords [] [] []
    rw [List.nil_append, List.append_nil, List.length_nil, Nat.zero_add] at hfold
    exact ⟨xmls', hfold, hparts⟩

/-! ## The files that are written -/

/-- The files with text get the rewritten parts in order, the others keep their data. -/
structure Written (kind : PackageKind) (files : List Zip.File) (names : List Str) (xmls' : List Str)
    (entries : List Zip.Entry) : Prop where
  names : entries.map (·.name) = names
  parts : (entries.filter (translatablePart kind ·.name)).map (·.data) = xmls'.map toUtf8
  others : ∀ entry ∈ entries, translatablePart kind entry.name = false →
    ∃ file, readFile files entry.name = .ok (file, entry.data)

theorem writeFiles_ok {segments : List DocumentSegment} {names : List Str} {cursor cursor' : Nat}
    {before entries : List Zip.Entry}
    (h : names.foldlM (writeFile kind segments files) (before, cursor) = .ok (entries, cursor'))
    (hxmls : (names.filter (translatablePart kind)).mapM (partText files) = .ok xmls) (out : List Str) :
    ∃ new xmls', entries = before ++ new ∧
      xmls.foldlM (rewriteTurn kind segments) (out, cursor) = .ok (out ++ xmls', cursor') ∧
      Written kind files names xmls' new := by
  induction names generalizing before cursor xmls out with
  | nil =>
    cases h
    cases hxmls
    exact ⟨[], [], (List.append_nil _).symm, by simp [pure, Except.pure], rfl, rfl,
      fun _ h => absurd h List.not_mem_nil⟩
  | cons name names ih =>
    rw [List.foldlM_cons] at h
    obtain ⟨⟨entries1, cursor1⟩, hfile, h⟩ := Except.bind_ok.mp h
    unfold writeFile at hfile
    obtain ⟨⟨file, data⟩, hread, hfile⟩ := Except.bind_ok.mp hfile
    obtain ⟨⟨data', cursor'⟩, hdata, hfile⟩ := Except.bind_ok.mp hfile
    obtain ⟨rfl, rfl⟩ := Prod.mk.inj (Except.ok.inj hfile)
    unfold writeData at hdata
    cases hpart : translatablePart kind name with
    | false =>
      rw [List.filter_cons_of_neg (by rw [hpart]; exact Bool.false_ne_true)] at hxmls
      rw [hpart] at hdata
      obtain ⟨rfl, rfl⟩ := Prod.mk.inj (Except.ok.inj hdata)
      obtain ⟨new, xmls', rfl, hfold, hwritten⟩ := ih h hxmls out
      refine ⟨_ :: new, xmls', List.append_assoc _ _ _, hfold, ?_, ?_, ?_⟩
      · rw [List.map_cons, hwritten.names]
      · rw [List.filter_cons_of_neg (by rw [hpart]; exact Bool.false_ne_true)]
        exact hwritten.parts
      · exact List.forall_mem_cons.mpr ⟨fun _ => ⟨file, hread⟩, hwritten.others⟩
    | true =>
      rw [List.filter_cons_of_pos hpart, List.mapM_cons] at hxmls
      obtain ⟨xml, hxml, hxmls⟩ := Except.bind_ok.mp hxmls
      obtain ⟨xmls, hrest, hxmls⟩ := Except.bind_ok.mp hxmls
      obtain rfl := Except.ok.inj hxmls
      unfold partText at hxml
      rw [hread, Except.ok_bind] at hxml
      rw [hpart, if_pos rfl] at hdata
      obtain ⟨xml', hxml', hdata⟩ := Except.bind_ok.mp hdata
      obtain rfl : xml = xml' := Except.ok.inj (hxml.symm.trans hxml')
      obtain ⟨⟨output, cursor2⟩, hrewrite, hdata⟩ := Except.bind_ok.mp hdata
      obtain ⟨rfl, rfl⟩ := Prod.mk.inj (Except.ok.inj hdata)
      obtain ⟨new, xmls', rfl, hfold, hwritten⟩ := ih h hrest (out ++ [output])
      refine ⟨_ :: new, output :: xmls', List.append_assoc _ _ _, ?_, ?_, ?_, ?_⟩
      · rw [List.foldlM_cons, rewriteTurn, hrewrite, Except.ok_bind]
        rw [List.append_assoc] at hfold
        exact hfold
      · rw [List.map_cons, hwritten.names]
      · rw [List.filter_cons_of_pos (by exact hpart), List.map_cons, hwritten.parts, List.map_cons]
      · refine List.forall_mem_cons.mpr ⟨fun hnot => ?_, hwritten.others⟩
        rw [hpart] at hnot
        cases hnot

theorem reconstructKind_ok {segments : List DocumentSegment} {output : Bytes}
    (hparts : packageParts kind package = .ok xmls)
    (h : reconstructKind kind segments package = .ok output) :
    ∃ names files entries xmls', archiveNames kind package = .ok names ∧ archive package = .ok files ∧
      Zip.finish entries = some output ∧ rewriteParts kind segments xmls = .ok (xmls', segments.length) ∧
      Written kind files names xmls' entries := by
  unfold reconstructKind at h
  unfold packageParts at hparts
  obtain ⟨names, hnames, h⟩ := Except.bind_ok.mp h
  obtain ⟨files, hfiles, h⟩ := Except.bind_ok.mp h
  obtain ⟨⟨entries, cursor⟩, hloop, h⟩ := Except.bind_ok.mp h
  rw [hnames, Except.ok_bind, hfiles, Except.ok_bind] at hparts
  obtain ⟨new, xmls', hnew, hfold, hwritten⟩ := writeFiles_ok hloop hparts []
  obtain rfl : entries = new := hnew
  dsimp only at h
  split at h
  · cases h
  · rename_i hcursor
    obtain ⟨output', hfinish, h⟩ := Except.bind_ok.mp h
    split at h
    · cases h
    · obtain rfl := Except.ok.inj h
      rw [not_not] at hcursor
      rw [hcursor] at hfold
      exact ⟨names, files, entries, xmls', hnames, hfiles, ofOption_eq_ok.mp hfinish, hfold, hwritten⟩

end Inspect

/-! ### Two documents -/

/-- An archive of two files. -/
@[reducible] def documentZip (xml : String) : Zip where
  Options := Unit
  files _ := some [
    some ⟨"[Content_Types].xml".toList, false, false, true, false, 0, 0, (), some []⟩,
    some ⟨"word/document.xml".toList, false, false, true, false, xml.length, xml.length, (),
      some (asciiBytes xml)⟩]
  finish entries := some (entries.flatMap (·.data))

def helloXml : String := "<w:p><w:t>Hello</w:t></w:p>"

def helloSegment : DocumentSegment := ⟨0, .prose, "Hello".toList, none, ['\n']⟩

/-- The comment has a quotation mark. For the scan the text stands in an element then, for the reader
in the value of an attribute, which the quotation mark of the text ends. -/
def quoteXml : String := "<!-- \" --><p x=\"><w:t>a\"b</w:t></p>"

def quoteSegment : DocumentSegment := ⟨0, .prose, "a\"b".toList, none, []⟩

end LinguaMesh.Ooxml
