import LinguaMesh.Document.Epub

/-!
# The archive of a book

`archive_names` goes over the files of an archive one by one, keeps the names it has seen and
the size so far, and then looks into the files that have to be XML. What it accepts is a
property of the list of the files (`Book`, `archiveNames_iff`). The `zip` crate reads what it has
written (`Keeps`).
-/

namespace LinguaMesh.Epub

open Search Run Except
open Ooxml (ArchiveFile ArchiveEntry Zip Listing archive readFile partText)

section Files

variable {Options : Type}

/-- A file that may stand in a book. -/
structure Sound (file : ArchiveFile Options) : Prop where
  plain : file.encrypted = false ∧ file.isSymlink = false ∧ file.enclosed = true
  name : file.name ≠ [] ∧ '\\' ∉ file.name
  mimetype : file.name = mimetypePart → file.data = some (asciiBytes "application/epub+zip")

def totalSize (files : List (ArchiveFile Options)) : Nat := (files.map (·.size)).sum

theorem checkMimetype_iff {f : ArchiveFile Options} : checkMimetype f = .ok () ↔
    (f.name = mimetypePart → f.data = some (asciiBytes "application/epub+zip")) := by
  unfold checkMimetype
  split
  · rename_i hname
    rw [bind_ok]
    simp only [ofOption_eq_ok, refuseIf_ok, bne_eq_false_iff_eq, hname, true_implies]
    constructor
    · rintro ⟨data, hdata, rfl⟩
      exact hdata
    · exact fun hdata => ⟨_, hdata, rfl⟩
  · rename_i hname
    exact ⟨fun _ h => absurd h hname, fun _ => rfl⟩

theorem listFile_iff {s s' : Listing} {file : Option (ArchiveFile Options)} :
    listFile s file = .ok s' ↔ ∃ f, file = some f ∧ Sound f ∧ f.name ∉ s.names ∧
      s.totalSize + f.size ≤ maxDocumentBytes ∧ s' = ⟨s.names ++ [f.name], s.totalSize + f.size⟩ := by
  unfold listFile
  rw [bind_ok]
  simp only [check_ok, ofOption_eq_ok, refuseIf_ok, checkMimetype_iff, Bool.or_eq_false_iff,
    Bool.not_eq_false', decide_eq_false_iff_not, Nat.not_lt, List.isEmpty_eq_false_iff,
    List.contains_eq_mem, Except.ok.injEq]
  constructor
  · rintro ⟨f, hf, ⟨⟨h1, h2⟩, h3⟩, ⟨⟨hne, hslash⟩, hnew⟩, hsize, hmimetype, hs⟩
    exact ⟨f, hf, ⟨⟨h1, h2, h3⟩, ⟨hne, hslash⟩, hmimetype⟩, hnew, hsize, hs.symm⟩
  · rintro ⟨f, hf, ⟨⟨h1, h2, h3⟩, ⟨hne, hslash⟩, hmimetype⟩, hnew, hsize, hs⟩
    exact ⟨f, hf, ⟨⟨h1, h2⟩, h3⟩, ⟨⟨hne, hslash⟩, hnew⟩, hsize, hmimetype, hs.symm⟩

theorem listFiles_iff {s s' : Listing} {files : List (Option (ArchiveFile Options))} :
    files.foldlM listFile s = .ok s' ↔ ∃ fs, files = fs.map some ∧ (∀ f ∈ fs, Sound f) ∧
      (∀ f ∈ fs, f.name ∉ s.names) ∧ (fs.map (·.name)).Nodup ∧
      (fs ≠ [] → s.totalSize + totalSize fs ≤ maxDocumentBytes) ∧
      s' = ⟨s.names ++ fs.map (·.name), s.totalSize + totalSize fs⟩ := by
  induction files generalizing s with
  | nil =>
    constructor
    · intro h
      cases h
      exact ⟨[], rfl, nofun, nofun, List.nodup_nil, fun h => absurd rfl h, by simp [totalSize]⟩
    · rintro ⟨fs, hfs, -, -, -, -, rfl⟩
      obtain rfl := List.map_eq_nil_iff.mp hfs.symm
      simp [totalSize, pure, Except.pure]
  | cons file files ih =>
    rw [List.foldlM_cons, bind_ok]
    constructor
    · rintro ⟨s1, hfile, h⟩
      obtain ⟨f, rfl, hsound, hnew, hsize, rfl⟩ := listFile_iff.mp hfile
      obtain ⟨fs, rfl, hsounds, hnews, hnodup, hsizes, rfl⟩ := ih.mp h
      refine ⟨f :: fs, rfl, List.forall_mem_cons.mpr ⟨hsound, hsounds⟩, ?_, ?_, fun _ => ?_, ?_⟩
      · exact List.forall_mem_cons.mpr ⟨hnew, fun g hg h => hnews g hg (List.mem_append_left _ h)⟩
      · refine List.nodup_cons.mpr ⟨fun hmem => ?_, hnodup⟩
        obtain ⟨g, hg, hname⟩ := List.mem_map.mp hmem
        exact hnews g hg (List.mem_append_right _ (by rw [hname]; exact List.mem_singleton_self _))
      · cases fs with
        | nil => simpa [totalSize] using hsize
        | cons g fs =>
          have := hsizes (List.cons_ne_nil _ _)
          simp only [totalSize, List.map_cons, List.sum_cons] at this ⊢
          omega
      · simp [totalSize, Nat.add_assoc]
    · rintro ⟨fs, hfs, hsounds, hnews, hnodup, hsizes, rfl⟩
      obtain ⟨f, fs, rfl, rfl, rfl⟩ := List.map_eq_cons_iff.mp hfs.symm
      obtain ⟨hsound, hsounds⟩ := List.forall_mem_cons.mp hsounds
      obtain ⟨hnew, hnews⟩ := List.forall_mem_cons.mp hnews
      obtain ⟨hnot, hnodup⟩ := List.nodup_cons.mp hnodup
      have htotal := hsizes (List.cons_ne_nil _ _)
      simp only [totalSize, List.map_cons, List.sum_cons] at htotal
      refine ⟨_, listFile_iff.mpr ⟨f, rfl, hsound, hnew, by omega, rfl⟩, ih.mpr ⟨fs, rfl, hsounds, ?_, hnodup,
        fun _ => ?_, ?_⟩⟩
      · intro g hg hmem
        rcases List.mem_append.mp hmem with hmem | hmem
        · exact hnews g hg hmem
        · exact hnot (List.mem_map.mpr ⟨g, hg, List.mem_singleton.mp hmem⟩)
      · dsimp only [totalSize]
        omega
      · simp [totalSize, Nat.add_assoc]

end Files

section Book

variable [QuickXml] [Zip]

/-- The files of a book. -/
structure Book (files : List Zip.File) : Prop where
  first : ∃ f rest, files = f :: rest ∧ f.name = mimetypePart ∧ f.isDir = false
  number : files.length ≤ maxEpubEntries
  sound : ∀ f ∈ files, Sound f
  nodup : (files.map (·.name)).Nodup
  size : totalSize files ≤ maxDocumentBytes
  container : ∃ f ∈ files, f.name = containerPart
  opf : ∃ f ∈ files, isOpf f.name = true
  chapter : ∃ f ∈ files, isChapter f.name = true
  xml : ∀ f ∈ files, f.name = containerPart ∨ isOpf f.name = true →
    ∃ text, f.data.bind fromUtf8 = some text ∧ QuickXml.reads text = true

omit [QuickXml] in
/-- A name is found where it stands. -/
theorem find_name {files : List Zip.File} (hnodup : (files.map (·.name)).Nodup) {f : Zip.File} (hf : f ∈ files) :
    files.find? (·.name == f.name) = some f := by
  induction files with
  | nil => cases hf
  | cons g files ih =>
    obtain ⟨hnot, hnodup⟩ := List.nodup_cons.mp hnodup
    rcases List.mem_cons.mp hf with rfl | hf
    · rw [List.find?_cons_of_pos (by simp)]
    · have hne : g.name ≠ f.name := fun h => hnot (List.mem_map.mpr ⟨f, hf, h.symm⟩)
      rw [List.find?_cons_of_neg (by simpa using hne), ih hnodup hf]

omit [QuickXml] in
theorem readFile_iff {files : List Zip.File} (hnodup : (files.map (·.name)).Nodup) {f : Zip.File}
    (hf : f ∈ files) {r : Zip.File × Bytes} :
    readFile files f.name = .ok r ↔ r.1 = f ∧ f.data = some r.2 := by
  unfold readFile
  simp only [bind_ok, ofOption_eq_ok, find_name hnodup hf, Option.some.injEq, exists_eq_left', Except.ok.injEq]
  constructor
  · rintro ⟨data, hdata, rfl⟩
    exact ⟨rfl, hdata⟩
  · rintro ⟨rfl, hdata⟩
    exact ⟨r.2, hdata, rfl⟩

omit [QuickXml] in
theorem partText_iff {files : List Zip.File} (hnodup : (files.map (·.name)).Nodup) {f : Zip.File}
    (hf : f ∈ files) {text : Str} : partText files f.name = .ok text ↔ f.data.bind fromUtf8 = some text := by
  unfold partText
  simp only [bind_ok, readFile_iff hnodup hf, ofOption_eq_ok, Option.bind_eq_some_iff]
  constructor
  · rintro ⟨⟨g, data⟩, ⟨-, hdata⟩, htext⟩
    exact ⟨data, hdata, htext⟩
  · rintro ⟨data, hdata, htext⟩
    exact ⟨(f, data), ⟨rfl, hdata⟩, htext⟩

theorem checkPart_iff {files : List Zip.File} (hnodup : (files.map (·.name)).Nodup) {f : Zip.File}
    (hf : f ∈ files) : checkPart files f.name = .ok () ↔
      ∃ text, f.data.bind fromUtf8 = some text ∧ QuickXml.reads text = true := by
  unfold checkPart validateXml
  simp only [bind_ok, partText_iff hnodup hf]
  refine exists_congr fun text => and_congr_right fun _ => ?_
  split <;> simp_all [fail]

omit [QuickXml] in
theorem archive_iff {package : Bytes} {files : List Zip.File} (h : Zip.files package = some (files.map some)) :
    archive package = .ok files := by
  unfold archive
  rw [h, Option.map_some, List.filterMap_map]
  simp [ofOption]

omit [QuickXml] in
theorem checkFirst_iff {files : List Zip.File} (hsound : ∀ f ∈ files, Sound f) :
    checkFirst (files.map some).head?.join = .ok () ↔
      ∃ f rest, files = f :: rest ∧ f.name = mimetypePart ∧ f.isDir = false := by
  cases files with
  | nil => simp [checkFirst, ofOption, fail]
  | cons f files =>
    obtain ⟨hencrypted, hsymlink, -⟩ := (hsound f List.mem_cons_self).plain
    simp [checkFirst, ofOption, hencrypted, hsymlink]

/-- `archive_names` takes the books, and gives the names of their files. -/
theorem archiveNames_iff {package : Bytes} {names : List Str} : archiveNames package = .ok names ↔
    package.length ≤ maxDocumentBytes ∧ ∃ files, Zip.files package = some (files.map some) ∧ Book files ∧
      names = files.map (·.name) := by
  unfold archiveNames
  constructor
  · intro h
    obtain ⟨hlen, h⟩ := check_ok.mp h
    obtain ⟨ofiles, hfiles, h⟩ := bind_ok.mp h
    obtain ⟨hnumber, h⟩ := check_ok.mp h
    obtain ⟨hfirst, h⟩ := check_ok.mp h
    obtain ⟨s, hs, h⟩ := bind_ok.mp h
    obtain ⟨hneeded, h⟩ := check_ok.mp h
    obtain ⟨hkinds, h⟩ := check_ok.mp h
    obtain ⟨afiles, harchive, h⟩ := bind_ok.mp h
    obtain ⟨hxml, h⟩ := check_ok.mp h
    obtain ⟨files, rfl, hsound, -, hnodup, hsize, rfl⟩ := listFiles_iff.mp hs
    have hfiles := ofOption_eq_ok.mp hfiles
    obtain rfl : afiles = files := Except.ok.inj (harchive.symm.trans (archive_iff hfiles))
    simp only [List.nil_append, Nat.zero_add, refuseIf_ok, Bool.or_eq_false_iff, Bool.not_eq_false',
      decide_eq_false_iff_not, Nat.not_lt, List.isEmpty_eq_false_iff, List.contains_eq_mem,
      decide_eq_true_eq, List.length_map, List.any_map, List.any_eq_true, Function.comp_apply, ne_eq,
      List.map_eq_nil_iff, List.mem_map] at hlen hnumber hneeded hkinds hsize h
    refine ⟨hlen, afiles, hfiles, ⟨(checkFirst_iff hsound).mp hfirst, hnumber.2, hsound, hnodup,
      hsize hnumber.1, hneeded.2, hkinds.1, hkinds.2, fun f hf hname => ?_⟩, (Except.ok.inj h).symm⟩
    refine (checkPart_iff hnodup hf).mp (forM_ok.mp hxml f.name (List.mem_filter.mpr ⟨?_, ?_⟩))
    · exact List.mem_append_right _ (List.mem_map_of_mem hf)
    · simpa using hname
  · rintro ⟨hlen, files, hfiles, book, rfl⟩
    have hne : files ≠ [] := by
      obtain ⟨f, rest, rfl, -⟩ := book.first
      exact List.cons_ne_nil _ _
    obtain ⟨m, rest, hm, hmimetype, -⟩ := book.first
    have hfold : (files.map some).foldlM listFile ⟨[], 0⟩ = .ok ⟨files.map (·.name), 0 + totalSize files⟩ :=
      listFiles_iff.mpr ⟨files, rfl, book.sound, fun _ _ => List.not_mem_nil, book.nodup,
        fun _ => (Nat.zero_add _).trans_le book.size, rfl⟩
    have hmem : mimetypePart ∈ files.map (·.name) := by
      rw [hm]
      exact hmimetype ▸ List.mem_cons_self
    refine check_ok.mpr ⟨refuseIf_ok.mpr (by simpa using hlen), bind_ok.mpr ⟨_, ofOption_eq_ok.mpr hfiles,
      check_ok.mpr ⟨refuseIf_ok.mpr ?_, check_ok.mpr ⟨(checkFirst_iff book.sound).mpr book.first,
      bind_ok.mpr ⟨_, hfold, check_ok.mpr ⟨refuseIf_ok.mpr ?_, check_ok.mpr ⟨refuseIf_ok.mpr ?_,
      bind_ok.mpr ⟨_, archive_iff hfiles, check_ok.mpr ⟨forM_ok.mpr fun name hname => ?_, rfl⟩⟩⟩⟩⟩⟩⟩⟩⟩
    · simp only [Bool.or_eq_false_iff, List.isEmpty_eq_false_iff, ne_eq, List.map_eq_nil_iff, List.length_map,
        decide_eq_false_iff_not, Nat.not_lt]
      exact ⟨hne, book.number⟩
    · simp only [Bool.or_eq_false_iff, Bool.not_eq_false', List.contains_eq_mem, decide_eq_true_eq]
      exact ⟨hmem, List.mem_map.mpr book.container⟩
    · simp only [Bool.or_eq_false_iff, Bool.not_eq_false', List.any_map, List.any_eq_true, Function.comp_apply]
      exact ⟨book.opf, book.chapter⟩
    · obtain ⟨hname, hkind⟩ := List.mem_filter.mp hname
      obtain ⟨f, hf, rfl⟩ := List.mem_map.mp hname
      exact (checkPart_iff book.nodup hf).mpr (book.xml f hf (by simpa using hkind))

end Book

/-! ## What is written is read -/

/-- A file is written with its name and its options. -/
structure CopyOf {Options : Type} (file : ArchiveFile Options) (entry : ArchiveEntry Options) : Prop where
  name : entry.name = file.name
  isDir : entry.isDir = file.isDir
  options : entry.options = file.options

/-- What an archive holds of an entry: a directory has no data. -/
def ArchiveEntry.stored {Options : Type} (entry : ArchiveEntry Options) : Bytes :=
  if entry.isDir then [] else entry.data

/-- The file that is read where a file was written with other data. -/
structure StoredAs {Options : Type} (file : ArchiveFile Options) (data : Bytes) (file' : ArchiveFile Options) :
    Prop where
  name : file'.name = file.name
  plain : file'.encrypted = false ∧ file'.isSymlink = false ∧ file'.enclosed = file.enclosed
  isDir : file'.isDir = file.isDir
  content : file'.data = some data
  size : file'.size = data.length

/-- `ZipWriter` writes what `ZipArchive` reads: files that are written with the names and the options of the
plain files of an archive are these files again, with the data that was written. -/
structure Keeps [Zip] : Prop where
  files_finish : ∀ {package output : Bytes} {files : List Zip.File} {entries : List Zip.Entry},
    Zip.files package = some (files.map some) → (∀ f ∈ files, f.encrypted = false ∧ f.isSymlink = false) →
    List.Forall₂ CopyOf files entries → Zip.finish entries = some output →
    ∃ files', Zip.files output = some (files'.map some) ∧
      List.Forall₂ (fun pair file' => StoredAs pair.1 (ArchiveEntry.stored pair.2) file') (files.zip entries) files'

end LinguaMesh.Epub
