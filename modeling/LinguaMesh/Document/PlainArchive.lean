import LinguaMesh.Document.EpubArchive
import LinguaMesh.Domain.Utf8Encode

/-!
# A plain archive

An archive of the kind of a zip without compression: the files one after another, each with
a mark for directories, its name and its data. Lengths are counted out, so that every archive
that is written is read again (`readFiles_writeFiles`), and the archive keeps what the exports
rely on (`keeps_plainZip`).
-/

namespace LinguaMesh.PlainArchive

open Ooxml (ArchiveFile ArchiveEntry Zip)
open Epub (Keeps CopyOf StoredAs)

def writeNat (n : Nat) : Bytes := List.replicate n 1 ++ [0]

def readNat : Bytes → Option (Nat × Bytes)
  | [] => none
  | b :: bs =>
    if b = 0 then some (0, bs)
    else if b = 1 then (readNat bs).map fun r => (r.1 + 1, r.2)
    else none

def writeBytes (bs : Bytes) : Bytes := writeNat bs.length ++ bs

def readBytes (bs : Bytes) : Option (Bytes × Bytes) :=
  (readNat bs).bind fun r => if r.1 ≤ r.2.length then some (r.2.take r.1, r.2.drop r.1) else none

/-- A file as it is read. -/
def plainFile (name : Str) (isDir : Bool) (data : Bytes) : ArchiveFile Unit :=
  ⟨name, false, false, true, isDir, data.length, data.length, (), some data⟩

def writeFile (entry : ArchiveEntry Unit) : Bytes :=
  (if entry.isDir then 1 else 0) :: (writeBytes (encodeUtf8 entry.name) ++ writeBytes (Epub.ArchiveEntry.stored entry))

def readFile : Bytes → Option (ArchiveFile Unit × Bytes)
  | [] => none
  | mark :: bs => do
    let (name, bs) ← readBytes bs
    let (data, bs) ← readBytes bs
    let name ← fromUtf8 name
    some (plainFile name (mark == 1) data, bs)

/-- At most `n` files. -/
def readFiles : Nat → Bytes → Option (List (ArchiveFile Unit))
  | _, [] => some []
  | 0, _ :: _ => none
  | n + 1, b :: bs => do
    let (file, rest) ← readFile (b :: bs)
    (readFiles n rest).map (file :: ·)

def writeFiles (entries : List (ArchiveEntry Unit)) : Bytes := entries.flatMap writeFile

@[reducible] def plainZip : Zip where
  Options := Unit
  files package := (readFiles package.length package).map (·.map some)
  finish entries := some (writeFiles entries)

/-! ## Reading what was written -/

theorem readNat_writeNat (n : Nat) (rest : Bytes) : readNat (writeNat n ++ rest) = some (n, rest) := by
  unfold writeNat
  induction n with
  | zero => rfl
  | succ n ih =>
    rw [List.replicate_succ, List.cons_append, List.cons_append, readNat, if_neg (by decide), if_pos rfl, ih]
    rfl

theorem readBytes_writeBytes (bs rest : Bytes) : readBytes (writeBytes bs ++ rest) = some (bs, rest) := by
  unfold readBytes writeBytes
  rw [List.append_assoc, readNat_writeNat, Option.bind_some, if_pos (by simp)]
  simp

theorem readFile_writeFile (entry : ArchiveEntry Unit) (rest : Bytes) :
    readFile (writeFile entry ++ rest) =
      some (plainFile entry.name entry.isDir (Epub.ArchiveEntry.stored entry), rest) := by
  unfold writeFile
  have hmark : ((if entry.isDir then (1 : UInt8) else 0) == 1) = entry.isDir := by
    cases entry.isDir <;> rfl
  rw [List.cons_append, List.append_assoc]
  simp only [readFile, readBytes_writeBytes, Option.bind_eq_bind, Option.bind_some, fromUtf8_encode, hmark]

theorem readFiles_writeFiles {entries : List (ArchiveEntry Unit)} {n : Nat} (hn : entries.length ≤ n) :
    readFiles n (writeFiles entries) =
      some (entries.map fun entry => plainFile entry.name entry.isDir (Epub.ArchiveEntry.stored entry)) := by
  induction entries generalizing n with
  | nil => cases n <;> rfl
  | cons entry entries ih =>
    obtain ⟨n, rfl⟩ := Nat.exists_eq_succ_of_ne_zero (Nat.ne_of_gt (Nat.lt_of_lt_of_le (Nat.succ_pos _) hn))
    have hwrite : writeFiles (entry :: entries) = writeFile entry ++ writeFiles entries := List.flatMap_cons
    have hread := readFile_writeFile entry (writeFiles entries)
    rw [hwrite]
    unfold writeFile at hread ⊢
    rw [List.cons_append] at hread ⊢
    rw [readFiles, hread, Option.bind_eq_bind, Option.bind_some]
    dsimp only
    rw [ih (Nat.le_of_succ_le_succ hn)]
    rfl

theorem length_writeFiles (entries : List (ArchiveEntry Unit)) : entries.length ≤ (writeFiles entries).length := by
  induction entries with
  | nil => exact Nat.le_refl _
  | cons entry entries ih =>
    have hwrite : writeFiles (entry :: entries) = writeFile entry ++ writeFiles entries := List.flatMap_cons
    rw [hwrite, List.length_cons, List.length_append]
    have : 1 ≤ (writeFile entry).length := Nat.succ_le_succ (Nat.zero_le _)
    omega

/-- Every file that is read may be anywhere. -/
theorem enclosed_readFiles {n : Nat} {bs : Bytes} {files : List (ArchiveFile Unit)}
    (h : readFiles n bs = some files) : ∀ f ∈ files, f.enclosed = true := by
  induction n generalizing bs files with
  | zero =>
    cases bs with
    | nil =>
      cases h
      exact nofun
    | cons b bs => cases h
  | succ n ih =>
    cases bs with
    | nil =>
      cases h
      exact nofun
    | cons b bs =>
      rw [readFiles] at h
      obtain ⟨⟨file, rest⟩, hfile, h⟩ := Option.bind_eq_some_iff.mp h
      obtain ⟨files, hfiles, rfl⟩ := Option.map_eq_some_iff.mp h
      obtain ⟨⟨name, bs1⟩, -, hfile⟩ := Option.bind_eq_some_iff.mp hfile
      obtain ⟨⟨data, bs2⟩, -, hfile⟩ := Option.bind_eq_some_iff.mp hfile
      obtain ⟨text, -, hfile⟩ := Option.bind_eq_some_iff.mp hfile
      obtain ⟨rfl, -⟩ := Prod.mk.inj (Option.some.inj hfile)
      exact List.forall_mem_cons.mpr ⟨rfl, ih hfiles⟩

theorem storedAs_plainFile {files : List (ArchiveFile Unit)} {entries : List (ArchiveEntry Unit)}
    (henclosed : ∀ f ∈ files, f.enclosed = true) (h : List.Forall₂ CopyOf files entries) :
    List.Forall₂ (fun pair file' => StoredAs pair.1 (Epub.ArchiveEntry.stored pair.2) file') (files.zip entries)
      (entries.map fun entry => plainFile entry.name entry.isDir (Epub.ArchiveEntry.stored entry)) := by
  induction h with
  | nil => exact .nil
  | cons hcopy _ ih =>
    obtain ⟨hfile, henclosed⟩ := List.forall_mem_cons.mp henclosed
    exact .cons ⟨hcopy.name, ⟨rfl, rfl, hfile.symm⟩, hcopy.isDir, rfl, rfl⟩ (ih henclosed)

theorem keeps_plainZip : @Keeps plainZip := by
  refine @Keeps.mk plainZip fun {package output files entries} hfiles _ hcopies hfinish => ?_
  obtain rfl := Option.some.inj hfinish
  obtain ⟨read, hread, hsome⟩ := Option.map_eq_some_iff.mp hfiles
  obtain rfl : read = files := List.map_injective_iff.mpr (Option.some_injective _) hsome
  refine ⟨_, ?_, storedAs_plainFile (enclosed_readFiles hread) hcopies⟩
  show (readFiles _ (writeFiles entries)).map (·.map some) = _
  rw [readFiles_writeFiles (length_writeFiles entries)]
  rfl

end LinguaMesh.PlainArchive
