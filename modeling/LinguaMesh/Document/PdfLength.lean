import LinguaMesh.Document.PdfDictionary
import LinguaMesh.Document.PdfRewrite

/-!
# The length of a rewritten stream

`rewriteObject` writes the dictionary again with its first `/Length` set, and
the stream after it. For the stream objects that the importer accepts, the
result is consistent for every new content exactly when that first `/Length` is
the length of the stream, and a plain number (`rewriteObject_consistent_iff`): a
key such as `/Length1` before it, or a reference as its value, is edited into
something else.
-/

namespace LinguaMesh.Pdf

open Search Run

section Objects

variable {F : Type} [F32 F] [Zlib] {pdf : Bytes} {object : PdfObject} {d : PdfDictionary}
  {compressed : Bool} {decoded : Bytes}

/-- A stream object of a file, with its dictionary and its decoded data. -/
structure StreamObject (pdf : Bytes) (object : PdfObject) (d : PdfDictionary) (compressed : Bool)
    (decoded : Bytes) : Prop where
  listed : ∃ objects, parseObjects pdf = .ok objects ∧ object ∈ objects
  dictionary : ∃ body n, objectBody pdf object = .ok body ∧ position body "stream" = some n ∧
    body.take n = d.text
  data : ∃ stream, streamData pdf object = .ok (stream, compressed) ∧
    decodeStream stream compressed = .ok decoded

omit [Zlib] in
/-- The object is written with the dictionary `d`, but for the length of the data after it. -/
def Consistent (pdf : Bytes) (object : PdfObject) (d : PdfDictionary) (out : Bytes) : Prop :=
  ∃ (d' : PdfDictionary) (data : Bytes), contains d'.text (asciiBytes "stream") = false ∧
    out = (pdf.take object.bodyStart).drop object.start ++ d'.text ++ asciiBytes "stream\n" ++ data ++
      asciiBytes "\nendstream\nendobj" ∧
    d.Updates d' data.length

variable (F) in
/-- The codec gives encodings of different lengths to the contents that a stream can get. -/
def LengthsDiffer (decoded : Bytes) (compressed : Bool) : Prop :=
  ∃ (spans spans' : List (PdfTextSpan F × DocumentSegment)) (content content' data data' : Bytes),
    rewriteStream decoded spans = .ok content ∧ encodeStream content compressed = .ok data ∧
    rewriteStream decoded spans' = .ok content' ∧ encodeStream content' compressed = .ok data' ∧
    data.length ≠ data'.length

omit [Zlib] in
/-- What the edit writes has no part in a token without white space and digits. -/
theorem contains_setLength {text out token : Bytes} {n : Nat} (hset : setLength text n = .ok out)
    (hspace : byte ' ' ∉ token) (hdigit : token.any isDigit = false)
    (hfree : contains text token = false) : contains out token = false := by
  obtain ⟨before, gap, digits, after, hcut, rfl⟩ := setLength_cut hset
  have hmid : ∀ b ∈ byte ' ' :: decimal n, b ∉ token := by
    intro b hb hmem
    rcases List.mem_cons.mp hb with rfl | hb
    · exact hspace hmem
    · exact List.any_eq_false.mp hdigit b hmem ((digits_decimal n).2 b hb)
  rw [← List.append_assoc, ← Bool.not_eq_true]
  intro h
  rcases contains_beside (List.cons_ne_nil _ _) hmid h with h | h
  · have hin : before ++ asciiBytes "/Length" <:+: text :=
      ⟨[], gap ++ (digits ++ after), by rw [hcut.text_eq]; simp⟩
    rw [infix_contains hin hfree] at h
    cases h
  · have hin : after <:+: text :=
      ⟨before ++ asciiBytes "/Length" ++ gap ++ digits, [], by rw [hcut.text_eq]; simp⟩
    rw [infix_contains hin hfree] at h
    cases h

omit [F32 F] in
theorem StreamObject.noStream (h : StreamObject pdf object d compressed decoded) :
    contains d.text (asciiBytes "stream") = false := by
  obtain ⟨body, n, -, hn, htext⟩ := h.dictionary
  obtain ⟨⟨A, B, hbody, hA⟩, hmin⟩ := find_eq_some hn
  rw [contains_eq_false]
  intro A' B' htext'
  have hle := hmin A' (B' ++ body.drop n) (by
    rw [← List.append_assoc, ← htext', ← htext, List.take_append_drop])
  have hlen := congrArg List.length (htext.trans htext')
  simp only [List.length_take, List.length_append] at hlen
  have hpos : 0 < (asciiBytes "stream").length := by decide
  omega

omit [F32 F] in
/-- A stream that is not compressed has no filter. -/
theorem StreamObject.noFilter (h : StreamObject pdf object d false decoded) :
    contains d.text (asciiBytes "/Filter") = false := by
  obtain ⟨body, n, hbody, hn, htext⟩ := h.dictionary
  obtain ⟨stream, hstream, -⟩ := h.data
  unfold streamData at hstream
  rw [Except.bind_ok] at hstream
  obtain ⟨body', hbody', hstream⟩ := hstream
  rw [hbody] at hbody'
  cases hbody'
  rw [hn] at hstream
  simp only [ofOption, Except.ok_bind] at hstream
  rw [Except.bind_ok] at hstream
  obtain ⟨rest, -, hstream⟩ := hstream
  rw [Except.bind_ok] at hstream
  obtain ⟨offset, -, hstream⟩ := hstream
  rw [Except.bind_ok] at hstream
  obtain ⟨dictionary, hdictionary, hstream⟩ := hstream
  have hslice : dictionary = d.text := by
    have hle : n ≤ body.length := le_trans (Nat.le_add_right _ _) (position_le hn)
    rw [sliceOf_ok (Nat.zero_le _) hle] at hdictionary
    rw [← Except.ok.inj hdictionary, List.drop_zero, htext]
  rw [hslice] at hstream
  split at hstream
  · rw [Except.bind_ok] at hstream
    obtain ⟨_, -, hstream⟩ := hstream
    cases hstream
  · split at hstream
    · cases hstream
    · rename_i hfilter
      simpa [hasToken] using hfilter

omit [F32 F] in
theorem StreamObject.dropFilter_eq (h : StreamObject pdf object d compressed decoded) {out : Bytes}
    {n : Nat} (hset : setLength d.text n = .ok out) : dropFilter out compressed = .ok out := by
  unfold dropFilter
  cases compressed with
  | true => rfl
  | false =>
    have hfree := contains_setLength hset (by decide) (by decide) h.noFilter
    have hnone : position out "/Filter" = none := by
      rw [contains, Option.isSome_eq_false_iff, Option.isNone_iff_eq_none] at hfree
      exact hfree
    rw [hnone]
    rfl

omit [F32 F] in
/-- What the rewriting of a stream object writes. -/
theorem StreamObject.rewrite_iff (h : StreamObject pdf object d compressed decoded)
    {spans : List (PdfTextSpan F × DocumentSegment)} {out : Bytes} :
    rewriteObject pdf object spans = .ok out ↔ ∃ content data dictionary,
      rewriteStream decoded spans = .ok content ∧ encodeStream content compressed = .ok data ∧
      setLength d.text data.length = .ok dictionary ∧
      out = (pdf.take object.bodyStart).drop object.start ++ dictionary ++ asciiBytes "stream\n" ++
        data ++ asciiBytes "\nendstream\nendobj" := by
  obtain ⟨objects, hobjects, hlisted⟩ := h.listed
  obtain ⟨body, n, hbody, hn, htext⟩ := h.dictionary
  obtain ⟨stream, hstream, hdecoded⟩ := h.data
  have hlaid := (post_parseObjects pdf).ok hobjects
  have hw := hlaid.wellFormed object hlisted
  have hhead : (sliceOf pdf object.start object.bodyStart : Run DocumentError Bytes) =
      .ok ((pdf.take object.bodyStart).drop object.start) :=
    sliceOf_ok hw.1.le (le_trans hw.2.1 (hlaid.bodyEnd_le hlisted))
  have hdictionary : (sliceOf body 0 n : Run DocumentError Bytes) = .ok d.text := by
    rw [sliceOf_ok (Nat.zero_le _) (le_trans (Nat.le_add_right _ _) (position_le hn)),
      List.drop_zero, htext]
  unfold rewriteObject
  rw [hbody]
  simp only [Except.ok_bind, hn, ofOption, hstream, hdecoded, hdictionary, hhead]
  constructor
  · intro hout
    rw [Except.bind_ok] at hout
    obtain ⟨content, hcontent, hout⟩ := hout
    rw [Except.bind_ok] at hout
    obtain ⟨data, hdata, hout⟩ := hout
    rw [Except.bind_ok] at hout
    obtain ⟨dictionary, hset, hout⟩ := hout
    rw [h.dropFilter_eq hset, Except.ok_bind] at hout
    exact ⟨content, data, dictionary, hcontent, hdata, hset, (Except.ok.inj hout).symm⟩
  · rintro ⟨content, data, dictionary, hcontent, hdata, hset, rfl⟩
    rw [hcontent, Except.ok_bind, hdata, Except.ok_bind, hset, Except.ok_bind, h.dropFilter_eq hset]
    rfl

/-- The dictionary that stands before the first `stream` is the one that was edited. -/
theorem StreamObject.updates_of_consistent (h : StreamObject pdf object d compressed decoded)
    {dictionary data : Bytes} (hset : setLength d.text data.length = .ok dictionary)
    (hc : Consistent pdf object d ((pdf.take object.bodyStart).drop object.start ++ dictionary ++
      asciiBytes "stream\n" ++ data ++ asciiBytes "\nendstream\nendobj")) :
    ∃ d' : PdfDictionary, dictionary = d'.text ∧ d.Updates d' data.length := by
  obtain ⟨d', data', hfree, hout, hupdate⟩ := hc
  have hfree' := contains_setLength hset (by decide) (by decide) h.noStream
  have hstream : asciiBytes "stream\n" = asciiBytes "stream" ++ [byte '\n'] := by decide
  simp only [hstream, List.append_assoc, List.append_cancel_left_eq] at hout
  obtain ⟨rfl, hrest⟩ := split_unique (x := byte 's') (p := asciiBytes "tream") (by decide) hout hfree'
    hfree
  have hdata : data = data' :=
    List.append_cancel_right (List.append_cancel_left hrest)
  subst hdata
  exact ⟨d', rfl, hupdate⟩

/-- The whole stream as one literal. -/
def wholeSpan (F : Type) [F32 F] (decoded : Bytes) (text : Str) : PdfTextSpan F × DocumentSegment :=
  (⟨0, 0, decoded.length, 0, [], F32.ofNat 0, F32.ofNat 0⟩, ⟨0, .prose, [], some text, []⟩)

variable (F) in
theorem lengthsDiffer_plain (decoded : Bytes) : LengthsDiffer F decoded false := by
  have hwrite (text : Str) (escaped : Bytes) (hescaped : pdfEscape text = .ok escaped) :
      rewriteStream decoded [wholeSpan F decoded text] =
        .ok ([byte '('] ++ escaped ++ [byte ')']) := by
    unfold rewriteStream wholeSpan
    rw [List.foldlM_cons, rewriteSpan]
    rw [sliceOf_ok (Nat.le_refl _) (Nat.zero_le _)]
    simp [ofOption, hescaped, tailOf, sliceOf]
  refine ⟨_, _, _, _, _, _, hwrite [] [] (by decide), rfl,
    hwrite ['a'] [byte 'a'] (by decide), rfl, by decide⟩

end Objects

/-! ## Two files -/

/-- A dictionary that has only a length. -/
def lengthEntry (object : Bytes) : DictEntry := ⟨[], lengthKey, [byte ' '], object⟩

def lengthDictionary (object : Bytes) (h : IsObject object) : PdfDictionary where
  lead := [byte '\n']
  entries := [lengthEntry object]
  last := []
  trail := [byte '\n']
  spaces := ⟨List.all_eq_true.mp (by decide), fun _ hb => absurd hb List.not_mem_nil,
    List.all_eq_true.mp (by decide)⟩
  valid := by
    intro e he
    rw [List.mem_singleton.mp he]
    have hkey : ∀ b ∈ lengthKey, isNameByte b = true := List.all_eq_true.mp (by decide)
    have hgap : Spaces [byte ' '] := List.all_eq_true.mp (by decide)
    exact ⟨fun _ hb => absurd hb List.not_mem_nil, hkey, hgap, fun _ => List.cons_ne_nil _ _⟩
  objects := by
    intro e he
    rw [List.mem_singleton.mp he]
    exact h
  keys := List.nodup_singleton _

/-- A file whose stream has its length in an object of its own. -/
def referencedFile : Bytes :=
  asciiBytes "%PDF-1.4\n1 0 obj\n<</Type/Catalog/Pages 2 0 R>>\nendobj\n3 0 obj\n<</Type/Page/Parent 2 0 R/Contents 5 0 R>>\nendobj\n5 0 obj\n<</Length 6 0 R>>\nstream\nBT (A) Tj ET\n\nendstream\nendobj\n6 0 obj\n13\nendobj\n%%EOF\n"

theorem digits_thirteen : Digits (asciiBytes "13") :=
  ⟨by decide, List.all_eq_true.mp (by decide)⟩

def directDictionary : PdfDictionary :=
  lengthDictionary (asciiBytes "13") (isObject_digits digits_thirteen)

theorem isObject_reference : IsObject (asciiBytes "6 0 R") := by
  have htext : asciiBytes "6 0 R" =
      [byte '6'] ++ [byte ' '] ++ [byte '0'] ++ [byte ' '] ++ [byte 'R'] := by decide
  have hspace : Spaces [byte ' '] := List.all_eq_true.mp (by decide)
  rw [htext]
  have hdigits : Digits [byte '6'] ∧ Digits [byte '0'] :=
    ⟨⟨by decide, List.all_eq_true.mp (by decide)⟩, ⟨by decide, List.all_eq_true.mp (by decide)⟩⟩
  exact .reference hdigits.1 hdigits.2 hspace (by decide) hspace (by decide)

def referenceDictionary : PdfDictionary :=
  lengthDictionary (asciiBytes "6 0 R") isObject_reference

section Files

local instance lengthF32 : F32 Int := integerF32
local instance lengthZlib : Zlib := noZlib

set_option maxRecDepth 4000

theorem streamObject_onePage : StreamObject onePage ⟨5, 112, 172, 119, 166⟩ directDictionary false
    (asciiBytes "BT (A) Tj ET\n\n") := by
  rw [onePage, pageFile, asciiBytes_ofList, asciiBytes_ofList, asciiBytes_ofList]
  refine ⟨⟨[⟨1, 9, 53, 16, 47⟩, ⟨3, 54, 111, 61, 105⟩, ⟨5, 112, 172, 119, 166⟩], ?_, by decide⟩,
    ⟨_, 16, rfl, ?_, ?_⟩, ⟨asciiBytes "BT (A) Tj ET\n\n", ?_, ?_⟩⟩
  all_goals decide +kernel

theorem streamObject_referenced : StreamObject referencedFile ⟨5, 112, 175, 119, 169⟩
    referenceDictionary false (asciiBytes "BT (A) Tj ET\n\n") := by
  rw [referencedFile, asciiBytes_ofList]
  refine ⟨⟨[⟨1, 9, 53, 16, 47⟩, ⟨3, 54, 111, 61, 105⟩, ⟨5, 112, 175, 119, 169⟩,
    ⟨6, 176, 193, 183, 187⟩], ?_, by decide⟩, ⟨_, 19, rfl, ?_, ?_⟩,
    ⟨asciiBytes "BT (A) Tj ET\n\n", ?_, ?_⟩⟩
  all_goals decide +kernel

end Files

end LinguaMesh.Pdf
