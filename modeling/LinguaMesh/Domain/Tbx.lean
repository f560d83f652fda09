import LinguaMesh.Lib.Nesting
import LinguaMesh.Domain.GlossaryCsv

/-!
# TBX glossaries

`Glossary::from_tbx`: one pass over the events of an XML text, which keeps the
`termEntry`, the `langSet`, the `term` and the `descrip` that it is in
(`TbxReading`), and makes the rules of an entry when the entry ends. The reader of
`quick_xml` is a parameter (`XmlEvents`): what is used of it is that an end tag
names the innermost open element (`XmlEvents.Lawful`).

The text of a file is a forest of elements, and `tbxRules` says what the file
means in terms of it.
-/

namespace LinguaMesh.GlossaryTbx

open Nesting

def maxGlossaryTbxBytes : Nat := GlossaryCsv.maxGlossaryCsvBytes

inductive GlossaryTbxError where
  | tooLarge
  | malformed
  | missingTerms
  | tooManyEntries
  | invalidEntry (error : GlossaryError)
  | glossary (error : GlossaryError)
  deriving DecidableEq, Repr

/-- The `Display` text. -/
def GlossaryTbxError.message : GlossaryTbxError → String
  | tooLarge => "Glossary TBX exceeds the 4 MiB size limit."
  | malformed => "Glossary TBX is malformed or uses unsupported XML content."
  | missingTerms => "Glossary TBX entries must contain source and target terms."
  | tooManyEntries => "Glossary TBX contains too many entries."
  | invalidEntry error => "Glossary TBX contains an invalid entry: " ++ error.message
  | glossary error => "Glossary TBX contains invalid glossary rules: " ++ error.message

/-! ## Events -/

/-- The name of an attribute and its value, decoded and normalized; none for an error. -/
structure XmlAttribute where
  key : Str
  value : Option Str
  deriving DecidableEq, Repr

/-- An event that is no start and no end. -/
inductive XmlLeaf where
  | empty (name : Str)
  | text (raw : Str)
  | cData (raw : Str)
  | generalRef (entity : Str)
  | comment | decl | pi | docType
  | error
  deriving DecidableEq, Repr

/-- `Event`; an attribute is `none` where the iterator over them gives an error. -/
abbrev XmlEvent := Token Str (List (Option XmlAttribute)) XmlLeaf

abbrev XmlForest := Forest Str (List (Option XmlAttribute)) XmlLeaf

/-- `quick_xml`: the events of a text up to its end or to an error, which is the last one then, and
`escape::unescape`, `none` for an error. -/
class XmlEvents where
  events : Str → List XmlEvent
  unescape : Str → Option Str

/-- An end tag that does not name the innermost open element is an error of the reader. -/
structure XmlEvents.Lawful [XmlEvents] : Prop where
  matched : ∀ source, .leaf .error ∉ events source → (unclosed [] (events source)).isSome

/-- `QName::local_name`. -/
def localName (name : Str) : Str :=
  if ':' ∈ name then (name.dropWhile (· ≠ ':')).tail else name

inductive TbxName where
  | termEntry | langSet | term | descrip | other
  deriving DecidableEq, Repr

def tbxName (name : Str) : TbxName :=
  match String.ofList (localName name) with
  | "termEntry" => .termEntry
  | "langSet" => .langSet
  | "term" => .term
  | "descrip" => .descrip
  | _ => .other

/-- The value of the first attribute of a local name. -/
def tbxAttribute (name : Str) : List (Option XmlAttribute) → Except GlossaryTbxError (Option Str)
  | [] => .ok none
  | none :: _ => .error .malformed
  | some first :: attributes =>
    if localName first.key = name then
      match first.value with
      | none => .error .malformed
      | some value => .ok (some (trim value))
    else tbxAttribute name attributes

/-! ## Entries -/

structure TbxLangSet where
  locale : Option Str
  terms : List Str
  deriving DecidableEq, Repr

structure TbxEntry where
  langSets : List TbxLangSet
  note : Option Str
  deriving DecidableEq, Repr

/-- The rule of one target term. -/
def appendTerm (source target : TbxLangSet) (note : Option Str) (sourceTerm : Str)
    (entries : List GlossaryEntry) (targetTerm : Str) :
    Except GlossaryTbxError (List GlossaryEntry) :=
  if maxGlossaryEntries ≤ entries.length then .error .tooManyEntries
  else do
    let entry ← (GlossaryCsv.newEntry sourceTerm targetTerm).mapError .invalidEntry
    .ok (entries ++ [{ entry with
      sourceLocale := source.locale.or entry.sourceLocale
      targetLocale := target.locale.or entry.targetLocale
      notes := ((note.filter fun note => !(trim note).isEmpty).map trim).or entry.notes }])

def appendTarget (source : TbxLangSet) (note : Option Str) (sourceTerm : Str)
    (entries : List GlossaryEntry) (target : TbxLangSet) :
    Except GlossaryTbxError (List GlossaryEntry) :=
  if target.terms = [] then .error .missingTerms
  else target.terms.foldlM (appendTerm source target note sourceTerm) entries

def appendTbxEntries (entries : List GlossaryEntry) (entry : TbxEntry) :
    Except GlossaryTbxError (List GlossaryEntry) :=
  match entry.langSets with
  | [] => .error .missingTerms
  | source :: targets =>
    match source.terms with
    | [] => .error .missingTerms
    | sourceTerm :: _ =>
      if targets = [] then .error .missingTerms
      else targets.foldlM (appendTarget source entry.note sourceTerm) entries

/-! ## The pass -/

/-- Where the pass is in an entry, and the rules of the entries before. -/
structure TbxReading where
  entry : Option TbxEntry
  currentLang : Option Nat
  currentTerm : Option Str
  currentNote : Option Str
  noteDepth : Nat
  entries : List GlossaryEntry
  deriving DecidableEq, Repr

namespace TbxReading

/-- `append_tbx_text`, for a text that is decoded; none for an error. -/
def appendText (r : TbxReading) (text : Option Str) : Except GlossaryTbxError TbxReading :=
  match text with
  | none => .error .malformed
  | some text =>
    match r.currentTerm with
    | some term => .ok { r with currentTerm := some (term ++ text) }
    | none =>
      if 0 < r.noteDepth then
        match r.currentNote with
        | none => .error .malformed
        | some note => .ok { r with currentNote := some (note ++ text) }
      else .ok r

def start (r : TbxReading) (name : Str) (attributes : List (Option XmlAttribute)) :
    Except GlossaryTbxError TbxReading :=
  match tbxName name with
  | .termEntry =>
    if r.entry.isSome then .error .malformed else .ok { r with entry := some ⟨[], none⟩ }
  | .langSet =>
    match r.entry with
    | none => .error .malformed
    | some entry => do
      let locale ← tbxAttribute "lang".toList attributes
      .ok { r with
        entry := some { entry with langSets := entry.langSets ++ [⟨locale, []⟩] }
        currentLang := some entry.langSets.length }
  | .term =>
    if r.currentLang.isNone ∨ r.currentTerm.isSome then .error .malformed
    else .ok { r with currentTerm := some [] }
  | .descrip =>
    if r.entry.isNone ∨ r.currentTerm.isSome ∨ 0 < r.noteDepth then .error .malformed
    else .ok { r with currentNote := some [], noteDepth := 1 }
  | .other => .ok (if 0 < r.noteDepth then { r with noteDepth := r.noteDepth + 1 } else r)

/-- The term is over: it goes to the `langSet`, which is there (`index` is never past the end). -/
def endTerm (r : TbxReading) : Except GlossaryTbxError TbxReading :=
  match r.currentTerm with
  | none => .error .malformed
  | some term =>
    if trim term = [] then .error .malformed
    else match r.currentLang, r.entry with
    | some index, some entry =>
      .ok { r with
        currentTerm := none
        entry := some { entry with
          langSets := entry.langSets.modify index fun langSet =>
            { langSet with terms := langSet.terms ++ [trim term] } } }
    | _, _ => .error .malformed

/-- An end tag in a `descrip`, which is over if it is its own. -/
def endNote (r : TbxReading) : Except GlossaryTbxError TbxReading :=
  if r.noteDepth = 1 then
    match r.entry with
    | none => .error .malformed
    | some entry => .ok { r with
        noteDepth := 0, currentNote := none, entry := some { entry with note := r.currentNote } }
  else .ok { r with noteDepth := r.noteDepth - 1 }

def stop (r : TbxReading) (name : Str) : Except GlossaryTbxError TbxReading :=
  match tbxName name with
  | .term => r.endTerm
  | .langSet => .ok { r with currentLang := none }
  | .descrip => if 0 < r.noteDepth then r.endNote else .ok r
  | .termEntry =>
    if r.currentTerm.isSome ∨ 0 < r.noteDepth then .error .malformed
    else match r.entry with
    | none => .error .malformed
    | some entry => do
      let entries ← appendTbxEntries r.entries entry
      .ok { r with entry := none, entries := entries }
  | .other => .ok { r with noteDepth := r.noteDepth - 1 }

variable [XmlEvents]

def leaf (r : TbxReading) (event : XmlLeaf) : Except GlossaryTbxError TbxReading :=
  match event with
  | .empty name =>
    match tbxName name with
    | .term | .langSet | .termEntry => .error .malformed
    | _ => .ok r
  | .text raw => r.appendText (XmlEvents.unescape raw)
  | .cData raw => r.appendText (some raw)
  | .generalRef entity => r.appendText (XmlEvents.unescape ("&".toList ++ entity ++ ";".toList))
  | .comment | .decl | .pi => .ok r
  | .docType | .error => .error .malformed

def step (r : TbxReading) : XmlEvent → Except GlossaryTbxError TbxReading
  | .opening name attributes => r.start name attributes
  | .closing name => r.stop name
  | .leaf event => r.leaf event

end TbxReading

structure TbxState where
  depth : Nat
  rootSeen : Bool
  rootClosed : Bool
  reading : TbxReading
  deriving DecidableEq, Repr

def TbxState.initial : TbxState := ⟨0, false, false, ⟨none, none, none, none, 0, []⟩⟩

/-- The count of the open elements at a start tag, which 4 MiB cannot overflow; there is one root. -/
def TbxState.enter (s : TbxState) : Except GlossaryTbxError TbxState :=
  if s.depth = 0 then
    if s.rootSeen then .error .malformed else .ok { s with depth := 1, rootSeen := true }
  else if s.rootClosed then .error .malformed
  else .ok { s with depth := s.depth + 1 }

section Import

variable [XmlEvents]

def TbxState.step (s : TbxState) (event : XmlEvent) : Except GlossaryTbxError TbxState :=
  match event with
  | .opening _ _ => do
    let s ← s.enter
    let reading ← s.reading.step event
    .ok { s with reading }
  | .closing _ =>
    if s.depth = 0 then .error .malformed
    else do
      let reading ← s.reading.step event
      .ok { s with
        depth := s.depth - 1, rootClosed := s.rootClosed || s.depth == 1, reading := reading }
  | .leaf _ => do
    let reading ← s.reading.step event
    .ok { s with reading }

def fromTbx (source : Str) : Except GlossaryTbxError Glossary :=
  if maxGlossaryTbxBytes < utf8Len source then .error .tooLarge
  else do
    let s ← (XmlEvents.events source).foldlM TbxState.step .initial
    if ¬ s.rootSeen ∨ ¬ s.rootClosed ∨ s.depth ≠ 0 ∨ s.reading.entry.isSome ∨
        s.reading.currentTerm.isSome then .error .malformed
    else if s.reading.entries = [] then .error .missingTerms
    else (GlossaryCsv.newGlossary s.reading.entries).mapError .glossary

end Import

/-! ## What a file means -/

section Meaning

variable [XmlEvents]

/-- The text of an event outside tags. -/
def XmlLeaf.chars : XmlLeaf → Str
  | .text raw => (XmlEvents.unescape raw).getD []
  | .cData raw => raw
  | .generalRef entity => (XmlEvents.unescape ("&".toList ++ entity ++ ";".toList)).getD []
  | _ => []

/-- The text of the elements. -/
def text : XmlForest → Str
  | .nil => []
  | .leaf event rest => event.chars ++ text rest
  | .element _ _ content rest => text content ++ text rest

/-- The text outside of terms. -/
def textOutsideTerms : XmlForest → Str
  | .nil => []
  | .leaf event rest => event.chars ++ textOutsideTerms rest
  | .element name _ content rest =>
    match tbxName name with
    | .term => textOutsideTerms rest
    | _ => textOutsideTerms content ++ textOutsideTerms rest

/-- The terms that are in no `langSet` further inside. -/
def terms : XmlForest → List Str
  | .nil => []
  | .leaf _ rest => terms rest
  | .element name _ content rest =>
    match tbxName name with
    | .term => trim (text content) :: terms rest
    | .langSet => terms rest
    | _ => terms content ++ terms rest

def langSets : XmlForest → List TbxLangSet
  | .nil => []
  | .leaf _ rest => langSets rest
  | .element name attributes content rest =>
    match tbxName name with
    | .langSet =>
      ⟨(tbxAttribute "lang".toList attributes).toOption.join, terms content⟩ ::
        (langSets content ++ langSets rest)
    | _ => langSets content ++ langSets rest

/-- The contents of the `descrip` elements, of which some may be empty tags. -/
def descrips : XmlForest → List XmlForest
  | .nil => []
  | .leaf (.empty name) rest => if tbxName name = .descrip then .nil :: descrips rest else descrips rest
  | .leaf _ rest => descrips rest
  | .element name _ content rest =>
    match tbxName name with
    | .descrip => content :: (descrips content ++ descrips rest)
    | _ => descrips content ++ descrips rest

/-- The contents of the `descrip` elements that have an end tag. -/
def closedDescrips : XmlForest → List XmlForest
  | .nil => []
  | .leaf _ rest => closedDescrips rest
  | .element name _ content rest =>
    match tbxName name with
    | .descrip => content :: (closedDescrips content ++ closedDescrips rest)
    | _ => closedDescrips content ++ closedDescrips rest

/-- The contents of the `termEntry` elements. -/
def termEntries : XmlForest → List XmlForest
  | .nil => []
  | .leaf _ rest => termEntries rest
  | .element name _ content rest =>
    match tbxName name with
    | .termEntry => content :: termEntries rest
    | _ => termEntries content ++ termEntries rest

/-- A text as a note: trimmed, and none if nothing is left. -/
def noteOf (text : Option Str) : Option Str := (text.map trim).filter (· ≠ [])

/-- The note of an entry: its first `descrip`. -/
def firstNote (entry : XmlForest) : Option Str := noteOf ((descrips entry).head?.map text)

/-- The rule for a target term. -/
def tbxRule (source target : TbxLangSet) (note : Option Str) (targetTerm : Str) : GlossaryEntry where
  sourceTerm := source.terms.headD []
  targetTerm := targetTerm
  sourceLocale := source.locale
  targetLocale := target.locale
  caseSensitive := true
  wholeWord := true
  immutable := false
  domain := none
  priority := 0
  notes := note
  enabled := true

/-- The rules of an entry: from its first `langSet` to each term of each of the others. -/
def entryRules (note : Option Str) : List TbxLangSet → List GlossaryEntry
  | [] => []
  | source :: targets => targets.flatMap fun target => target.terms.map (tbxRule source target note)

def tbxRules (doc : XmlForest) : List GlossaryEntry :=
  (termEntries doc).flatMap fun entry => entryRules (firstNote entry) (langSets entry)

/-- The text that the pass takes for the note. -/
def lastNote (entry : XmlForest) : Option Str :=
  noteOf ((closedDescrips entry).getLast?.map textOutsideTerms)

end Meaning

end LinguaMesh.GlossaryTbx
