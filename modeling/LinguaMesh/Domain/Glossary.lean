import LinguaMesh.Domain.Text

/-!
# Glossaries

A glossary is a list of rules (`GlossaryEntry`); `Glossary.validate` checks the
number of rules, each rule's fields and that no two enabled rules of one scope
give different translations. `locale_matches` and the word-boundary test decide
where a rule applies.
-/

namespace LinguaMesh

open Search

def maxGlossaryEntries : Nat := 256
def maxGlossaryTermBytes : Nat := 512
def maxGlossaryNoteBytes : Nat := 2048

structure GlossaryEntry where
  sourceTerm : Str
  targetTerm : Str
  sourceLocale : Option Str
  targetLocale : Option Str
  caseSensitive : Bool
  wholeWord : Bool
  immutable : Bool
  domain : Option Str
  priority : Int
  notes : Option Str
  enabled : Bool
  deriving DecidableEq, Repr

structure Glossary where
  entries : List GlossaryEntry
  deriving DecidableEq, Repr

inductive GlossaryError where
  | tooManyEntries
  | invalidField (field : String)
  | conflictingEntries
  | credentialLikeValue (field : String)
  deriving DecidableEq, Repr

/-- The `Display` text. -/
def GlossaryError.message : GlossaryError → String
  | tooManyEntries => "Glossary contains too many entries."
  | invalidField field => "Glossary " ++ field ++ " is invalid."
  | conflictingEntries => "Glossary contains conflicting entries."
  | credentialLikeValue field => "Glossary " ++ field ++ " contains credential-like data."

/-! ## Credential-like values -/

def isTokenByte (c : Char) : Bool := c.isAlphanum || c == '-' || c == '_'

def containsCredentialToken (value pre : Str) (minimumLength : Nat) : Bool :=
  (matchIndices value pre).any fun start =>
    minimumLength ≤ ((value.drop start).takeWhile isTokenByte).length

def bearerPrefix : Str := "Bearer ".toList

def containsBearerToken (value : Str) : Bool :=
  (matchIndices value bearerPrefix).any fun start =>
    20 ≤ ((value.drop (start + bearerPrefix.length)).takeWhile
      fun c => isTokenByte c || c == '.').length

def looksLikeCredential (value : Str) : Bool :=
  let value := trim value
  containsCredentialToken value "sk-".toList 20 ||
  containsCredentialToken value "ghp_".toList 24 ||
  contains value "github_pat_".toList ||
  containsBearerToken value ||
  contains value "PRIVATE KEY-----".toList

/-! ## Validation -/

def validateGlossaryText (value : Str) (maxBytes : Nat) (field : String) :
    Except GlossaryError Unit :=
  if (trim value).isEmpty || maxBytes < utf8Len value || value.contains '\x00' then
    .error (.invalidField field)
  else if looksLikeCredential value then .error (.credentialLikeValue field)
  else .ok ()

/-- A field that may be absent. -/
def validateOptional (value : Option Str) (maxBytes : Nat) (field : String) :
    Except GlossaryError Unit :=
  match value with
  | some value => validateGlossaryText value maxBytes field
  | none => .ok ()

def GlossaryEntry.validate (e : GlossaryEntry) : Except GlossaryError Unit := do
  validateGlossaryText e.sourceTerm maxGlossaryTermBytes "source term"
  validateGlossaryText e.targetTerm maxGlossaryTermBytes "target term"
  validateOptional e.sourceLocale 64 "source locale"
  validateOptional e.targetLocale 64 "target locale"
  validateOptional e.domain 128 "domain"
  validateOptional e.notes maxGlossaryNoteBytes "notes"

/-- Two enabled rules of one scope with different translations. -/
def conflicts (left right : GlossaryEntry) : Bool :=
  right.enabled && left.sourceTerm == right.sourceTerm &&
  left.caseSensitive == right.caseSensitive && left.sourceLocale == right.sourceLocale &&
  left.targetLocale == right.targetLocale && left.domain == right.domain &&
  left.targetTerm != right.targetTerm

def anyConflict : List GlossaryEntry → Bool
  | [] => false
  | left :: rest => (left.enabled && rest.any (conflicts left)) || anyConflict rest

def Glossary.validate (g : Glossary) : Except GlossaryError Unit := do
  if maxGlossaryEntries < g.entries.length then throw .tooManyEntries
  g.entries.forM GlossaryEntry.validate
  if anyConflict g.entries then throw .conflictingEntries

/-! ## Applicability -/

def localeMatches (configured requested : Option Str) : Bool :=
  match configured with
  | none => true
  | some configured => requested == some configured

section
variable [UnicodeTables]

def isWordCharacter (c : Char) : Bool := isAlphanumeric c || c == '_'

def isWholeWordMatch (source : Str) (start stop : Nat) : Bool :=
  let leftIsWord := (source.take start).getLast?.any isWordCharacter
  let rightIsWord := (source.drop stop).head?.any isWordCharacter
  !leftIsWord && !rightIsWord

end

end LinguaMesh
