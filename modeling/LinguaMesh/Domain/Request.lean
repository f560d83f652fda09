import LinguaMesh.Domain.Errors
import LinguaMesh.Domain.Glossary

/-!
# Translation requests

Of a request the engine reads the preset, which `validate` checks, and the
source text.
-/

namespace LinguaMesh

open Search

inductive ProfileValidationError where
  | invalidProfileId | invalidSecretRef | invalidEndpoint
  | invalidField (field : String)
  | credentialLikeValue (field : String)
  deriving DecidableEq, Repr

/-- The `Display` text. -/
def ProfileValidationError.message : ProfileValidationError → String
  | invalidProfileId => "Provider profile ID is invalid."
  | invalidSecretRef => "Provider secret reference is invalid."
  | invalidEndpoint => "Provider endpoint is invalid or unsafe."
  | invalidField field => "Provider profile field is invalid: " ++ field ++ "."
  | credentialLikeValue field => "Provider profile field resembles a credential: " ++ field ++ "."

def maxStableIdBytes : Nat := 128
def maxTranslationPresetTextBytes : Nat := 512

def isStableIdentifier (value : Str) : Bool :=
  !value.isEmpty && utf8Len value ≤ maxStableIdBytes &&
  value.all fun c => c.isAlphanum || c == '-' || c == '_' || c == '.' || c == ':'

structure TranslationPreset where
  id : Str
  domain : Option Str
  tone : Option Str
  formality : Option Str
  intendedAudience : Option Str
  regionalLocale : Option Str
  script : Option Str
  customContext : Option Str
  customInstructions : Option Str
  deriving DecidableEq, Repr

def TranslationPreset.general : TranslationPreset :=
  ⟨"general".toList, none, none, none, none, none, none, none, none⟩

def validatePresetText (value : Str) (field : String) : Except ProfileValidationError Unit :=
  if (trim value).isEmpty || maxTranslationPresetTextBytes < utf8Len value ||
      value.any isControl then .error (.invalidField field)
  else if looksLikeCredential value then .error (.credentialLikeValue field)
  else .ok ()

/-- The fields that may be absent, with their names in an error. -/
def TranslationPreset.texts (preset : TranslationPreset) : List (String × Option Str) :=
  [("preset_domain", preset.domain), ("preset_tone", preset.tone),
    ("preset_formality", preset.formality),
    ("preset_intended_audience", preset.intendedAudience),
    ("preset_regional_locale", preset.regionalLocale), ("preset_script", preset.script),
    ("preset_custom_context", preset.customContext),
    ("preset_custom_instructions", preset.customInstructions)]

def TranslationPreset.validate (preset : TranslationPreset) : Except ProfileValidationError Unit := do
  if !isStableIdentifier preset.id then throw (.invalidField "preset_id")
  preset.texts.forM fun (field, value) =>
    match value with
    | some value => validatePresetText value field
    | none => .ok ()

inductive TranslationQualityMode where
  | fast | balanced | best
  deriving DecidableEq, Repr

def TranslationQualityMode.asStr : TranslationQualityMode → String
  | fast => "fast"
  | balanced => "balanced"
  | best => "best"

theorem TranslationQualityMode.asStr_injective : Function.Injective asStr := by
  intro a b
  cases a <;> cases b <;> simp [asStr]

structure TranslationRequest where
  sourceText : Str
  preset : TranslationPreset
  deriving DecidableEq, Repr

def TranslationRequest.validate (request : TranslationRequest) : Except TranslationError Unit :=
  request.preset.validate.mapError fun error => .new .invalidConfiguration error.message

end LinguaMesh
