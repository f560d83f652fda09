import LinguaMesh.Domain.Profile
import LinguaMesh.Storage.Tables

/-!
# The options of a document job

`DocumentJobOptions`, its check, and the row of `document_job_options` that it is
stored in. The preset and the glossary are stored as JSON: `serde_json` is a
parameter (`OptionsJson`) that reads back what it wrote. A row that was written
loads as the options it was written for (`decode_encode`).
-/

namespace LinguaMesh.Storage

def maxDocumentJobOptionTextBytes : Nat := 256
def maxDocumentJobGlossaryBytes : Nat := 256 * 1024
def maxDocumentJobPresetBytes : Nat := 8 * 1024

/-- `serde_json::to_string` and `from_str` of a glossary and of a preset, `none` for an error. -/
class OptionsJson where
  glossaryText : Glossary → Option Str
  readGlossary : Str → Option Glossary
  presetText : TranslationPreset → Option Str
  readPreset : Str → Option TranslationPreset

structure OptionsJson.Lawful [OptionsJson] : Prop where
  read_glossaryText : ∀ glossary text, glossaryText glossary = some text →
    readGlossary text = some glossary
  read_presetText : ∀ preset text, presetText preset = some text → readPreset text = some preset

structure DocumentJobOptions where
  sourceLocale : Option Str
  targetLocale : Str
  modelId : Str
  providerId : Str
  routingProfileId : Option Str
  qualityMode : TranslationQualityMode
  translationPreset : TranslationPreset
  glossary : Option Glossary
  deriving DecidableEq, Repr

/-- The columns of `document_job_options` that a load reads. -/
structure OptionsRow where
  sourceLocale : Option Str
  targetLocale : Str
  modelId : Str
  providerId : Str
  routingProfileId : Option Str
  qualityMode : Option String
  translationPresetJson : Option Str
  glossaryJson : Option Str
  deriving DecidableEq, Repr

/-! ## Checks -/

def validateDocumentOptionText (value : Str) (message : String) : Except TranslationError Unit :=
  Except.refuseIf
    (value.isEmpty || maxDocumentJobOptionTextBytes < utf8Len value || value.any isControl)
    (documentConfigurationError message)

/-- The check of a value that may be absent. -/
def validateIfSome {α : Type} (check : α → Except TranslationError Unit) :
    Option α → Except TranslationError Unit
  | none => .ok ()
  | some value => check value

/-- A text that has to be there and within its limit. -/
def validateEncoded (text : Option Str) (maxBytes : Nat) (missing tooLong : String) :
    Except TranslationError Unit :=
  match text with
  | none => .error (documentConfigurationError missing)
  | some text => Except.refuseIf (maxBytes < utf8Len text) (documentConfigurationError tooLong)

section Options

variable [OptionsJson]

open OptionsJson

def validateDocumentJobOptions (options : DocumentJobOptions) : Except TranslationError Unit := do
  validateIfSome (validateDocumentOptionText · "The document source locale is invalid.")
    options.sourceLocale
  validateDocumentOptionText options.targetLocale "The document target locale is invalid."
  let _ ← (checkedProfileText "model_id" options.modelId).mapError fun _ =>
    documentConfigurationError "The document model identifier is invalid."
  (checkProfileId options.providerId).mapError fun _ =>
    documentConfigurationError "The document provider identifier is invalid."
  validateIfSome
    (validateDocumentOptionText · "The document routing profile identifier is invalid.")
    options.routingProfileId
  validateIfSome
    (fun glossary => do
      glossary.validate.mapError fun _ =>
        documentConfigurationError "The document glossary is invalid."
      validateEncoded (glossaryText glossary) maxDocumentJobGlossaryBytes
        "The document glossary could not be serialized."
        "The document glossary exceeds the local size limit.")
    options.glossary
  options.translationPreset.validate.mapError fun _ =>
    documentConfigurationError "The document translation preset is invalid."
  validateEncoded (presetText options.translationPreset) maxDocumentJobPresetBytes
    "The document translation preset could not be serialized."
    "The document translation preset exceeds the local size limit."

/-! ## Rows -/

def parseDocumentQualityMode : String → Except TranslationError TranslationQualityMode
  | "fast" => .ok .fast
  | "balanced" => .ok .balanced
  | "best" => .ok .best
  | _ => .error (.new .persistence "The stored document quality mode is invalid.")

omit [OptionsJson] in
@[simp] theorem parse_qualityMode (mode : TranslationQualityMode) :
    parseDocumentQualityMode mode.asStr = .ok mode := by
  cases mode <;> rfl

/-- The value of an option that may fail, `Option::transpose`. -/
def transposed {α β : Type} (f : α → Except TranslationError β) :
    Option α → Except TranslationError (Option β)
  | none => .ok none
  | some a => (f a).map some

/-- `serde_json::to_string`, or the error of a save. -/
def serialized (text : Option Str) (message : String) : Except TranslationError Str :=
  match text with
  | none => .error (.new .invalidConfiguration message)
  | some text => .ok text

/-- `serde_json::from_str`, or the error of a load. -/
def deserialized {α : Type} (value : Option α) (message : String) : Except TranslationError α :=
  match value with
  | none => .error (.new .persistence message)
  | some value => .ok value

/-- What `save_document_job_options` writes. -/
def encodeOptions (options : DocumentJobOptions) : Except TranslationError OptionsRow := do
  validateDocumentJobOptions options
  let glossaryJson ← transposed
    (fun glossary => serialized (glossaryText glossary) "The document glossary could not be serialized.")
    options.glossary
  let presetJson ← serialized (presetText options.translationPreset)
    "The document translation preset could not be serialized."
  .ok {
    sourceLocale := options.sourceLocale
    targetLocale := options.targetLocale
    modelId := options.modelId
    providerId := options.providerId
    routingProfileId := options.routingProfileId
    qualityMode := some options.qualityMode.asStr
    translationPresetJson := some presetJson
    glossaryJson }

/-- What `load_document_job_options` makes of a row. -/
def decodeOptions (row : OptionsRow) : Except TranslationError DocumentJobOptions := do
  let qualityMode ← transposed parseDocumentQualityMode row.qualityMode
  let translationPreset ← transposed
    (fun text => deserialized (readPreset text) "The stored document translation preset is invalid.")
    row.translationPresetJson
  let glossary ← transposed
    (fun text => deserialized (readGlossary text) "The stored document glossary is invalid.")
    row.glossaryJson
  let options : DocumentJobOptions := {
    sourceLocale := row.sourceLocale
    targetLocale := row.targetLocale
    modelId := row.modelId
    providerId := row.providerId
    routingProfileId := row.routingProfileId
    qualityMode := qualityMode.getD .balanced
    translationPreset := translationPreset.getD .general
    glossary }
  (validateDocumentJobOptions options).mapError fun _ =>
    .new .persistence "The stored document translation options are invalid."
  .ok options

instance documentJobOptions : JobOptions :=
  ⟨DocumentJobOptions, OptionsRow, encodeOptions, decodeOptions⟩

omit [OptionsJson] in
theorem serialized_ok {text : Option Str} {message : String} {written : Str} :
    serialized text message = .ok written ↔ text = some written := by
  unfold serialized
  cases text <;> simp

omit [OptionsJson] in
/-- An option that was written value by value is read back. -/
theorem transposed_back {α β : Type} {write : α → Except TranslationError β}
    {read : β → Except TranslationError α} (hread : ∀ a b, write a = .ok b → read b = .ok a)
    {value : Option α} {written : Option β} (h : transposed write value = .ok written) :
    transposed read written = .ok value := by
  cases value with
  | none =>
    cases h
    rfl
  | some a =>
    obtain ⟨b, hb, rfl⟩ := Except.map_eq_ok.mp h
    exact Except.map_eq_ok.mpr ⟨a, hread a b hb, rfl⟩

theorem decode_encode (hlawful : OptionsJson.Lawful) {options : DocumentJobOptions}
    {row : OptionsRow} (h : encodeOptions options = .ok row) : decodeOptions row = .ok options := by
  obtain ⟨hvalid, h⟩ := Except.check_ok.mp h
  obtain ⟨glossaryJson, hglossary, h⟩ := Except.bind_ok.mp h
  obtain ⟨presetJson, hpreset, h⟩ := Except.bind_ok.mp h
  cases h
  have hmode : transposed parseDocumentQualityMode (some options.qualityMode.asStr) =
      .ok (some options.qualityMode) :=
    transposed_back (fun mode name hname => Except.ok.inj hname ▸ parse_qualityMode mode)
      (show transposed (fun mode => .ok mode.asStr) (some options.qualityMode) = _ from rfl)
  have hpreset : transposed (fun text => deserialized (readPreset text)
      "The stored document translation preset is invalid.") (some presetJson) =
      .ok (some options.translationPreset) := by
    have hwritten : transposed (fun preset => serialized (presetText preset)
        "The document translation preset could not be serialized.")
        (some options.translationPreset) = .ok (some presetJson) :=
      Except.map_eq_ok.mpr ⟨presetJson, hpreset, rfl⟩
    refine transposed_back (fun preset text htext => ?_) hwritten
    rw [hlawful.read_presetText _ _ (serialized_ok.mp htext)]
    rfl
  have hglossary : transposed (fun text => deserialized (readGlossary text)
      "The stored document glossary is invalid.") glossaryJson = .ok options.glossary := by
    refine transposed_back (fun glossary text htext => ?_) hglossary
    rw [hlawful.read_glossaryText _ _ (serialized_ok.mp htext)]
    rfl
  unfold decodeOptions
  dsimp only
  rw [hmode, hpreset, hglossary]
  simp only [Except.ok_bind, Option.getD_some]
  rw [hvalid]
  rfl

end Options

end LinguaMesh.Storage
