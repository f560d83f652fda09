import LinguaMesh.Domain.Request
import LinguaMesh.Domain.Words
import LinguaMesh.Lib.JsonWriter
import LinguaMesh.Storage.Recency

/-!
# Translation memory

Translations that later requests reuse. The key of an entry is the serialised
identity of its request, in which every run of blanks of the source is one space.
Recording an entry deletes what is behind the limit, newest first.

`serde_json::to_string` is a parameter (`JsonText`); it is `Lawful` if it writes every
value, and different values differently, as `plainJson` does.
-/

namespace LinguaMesh.Storage

open Transaction

def maxTranslationMemoryEntries : Nat := 100
def maxTranslationMemoryTextBytes : Nat := 4 * 1024 * 1024
def translationMemoryProtectedSpanPolicy : String := "protected-spans-v1"
def translationMemoryPromptTemplateVersion : String := "translation-prompt-v3"

/-- The fields of a request that the memory reads. -/
structure MemoryRequest where
  sourceText : Str
  sourceLocale : Option Str
  targetLocale : Str
  modelId : Str
  providerIdentity : Option Str
  glossary : Option Glossary
  maxChunkBytes : Option Nat
  privacyMode : TranslationPrivacyMode
  qualityMode : TranslationQualityMode
  preset : TranslationPreset
  deriving DecidableEq, Repr

def MemoryRequest.isIncognito (r : MemoryRequest) : Bool := r.privacyMode == .incognito

/-! ## Keys -/

/-- `serde_json::to_string` of a value, or the text of its error. -/
class JsonText where
  toString : JsonValue → Except String Str

class JsonText.Lawful [JsonText] : Prop where
  total : ∀ v, ∃ s, JsonText.toString v = .ok s
  injective : ∀ v v', JsonText.toString v = JsonText.toString v' → v = v'

@[reducible] def plainJson : JsonText := ⟨fun v => .ok v.write⟩

theorem lawful_plainJson : @JsonText.Lawful plainJson :=
  @JsonText.Lawful.mk plainJson (fun v => ⟨v.write, rfl⟩)
    fun _ _ h => JsonValue.write_injective (Except.ok.inj h)

def normalizeTranslationMemorySource (source : Str) : Str := joinWords (splitWhitespace source)

section Values

open JsonValue

def textValue (s : String) : JsonValue := string s.toList

/-- A member of an object that is written under `name`. -/
def member (name : String) (value : JsonValue) : List Char × JsonValue := (name.toList, value)

/-- The fields of a value, in the order of their names. -/
def entryValue (e : GlossaryEntry) : JsonValue :=
  object
    [member "case_sensitive" (bool e.caseSensitive),
      member "domain" (ofOption string e.domain),
      member "enabled" (bool e.enabled),
      member "immutable" (bool e.immutable),
      member "notes" (ofOption string e.notes),
      member "priority" (number e.priority),
      member "source_locale" (ofOption string e.sourceLocale),
      member "source_term" (string e.sourceTerm),
      member "target_locale" (ofOption string e.targetLocale),
      member "target_term" (string e.targetTerm),
      member "whole_word" (bool e.wholeWord)]

def glossaryValue (g : Glossary) : JsonValue :=
  object [member "entries" (array (g.entries.map entryValue))]

def presetValue (p : TranslationPreset) : JsonValue :=
  object
    [member "custom_context" (ofOption string p.customContext),
      member "custom_instructions" (ofOption string p.customInstructions),
      member "domain" (ofOption string p.domain),
      member "formality" (ofOption string p.formality),
      member "id" (string p.id),
      member "intended_audience" (ofOption string p.intendedAudience),
      member "regional_locale" (ofOption string p.regionalLocale),
      member "script" (ofOption string p.script),
      member "tone" (ofOption string p.tone)]

def memoryIdentity (request : MemoryRequest) : JsonValue :=
  object
    [member "glossary" (ofOption glossaryValue request.glossary),
      member "max_chunk_bytes" (ofOption (fun n => number (n : Nat)) request.maxChunkBytes),
      member "normalized_source" (string (normalizeTranslationMemorySource request.sourceText)),
      member "prompt_template_version" (textValue translationMemoryPromptTemplateVersion),
      member "protected_span_policy" (textValue translationMemoryProtectedSpanPolicy),
      member "provider_model" (object
        [member "model" (string request.modelId),
          member "provider" (ofOption string request.providerIdentity)]),
      member "quality_mode" (textValue request.qualityMode.asStr),
      member "source_locale" (ofOption string request.sourceLocale),
      member "target_locale" (string request.targetLocale),
      member "translation_preset" (presetValue request.preset)]

theorem entryValue_injective : Function.Injective entryValue := by
  intro a b h
  simp only [entryValue, member, object.injEq, List.cons.injEq, Prod.mk.injEq, true_and, and_true,
    bool.injEq, number.injEq, string.injEq] at h
  obtain ⟨hcase, hdomain, henabled, himmutable, hnotes, hpriority, hsourceLocale, hsourceTerm,
    htargetLocale, htargetTerm, hwhole⟩ := h
  have hdomain := ofOption_string_inj hdomain
  have hnotes := ofOption_string_inj hnotes
  have hsourceLocale := ofOption_string_inj hsourceLocale
  have htargetLocale := ofOption_string_inj htargetLocale
  cases a
  cases b
  simp_all only

theorem glossaryValue_injective : Function.Injective glossaryValue := by
  intro a b h
  simp only [glossaryValue, member, object.injEq, List.cons.injEq, Prod.mk.injEq, true_and, and_true,
    array.injEq] at h
  cases a
  cases b
  exact congrArg Glossary.mk (entryValue_injective.list_map h)

theorem presetValue_injective : Function.Injective presetValue := by
  intro a b h
  simp only [presetValue, member, object.injEq, List.cons.injEq, Prod.mk.injEq, true_and, and_true,
    string.injEq] at h
  obtain ⟨hcontext, hinstructions, hdomain, hformality, hid, haudience, hlocale, hscript, htone⟩ := h
  cases a
  cases b
  simp only [TranslationPreset.mk.injEq]
  exact ⟨hid, ofOption_string_inj hdomain, ofOption_string_inj htone,
    ofOption_string_inj hformality, ofOption_string_inj haudience, ofOption_string_inj hlocale,
    ofOption_string_inj hscript, ofOption_string_inj hcontext, ofOption_string_inj hinstructions⟩

theorem chunkValue_inj {x y : Option Nat}
    (h : ofOption (fun n => number (n : Nat)) x = ofOption (fun n => number (n : Nat)) y) : x = y :=
  ofOption_inj (fun _ _ h => Int.ofNat.inj (number.inj h)) (fun _ h => JsonValue.noConfusion h) h

theorem glossaryOption_inj {x y : Option Glossary}
    (h : ofOption glossaryValue x = ofOption glossaryValue y) : x = y :=
  ofOption_inj (fun _ _ h => glossaryValue_injective h) (fun _ h => JsonValue.noConfusion h) h

theorem textValue_injective : Function.Injective textValue := fun _ _ h =>
  String.toList_injective (string.inj h)

end Values

section Keys

variable [JsonText]

def translationMemoryIdentityJson (request : MemoryRequest) : Except TranslationError Str :=
  (JsonText.toString (memoryIdentity request)).mapError fun error =>
    .new .invalidConfiguration ("Translation memory identity could not be serialized: " ++ error)

def translationMemoryKey (request : MemoryRequest) : Except TranslationError Str :=
  translationMemoryIdentityJson request

/-- A key that is written is the text of one identity. -/
theorem memoryIdentity_eq_of_key [JsonText.Lawful] {r r' : MemoryRequest}
    (h : translationMemoryKey r = translationMemoryKey r') : memoryIdentity r = memoryIdentity r' := by
  obtain ⟨s, hs⟩ := JsonText.Lawful.total (memoryIdentity r)
  obtain ⟨s', hs'⟩ := JsonText.Lawful.total (memoryIdentity r')
  unfold translationMemoryKey translationMemoryIdentityJson at h
  rw [hs, hs', Except.ok_mapError, Except.ok_mapError] at h
  exact JsonText.Lawful.injective _ _ (hs.trans ((congrArg Except.ok (Except.ok.inj h)).trans hs'.symm))

/-- Two requests have one key if and only if they agree in the words of the source and in every other
field of the identity. -/
theorem same_key_iff [JsonText.Lawful] (r r' : MemoryRequest) :
    translationMemoryKey r = translationMemoryKey r' ↔
      normalizeTranslationMemorySource r.sourceText = normalizeTranslationMemorySource r'.sourceText ∧
      r.sourceLocale = r'.sourceLocale ∧ r.targetLocale = r'.targetLocale ∧
      r.maxChunkBytes = r'.maxChunkBytes ∧ r.glossary = r'.glossary ∧
      r.qualityMode = r'.qualityMode ∧ r.preset = r'.preset ∧
      r.providerIdentity = r'.providerIdentity ∧ r.modelId = r'.modelId := by
  constructor
  · intro h
    have hidentity := memoryIdentity_eq_of_key h
    simp only [memoryIdentity, member, JsonValue.object.injEq, List.cons.injEq, Prod.mk.injEq,
      true_and, and_true, JsonValue.string.injEq] at hidentity
    obtain ⟨hglossary, hchunk, hsource, ⟨hmodel, hprovider⟩, hquality, hlocale, htarget, hpreset⟩ :=
      hidentity
    exact ⟨hsource, JsonValue.ofOption_string_inj hlocale, htarget, chunkValue_inj hchunk,
      glossaryOption_inj hglossary,
      TranslationQualityMode.asStr_injective (textValue_injective hquality),
      presetValue_injective hpreset, JsonValue.ofOption_string_inj hprovider, hmodel⟩
  · rintro ⟨hsource, hlocale, htarget, hchunk, hglossary, hquality, hpreset, hprovider, hmodel⟩
    unfold translationMemoryKey translationMemoryIdentityJson memoryIdentity
    rw [hsource, hlocale, htarget, hchunk, hglossary, hquality, hpreset, hprovider, hmodel]

end Keys

/-- Two requests whose sources differ in their blanks and in nothing else. -/
def helloRequest (sourceText : String) : MemoryRequest where
  sourceText := sourceText.toList
  sourceLocale := none
  targetLocale := "zh-CN".toList
  modelId := "model-a".toList
  providerIdentity := none
  glossary := none
  maxChunkBytes := some 2048
  privacyMode := .standard
  qualityMode := .balanced
  preset := .general

theorem same_key_hello :
    @translationMemoryKey plainJson (helloRequest "  Hello   world\n") =
      @translationMemoryKey plainJson (helloRequest "Hello world") :=
  (@same_key_iff plainJson lawful_plainJson _ _).mpr (by decide)

/-! ## Operations -/

structure MemoryRow where
  cacheKey : Str
  createdAt : Int
  sourceText : Str
  translatedText : Str
  sourceLocale : Option Str
  targetLocale : Str
  modelId : Str
  identityJson : Str
  deriving DecidableEq, Repr

/-- `translation_memory` and the row of `translation_memory_policy`. -/
structure MemoryTables where
  memory : List MemoryRow
  enabled : Bool
  deriving DecidableEq, Repr

namespace MemoryTables

def empty : MemoryTables := ⟨[], true⟩

/-- `INSERT .. ON CONFLICT(cache_key) DO UPDATE` of all other columns. -/
def insertMemory (row : MemoryRow) (t : MemoryTables) : MemoryTables :=
  { t with memory := HistoryTables.upsertRow (·.cacheKey) row t.memory }

def trimMemory (t : MemoryTables) : MemoryTables :=
  { t with memory := trimmed (·.createdAt) (·.cacheKey) maxTranslationMemoryEntries t.memory }

end MemoryTables

abbrev MemorySql : Type → Type := Sql TranslationError MemoryTables

open MemoryTables

def memoryRow (request : MemoryRequest) (translatedText key identityJson : Str) (now : Int) :
    MemoryRow :=
  ⟨key, now, request.sourceText, translatedText, request.sourceLocale, request.targetLocale,
    request.modelId, identityJson⟩

variable [JsonText]

def lookupTranslationMemory (request : MemoryRequest) : MemorySql (Option MemoryRow) :=
  if request.isIncognito then pure none
  else do
    if !(← query (·.enabled)) then pure none
    else
      match translationMemoryKey request with
      | .error e => giveUp e
      | .ok key => query fun t => t.memory.find? (·.cacheKey == key)

/-- `now` is the clock reading of the insert. -/
def recordTranslationMemory (request : MemoryRequest) (translatedText : Str) (now : Int) :
    MemorySql Unit :=
  if request.isIncognito then pure ()
  else do
    if !(← query (·.enabled)) then pure ()
    else if maxTranslationMemoryTextBytes < utf8Len request.sourceText ∨
        maxTranslationMemoryTextBytes < utf8Len translatedText then
      giveUp (.new .invalidConfiguration "Translation memory entry exceeds the local size limit.")
    else
      match translationMemoryKey request, translationMemoryIdentityJson request with
      | .ok key, .ok identityJson =>
        transaction do
          write (insertMemory (memoryRow request translatedText key identityJson now))
          write trimMemory
      | .error e, _ => giveUp e
      | _, .error e => giveUp e

def clearTranslationMemory : MemorySql Unit := write fun t => { t with memory := [] }

def deleteTranslationMemoryEntry (cacheKey : Str) : MemorySql Bool :=
  statement fun t => .ok (t.memory.any (·.cacheKey == cacheKey),
    { t with memory := t.memory.filter (·.cacheKey != cacheKey) })

def setTranslationMemoryEnabled (enabled : Bool) : MemorySql Unit :=
  write fun t => { t with enabled }

inductive MemoryOp where
  | record (request : MemoryRequest) (translatedText : Str) (now : Int)
  | lookup (request : MemoryRequest)
  | clear
  | delete (cacheKey : Str)
  | setEnabled (enabled : Bool)

def MemoryOp.perform : MemoryOp → MemorySql Unit
  | .record request translatedText now => recordTranslationMemory request translatedText now
  | .lookup request => do let _ ← lookupTranslationMemory request
  | .clear => clearTranslationMemory
  | .delete cacheKey => do let _ ← deleteTranslationMemoryEntry cacheKey
  | .setEnabled enabled => setTranslationMemoryEnabled enabled

/-! ## Outcomes -/

variable {t : MemoryTables}

/-- The tables after a recording. -/
def MemoryTables.recorded (t : MemoryTables) (row : MemoryRow) : MemoryTables :=
  (t.insertMemory row).trimMemory

/-- A recording changes nothing, or puts its row in and trims. -/
theorem recordTranslationMemory_cases (request : MemoryRequest) (translatedText : Str) (now : Int)
    (t : MemoryTables) :
    Ensures (recordTranslationMemory request translatedText now) t fun r t' =>
      t' = t ∧ (r = .ok () → request.isIncognito = true ∨ t.enabled = false) ∨
      r = .ok () ∧ ∃ key, translationMemoryKey request = .ok key ∧
        request.isIncognito = false ∧ t.enabled = true ∧
        utf8Len request.sourceText ≤ maxTranslationMemoryTextBytes ∧
        t' = t.recorded (memoryRow request translatedText key key now) := by
  unfold recordTranslationMemory
  split
  · rename_i hprivate
    exact ensures_pure (.inl ⟨rfl, fun _ => .inl hprivate⟩)
  rename_i hprivate
  refine ensures_bind (ensures_query (fun _ => .inl ⟨rfl, nofun⟩) ?_)
  simp only [Then]
  split
  · rename_i hdisabled
    exact ensures_pure (.inl ⟨rfl, fun _ => .inr (by simpa using hdisabled)⟩)
  rename_i henabled
  split
  · exact ensures_giveUp (.inl ⟨rfl, nofun⟩)
  rename_i hsize
  rw [show translationMemoryIdentityJson request = translationMemoryKey request from rfl]
  cases hkey : translationMemoryKey request with
  | error e => exact ensures_giveUp (.inl ⟨rfl, nofun⟩)
  | ok key =>
    refine ensures_transaction (fun _ => .inl ⟨rfl, nofun⟩) ?_
    refine ensures_bind (ensures_write (fun _ => nofun) (ensures_write (fun _ => nofun) ?_))
    intro _ _
    refine .inr ⟨rfl, key, rfl, by simpa using hprivate, by simpa using henabled, ?_, rfl⟩
    exact not_lt.mp fun h => hsize (.inl h)

/-- The rows an operation may put in. -/
def MemoryOp.Writes : MemoryOp → MemoryRow → Prop
  | .record request translatedText now, row => ∃ key, translationMemoryKey request = .ok key ∧
      request.isIncognito = false ∧ utf8Len request.sourceText ≤ maxTranslationMemoryTextBytes ∧
      row = memoryRow request translatedText key key now
  | _, _ => False

/-- What every operation does to the rows, whichever of its statements fail. -/
structure MemoryStep (op : MemoryOp) (t t' : MemoryTables) : Prop where
  rows : ∀ row ∈ t'.memory, row ∈ t.memory ∨ op.Writes row
  unique : (t.memory.map (·.cacheKey)).Nodup → (t'.memory.map (·.cacheKey)).Nodup

theorem MemoryStep.same (op : MemoryOp) (t : MemoryTables) : MemoryStep op t t :=
  ⟨fun _ hrow => .inl hrow, id⟩

theorem MemoryStep.deleted {t' : MemoryTables} (op : MemoryOp) (h : t'.memory.Sublist t.memory) :
    MemoryStep op t t' :=
  ⟨fun _ hrow => .inl (h.subset hrow), fun hunique => hunique.sublist (h.map _)⟩

theorem memory_step (op : MemoryOp) (t : MemoryTables) :
    Ensures op.perform t fun _ t' => MemoryStep op t t' := by
  cases op with
  | record request translatedText now =>
    refine (recordTranslationMemory_cases request translatedText now t).mono fun r t' h => ?_
    rcases h with ⟨rfl, -⟩ | ⟨-, key, hkey, hprivate, -, hsize, rfl⟩
    · exact .same _ _
    refine ⟨fun row hrow => ?_, fun hunique => ?_⟩
    · rcases mem_upsertRow (List.mem_of_mem_filter hrow) with rfl | hrow
      · exact .inr ⟨key, hkey, hprivate, hsize, rfl⟩
      · exact .inl hrow
    · exact (upsertRow_ids hunique).sublist (List.filter_sublist.map _)
  | lookup request =>
    refine ensures_bind ?_
    unfold lookupTranslationMemory
    split
    · exact ensures_pure (ensures_pure (.same _ _))
    refine ensures_bind (ensures_query (fun _ => .same _ _) ?_)
    simp only [Then]
    split
    · exact ensures_pure (ensures_pure (.same _ _))
    split
    · exact ensures_giveUp (.same _ _)
    · exact ensures_query (fun _ => .same _ _) (ensures_pure (.same _ _))
  | clear => exact ensures_write (fun _ => .same _ _) (.deleted _ (List.nil_sublist _))
  | delete cacheKey =>
    refine ensures_bind (ensures_statement (fun _ => .same _ _) fun deleted t' ht' => ?_)
    obtain ⟨-, rfl⟩ := Prod.mk.inj (Except.ok.inj ht')
    exact ensures_pure (.deleted _ List.filter_sublist)
  | setEnabled enabled =>
    exact ensures_write (fun _ => .same _ _) (.deleted _ (List.Sublist.refl _))

end LinguaMesh.Storage
