import LinguaMesh.Domain.Routing
import LinguaMesh.Lib.JsonFields

/-!
# Routing profiles as JSON

A profile is stored as a JSON object. `deserializeRoutingProfile` checks the size of
a text, then that no object in it has a field which is not in a list, and only then reads the
fields; the profile that it gives is validated.

`toJson` is what the derived `Serialize` writes and `fromJson` what the derived `Deserialize`
reads. The text of an object is a parameter (`RoutingJson`), which is `Lawful` if it parses
what it wrote. A profile that is valid and not too large is read back
(`deserialize_serialized`): the lists have every field that is written
(`profile_fields`, `candidate_fields`, `constraints_fields`).
-/

namespace LinguaMesh.Routing

open JsonTree

def maxRoutingProfileJsonBytes : Nat := 64 * 1024

/-! ## Writing -/

def RoutingMode.asStr : RoutingMode → String
  | .manual => "manual"
  | .ordered => "ordered"
  | .automatic => "automatic"

def RoutingPreference.asStr : RoutingPreference → String
  | .none => "none"
  | .local => "local"
  | .quality => "quality"
  | .latency => "latency"
  | .cost => "cost"

/-- A list of texts. -/
def strings (values : List Str) : JsonTree := array (values.map string)

def optional {α : Type} (write : α → JsonTree) (value : Option α) : JsonTree :=
  (value.map write).getD null

def RoutingConstraints.toJson (k : RoutingConstraints) : JsonTree :=
  object [
    ("local_only", bool k.localOnly),
    ("allow_remote", bool k.allowRemote),
    ("provider_allowlist", strings k.providerAllowlist),
    ("provider_denylist", strings k.providerDenylist),
    ("model_allowlist", strings k.modelAllowlist),
    ("model_denylist", strings k.modelDenylist),
    ("require_streaming", bool k.requireStreaming),
    ("require_document", bool k.requireDocument),
    ("minimum_quality_tier", optional (fun n => number n.toNat) k.minimumQualityTier),
    ("max_request_bytes", optional (fun n : Nat => number n) k.maxRequestBytes),
    ("preference", string k.preference.asStr.toList),
    ("privacy_sensitive", bool k.privacySensitive),
    ("explicit_fallback_allowed", bool k.explicitFallbackAllowed)]

def RoutingCandidate.toJson (c : RoutingCandidate) : JsonTree :=
  object [
    ("provider_id", string c.providerId),
    ("model_id", string c.modelId),
    ("local", bool c.local),
    ("supports_streaming", bool c.supportsStreaming),
    ("supports_document", bool c.supportsDocument),
    ("context_capacity_bytes", number c.contextCapacityBytes),
    ("quality_tier", number c.qualityTier.toNat),
    ("estimated_latency_ms", optional (fun n => number n.toNat) c.estimatedLatencyMs),
    ("estimated_cost_micros", optional (fun n => number n.toNat) c.estimatedCostMicros),
    ("source_locales", strings c.sourceLocales),
    ("target_locales", strings c.targetLocales)]

def RoutingProfile.toJson (p : RoutingProfile) : JsonTree :=
  object [
    ("id", string p.id),
    ("mode", string p.mode.asStr.toList),
    ("candidates", array (p.candidates.map RoutingCandidate.toJson)),
    ("constraints", p.constraints.toJson)]

/-! ## Reading -/

def RoutingMode.parse : String → Option RoutingMode
  | "manual" => some .manual
  | "ordered" => some .ordered
  | "automatic" => some .automatic
  | _ => none

def RoutingPreference.parse : String → Option RoutingPreference
  | "none" => some .none
  | "local" => some .local
  | "quality" => some .quality
  | "latency" => some .latency
  | "cost" => some .cost
  | _ => Option.none

def readStrings : JsonTree → Option (List Str) := readArray readString

def readU8 (v : JsonTree) : Option UInt8 := (readUnsigned 8 v).map UInt8.ofNat

def readU64 (v : JsonTree) : Option UInt64 := (readUnsigned 64 v).map UInt64.ofNat

def readUsize : JsonTree → Option Nat := readUnsigned 64

/-- `RoutingConstraints::default()`. -/
def RoutingConstraints.default : RoutingConstraints :=
  ⟨false, true, [], [], [], [], false, false, none, none, .none, false, false⟩

/-- Only an object gets here; see `validateExchangeFields`. -/
def RoutingConstraints.fromJson : JsonTree → Option RoutingConstraints
  | object found => do
    let localOnly ← defaulted false readBool "local_only" found
    let allowRemote ← defaulted true readBool "allow_remote" found
    let providerAllowlist ← defaulted [] readStrings "provider_allowlist" found
    let providerDenylist ← defaulted [] readStrings "provider_denylist" found
    let modelAllowlist ← defaulted [] readStrings "model_allowlist" found
    let modelDenylist ← defaulted [] readStrings "model_denylist" found
    let requireStreaming ← defaulted false readBool "require_streaming" found
    let requireDocument ← defaulted false readBool "require_document" found
    let minimumQualityTier ← defaulted none (readOption readU8) "minimum_quality_tier" found
    let maxRequestBytes ← defaulted none (readOption readUsize) "max_request_bytes" found
    let preference ← defaulted .none (readVariant RoutingPreference.parse) "preference" found
    let privacySensitive ← defaulted false readBool "privacy_sensitive" found
    let explicitFallbackAllowed ← defaulted false readBool "explicit_fallback_allowed" found
    some ⟨localOnly, allowRemote, providerAllowlist, providerDenylist, modelAllowlist, modelDenylist,
      requireStreaming, requireDocument, minimumQualityTier, maxRequestBytes, preference,
      privacySensitive, explicitFallbackAllowed⟩
  | _ => none

/-- Only an object gets here. An estimate may be left out. -/
def RoutingCandidate.fromJson : JsonTree → Option RoutingCandidate
  | object found => do
    let providerId ← required readString "provider_id" found
    let modelId ← required readString "model_id" found
    let local' ← required readBool "local" found
    let supportsStreaming ← required readBool "supports_streaming" found
    let supportsDocument ← required readBool "supports_document" found
    let contextCapacityBytes ← required readUsize "context_capacity_bytes" found
    let qualityTier ← required readU8 "quality_tier" found
    let estimatedLatencyMs ← defaulted none (readOption readU64) "estimated_latency_ms" found
    let estimatedCostMicros ← defaulted none (readOption readU64) "estimated_cost_micros" found
    let sourceLocales ← defaulted [] readStrings "source_locales" found
    let targetLocales ← defaulted [] readStrings "target_locales" found
    some ⟨providerId, modelId, local', supportsStreaming, supportsDocument, contextCapacityBytes,
      qualityTier, estimatedLatencyMs, estimatedCostMicros, sourceLocales, targetLocales⟩
  | _ => none

/-- Only an object gets here. -/
def RoutingProfile.fromJson : JsonTree → Option RoutingProfile
  | object found => do
    let id ← required readString "id" found
    let mode ← defaulted .manual (readVariant RoutingMode.parse) "mode" found
    let candidates ← required (readArray RoutingCandidate.fromJson) "candidates" found
    let constraints ← defaulted .default RoutingConstraints.fromJson "constraints" found
    some ⟨id, mode, candidates, constraints⟩
  | _ => none

/-! ## The fields that are allowed -/

def profileFields : List String := ["id", "mode", "candidates", "constraints"]

def candidateFields : List String :=
  ["provider_id", "model_id", "local", "supports_streaming", "supports_document",
    "context_capacity_bytes", "quality_tier", "estimated_latency_ms", "estimated_cost_micros",
    "source_locales", "target_locales"]

def constraintsFields : List String :=
  ["local_only", "allow_remote", "provider_allowlist", "provider_denylist", "model_allowlist",
    "model_denylist", "require_streaming", "require_document", "minimum_quality_tier",
    "max_request_bytes", "preference", "privacy_sensitive", "explicit_fallback_allowed"]

def invalidJson : RoutingError := .invalidConfiguration "routing profile JSON is invalid"

def asObject : JsonTree → Except RoutingError (List (String × JsonTree))
  | object found => .ok found
  | _ => .error invalidJson

def ensureFields (found : List (String × JsonTree)) (allowed : List String) :
    Except RoutingError Unit :=
  Except.refuseIf (!found.all fun m => allowed.contains m.1)
    (.invalidConfiguration "routing profile JSON contains unsupported fields")

def validateCandidateFields (candidate : JsonTree) : Except RoutingError Unit := do
  let found ← asObject candidate
  ensureFields found candidateFields

/-- `as_array` of a member. -/
def asArray : Option JsonTree → Except RoutingError (List JsonTree)
  | some (array items) => .ok items
  | _ => .error invalidJson

def validateConstraintsFields : Option JsonTree → Except RoutingError Unit
  | none => .ok ()
  | some constraints => do
    let found ← asObject constraints
    ensureFields found constraintsFields

def validateExchangeFields (value : JsonTree) : Except RoutingError Unit := do
  let profile ← asObject value
  ensureFields profile profileFields
  let candidates ← asArray (profile.lookup "candidates")
  candidates.forM validateCandidateFields
  validateConstraintsFields (profile.lookup "constraints")

/-! ## The text -/

/-- `serde_json::to_string` of a profile and `serde_json::from_str` of a value, `none` for an
error. -/
class RoutingJson where
  profileText : RoutingProfile → Option Str
  readValue : Str → Option JsonTree

/-- A text that was written is parsed to the tree that was written; the parser has its own order
of the members. -/
def RoutingJson.Lawful [RoutingJson] : Prop :=
  ∀ p text, profileText p = some text → ∃ w, readValue text = some w ∧ Reordered p.toJson w

section Text

variable [RoutingJson]

open RoutingJson

def checkJsonSize (contents : Str) : Except RoutingError Unit :=
  Except.refuseIf (maxRoutingProfileJsonBytes < utf8Len contents)
    (.invalidConfiguration "routing profile JSON exceeds the size limit")

def orInvalid {α : Type} : Option α → Except RoutingError α
  | some a => .ok a
  | none => .error invalidJson

def serializeRoutingProfile (profile : RoutingProfile) : Except RoutingError Str := do
  profile.validate
  let contents ← orInvalid (profileText profile)
  checkJsonSize contents
  .ok contents

def deserializeRoutingProfile (contents : Str) : Except RoutingError RoutingProfile := do
  checkJsonSize contents
  let value ← orInvalid (readValue contents)
  validateExchangeFields value
  let profile ← orInvalid (RoutingProfile.fromJson value)
  profile.validate
  .ok profile

end Text

/-! ## Every field that is written is allowed -/

/-- The fields of an object that are all in a list are in it in any order. -/
theorem ensureFields_ok {allowed : List String} {found : List (String × JsonTree)}
    (h : (found.map Prod.fst).Perm allowed) : ensureFields found allowed = .ok () := by
  have hall : found.all (fun m => allowed.contains m.1) = true := by
    refine List.all_eq_true.mpr fun m hm => ?_
    exact List.contains_iff_mem.mpr (h.mem_iff.mp (List.mem_map_of_mem hm))
  unfold ensureFields
  rw [hall]
  rfl

theorem candidate_fields {c : RoutingCandidate} {w : JsonTree} (h : Reordered c.toJson w) :
    validateCandidateFields w = .ok () := by
  obtain ⟨found, rfl, hkeys, -⟩ := h.has (show candidateFields.Nodup by decide)
  exact ensureFields_ok hkeys

theorem constraints_fields {k : RoutingConstraints} {w : JsonTree} (h : Reordered k.toJson w) :
    validateConstraintsFields (some w) = .ok () := by
  obtain ⟨found, rfl, hkeys, -⟩ := h.has (show constraintsFields.Nodup by decide)
  exact ensureFields_ok hkeys

theorem candidates_fields {candidates : List RoutingCandidate} {items : List JsonTree}
    (h : ReorderedItems (candidates.map RoutingCandidate.toJson) items) :
    items.forM validateCandidateFields = .ok () := by
  induction candidates generalizing items with
  | nil =>
    cases h
    rfl
  | cons c candidates ih =>
    cases h with
    | cons hitem hitems =>
      rw [List.forM_eq_forM, List.forM_cons, candidate_fields hitem, Except.ok_bind]
      exact ih hitems

theorem profile_fields {p : RoutingProfile} {w : JsonTree} (h : Reordered p.toJson w) :
    validateExchangeFields w = .ok () := by
  obtain ⟨found, rfl, hkeys, -, -, ⟨items, hcandidates, hitems⟩, v, hconstraints, hv⟩ :=
    h.has (show profileFields.Nodup by decide)
  cases hitems with
  | array hitems =>
    have hkeys : ensureFields found profileFields = .ok () := ensureFields_ok hkeys
    dsimp only at hcandidates hconstraints
    unfold validateExchangeFields
    rw [asObject, Except.ok_bind, hkeys, Except.ok_bind, hcandidates, hconstraints, asArray,
      Except.ok_bind, candidates_fields hitems, Except.ok_bind]
    exact constraints_fields hv

/-! ## Every value is read back -/

theorem readsBack_strings (values : List Str) : ReadsBack readStrings (strings values) values :=
  readsBack_array fun s _ => readsBack_string s

theorem readsBack_u8 (n : UInt8) : ReadsBack readU8 (number n.toNat) n :=
  readsBack_map (readsBack_unsigned n.toNat_lt) UInt8.ofNat_toNat

theorem readsBack_u64 (n : UInt64) : ReadsBack readU64 (number n.toNat) n :=
  readsBack_map (readsBack_unsigned n.toNat_lt) UInt64.ofNat_toNat

theorem readsBack_mode (mode : RoutingMode) :
    ReadsBack (readVariant RoutingMode.parse) (string mode.asStr.toList) mode :=
  readsBack_variant (by cases mode <;> rfl)

theorem readsBack_preference (preference : RoutingPreference) :
    ReadsBack (readVariant RoutingPreference.parse) (string preference.asStr.toList) preference :=
  readsBack_variant (by cases preference <;> rfl)

/-- The numbers that have the type `usize` in the code. -/
structure RoutingProfile.Sized (p : RoutingProfile) : Prop where
  capacity : ∀ c ∈ p.candidates, c.contextCapacityBytes < 2 ^ 64
  maxRequest : ∀ n, p.constraints.maxRequestBytes = some n → n < 2 ^ 64

theorem RoutingConstraints.readsBack {k : RoutingConstraints}
    (hsize : ∀ n, k.maxRequestBytes = some n → n < 2 ^ 64) :
    ReadsBack RoutingConstraints.fromJson k.toJson k := by
  intro w hw
  obtain ⟨found, rfl, -, hlocal, hremote, hproviders, hnoProviders, hmodels, hnoModels, hstreaming,
    hdocument, htier, hmax, hpreference, hprivacy, hfallback⟩ :=
    hw.has (show constraintsFields.Nodup by decide)
  have htier := htier.defaulted (readsBack_option (fun n _ => readsBack_u8 n) fun _ => number_ne_null _) none
  have hmax := hmax.defaulted
    (readsBack_option (fun n hn => readsBack_unsigned (hsize n hn)) fun _ => number_ne_null _) none
  rw [fromJson, hlocal.defaulted (readsBack_bool _), hremote.defaulted (readsBack_bool _),
    hproviders.defaulted (readsBack_strings _), hnoProviders.defaulted (readsBack_strings _),
    hmodels.defaulted (readsBack_strings _), hnoModels.defaulted (readsBack_strings _),
    hstreaming.defaulted (readsBack_bool _), hdocument.defaulted (readsBack_bool _), htier, readUsize,
    hmax, hpreference.defaulted (readsBack_preference _), hprivacy.defaulted (readsBack_bool _),
    hfallback.defaulted (readsBack_bool _)]
  rfl

theorem RoutingCandidate.readsBack {c : RoutingCandidate} (hsize : c.contextCapacityBytes < 2 ^ 64) :
    ReadsBack RoutingCandidate.fromJson c.toJson c := by
  intro w hw
  obtain ⟨found, rfl, -, hprovider, hmodel, hlocal, hstreaming, hdocument, hcapacity, htier, hlatency,
    hcost, hsource, htarget⟩ := hw.has (show candidateFields.Nodup by decide)
  have hlatency := hlatency.defaulted
    (readsBack_option (fun n _ => readsBack_u64 n) fun _ => number_ne_null _) none
  have hcost := hcost.defaulted (readsBack_option (fun n _ => readsBack_u64 n) fun _ => number_ne_null _) none
  rw [fromJson, hprovider.required (readsBack_string _), hmodel.required (readsBack_string _),
    hlocal.required (readsBack_bool _), hstreaming.required (readsBack_bool _),
    hdocument.required (readsBack_bool _), readUsize, hcapacity.required (readsBack_unsigned hsize),
    htier.required (readsBack_u8 _), hlatency, hcost, hsource.defaulted (readsBack_strings _),
    htarget.defaulted (readsBack_strings _)]
  rfl

theorem RoutingProfile.readsBack {p : RoutingProfile} (hsize : p.Sized) :
    ReadsBack RoutingProfile.fromJson p.toJson p := by
  intro w hw
  obtain ⟨found, rfl, -, hid, hmode, hcandidates, hconstraints⟩ :=
    hw.has (show profileFields.Nodup by decide)
  have hcandidates := hcandidates.required
    (readsBack_array fun c hc => RoutingCandidate.readsBack (hsize.capacity c hc))
  rw [fromJson, hid.required (readsBack_string _), hmode.defaulted (readsBack_mode _), hcandidates,
    hconstraints.defaulted (RoutingConstraints.readsBack hsize.maxRequest)]
  rfl

/-- A valid profile that is written within the size limit is read back. -/
theorem deserialize_serialized [RoutingJson] (hlawful : RoutingJson.Lawful) {p : RoutingProfile}
    {contents : Str} (hsize : p.Sized) (hvalid : p.validate = .ok ())
    (htext : RoutingJson.profileText p = some contents)
    (hlimit : utf8Len contents ≤ maxRoutingProfileJsonBytes) :
    serializeRoutingProfile p = .ok contents ∧ deserializeRoutingProfile contents = .ok p ∧
      ∀ w, Reordered p.toJson w → validateExchangeFields w = .ok () := by
  have hchecked : checkJsonSize contents = .ok () :=
    Except.refuseIf_ok.mpr (decide_eq_false (Nat.not_lt.mpr hlimit))
  obtain ⟨w, hw, hreordered⟩ := hlawful p contents htext
  refine ⟨?_, ?_, fun w hw => profile_fields hw⟩
  · rw [serializeRoutingProfile, hvalid, Except.ok_bind, htext, orInvalid, Except.ok_bind, hchecked]
    rfl
  · rw [deserializeRoutingProfile, hchecked, Except.ok_bind, hw, orInvalid, Except.ok_bind,
      profile_fields hreordered, Except.ok_bind, RoutingProfile.readsBack hsize w hreordered, orInvalid,
      Except.ok_bind, hvalid]
    rfl

/-! ### One profile -/

def workProfile : RoutingProfile where
  id := "work".toList
  mode := .automatic
  candidates := [⟨"ollama".toList, "qwen3".toList, true, true, false, 8192, 2, some 40, none,
    ["en".toList], []⟩]
  constraints := ⟨false, true, ["ollama".toList], [], [], [], true, false, some 1, some 4096, .quality,
    false, false⟩

def workText : Str :=
  ["\x7b\"id\":\"work\",\"mode\":\"automatic\",\"candidates\":[\x7b\"provider_id\":\"ollama\",",
    "\"model_id\":\"qwen3\",\"local\":true,\"supports_streaming\":true,",
    "\"supports_document\":false,\"context_capacity_bytes\":8192,",
    "\"quality_tier\":2,\"estimated_latency_ms\":40,",
    "\"estimated_cost_micros\":null,\"source_locales\":[\"en\"],",
    "\"target_locales\":[]\x7d],\"constraints\":\x7b\"local_only\":false,",
    "\"allow_remote\":true,\"provider_allowlist\":[\"ollama\"],",
    "\"provider_denylist\":[],\"model_allowlist\":[],",
    "\"model_denylist\":[],\"require_streaming\":true,",
    "\"require_document\":false,\"minimum_quality_tier\":1,",
    "\"max_request_bytes\":4096,\"preference\":\"quality\",",
    "\"privacy_sensitive\":false,\"explicit_fallback_allowed\":false\x7d\x7d"].flatMap
    String.toList

/-- `serde_json` of one profile. A map has its keys in order. -/
@[reducible] def oneProfile (profile : RoutingProfile) (text : Str) : RoutingJson where
  profileText p := if p = profile then some text else none
  readValue t := if t = text then some profile.toJson.sorted else none

theorem oneProfile_lawful (profile : RoutingProfile) (text : Str) :
    @RoutingJson.Lawful (oneProfile profile text) := by
  intro p t h
  change (if p = profile then some text else none) = some t at h
  split at h
  · rename_i hprofile
    refine ⟨profile.toJson.sorted, if_pos (Option.some.inj h).symm, ?_⟩
    rw [hprofile]
    exact reordered_sorted _
  · cases h

local instance workJson : RoutingJson := oneProfile workProfile workText

theorem deserialize_serialized_work : serializeRoutingProfile workProfile = .ok workText ∧
    deserializeRoutingProfile workText = .ok workProfile := by
  have hsized : workProfile.Sized := by
    constructor
    · decide
    · intro n hn
      cases hn
      decide
  have hvalid : workProfile.validate = .ok () := by decide +kernel
  have hlimit : utf8Len workText ≤ maxRoutingProfileJsonBytes := by decide +kernel
  have htext : RoutingJson.profileText workProfile = some workText := if_pos rfl
  obtain ⟨hwritten, hread, -⟩ :=
    deserialize_serialized (oneProfile_lawful workProfile workText) hsized hvalid htext hlimit
  exact ⟨hwritten, hread⟩

end LinguaMesh.Routing
