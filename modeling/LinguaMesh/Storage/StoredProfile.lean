import LinguaMesh.Domain.Profile

/-!
# Stored profiles

A saved profile is a row of texts and numbers (`storedRow`), which loading runs
through the checks of `ProviderProfile` again (`intoDomain`). Every check admits
what it has returned before (`Repeatable`), with two exceptions: the canonical text of an
endpoint and that of a proxy address may be longer than the limit, and the first
may look like a credential where the text that was given did not.
-/

namespace LinguaMesh.Storage

open Search ProviderProfile

structure StoredProfile where
  id : Str
  displayName : Str
  presetId : Str
  adapterType : Str
  baseEndpoint : Str
  secretRef : Option Str
  userNotes : Option Str
  organization : Option Str
  project : Option Str
  region : Option Str
  accountIdentifier : Option Str
  customHeaders : Option Str
  secretCustomHeadersRef : Option Str
  proxyUrl : Option Str
  proxyAuthRef : Option Str
  requestTimeoutSecs : Nat
  connectionTimeoutSecs : Nat
  streamingIdleTimeoutSecs : Nat
  trustedCertificatesPem : Option Str
  clientCertificateIdentityRef : Option Str
  enabled : Bool
  selectedModel : Option Str
  lastSuccessfulHealthCheck : Option Int
  lastFailureCategory : Option String
  deriving DecidableEq, Repr

def serializeErrorKind : ErrorKind → String
  | .cancelled => "cancelled"
  | .invalidEndpoint => "invalid_endpoint"
  | .network => "network"
  | .timeout => "timeout"
  | .authentication => "authentication"
  | .rateLimited => "rate_limited"
  | .modelUnavailable => "model_unavailable"
  | .malformedResponse => "malformed_response"
  | .persistence => "persistence"
  | .protocolIncompatible => "protocol_incompatible"
  | .invalidConfiguration => "invalid_configuration"
  | .unsupportedCapability => "unsupported_capability"
  | .secretUnavailable => "secret_unavailable"
  | .secureStorageUnavailable => "secure_storage_unavailable"
  | .internal => "internal"

def parseErrorKind : String → Option ErrorKind
  | "cancelled" => some .cancelled
  | "invalid_endpoint" => some .invalidEndpoint
  | "network" => some .network
  | "timeout" => some .timeout
  | "authentication" => some .authentication
  | "rate_limited" => some .rateLimited
  | "model_unavailable" => some .modelUnavailable
  | "malformed_response" => some .malformedResponse
  | "persistence" => some .persistence
  | "protocol_incompatible" => some .protocolIncompatible
  | "invalid_configuration" => some .invalidConfiguration
  | "unsupported_capability" => some .unsupportedCapability
  | "secret_unavailable" => some .secretUnavailable
  | "secure_storage_unavailable" => some .secureStorageUnavailable
  | "internal" => some .internal
  | _ => none

@[simp] theorem parse_serializeErrorKind (kind : ErrorKind) :
    parseErrorKind (serializeErrorKind kind) = some kind := by
  cases kind <;> rfl

def mapProfileValidation (e : ProfileValidationError) : TranslationError :=
  .new .persistence ("Stored provider profile is invalid: " ++ e.message)

section Rows

variable [Urls] [Uuids]

/-- A reference that is only good for the session. -/
def isSessionOnly (ref : Option SecretRef) : Bool := ref.any fun ref => !ref.isPersistent

/-- The row that `upsert_profile` inserts with the selected model. -/
def storedRow (p : ProviderProfile) : Except TranslationError StoredProfile :=
  if isSessionOnly p.secretRef || isSessionOnly p.secretCustomHeadersRef ||
      isSessionOnly p.proxyAuthRef || isSessionOnly p.clientCertificateIdentityRef then
    .error (.new .invalidConfiguration "Session-only secret references cannot be persisted.")
  else .ok {
    id := p.id.value
    displayName := p.displayName
    presetId := p.presetId
    adapterType := p.adapterType
    baseEndpoint := p.baseEndpoint.text
    secretRef := p.secretRef.map (·.value)
    userNotes := p.userNotes
    organization := p.organization
    project := p.project
    region := p.region
    accountIdentifier := p.accountIdentifier
    customHeaders := p.customHeaders
    secretCustomHeadersRef := p.secretCustomHeadersRef.map (·.value)
    proxyUrl := p.proxyUrl
    proxyAuthRef := p.proxyAuthRef.map (·.value)
    requestTimeoutSecs := p.requestTimeoutSecs
    connectionTimeoutSecs := p.connectionTimeoutSecs
    streamingIdleTimeoutSecs := p.streamingIdleTimeoutSecs
    trustedCertificatesPem := p.trustedCertificatesPem
    clientCertificateIdentityRef := p.clientCertificateIdentityRef.map (·.value)
    enabled := p.enabled
    selectedModel := p.selectedModel
    lastSuccessfulHealthCheck := p.lastSuccessfulHealthCheck
    lastFailureCategory := p.lastFailureCategory.map serializeErrorKind }

def storedRef : Option Str → Except ProfileValidationError (Option SecretRef)
  | none => .ok none
  | some value => (SecretRef.parse value).map some

def storedCategory : Option String → Except TranslationError (Option ErrorKind)
  | none => .ok none
  | some value =>
    match parseErrorKind value with
    | some kind => .ok (some kind)
    | none => .error (.new .persistence "Stored provider health category is invalid.")

/-- The chain of `new` and the `with_*` methods over the fields of a row. -/
def StoredProfile.rebuild [HeaderMaps] (row : StoredProfile) (id : ProviderProfileId)
    (secretRef secretCustomHeadersRef proxyAuthRef clientCertificateIdentityRef : Option SecretRef)
    (category : Option ErrorKind) : Except ProfileValidationError ProviderProfile := do
  let p ← ProviderProfile.new id row.displayName row.presetId row.adapterType row.baseEndpoint
    secretRef
  let p ← p.withUserNotes row.userNotes
  let p ← p.withOrganization row.organization
  let p ← p.withProject row.project
  let p ← p.withRegion row.region
  let p ← p.withAccountIdentifier row.accountIdentifier
  let p ← p.withCustomHeaders row.customHeaders
  let p ← p.withProxyUrl row.proxyUrl
  let p := p.withProxyAuthRef proxyAuthRef
  let p ← p.withRequestTimeoutSecs row.requestTimeoutSecs
  let p ← p.withConnectionTimeoutSecs row.connectionTimeoutSecs
  let p ← p.withStreamingIdleTimeoutSecs row.streamingIdleTimeoutSecs
  let p ← p.withTrustedCertificatesPem row.trustedCertificatesPem
  let p := p.withClientCertificateIdentityRef clientCertificateIdentityRef
  let p := p.withSecretCustomHeadersRef secretCustomHeadersRef
  let p := p.withEnabled row.enabled
  let p ← p.withSelectedModel row.selectedModel
  let p ← p.withLastSuccessfulHealthCheck row.lastSuccessfulHealthCheck
  .ok (p.withLastFailureCategory category)

def StoredProfile.intoDomain [HeaderMaps] (row : StoredProfile) :
    Except TranslationError ProviderProfile := do
  let id ← (ProviderProfileId.parse row.id).mapError mapProfileValidation
  let secretRef ← (storedRef row.secretRef).mapError mapProfileValidation
  let secretCustomHeadersRef ←
    (storedRef row.secretCustomHeadersRef).mapError mapProfileValidation
  let proxyAuthRef ← (storedRef row.proxyAuthRef).mapError mapProfileValidation
  let clientCertificateIdentityRef ←
    (storedRef row.clientCertificateIdentityRef).mapError mapProfileValidation
  let category ← storedCategory row.lastFailureCategory
  (row.rebuild id secretRef secretCustomHeadersRef proxyAuthRef clientCertificateIdentityRef
    category).mapError mapProfileValidation

end Rows

/-! ## Checks that admit what they have returned -/

/-- A check admits its results, and none is blank. -/
def Repeatable (check : Str → Except ProfileValidationError Str) : Prop :=
  ∀ raw text, check raw = .ok text → check text = .ok text ∧ (trim text).isEmpty = false

/-- The value of an optional field that the check leaves as it is. -/
def Fixed (check : Str → Except ProfileValidationError Str) (value : Option Str) : Prop :=
  checkedOption check (nonBlank value) = .ok value

theorem nonBlank_some {text : Str} (h : (trim text).isEmpty = false) :
    nonBlank (some text) = some text := by
  simp [nonBlank, Option.filter, h]

theorem Repeatable.checked {check : Str → Except ProfileValidationError Str} (h : Repeatable check)
    {raw value : Option Str} (hv : checkedOption check raw = .ok value) :
    checkedOption check value = .ok value := by
  cases raw with
  | none =>
    obtain rfl := Except.ok.inj hv
    rfl
  | some raw =>
    obtain ⟨text, htext, rfl⟩ := Except.map_eq_ok.mp hv
    rw [checkedOption, (h raw text htext).1]
    rfl

theorem Repeatable.option {check : Str → Except ProfileValidationError Str} (h : Repeatable check)
    {raw value : Option Str} (hv : checkedOption check raw = .ok value) : Fixed check value := by
  cases raw with
  | none =>
    obtain rfl := Except.ok.inj hv
    rfl
  | some raw =>
    obtain ⟨text, htext, rfl⟩ := Except.map_eq_ok.mp hv
    obtain ⟨hkept, hblank⟩ := h raw text htext
    show checkedOption check (nonBlank (some text)) = _
    rw [nonBlank_some hblank, checkedOption, hkept]
    rfl

theorem checkedProfileText_eq {field : String} {raw text : Str}
    (h : checkedProfileText field raw = .ok text) : text = raw ∧ (trim raw).isEmpty = false := by
  unfold checkedProfileText at h
  split at h
  · cases h
  · rename_i hbad
    split at h
    · cases h
    · simp only [Bool.or_eq_true, not_or, Bool.not_eq_true] at hbad
      exact ⟨(Except.ok.inj h).symm, hbad.1.1⟩

theorem checkedProfileText_repeatable (field : String) : Repeatable (checkedProfileText field) := by
  intro raw text h
  obtain ⟨rfl, hblank⟩ := checkedProfileText_eq h
  exact ⟨h, hblank⟩

theorem validateCustomHeaders_repeatable [HeaderMaps] [LawfulHeaderMaps] :
    Repeatable validateCustomHeaders := by
  intro raw text h
  unfold validateCustomHeaders at h
  split at h
  · cases h
  · rename_i headers hparse
    have hprint := LawfulHeaderMaps.parse_print raw headers hparse
    split at h
    · cases h
    · rename_i hbad
      obtain rfl := Except.ok.inj h
      refine ⟨?_, ?_⟩
      · unfold validateCustomHeaders
        rw [hprint]
        exact if_neg hbad
      · rw [List.isEmpty_eq_false_iff]
        intro hblank
        rw [LawfulHeaderMaps.parse_blank _ hblank] at hprint
        cases hprint

theorem normalizeLines_plain (s : Str) : '\r' ∉ normalizeLines s := by
  induction s using normalizeLines.induct with
  | case1 => simp [normalizeLines]
  | case2 rest ih => simp [normalizeLines, ih]
  | case3 c rest hne ih =>
    rw [normalizeLines.eq_3 c rest hne, List.mem_cons, not_or]
    refine ⟨?_, ih⟩
    split
    · decide
    · rename_i hc
      exact fun h => hc h.symm

theorem normalizeLines_eq_self {s : Str} (h : '\r' ∉ s) : normalizeLines s = s := by
  induction s with
  | nil => rfl
  | cons c s ih =>
    obtain ⟨hc, hs⟩ := not_or.mp (List.mem_cons.not.mp h)
    rw [normalizeLines.eq_3 c s (fun rest hcr => absurd hcr.symm hc), if_neg (Ne.symm hc), ih hs]

theorem isBadPem_eq_false {s : Str} : isBadPem s = false ↔
    utf8Len s ≤ maxProviderTrustedCertificatesPemBytes ∧ '\x00' ∉ s ∧
    contains s "PRIVATE KEY".toList = false ∧
    contains s "-----BEGIN CERTIFICATE-----".toList = true ∧
    contains s "-----END CERTIFICATE-----".toList = true ∧
    ∀ c ∈ s, (isControl c && c != '\n' && c != '\t') = false := by
  simp [isBadPem, and_assoc]

/-- Trimming takes off blanks only, and a certificate neither begins nor ends with one. -/
theorem isBadPem_trim {s : Str} (h : isBadPem s = false) : isBadPem (trim s) = false := by
  obtain ⟨hlen, hnul, hkey, hbegin, hend, hcontrol⟩ := isBadPem_eq_false.mp h
  have hslice := infix_trim s
  refine isBadPem_eq_false.mpr ⟨(utf8Len_mono hslice).trans hlen,
    fun hmem => hnul (hslice.subset hmem), infix_contains hslice hkey, ?_, ?_,
    fun c hc => hcontrol c (hslice.subset hc)⟩
  · exact @contains_trim '-' '-' "----BEGIN CERTIFICATE----".toList s (by decide) (by decide) hbegin
  · exact @contains_trim '-' '-' "----END CERTIFICATE----".toList s (by decide) (by decide) hend

theorem validateTrustedCertificatesPem_repeatable : Repeatable validateTrustedCertificatesPem := by
  intro raw text h
  unfold validateTrustedCertificatesPem at h
  split at h
  · cases h
  · rename_i hbad
    obtain rfl := Except.ok.inj h
    have hgood := isBadPem_trim (Bool.not_eq_true _ ▸ hbad)
    have hplain : normalizeLines (trim (normalizeLines raw)) = trim (normalizeLines raw) :=
      normalizeLines_eq_self fun hr => normalizeLines_plain raw ((infix_trim _).subset hr)
    refine ⟨?_, ?_⟩
    · unfold validateTrustedCertificatesPem
      rw [hplain, hgood, trim_trim]
      rfl
    · rw [trim_trim, List.isEmpty_eq_false_iff]
      intro hempty
      rw [hempty] at hgood
      exact absurd hgood (by decide)

/-! ## The two canonical texts -/

section Canonical

variable [Urls] [LawfulUrls]

theorem toText_nonblank (u : Urls.Url) : (trim (Urls.toText u)).isEmpty = false := by
  rw [List.isEmpty_eq_false_iff]
  intro hblank
  have hparse := LawfulUrls.parse_toText u
  rw [LawfulUrls.parse_blank _ hblank] at hparse
  cases hparse

/-- A proxy address is admitted again if its canonical text is not too long. -/
theorem validateProxyUrl_again {raw text : Str} (h : validateProxyUrl raw = .ok text) :
    (trim text).isEmpty = false ∧ validateProxyUrl text =
      if maxProxyUrlBytes < utf8Len text then .error (.invalidField "proxy_url") else .ok text := by
  unfold validateProxyUrl at h
  split at h
  · cases h
  · split at h
    · cases h
    · rename_i u hparse
      split at h
      · rename_i hsafe
        obtain rfl := Except.ok.inj h
        refine ⟨toText_nonblank u, ?_⟩
        have hplain : (Urls.toText u).any isControl = false :=
          List.any_eq_false.mpr fun c hc => by simp [LawfulUrls.toText_plain u c hc]
        unfold validateProxyUrl
        simp [LawfulUrls.parse_toText, hplain, hsafe]
      · cases h

/-- The slash leaves an endpoint safe, and is added once. -/
theorem slashed_safe {u : Urls.Url} (h : isSafeEndpoint u = true) :
    isSafeEndpoint (slashed u) = true ∧ slashed (slashed u) = slashed u := by
  by_cases hslash : (Urls.path u).getLast? = some '/'
  · have hu : slashed u = u := if_pos hslash
    rw [hu]
    exact ⟨h, hu⟩
  · have hu : slashed u = Urls.setPath u (Urls.path u ++ ['/']) := if_neg hslash
    simp only [isSafeEndpoint, Bool.and_eq_true] at h
    obtain ⟨⟨⟨⟨⟨⟨huser, hpassword⟩, hhost⟩, hquery⟩, hfragment⟩, hpercent⟩, hscheme⟩ := h
    have hpath := LawfulUrls.setPath_slash u hhost (by simpa using hpercent) hslash
    obtain ⟨hscheme', huser', hpassword', hhost', hquery', hfragment'⟩ :=
      LawfulUrls.setPath_frame u (Urls.path u ++ ['/']) hhost
    have hloopback : isLoopbackEndpoint (slashed u) = isLoopbackEndpoint u := by
      unfold isLoopbackEndpoint
      rw [hu, hhost']
    rw [← hu] at *
    refine ⟨?_, if_pos (by simp [hpath])⟩
    simp only [isSafeEndpoint, Bool.and_eq_true, huser', hpassword', hhost', hquery', hfragment',
      hscheme', hloopback, hpath]
    exact ⟨⟨⟨⟨⟨⟨huser, hpassword⟩, hhost⟩, hquery⟩, hfragment⟩, by simpa using hpercent⟩, hscheme⟩

/-- An endpoint is admitted again if its canonical text is neither too long nor like a
credential. -/
theorem canonicalEndpoint_again {raw text : Str} (h : canonicalEndpoint raw = .ok text) :
    canonicalEndpoint text =
      if maxProfileTextBytes < utf8Len text || looksLikeCredential text then
        .error .invalidEndpoint
      else .ok text := by
  unfold canonicalEndpoint at h
  split at h
  · cases h
  · split at h
    · cases h
    · rename_i u hparse
      split at h
      · cases h
      · rename_i hsafe
        split at h
        · cases h
        · rename_i hsegments
          obtain rfl := Except.ok.inj h
          obtain ⟨hsafe', hagain⟩ := slashed_safe (by simpa using hsafe)
          unfold canonicalEndpoint
          simp only [LawfulUrls.parse_toText, hsafe', hagain, hsegments]
          rfl

theorem endpoint_again (e : EndpointConfiguration) :
    EndpointConfiguration.parse e.text =
      if maxProfileTextBytes < utf8Len e.text || looksLikeCredential e.text then
        .error .invalidEndpoint
      else .ok e := by
  obtain ⟨text, raw, hraw⟩ := e
  have h := canonicalEndpoint_again hraw
  unfold EndpointConfiguration.parse
  split <;> rename_i heq <;> rw [heq] at h <;> split at h <;> rename_i hbad
  · cases h
  · obtain rfl := Except.ok.inj h
    exact (if_neg hbad).symm
  · obtain rfl := Except.error.inj h
    exact (if_pos hbad).symm
  · cases h

end Canonical

/-! ## What holds of every profile -/

section Profiles

variable [Urls] [Uuids] [HeaderMaps]

/-- Every field but the two canonical texts is left as it is by its own check. -/
structure Settled (p : ProviderProfile) : Prop where
  displayName : checkedProfileText "display_name" p.displayName = .ok p.displayName
  presetId : checkedProfileText "preset_id" p.presetId = .ok p.presetId
  adapterType : checkedProfileText "adapter_type" p.adapterType = .ok p.adapterType
  userNotes : Fixed (checkedProfileText "user_notes") p.userNotes
  organization : Fixed (checkedProfileText "organization") p.organization
  project : Fixed (checkedProfileText "project") p.project
  region : Fixed (checkedProfileText "region") p.region
  accountIdentifier : Fixed (checkedProfileText "account_identifier") p.accountIdentifier
  customHeaders : Fixed validateCustomHeaders p.customHeaders
  trustedCertificatesPem : Fixed validateTrustedCertificatesPem p.trustedCertificatesPem
  selectedModel : checkedOption (checkedProfileText "selected_model") p.selectedModel =
    .ok p.selectedModel
  health : p.lastSuccessfulHealthCheck.any (· < 0) = false
  request : checkedSeconds 1 600 "request_timeout_secs" p.requestTimeoutSecs = .ok ()
  connection : checkedSeconds 1 120 "connection_timeout_secs" p.connectionTimeoutSecs = .ok ()
  streaming : checkedSeconds 1 300 "streaming_idle_timeout_secs" p.streamingIdleTimeoutSecs = .ok ()
  proxyUrl : ∀ text, p.proxyUrl = some text → ∃ raw, validateProxyUrl raw = .ok text

/-- `new` and every `with_*` method keep the fields settled. -/
theorem settled [LawfulHeaderMaps] {p : ProviderProfile} (h : Built p) : Settled p := by
  have hkept := checkedProfileText_repeatable
  induction h with
  | new h =>
    obtain ⟨displayName, hname, h⟩ := Except.bind_ok.mp h
    obtain ⟨presetId, hpreset, h⟩ := Except.bind_ok.mp h
    obtain ⟨adapterType, hadapter, h⟩ := Except.bind_ok.mp h
    obtain ⟨baseEndpoint, -, rfl⟩ := Except.bind_map_ok.mp h
    exact ⟨(hkept _ _ _ hname).1, (hkept _ _ _ hpreset).1, (hkept _ _ _ hadapter).1, rfl, rfl, rfl,
      rfl, rfl, rfl, rfl, rfl, rfl, rfl, rfl, rfl, nofun⟩
  | secretCustomHeadersRef _ _ ih => exact { ih with }
  | proxyAuthRef _ _ ih => exact { ih with }
  | clientCertificateIdentityRef _ _ ih => exact { ih with }
  | enabled _ _ ih => exact { ih with }
  | lastFailureCategory _ _ ih => exact { ih with }
  | selectedModel _ h ih =>
    obtain ⟨value, hvalue, rfl⟩ := Except.bind_map_ok.mp h
    exact { ih with selectedModel := (hkept _).checked hvalue }
  | lastSuccessfulHealthCheck _ h ih =>
    obtain ⟨⟨⟩, htime, rfl⟩ := Except.bind_map_ok.mp h
    exact { ih with health := Except.refuseIf_ok.mp htime }
  | userNotes _ h ih =>
    obtain ⟨value, hvalue, rfl⟩ := Except.bind_map_ok.mp h
    exact { ih with userNotes := (hkept _).option hvalue }
  | organization _ h ih =>
    obtain ⟨value, hvalue, rfl⟩ := Except.bind_map_ok.mp h
    exact { ih with organization := (hkept _).option hvalue }
  | project _ h ih =>
    obtain ⟨value, hvalue, rfl⟩ := Except.bind_map_ok.mp h
    exact { ih with project := (hkept _).option hvalue }
  | region _ h ih =>
    obtain ⟨value, hvalue, rfl⟩ := Except.bind_map_ok.mp h
    exact { ih with region := (hkept _).option hvalue }
  | accountIdentifier _ h ih =>
    obtain ⟨value, hvalue, rfl⟩ := Except.bind_map_ok.mp h
    exact { ih with accountIdentifier := (hkept _).option hvalue }
  | customHeaders _ h ih =>
    obtain ⟨value, hvalue, rfl⟩ := Except.bind_map_ok.mp h
    exact { ih with customHeaders := validateCustomHeaders_repeatable.option hvalue }
  | proxyUrl _ h ih =>
    obtain ⟨value, hvalue, rfl⟩ := Except.bind_map_ok.mp h
    refine { ih with proxyUrl := fun text htext => ?_ }
    obtain rfl : value = some text := htext
    unfold checkedOption at hvalue
    split at hvalue
    · cases hvalue
    · obtain ⟨text', hraw, heq⟩ := Except.map_eq_ok.mp hvalue
      exact ⟨_, Option.some.inj heq ▸ hraw⟩
  | trustedCertificatesPem _ h ih =>
    obtain ⟨value, hvalue, rfl⟩ := Except.bind_map_ok.mp h
    exact { ih with trustedCertificatesPem := validateTrustedCertificatesPem_repeatable.option hvalue }
  | requestTimeoutSecs _ h ih =>
    obtain ⟨⟨⟩, hrange, rfl⟩ := Except.bind_map_ok.mp h
    exact { ih with request := hrange }
  | connectionTimeoutSecs _ h ih =>
    obtain ⟨⟨⟩, hrange, rfl⟩ := Except.bind_map_ok.mp h
    exact { ih with connection := hrange }
  | streamingIdleTimeoutSecs _ h ih =>
    obtain ⟨⟨⟩, hrange, rfl⟩ := Except.bind_map_ok.mp h
    exact { ih with streaming := hrange }

omit [Urls] [HeaderMaps] in
theorem storedRef_map (ref : Option SecretRef) :
    storedRef (ref.map (·.value)) = .ok ref := by
  cases ref with
  | none => rfl
  | some ref =>
    show (Except.Checked.accept checkSecretRef ref.value).map some = _
    rw [Except.Checked.accept_value]
    rfl

omit [Urls] [Uuids] [HeaderMaps] in
theorem storedCategory_map (category : Option ErrorKind) :
    storedCategory (category.map serializeErrorKind) = .ok category := by
  cases category with
  | none => rfl
  | some kind => simp [storedCategory]

/-- What the stored fields are read as: only the two canonical texts are in question. -/
theorem intoDomain_eq {p : ProviderProfile} (h : Settled p) {row : StoredProfile}
    (hrow : storedRow p = .ok row) :
    row.intoDomain = (do
      let baseEndpoint ← EndpointConfiguration.parse p.baseEndpoint.text
      let proxyUrl ← checkedOption validateProxyUrl (nonBlank p.proxyUrl)
      .ok { p with baseEndpoint, proxyUrl }).mapError mapProfileValidation := by
  unfold storedRow at hrow
  split at hrow
  · cases hrow
  · obtain rfl := Except.ok.inj hrow
    have hid : ProviderProfileId.parse p.id.value = .ok p.id := Except.Checked.accept_value p.id
    have hok {α : Type} (a : α) : (Except.ok a).mapError mapProfileValidation = .ok a := rfl
    simp only [StoredProfile.intoDomain, hid, storedRef_map, storedCategory_map, hok,
      Except.ok_bind]
    refine congrArg (Except.mapError mapProfileValidation) ?_
    unfold StoredProfile.rebuild ProviderProfile.new
    simp only [h.displayName, h.presetId, h.adapterType, Except.ok_bind]
    cases EndpointConfiguration.parse p.baseEndpoint.text with
    | error e => rfl
    | ok baseEndpoint =>
      simp only [withUserNotes, withOrganization, withProject, withRegion, withAccountIdentifier,
        withCustomHeaders, withProxyUrl, show checkedOption _ _ = _ from h.userNotes,
        show checkedOption _ _ = _ from h.organization, show checkedOption _ _ = _ from h.project,
        show checkedOption _ _ = _ from h.region, show checkedOption _ _ = _ from h.accountIdentifier,
        show checkedOption _ _ = _ from h.customHeaders, Except.ok_bind]
      cases checkedOption validateProxyUrl (nonBlank p.proxyUrl) with
      | error e => rfl
      | ok proxyUrl =>
        have hhealth : Except.refuseIf (p.lastSuccessfulHealthCheck.any (· < 0))
            (ProfileValidationError.invalidField "last_successful_health_check") = .ok () :=
          Except.refuseIf_ok.mpr h.health
        simp only [withRequestTimeoutSecs, withConnectionTimeoutSecs, withStreamingIdleTimeoutSecs,
          withTrustedCertificatesPem, withSelectedModel, withLastSuccessfulHealthCheck, h.request,
          h.connection, h.streaming, show checkedOption _ _ = _ from h.trustedCertificatesPem,
          h.selectedModel, hhealth, Except.ok_bind]
        rfl

/-- The canonical texts are within the limits, and the endpoint is not like a credential. -/
structure Loadable (p : ProviderProfile) : Prop where
  endpoint_short : utf8Len p.baseEndpoint.text ≤ maxProfileTextBytes
  endpoint_plain : looksLikeCredential p.baseEndpoint.text = false
  proxy_short : ∀ text, p.proxyUrl = some text → utf8Len text ≤ maxProxyUrlBytes

omit [HeaderMaps] in
theorem endpoint_loads [LawfulUrls] {p : ProviderProfile} {e : EndpointConfiguration} :
    EndpointConfiguration.parse p.baseEndpoint.text = .ok e ↔
      utf8Len p.baseEndpoint.text ≤ maxProfileTextBytes ∧
        looksLikeCredential p.baseEndpoint.text = false ∧ p.baseEndpoint = e := by
  rw [endpoint_again]
  split
  · rename_i hbad
    simp only [Bool.or_eq_true, decide_eq_true_eq] at hbad
    refine ⟨nofun, fun ⟨hlen, hplain, _⟩ => ?_⟩
    rcases hbad with hlong | hlike
    · omega
    · simp [hplain] at hlike
  · rename_i hgood
    simp only [Bool.or_eq_true, decide_eq_true_eq, not_or, not_lt, Bool.not_eq_true] at hgood
    simp [hgood]

theorem proxy_loads [LawfulUrls] {p : ProviderProfile} (h : Settled p) {value : Option Str} :
    checkedOption validateProxyUrl (nonBlank p.proxyUrl) = .ok value ↔
      (∀ text, p.proxyUrl = some text → utf8Len text ≤ maxProxyUrlBytes) ∧ p.proxyUrl = value := by
  cases hproxy : p.proxyUrl with
  | none =>
    show Except.ok none = .ok value ↔ _
    simp
  | some text =>
    obtain ⟨raw, hraw⟩ := h.proxyUrl text hproxy
    obtain ⟨hblank, hagain⟩ := validateProxyUrl_again hraw
    rw [nonBlank_some hblank, checkedOption, hagain]
    split
    · rename_i hlong
      simp only [Except.map, reduceCtorEq, false_iff, Option.some.injEq, forall_eq', not_and]
      omega
    · rename_i hshort
      simp only [Except.map, Except.ok.injEq, Option.some.injEq, forall_eq']
      exact ⟨fun heq => ⟨by omega, heq⟩, And.right⟩

theorem intoDomain_ok_iff [LawfulUrls] [LawfulHeaderMaps] {p q : ProviderProfile} (hp : Built p)
    {row : StoredProfile} (hrow : storedRow p = .ok row) :
    row.intoDomain = .ok q ↔ Loadable p ∧ p = q := by
  have hsettled := settled hp
  rw [intoDomain_eq hsettled hrow, Except.mapError_ok, Except.bind_ok]
  simp only [Except.bind_map_ok, endpoint_loads, proxy_loads hsettled]
  constructor
  · rintro ⟨e, ⟨hshort, hplain, rfl⟩, proxy, ⟨hproxy, rfl⟩, rfl⟩
    exact ⟨⟨hshort, hplain, hproxy⟩, rfl⟩
  · rintro ⟨⟨hshort, hplain, hproxy⟩, rfl⟩
    exact ⟨_, ⟨hshort, hplain, rfl⟩, _, ⟨hproxy, rfl⟩, rfl⟩

/-- A saved profile is loaded unchanged exactly if it is `Loadable`, and never as another one. -/
theorem loads_iff [LawfulUrls] [LawfulHeaderMaps] {p : ProviderProfile} (hp : Built p)
    {row : StoredProfile} (hrow : storedRow p = .ok row) :
    (row.intoDomain = .ok p ↔ Loadable p) ∧ ∀ q, row.intoDomain = .ok q → q = p :=
  ⟨(intoDomain_ok_iff hp hrow).trans (and_iff_left rfl),
    fun _ hq => ((intoDomain_ok_iff hp hrow).mp hq).2.symm⟩

end Profiles

/-! ## Two endpoints -/

/-- The URL crate on one address: the text that is given, and its canonical text. -/
@[reducible] def oneUrl (given canonical host : Str) : Urls where
  Url := Unit
  parse text := if text = given ∨ text = canonical then some () else none
  toText _ := canonical
  scheme _ := "https".toList
  username _ := []
  password _ := none
  host _ := some (.domain host)
  path _ := ['/']
  query _ := none
  fragment _ := none
  pathSegments _ := some [[]]
  setPath u _ := u

theorem oneUrl_lawful (given canonical host : Str) (hplain : canonical.any isControl = false)
    (hgiven : trim given ≠ []) (hcanonical : trim canonical ≠ []) :
    @LawfulUrls (oneUrl given canonical host) :=
  letI := oneUrl given canonical host
  { parse_toText := fun _ => if_pos (.inr rfl)
    toText_plain := fun _ c hc => by simpa using List.any_eq_false.mp hplain c hc
    parse_blank := fun text h => if_neg fun ht => by
      rcases ht with rfl | rfl
      · exact hgiven h
      · exact hcanonical h
    setPath_slash := fun _ _ _ h => absurd rfl h
    setPath_frame := fun _ _ _ => ⟨rfl, rfl, rfl, rfl, rfl, rfl⟩ }

/-- No text is read as headers. -/
@[reducible] def noHeaders : HeaderMaps := ⟨fun _ => none, fun _ => []⟩

theorem noHeaders_lawful : @LawfulHeaderMaps noHeaders :=
  letI := noHeaders
  ⟨nofun, fun _ _ => rfl⟩

@[reducible] def oneUuid : Uuids := ⟨(· = "3d8f7c52-9a41-4b6e-8f20-6c1d5e7a9b03".toList)⟩

/-- A new profile is built, and stored if its reference is persistent. -/
theorem new_stored [Urls] [Uuids] [HeaderMaps] (given text name : Str)
    (h : canonicalEndpoint given = .ok text) (id : ProviderProfileId)
    (hname : ∀ field, checkedProfileText field name = .ok name) (ref : Option SecretRef)
    (href : isSessionOnly ref = false) :
    ∃ p row, Built p ∧ storedRow p = .ok row ∧ p.baseEndpoint.text = text ∧ p.proxyUrl = none := by
  obtain ⟨p, hnew, hendpoint, hproxy, hrefs⟩ :
      ∃ p, ProviderProfile.new id name name name given ref = .ok p ∧ p.baseEndpoint.text = text ∧
        p.proxyUrl = none ∧ p.secretRef = ref ∧ p.secretCustomHeadersRef = none ∧
        p.proxyAuthRef = none ∧ p.clientCertificateIdentityRef = none := by
    unfold ProviderProfile.new
    simp only [hname, EndpointConfiguration.parse_ok h, Except.ok_bind]
    exact ⟨_, rfl, rfl, rfl, rfl, rfl, rfl, rfl⟩
  obtain ⟨hsecret, hheaders, hauth, hidentity⟩ := hrefs
  unfold storedRow
  refine ⟨p, _, .new hnew, if_neg ?_, hendpoint, hproxy⟩
  have hnone : isSessionOnly none = false := rfl
  simp [hsecret, hheaders, hauth, hidentity, href, hnone]

def work : ProviderProfileId := ⟨"work".toList, by decide⟩

theorem loads_iff_work :
    letI := oneUrl "https://API.example".toList "https://api.example/".toList "api.example".toList
    letI := noHeaders
    letI := oneUuid
    ∃ (p : ProviderProfile) (row : StoredProfile), Built p ∧ storedRow p = .ok row ∧
      (row.intoDomain = .ok p ↔ Loadable p) ∧ ∀ q, row.intoDomain = .ok q → q = p := by
  let := oneUrl "https://API.example".toList "https://api.example/".toList "api.example".toList
  let := noHeaders
  let := oneUuid
  have := oneUrl_lawful "https://API.example".toList "https://api.example/".toList
    "api.example".toList (by decide) (by decide) (by decide)
  have := noHeaders_lawful
  obtain ⟨p, row, hp, hrow, -⟩ := new_stored "https://API.example".toList
    "https://api.example/".toList "work".toList (by decide) work (fun _ => rfl)
    (some (.new .secretService _ (by decide) (decide_eq_true rfl))) (by decide)
  exact ⟨p, row, hp, hrow, loads_iff hp hrow⟩

/-- The lower-case form of a host may look like a credential, and the profile is lost. -/
theorem profile_lost : ¬ ∀ [Urls] [Uuids] [HeaderMaps] [LawfulUrls] [LawfulHeaderMaps]
    (p : ProviderProfile) (row : StoredProfile),
    Built p → storedRow p = .ok row → row.intoDomain = .ok p := by
  intro h
  let := oneUrl "https://SK-aaaaaaaaaaaaaaaaa.example/".toList
    "https://sk-aaaaaaaaaaaaaaaaa.example/".toList "sk-aaaaaaaaaaaaaaaaa.example".toList
  let := noHeaders
  let := oneUuid
  have := oneUrl_lawful "https://SK-aaaaaaaaaaaaaaaaa.example/".toList
    "https://sk-aaaaaaaaaaaaaaaaa.example/".toList "sk-aaaaaaaaaaaaaaaaa.example".toList
    (by decide) (by decide) (by decide)
  have := noHeaders_lawful
  obtain ⟨p, row, hp, hrow, htext, -⟩ :=
    new_stored "https://SK-aaaaaaaaaaaaaaaaa.example/".toList
      "https://sk-aaaaaaaaaaaaaaaaa.example/".toList "work".toList (by decide) work (fun _ => rfl)
      none rfl
  have hloads := ((intoDomain_ok_iff hp hrow).mp (h p row hp hrow)).1
  have hplain := hloads.endpoint_plain
  rw [htext] at hplain
  exact absurd hplain (by decide)

end LinguaMesh.Storage
