import LinguaMesh.Domain.Request

/-!
# Provider profiles

A profile is made by `ProviderProfile::new` and changed by the `with_*` methods. They
check every text, and bring the endpoint, the custom headers, the proxy address and
the certificates into a canonical form. `Built` says that a profile was made so.

The URL, the JSON and the UUID crates are parameters (`Urls`, `HeaderMaps`,
`Uuids`); `LawfulUrls` and `LawfulHeaderMaps` say what is documented of them.
-/

namespace LinguaMesh

open Search

def maxProfileTextBytes : Nat := 2048
def maxCustomHeaders : Nat := 16
def maxCustomHeaderNameBytes : Nat := 128
def maxCustomHeaderValueBytes : Nat := 2048
def maxProxyUrlBytes : Nat := 2048
def maxProviderTrustedCertificatesPemBytes : Nat := 64 * 1024

/-! ## The crates -/

/-- `url::Host`. -/
inductive Host where
  | domain (name : Str)
  | ipv4 (address : BitVec 32)
  | ipv6 (address : BitVec 128)
  deriving DecidableEq, Repr

/-- The type `Url` and the methods that the profile uses; `toText` is `to_string`. -/
class Urls where
  Url : Type
  parse : Str → Option Url
  toText : Url → Str
  scheme : Url → Str
  username : Url → Str
  password : Url → Option Str
  host : Url → Option Host
  path : Url → Str
  query : Url → Option Str
  fragment : Url → Option Str
  pathSegments : Url → Option (List Str)
  setPath : Url → Str → Url

/-- What is documented of a URL: it is parsed back from its text, which has no control characters;
an absolute URL is not blank; a slash behind the path of a URL with a host changes nothing else. -/
class LawfulUrls [Urls] : Prop where
  parse_toText : ∀ u, Urls.parse (Urls.toText u) = some u
  toText_plain : ∀ u, ∀ c ∈ Urls.toText u, isControl c = false
  parse_blank : ∀ text, trim text = [] → Urls.parse text = none
  setPath_slash : ∀ u, (Urls.host u).isSome → '%' ∉ Urls.path u →
    (Urls.path u).getLast? ≠ some '/' →
    Urls.path (Urls.setPath u (Urls.path u ++ ['/'])) = Urls.path u ++ ['/']
  setPath_frame : ∀ u path, (Urls.host u).isSome →
    Urls.scheme (Urls.setPath u path) = Urls.scheme u ∧
    Urls.username (Urls.setPath u path) = Urls.username u ∧
    Urls.password (Urls.setPath u path) = Urls.password u ∧
    Urls.host (Urls.setPath u path) = Urls.host u ∧
    Urls.query (Urls.setPath u path) = Urls.query u ∧
    Urls.fragment (Urls.setPath u path) = Urls.fragment u

/-- `serde_json` for a `BTreeMap<String, String>`, given by its entries. -/
class HeaderMaps where
  parse : Str → Option (List (Str × Str))
  print : List (Str × Str) → Str

class LawfulHeaderMaps [HeaderMaps] : Prop where
  parse_print : ∀ text headers, HeaderMaps.parse text = some headers →
    HeaderMaps.parse (HeaderMaps.print headers) = some headers
  parse_blank : ∀ text, trim text = [] → HeaderMaps.parse text = none

/-- Whether `uuid` reads a text as a random UUID and writes it in the same way. -/
class Uuids where
  isRandom : Str → Bool

/-! ## Identifiers and references -/

def checkProfileId (value : Str) : Except ProfileValidationError Unit :=
  Except.refuseIf (!isStableIdentifier value || looksLikeCredential value) .invalidProfileId

abbrev ProviderProfileId : Type := Except.Checked checkProfileId

def ProviderProfileId.parse (value : Str) : Except ProfileValidationError ProviderProfileId :=
  Except.Checked.accept checkProfileId value

inductive SecretRefNamespace where
  | androidKeystore | macosKeychain | secretService | session | testSecret | windowsCredential
  deriving DecidableEq, Repr

def SecretRefNamespace.asStr : SecretRefNamespace → Str
  | .androidKeystore => "android-keystore".toList
  | .macosKeychain => "macos-keychain".toList
  | .secretService => "secret-service".toList
  | .session => "session".toList
  | .testSecret => "test-secret".toList
  | .windowsCredential => "windows-credential".toList

def SecretRefNamespace.all : List SecretRefNamespace :=
  [.androidKeystore, .macosKeychain, .secretService, .session, .testSecret, .windowsCredential]

def SecretRefNamespace.parse (value : Str) : Option SecretRefNamespace :=
  all.find? fun ns => ns.asStr = value

/-- `str::split_once`, at a character. -/
def splitOnceChar (c : Char) : Str → Option (Str × Str)
  | [] => none
  | d :: rest =>
    if d = c then some ([], rest) else (splitOnceChar c rest).map fun (a, b) => (d :: a, b)

theorem splitOnceChar_append {c : Char} {a : Str} (h : c ∉ a) (b : Str) :
    splitOnceChar c (a ++ c :: b) = some (a, b) := by
  induction a with
  | nil => simp [splitOnceChar]
  | cons d a ih =>
    obtain ⟨hd, ha⟩ := not_or.mp (List.mem_cons.not.mp h)
    rw [List.cons_append, splitOnceChar, if_neg (Ne.symm hd), ih ha]
    rfl

section References

variable [Uuids]

def checkSecretRef (value : Str) : Except ProfileValidationError Unit :=
  if maxStableIdBytes < utf8Len value then .error .invalidSecretRef
  else match splitOnceChar ':' value with
    | none => .error .invalidSecretRef
    | some (ns, opaqueId) =>
      Except.refuseIf ((SecretRefNamespace.parse ns).isNone || utf8Len opaqueId != 36 ||
        !Uuids.isRandom opaqueId) .invalidSecretRef

abbrev SecretRef : Type := Except.Checked checkSecretRef

def SecretRef.parse (value : Str) : Except ProfileValidationError SecretRef :=
  Except.Checked.accept checkSecretRef value

/-- `SecretRef::new`, for the random UUID `id`. -/
def SecretRef.new (ns : SecretRefNamespace) (id : Str) (hlen : utf8Len id = 36)
    (hid : Uuids.isRandom id = true) : SecretRef where
  value := ns.asStr ++ ':' :: id
  valid := by
    have hns : ':' ∉ ns.asStr ∧ utf8Len ns.asStr ≤ 18 ∧
        (SecretRefNamespace.parse ns.asStr).isNone = false := by
      cases ns <;> decide
    have hcolon : Char.utf8Size ':' = 1 := by decide
    have hshort : utf8Len (ns.asStr ++ ':' :: id) ≤ maxStableIdBytes := by
      rw [utf8Len_append, utf8Len_cons]
      unfold maxStableIdBytes
      omega
    unfold checkSecretRef
    rw [if_neg (not_lt.mpr hshort), splitOnceChar_append hns.1]
    simp [hns.2.2, hlen, hid]

def SecretRef.namespace (r : SecretRef) : Str :=
  ((splitOnceChar ':' r.value).map (·.1)).getD []

def SecretRef.isPersistent (r : SecretRef) : Bool := r.namespace != "session".toList

end References

/-! ## Endpoints -/

section Endpoint

variable [Urls]

def isLoopbackEndpoint (u : Urls.Url) : Bool :=
  match Urls.host u with
  | some (.domain name) => eqIgnoreAsciiCase name "localhost".toList
  | some (.ipv4 address) => address.extractLsb' 24 8 == 127
  | some (.ipv6 address) => address == 1
  | none => false

/-- The parts that an endpoint may not have, and the schemes that it may. -/
def isSafeEndpoint (u : Urls.Url) : Bool :=
  (Urls.username u).isEmpty && (Urls.password u).isNone && (Urls.host u).isSome &&
    (Urls.query u).isNone && (Urls.fragment u).isNone && !(Urls.path u).contains '%' &&
    (Urls.scheme u == "https".toList ||
      (Urls.scheme u == "http".toList && isLoopbackEndpoint u))

/-- The path with a slash at its end. -/
def slashed (u : Urls.Url) : Urls.Url :=
  if (Urls.path u).getLast? = some '/' then u else Urls.setPath u (Urls.path u ++ ['/'])

/-- The text that `EndpointConfiguration::parse` keeps. -/
def canonicalEndpoint (value : Str) : Except ProfileValidationError Str :=
  if maxProfileTextBytes < utf8Len value || looksLikeCredential value then
    .error .invalidEndpoint
  else match Urls.parse value with
    | none => .error .invalidEndpoint
    | some u =>
      if !isSafeEndpoint u then .error .invalidEndpoint
      else if (Urls.pathSegments (slashed u)).any (·.any looksLikeCredential) then
        .error .invalidEndpoint
      else .ok (Urls.toText (slashed u))

@[ext] structure EndpointConfiguration where
  text : Str
  canonical : ∃ value, canonicalEndpoint value = .ok text

def EndpointConfiguration.parse (value : Str) :
    Except ProfileValidationError EndpointConfiguration :=
  match h : canonicalEndpoint value with
  | .ok text => .ok ⟨text, value, h⟩
  | .error e => .error e

theorem EndpointConfiguration.parse_ok {value text : Str} (h : canonicalEndpoint value = .ok text) :
    EndpointConfiguration.parse value = .ok ⟨text, value, h⟩ := by
  unfold EndpointConfiguration.parse
  split <;> rename_i heq <;> rw [h] at heq
  · cases heq
    rfl
  · cases heq

end Endpoint

/-! ## Texts -/

def checkedProfileText (field : String) (value : Str) : Except ProfileValidationError Str :=
  if (trim value).isEmpty || maxProfileTextBytes < utf8Len value || value.contains '\x00' then
    .error (.invalidField field)
  else if looksLikeCredential value then .error (.credentialLikeValue field)
  else .ok value

def isHttpTokenByte (c : Char) : Bool :=
  c.isAlphanum || "!#$%&'*+-.^_|~".toList.contains c || c.toNat == 0x60

def secretHeaderNames : List Str :=
  ["authorization", "proxy-authorization", "cookie", "set-cookie", "api-key", "x-api-key",
    "openai-organization", "openai-project", "content-type", "accept", "user-agent", "secret",
    "token", "credential"].map String.toList

def isSecretHeaderName (name : Str) : Bool :=
  secretHeaderNames.any fun forbidden =>
    asciiLower name == forbidden || contains (asciiLower name) forbidden

def isBadHeader (name value : Str) : Bool :=
  name.isEmpty || maxCustomHeaderNameBytes < utf8Len name || !name.all isHttpTokenByte ||
    isSecretHeaderName name || value.isEmpty || maxCustomHeaderValueBytes < utf8Len value ||
    value.any isControl || looksLikeCredential value

def validateCustomHeaders [HeaderMaps] (value : Str) : Except ProfileValidationError Str :=
  match HeaderMaps.parse value with
  | none => .error (.invalidField "custom_headers")
  | some headers =>
    if headers.isEmpty || maxCustomHeaders < headers.length ||
        headers.any (fun (name, value) => isBadHeader name value) then
      .error (.invalidField "custom_headers")
    else .ok (HeaderMaps.print headers)

section Proxy

variable [Urls]

def isSafeProxy (u : Urls.Url) : Bool :=
  ["http", "https", "socks5", "socks5h"].any (fun scheme => Urls.scheme u == scheme.toList) &&
    (Urls.host u).isSome && (Urls.username u).isEmpty && (Urls.password u).isNone &&
    (Urls.query u).isNone && (Urls.fragment u).isNone &&
    ((Urls.path u).isEmpty || Urls.path u == ['/'])

def validateProxyUrl (value : Str) : Except ProfileValidationError Str :=
  if maxProxyUrlBytes < utf8Len value || value.any isControl then
    .error (.invalidField "proxy_url")
  else match Urls.parse value with
    | none => .error (.invalidField "proxy_url")
    | some u => if isSafeProxy u then .ok (Urls.toText u) else .error (.invalidField "proxy_url")

end Proxy

/-- `replace("\r\n", "\n").replace('\r', "\n")`. -/
def normalizeLines : Str → Str
  | [] => []
  | '\r' :: '\n' :: rest => '\n' :: normalizeLines rest
  | c :: rest => (if c = '\r' then '\n' else c) :: normalizeLines rest

def isBadPem (normalized : Str) : Bool :=
  maxProviderTrustedCertificatesPemBytes < utf8Len normalized || normalized.contains '\x00' ||
    contains normalized "PRIVATE KEY".toList ||
    !contains normalized "-----BEGIN CERTIFICATE-----".toList ||
    !contains normalized "-----END CERTIFICATE-----".toList ||
    normalized.any fun c => isControl c && c != '\n' && c != '\t'

def validateTrustedCertificatesPem (value : Str) : Except ProfileValidationError Str :=
  if isBadPem (normalizeLines value) then .error (.invalidField "trusted_certificates_pem")
  else .ok (trim (normalizeLines value))

/-- `value.map(check).transpose()`. -/
def checkedOption (check : Str → Except ProfileValidationError Str) :
    Option Str → Except ProfileValidationError (Option Str)
  | none => .ok none
  | some value => (check value).map some

/-- A blank value is no value. -/
def nonBlank (value : Option Str) : Option Str := value.filter fun value => !(trim value).isEmpty

/-! ## Profiles -/

structure ProviderProfile [Urls] [Uuids] where
  id : ProviderProfileId
  displayName : Str
  presetId : Str
  adapterType : Str
  baseEndpoint : EndpointConfiguration
  secretRef : Option SecretRef
  secretCustomHeadersRef : Option SecretRef
  userNotes : Option Str
  organization : Option Str
  project : Option Str
  region : Option Str
  accountIdentifier : Option Str
  customHeaders : Option Str
  proxyUrl : Option Str
  proxyAuthRef : Option SecretRef
  requestTimeoutSecs : Nat
  connectionTimeoutSecs : Nat
  streamingIdleTimeoutSecs : Nat
  trustedCertificatesPem : Option Str
  clientCertificateIdentityRef : Option SecretRef
  enabled : Bool
  selectedModel : Option Str
  lastSuccessfulHealthCheck : Option Int
  lastFailureCategory : Option ErrorKind

namespace ProviderProfile

section Changes

variable [Urls] [Uuids]

def new (id : ProviderProfileId) (displayName presetId adapterType baseEndpoint : Str)
    (secretRef : Option SecretRef) : Except ProfileValidationError ProviderProfile := do
  let displayName ← checkedProfileText "display_name" displayName
  let presetId ← checkedProfileText "preset_id" presetId
  let adapterType ← checkedProfileText "adapter_type" adapterType
  let baseEndpoint ← EndpointConfiguration.parse baseEndpoint
  .ok {
    id, displayName, presetId, adapterType, baseEndpoint, secretRef
    secretCustomHeadersRef := none
    userNotes := none
    organization := none
    project := none
    region := none
    accountIdentifier := none
    customHeaders := none
    proxyUrl := none
    proxyAuthRef := none
    requestTimeoutSecs := 30
    connectionTimeoutSecs := 10
    streamingIdleTimeoutSecs := 60
    trustedCertificatesPem := none
    clientCertificateIdentityRef := none
    enabled := true
    selectedModel := none
    lastSuccessfulHealthCheck := none
    lastFailureCategory := none }

def withSecretCustomHeadersRef (p : ProviderProfile) (ref : Option SecretRef) : ProviderProfile :=
  { p with secretCustomHeadersRef := ref }

def withProxyAuthRef (p : ProviderProfile) (ref : Option SecretRef) : ProviderProfile :=
  { p with proxyAuthRef := ref }

def withClientCertificateIdentityRef (p : ProviderProfile) (ref : Option SecretRef) :
    ProviderProfile :=
  { p with clientCertificateIdentityRef := ref }

def withEnabled (p : ProviderProfile) (enabled : Bool) : ProviderProfile := { p with enabled }

def withLastFailureCategory (p : ProviderProfile) (category : Option ErrorKind) :
    ProviderProfile :=
  { p with lastFailureCategory := category }

def withSelectedModel (p : ProviderProfile) (modelId : Option Str) :
    Except ProfileValidationError ProviderProfile := do
  let selectedModel ← checkedOption (checkedProfileText "selected_model") modelId
  .ok { p with selectedModel }

def withLastSuccessfulHealthCheck (p : ProviderProfile) (timestamp : Option Int) :
    Except ProfileValidationError ProviderProfile := do
  Except.refuseIf (timestamp.any (· < 0)) (.invalidField "last_successful_health_check")
  .ok { p with lastSuccessfulHealthCheck := timestamp }

def withUserNotes (p : ProviderProfile) (notes : Option Str) :
    Except ProfileValidationError ProviderProfile := do
  let userNotes ← checkedOption (checkedProfileText "user_notes") (nonBlank notes)
  .ok { p with userNotes }

def withOrganization (p : ProviderProfile) (organization : Option Str) :
    Except ProfileValidationError ProviderProfile := do
  let organization ← checkedOption (checkedProfileText "organization") (nonBlank organization)
  .ok { p with organization }

def withProject (p : ProviderProfile) (project : Option Str) :
    Except ProfileValidationError ProviderProfile := do
  let project ← checkedOption (checkedProfileText "project") (nonBlank project)
  .ok { p with project }

def withRegion (p : ProviderProfile) (region : Option Str) :
    Except ProfileValidationError ProviderProfile := do
  let region ← checkedOption (checkedProfileText "region") (nonBlank region)
  .ok { p with region }

def withAccountIdentifier (p : ProviderProfile) (accountIdentifier : Option Str) :
    Except ProfileValidationError ProviderProfile := do
  let accountIdentifier ←
    checkedOption (checkedProfileText "account_identifier") (nonBlank accountIdentifier)
  .ok { p with accountIdentifier }

def withCustomHeaders [HeaderMaps] (p : ProviderProfile) (customHeaders : Option Str) :
    Except ProfileValidationError ProviderProfile := do
  let customHeaders ← checkedOption validateCustomHeaders (nonBlank customHeaders)
  .ok { p with customHeaders }

def withProxyUrl (p : ProviderProfile) (proxyUrl : Option Str) :
    Except ProfileValidationError ProviderProfile := do
  let proxyUrl ← checkedOption validateProxyUrl (nonBlank proxyUrl)
  .ok { p with proxyUrl }

def withTrustedCertificatesPem (p : ProviderProfile) (pem : Option Str) :
    Except ProfileValidationError ProviderProfile := do
  let trustedCertificatesPem ← checkedOption validateTrustedCertificatesPem (nonBlank pem)
  .ok { p with trustedCertificatesPem }

/-- The seconds, if they are between the limits. -/
def checkedSeconds (least most : Nat) (field : String) (seconds : Nat) :
    Except ProfileValidationError Unit :=
  Except.refuseIf (!(least ≤ seconds && seconds ≤ most)) (.invalidField field)

def withRequestTimeoutSecs (p : ProviderProfile) (seconds : Nat) :
    Except ProfileValidationError ProviderProfile := do
  checkedSeconds 1 600 "request_timeout_secs" seconds
  .ok { p with requestTimeoutSecs := seconds }

def withConnectionTimeoutSecs (p : ProviderProfile) (seconds : Nat) :
    Except ProfileValidationError ProviderProfile := do
  checkedSeconds 1 120 "connection_timeout_secs" seconds
  .ok { p with connectionTimeoutSecs := seconds }

def withStreamingIdleTimeoutSecs (p : ProviderProfile) (seconds : Nat) :
    Except ProfileValidationError ProviderProfile := do
  checkedSeconds 1 300 "streaming_idle_timeout_secs" seconds
  .ok { p with streamingIdleTimeoutSecs := seconds }

end Changes

/-- The profiles that `new` and the `with_*` methods make. -/
inductive Built [Urls] [Uuids] [HeaderMaps] : ProviderProfile → Prop
  | new {id displayName presetId adapterType baseEndpoint secretRef p} :
    ProviderProfile.new id displayName presetId adapterType baseEndpoint secretRef = .ok p →
    Built p
  | secretCustomHeadersRef {p} (ref) : Built p → Built (p.withSecretCustomHeadersRef ref)
  | proxyAuthRef {p} (ref) : Built p → Built (p.withProxyAuthRef ref)
  | clientCertificateIdentityRef {p} (ref) :
    Built p → Built (p.withClientCertificateIdentityRef ref)
  | enabled {p} (enabled) : Built p → Built (p.withEnabled enabled)
  | lastFailureCategory {p} (category) : Built p → Built (p.withLastFailureCategory category)
  | selectedModel {p q v} : Built p → p.withSelectedModel v = .ok q → Built q
  | lastSuccessfulHealthCheck {p q v} :
    Built p → p.withLastSuccessfulHealthCheck v = .ok q → Built q
  | userNotes {p q v} : Built p → p.withUserNotes v = .ok q → Built q
  | organization {p q v} : Built p → p.withOrganization v = .ok q → Built q
  | project {p q v} : Built p → p.withProject v = .ok q → Built q
  | region {p q v} : Built p → p.withRegion v = .ok q → Built q
  | accountIdentifier {p q v} : Built p → p.withAccountIdentifier v = .ok q → Built q
  | customHeaders {p q v} : Built p → p.withCustomHeaders v = .ok q → Built q
  | proxyUrl {p q v} : Built p → p.withProxyUrl v = .ok q → Built q
  | trustedCertificatesPem {p q v} : Built p → p.withTrustedCertificatesPem v = .ok q → Built q
  | requestTimeoutSecs {p q v} : Built p → p.withRequestTimeoutSecs v = .ok q → Built q
  | connectionTimeoutSecs {p q v} : Built p → p.withConnectionTimeoutSecs v = .ok q → Built q
  | streamingIdleTimeoutSecs {p q v} :
    Built p → p.withStreamingIdleTimeoutSecs v = .ok q → Built q

end ProviderProfile

end LinguaMesh
