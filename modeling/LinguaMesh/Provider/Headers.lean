import LinguaMesh.Storage.StoredProfile

/-!
# Custom headers

The custom headers of a saved profile, as the provider reads them. The provider checks
the values for credentials in a way of its own: it also refuses what only begins like
one. `headers_usable_iff` says which saved headers it takes.

The header types of the `http` crate are a parameter (`HeaderTypes`).
-/

namespace LinguaMesh.OpenAi

open Search

/-- `HeaderName::from_bytes` and `HeaderValue::from_str`, with their results as texts. -/
class HeaderTypes where
  headerName : Str → Option Str
  headerValue : Str → Option Str

/-- What is documented of them: a token is a name, in lower case; a value is kept as it is. -/
class LawfulHeaderTypes [HeaderTypes] : Prop where
  headerName_token : ∀ name : Str, name ≠ [] → utf8Len name < 2 ^ 16 →
    name.all isHttpTokenByte = true → HeaderTypes.headerName name = some (asciiLower name)
  headerValue_text : ∀ value text : Str, HeaderTypes.headerValue value = some text → text = value

def isForbiddenCustomHeaderName (name : Str) : Bool :=
  secretHeaderNames.any fun forbidden =>
    asciiLower name == forbidden || contains (asciiLower name) forbidden

def looksLikeCredential (value : Str) : Bool :=
  let value := trim value
  contains value "PRIVATE KEY-----".toList || contains value "github_pat_".toList ||
    "bearer ".toList.isPrefixOf (asciiLower value) ||
    (matchIndices value "sk-".toList).any (fun start => 20 ≤ utf8Len (value.drop (start + 3))) ||
    (matchIndices value "ghp_".toList).any fun start => 24 ≤ utf8Len (value.drop (start + 4))

def invalidHeaders : TranslationError :=
  .new .invalidConfiguration "Provider custom headers are invalid."

section Parser

variable [HeaderTypes]

def parseCustomHeader (allowSecretValues : Bool) (name value : Str) :
    Except TranslationError (Str × Str) :=
  if name.isEmpty || maxCustomHeaderNameBytes < utf8Len name || isForbiddenCustomHeaderName name ||
      value.isEmpty || maxCustomHeaderValueBytes < utf8Len value || value.any isControl ||
      (!allowSecretValues && looksLikeCredential value) then
    .error invalidHeaders
  else match HeaderTypes.headerName name with
    | none => .error (.new .invalidConfiguration "Provider custom header name is invalid.")
    | some name => match HeaderTypes.headerValue value with
      | none => .error (.new .invalidConfiguration "Provider custom header value is invalid.")
      | some value => .ok (name, value)

def parseCustomHeaders [HeaderMaps] (customHeaders : Option Str) (allowSecretValues : Bool) :
    Except TranslationError (List (Str × Str)) :=
  match nonBlank customHeaders with
  | none => .ok []
  | some customHeaders =>
    match HeaderMaps.parse customHeaders with
    | none => .error invalidHeaders
    | some headers =>
      if headers.isEmpty || maxCustomHeaders < headers.length then .error invalidHeaders
      else headers.mapM fun (name, value) => parseCustomHeader allowSecretValues name value

end Parser

/-! ## Credential-like values -/

/-- A value that neither begins like a bearer token nor goes on long after a key's prefix. -/
structure Unsuspicious (value : Str) : Prop where
  bearer : ¬ "bearer ".toList <+: asciiLower (trim value)
  key : ∀ start ∈ matchIndices (trim value) "sk-".toList,
    utf8Len ((trim value).drop (start + 3)) < 20
  token : ∀ start ∈ matchIndices (trim value) "ghp_".toList,
    utf8Len ((trim value).drop (start + 4)) < 24

/-- Of what the profile takes the provider refuses the suspicious values. -/
theorem looksLikeCredential_iff {value : Str} (h : LinguaMesh.looksLikeCredential value = false) :
    looksLikeCredential value = false ↔ Unsuspicious value := by
  unfold LinguaMesh.looksLikeCredential at h
  simp only [Bool.or_eq_false_iff] at h
  obtain ⟨⟨⟨⟨-, -⟩, hpat⟩, -⟩, hprivate⟩ := h
  unfold looksLikeCredential
  simp only [hpat, hprivate, Bool.false_or, Bool.or_eq_false_iff, List.any_eq_false,
    decide_eq_true_eq, not_le]
  constructor
  · rintro ⟨⟨hbearer, hkey⟩, htoken⟩
    refine ⟨fun hprefix => ?_, hkey, htoken⟩
    rw [List.isPrefixOf_iff_prefix.mpr hprefix] at hbearer
    cases hbearer
  · rintro ⟨hbearer, hkey, htoken⟩
    refine ⟨⟨?_, hkey⟩, htoken⟩
    rw [Bool.eq_false_iff]
    exact fun hprefix => hbearer (List.isPrefixOf_iff_prefix.mp hprefix)

/-! ## The headers of a profile -/

section Agreement

/-- The headers of a map, with their names in lower case as the crate keeps them. -/
def typedHeaders (headers : List (Str × Str)) : List (Str × Str) :=
  headers.map fun (name, value) => (asciiLower name, value)

/-- The provider takes a header of a profile, under its name and with its value, if and only if the
value is not suspicious and the crate takes it. -/
theorem parseCustomHeader_iff [HeaderTypes] [LawfulHeaderTypes] {name value : Str}
    (h : isBadHeader name value = false) :
    parseCustomHeader false name value = .ok (asciiLower name, value) ↔
      Unsuspicious value ∧ (HeaderTypes.headerValue value).isSome := by
  simp only [isBadHeader, Bool.or_eq_false_iff, Bool.not_eq_false', decide_eq_false_iff_not,
    not_lt] at h
  obtain ⟨⟨⟨⟨⟨⟨⟨hname, hlength⟩, htoken⟩, hsecret⟩, hvalue⟩, hsize⟩, hplain⟩, hcredential⟩ := h
  have hshort : utf8Len name < 2 ^ 16 := by
    unfold maxCustomHeaderNameBytes at hlength
    omega
  have hheader := LawfulHeaderTypes.headerName_token name
    (List.isEmpty_eq_false_iff.mp hname) hshort htoken
  have hforbidden : isForbiddenCustomHeaderName name = false := hsecret
  have hgood : (name.isEmpty || decide (maxCustomHeaderNameBytes < utf8Len name) ||
      isForbiddenCustomHeaderName name || value.isEmpty ||
      decide (maxCustomHeaderValueBytes < utf8Len value) || value.any isControl ||
      (!false && looksLikeCredential value)) = looksLikeCredential value := by
    rw [hname, hforbidden, hvalue, hplain, decide_eq_false (not_lt.mpr hlength),
      decide_eq_false (not_lt.mpr hsize)]
    rfl
  rw [← looksLikeCredential_iff hcredential]
  unfold parseCustomHeader
  rw [hgood, hheader]
  dsimp only
  cases looksLikeCredential value with
  | true => simp
  | false =>
    cases htext : HeaderTypes.headerValue value with
    | none => simp
    | some text =>
      obtain rfl := LawfulHeaderTypes.headerValue_text value text htext
      simp

variable [HeaderMaps]

theorem validateCustomHeaders_headers {text stored : Str} {headers : List (Str × Str)}
    (h : validateCustomHeaders text = .ok stored) (hjson : HeaderMaps.parse text = some headers) :
    stored = HeaderMaps.print headers ∧ headers ≠ [] ∧ headers.length ≤ maxCustomHeaders ∧
      ∀ header ∈ headers, isBadHeader header.1 header.2 = false := by
  unfold validateCustomHeaders at h
  rw [hjson] at h
  dsimp only at h
  split at h
  · cases h
  · rename_i hgood
    simp only [Bool.or_eq_true, not_or, Bool.not_eq_true, List.isEmpty_eq_false_iff,
      decide_eq_false_iff_not, not_lt, List.any_eq_false] at hgood
    obtain ⟨⟨hne, hlength⟩, hheaders⟩ := hgood
    exact ⟨(Except.ok.inj h).symm, hne, hlength, hheaders⟩

variable [LawfulHeaderMaps]

theorem nonBlank_json {text : Str} {headers : List (Str × Str)}
    (hjson : HeaderMaps.parse text = some headers) : nonBlank (some text) = some text := by
  refine Option.filter_eq_some_iff.mpr ⟨rfl, ?_⟩
  rw [Bool.not_eq_true', List.isEmpty_eq_false_iff]
  intro hblank
  rw [LawfulHeaderMaps.parse_blank text hblank] at hjson
  cases hjson

variable [HeaderTypes]

theorem parseCustomHeaders_json {text : Str} {headers : List (Str × Str)}
    (hjson : HeaderMaps.parse text = some headers) (hne : headers ≠ [])
    (hlength : headers.length ≤ maxCustomHeaders) (allowSecretValues : Bool) :
    parseCustomHeaders (some text) allowSecretValues =
      headers.mapM fun (name, value) => parseCustomHeader allowSecretValues name value := by
  unfold parseCustomHeaders
  rw [nonBlank_json hjson]
  dsimp only
  rw [hjson]
  dsimp only
  rw [if_neg]
  simp only [Bool.or_eq_true, not_or, decide_eq_true_eq, not_lt, Bool.not_eq_true,
    List.isEmpty_eq_false_iff]
  exact ⟨hne, hlength⟩

variable [LawfulHeaderTypes] [Urls] [Uuids]

/-- The provider takes the headers of an accepted profile, under their names and with their values, as
they were given and as they are stored, if and only if no value is suspicious and the crate takes
each. -/
theorem headers_usable_iff {p q : ProviderProfile} {text : Str}
    (h : p.withCustomHeaders (some text) = .ok q) {headers : List (Str × Str)}
    (hjson : HeaderMaps.parse text = some headers) :
    (parseCustomHeaders (some text) false = .ok (typedHeaders headers) ∧
      parseCustomHeaders q.customHeaders false = .ok (typedHeaders headers)) ↔
    ∀ header ∈ headers,
      Unsuspicious header.2 ∧ (HeaderTypes.headerValue header.2).isSome := by
  obtain ⟨customHeaders, hstored, h⟩ := Except.bind_ok.mp h
  obtain rfl := Except.ok.inj h
  rw [nonBlank_json hjson] at hstored
  obtain ⟨stored, hvalidate, rfl⟩ := Except.map_eq_ok.mp hstored
  obtain ⟨rfl, hne, hlength, hgood⟩ := validateCustomHeaders_headers hvalidate hjson
  have hprint := LawfulHeaderMaps.parse_print text headers hjson
  dsimp only
  rw [parseCustomHeaders_json hjson hne hlength, parseCustomHeaders_json hprint hne hlength, and_self,
    typedHeaders, Except.mapM_eq_map]
  exact forall₂_congr fun header hheader => parseCustomHeader_iff (hgood header hheader)

end Agreement

/-! ## One header -/

section Trace

open Storage

def traceName : Str := "X-Trace".toList
def plainValue : Str := "on".toList
def taskValue : Str := "task-oriented documents first".toList

def traceText (value : Str) : Str := "\x7b\"X-Trace\":\"".toList ++ value ++ "\"\x7d".toList

/-- The JSON crate on the maps of one of these headers. -/
@[reducible] def traceMaps : HeaderMaps where
  parse text :=
    if text = traceText plainValue then some [(traceName, plainValue)]
    else if text = traceText taskValue then some [(traceName, taskValue)]
    else none
  print headers := traceText ((headers.head?.map (·.2)).getD [])

theorem traceMaps_lawful : @LawfulHeaderMaps traceMaps :=
  letI := traceMaps
  { parse_print := fun text headers h => by
      change (if _ then _ else _) = _ at h
      split at h
      · cases h
        rfl
      split at h
      · cases h
        rfl
      · cases h
    parse_blank := fun text h => by
      change (if _ then _ else _) = _
      rw [if_neg, if_neg]
      · rintro rfl
        exact absurd h (by decide)
      · rintro rfl
        exact absurd h (by decide) }

/-- The checks of the `http` crate. -/
@[reducible] def plainHeaderTypes : HeaderTypes where
  headerName name :=
    if !name.isEmpty && name.all isHttpTokenByte then some (asciiLower name) else none
  headerValue value :=
    if value.all fun c => c == '\t' || (32 ≤ c.toNat && c.toNat != 127) then some value else none

theorem plainHeaderTypes_lawful : @LawfulHeaderTypes plainHeaderTypes :=
  letI := plainHeaderTypes
  { headerName_token := fun name hne _ htoken => if_pos (by
      rw [htoken, List.isEmpty_eq_false_iff.mpr hne]
      rfl)
    headerValue_text := fun value text h => by
      change (if _ then _ else _) = _ at h
      split at h
      · exact (Option.some.inj h).symm
      · cases h }

local instance traceUrls : Urls :=
  oneUrl "https://API.example".toList "https://api.example/".toList "api.example".toList

local instance traceUuids : Uuids := oneUuid
local instance traceHeaderMaps : HeaderMaps := traceMaps
local instance traceHeaderTypes : HeaderTypes := plainHeaderTypes

/-- A profile takes a header that its check takes. -/
theorem trace_accepted {value : Str} (hvalue : (trim (traceText value)).isEmpty = false)
    (h : validateCustomHeaders (traceText value) = .ok (traceText value)) :
    ∃ p q : ProviderProfile, p.withCustomHeaders (some (traceText value)) = .ok q ∧
      q.customHeaders = some (traceText value) := by
  obtain ⟨p, -⟩ := new_stored "https://API.example".toList
    "https://api.example/".toList "work".toList (by decide) work (fun _ => rfl)
    (some (.new .secretService _ (by decide) (decide_eq_true rfl))) (by decide)
  have hnonblank : nonBlank (some (traceText value)) = some (traceText value) :=
    Option.filter_eq_some_iff.mpr ⟨rfl, by rw [hvalue]; rfl⟩
  refine ⟨p, { p with customHeaders := some (traceText value) }, ?_, rfl⟩
  unfold ProviderProfile.withCustomHeaders
  rw [hnonblank, checkedOption, h]
  rfl

theorem plain_usable : ∃ p q : ProviderProfile,
    p.withCustomHeaders (some (traceText plainValue)) = .ok q ∧
      parseCustomHeaders (some (traceText plainValue)) false = .ok [("x-trace".toList, plainValue)] ∧
      parseCustomHeaders q.customHeaders false = .ok [("x-trace".toList, plainValue)] := by
  obtain ⟨p, q, hq, -⟩ := @trace_accepted plainValue (by decide) (by decide)
  have := traceMaps_lawful
  have := plainHeaderTypes_lawful
  have hheaders : ∀ header ∈ [(traceName, plainValue)],
      Unsuspicious header.2 ∧ (HeaderTypes.headerValue header.2).isSome := by
    rintro header hheader
    rw [List.mem_singleton.mp hheader]
    exact ⟨⟨by decide, by decide, by decide⟩, rfl⟩
  exact ⟨p, q, hq, (headers_usable_iff hq rfl).mpr hheaders⟩

/-- A value that goes on after the `sk-` in a word is saved and refused. -/
theorem task_refused : ∃ p q : ProviderProfile,
    p.withCustomHeaders (some (traceText taskValue)) = .ok q ∧
      parseCustomHeaders q.customHeaders false = .error invalidHeaders := by
  obtain ⟨p, q, hq, hstored⟩ := @trace_accepted taskValue (by decide) (by decide)
  refine ⟨p, q, hq, ?_⟩
  rw [hstored]
  decide

end Trace

end LinguaMesh.OpenAi
