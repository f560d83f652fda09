import LinguaMesh.Ffi.PlainWire

/-!
# Across the boundary

The binding decodes an event of the core as that event, never as an unknown one and never
as a timeout (`pollDecodedEvent_encode`). It checks a host response before it sends it, and
the core checks it again; the two agree but for the length of the request's identifier, which the
binding counts in UTF-16 units and the core in bytes (`sendHostResponse_agrees`).
-/

namespace LinguaMesh.Ffi

/-! ## An event on its way to the host -/

def TranslationEvent.detail : TranslationEvent → CoreEventDetail
  | started _ => .started
  | textDelta _ text => .textDelta text
  | completed _ => .completed
  | cancelled _ => .cancelled
  | failed _ error => .failed (errorKindName error.kind) error.message

section Arrival

variable [Wire] {compatibility : CoreCompatibility}

/-- The event can be written, and be a byte array of the host. -/
def EventEnvelope.Fits (event : EventEnvelope) : Prop :=
  event.sequence < 2 ^ 64 ∧ event.encode.length ≤ maxWireBytes

theorem pollEnvelope_encode (laws : Wire.Lawful) (hversion : compatibility.protocolVersion = protocolVersion)
    {event : EventEnvelope} (hfits : event.Fits) :
    pollEnvelope compatibility event.encode = .ok (some event.envelope) := by
  have hrange : event.envelope.InRange := ⟨(by decide : protocolVersion < 2 ^ 32), hfits.1⟩
  have hparse : Wire.envelope.parseFrom event.encode = some event.envelope :=
    laws.envelope.parseFrom_encode _ hrange hfits.2
  have hne : event.encode ≠ [] := by
    intro hnil
    rw [hnil, laws.envelope.parseFrom_nil] at hparse
    exact absurd (congrArg Envelope.protocolVersion (Option.some.inj hparse)) (by decide : 0 ≠ protocolVersion)
  unfold pollEnvelope parsed
  rw [if_neg hne, hparse]
  exact if_neg (not_not.mpr hversion.symm)

/-- The payload of an event that fits does. -/
theorem EventEnvelope.Fits.payload (laws : Wire.Lawful) {event : EventEnvelope} (hfits : event.Fits) :
    event.payload.encode.length ≤ maxWireBytes :=
  Nat.le_trans (laws.payload event.envelope).1 hfits.2

theorem pollDecodedEvent_of_detail (laws : Wire.Lawful)
    (hversion : compatibility.protocolVersion = protocolVersion) {event : EventEnvelope} (hfits : event.Fits)
    {detail : CoreEventDetail} (hdetail : coreEventDetail event.messageType event.payload.encode = .ok detail) :
    pollDecodedEvent compatibility event.encode =
      .ok (some ⟨event.operationId, event.correlationId, event.sequence, detail⟩) := by
  unfold pollDecodedEvent
  rw [pollEnvelope_encode laws hversion hfits]
  have hdecode : decodeCoreEvent event.envelope =
      .ok ⟨event.operationId, event.correlationId, event.sequence, detail⟩ :=
    Except.bind_ok.mpr ⟨detail, hdetail, rfl⟩
  exact Except.bind_ok.mpr ⟨some event.envelope, rfl, Except.bind_ok.mpr ⟨_, hdecode, rfl⟩⟩

/-- The binding reads an event as what it is. -/
theorem pollDecodedEvent_encode (laws : Wire.Lawful)
    (hversion : compatibility.protocolVersion = protocolVersion) {operationId correlationId : Str}
    {event : TranslationEvent} (hfits : (encodeEvent operationId correlationId event).Fits) :
    pollDecodedEvent compatibility (encodeEvent operationId correlationId event).encode =
      .ok (some ⟨operationId, correlationId, event.sequence, event.detail⟩) := by
  have hpayload := hfits.payload laws
  refine pollDecodedEvent_of_detail laws hversion hfits ?_
  cases event with
  | started | completed | cancelled => rfl
  | textDelta sequence text =>
    have hparse : parsed Wire.textDelta (Wire.textDelta.encode ⟨text⟩) = .ok ⟨text⟩ := by
      unfold parsed
      rw [laws.textDelta.parseFrom_encode _ trivial hpayload]
    exact Except.bind_ok.mpr ⟨_, hparse, rfl⟩
  | failed sequence error =>
    have hparse : parsed Wire.failure (Wire.failure.encode ⟨errorKindName error.kind, error.message⟩) =
        .ok ⟨errorKindName error.kind, error.message⟩ := by
      unfold parsed
      rw [laws.failure.parseFrom_encode _ trivial hpayload]
    exact Except.bind_ok.mpr ⟨_, hparse, rfl⟩

theorem pollDecodedEvent_secretRequired (laws : Wire.Lawful)
    (hversion : compatibility.protocolVersion = protocolVersion) {operationId correlationId requestId secretRef : Str}
    (hfits : (secretRequiredEvent operationId correlationId requestId secretRef).Fits) :
    pollDecodedEvent compatibility (secretRequiredEvent operationId correlationId requestId secretRef).encode =
      .ok (some ⟨operationId, correlationId, 0, .secretRequired requestId secretRef⟩) := by
  refine pollDecodedEvent_of_detail laws hversion hfits ?_
  have hparse : parsed Wire.secretRequired (Wire.secretRequired.encode ⟨requestId, secretRef⟩) =
      .ok ⟨requestId, secretRef⟩ := by
    unfold parsed
    rw [laws.secretRequired.parseFrom_encode _ trivial (hfits.payload laws)]
  exact Except.bind_ok.mpr ⟨_, hparse, rfl⟩

end Arrival

/-! ## An answer on its way to the core -/

/-- The decoders of the core are those of `prost`. -/
structure Decodes [Boundary] [Wire] : Prop where
  envelope : Boundary.decodeEnvelope = Wire.envelope.decode
  command : Boundary.decodeCommand = Wire.command.decode
  response : Boundary.decodeResponse = Wire.response.decode

/-- The core takes the bytes as this answer to the request. -/
def Answers [Boundary] (message : Message) (requestId : Str) (resolution : SecretResolution) : Prop :=
  ∃ envelope, decodeProtocolInput false message = .ok envelope ∧
    envelope.messageType = "host_secret_response" ∧ envelope.sequence = 0 ∧
    checkResponse envelope = .ok (requestId, resolution)

/-- The resolution of the host, as the core names it. -/
def SendHostResponse.given (call : SendHostResponse) : SecretResolution :=
  match call.resolution with
  | .provided => .provided (call.secret.getD [])
  | .unavailable => .unavailable
  | .secureStorageUnavailable => .secureStorageUnavailable

/-- The secret goes with the resolution. -/
def SendHostResponse.secretFits (call : SendHostResponse) : Bool :=
  let value := call.secret.getD []
  match call.resolution with
  | .provided => !value.isEmpty && utf8Len value ≤ maxHostSecretBytes
  | .unavailable | .secureStorageUnavailable => value.isEmpty

theorem ne_nil_of_isNotBlank {s : Str} (h : isNotBlank s = true) : s ≠ [] := by
  rintro rfl
  cases h

theorem utf16Len_le (s : Str) : utf16Len s ≤ utf8Len s := by
  have hchar (c : Char) : (if c.val.toNat < 0x10000 then 1 else 2) ≤ c.utf8Size := by
    have hpos := c.utf8Size_pos
    split
    · exact hpos
    · rename_i hbig
      -- a character of two units has four bytes
      have hone : ¬ c.val ≤ 0x7F := fun h => hbig (Nat.lt_of_le_of_lt (UInt32.le_iff_toNat_le.mp h) (by decide))
      unfold Char.utf8Size
      dsimp only
      split
      · rename_i h
        exact absurd h hone
      · split
        · decide
        · split <;> decide
  unfold utf16Len utf8Len
  induction s with
  | nil => exact Nat.le_refl _
  | cons c s ih =>
    simp only [List.map_cons, List.sum_cons]
    exact Nat.add_le_add (hchar c) ih

section Answer

variable [Boundary] [Wire] {compatibility : CoreCompatibility} {call : SendHostResponse}

omit [Boundary] [Wire] in
theorem require_ok {condition : Bool} {message : String} {u : Unit} :
    require condition message = .ok u ↔ condition = true := by
  cases condition <;> simp [require]

omit [Boundary] in
theorem sendHostResponse_ok {message : Message} : sendHostResponse compatibility call = .ok message ↔
    isNotBlank call.operationId = true ∧ isNotBlank call.correlationId = true ∧
      (isNotBlank call.requestId = true ∧ utf16Len call.requestId ≤ maxHostRequestIdLength) ∧
      call.secretFits = true ∧ Wire.envelope.toByteArray (call.envelope compatibility) = message := by
  obtain ⟨operationId, correlationId, requestId, resolution, secret⟩ := call
  unfold sendHostResponse SendHostResponse.secretFits
  cases resolution <;>
    simp only [Except.check_ok, require_ok, Bool.and_eq_true, decide_eq_true_eq, Except.ok.injEq]

omit [Boundary] in
/-- The identifiers are the only part that the binding measures in another way. -/
theorem sendHostResponse_iff (hoperation : isNotBlank call.operationId = true)
    (hcorrelation : isNotBlank call.correlationId = true) (hrequest : isNotBlank call.requestId = true) :
    sendHostResponse compatibility call = .ok (Wire.envelope.toByteArray (call.envelope compatibility)) ↔
      utf16Len call.requestId ≤ maxHostRequestIdLength ∧ call.secretFits = true := by
  rw [sendHostResponse_ok]
  simp only [hoperation, hcorrelation, hrequest, true_and, and_true]

omit [Wire] in
/-- The checks of the core on a response that it has decoded. -/
theorem checkResponse_iff {envelope : Envelope} (hdecode : Boundary.decodeResponse envelope.payload = some call.response)
    (hrequest : call.requestId ≠ []) :
    checkResponse envelope = .ok (call.requestId, call.given) ↔ utf8Len call.requestId ≤ 128 ∧ call.secretFits = true := by
  obtain ⟨operationId, correlationId, requestId, resolution, secret⟩ := call
  unfold checkResponse
  rw [hdecode]
  dsimp only [SendHostResponse.response] at hrequest ⊢
  by_cases hlong : 128 < utf8Len requestId
  · rw [if_pos (.inr hlong)]
    exact iff_of_false nofun fun h => absurd h.1 (Nat.not_le.mpr hlong)
  · rw [if_neg (not_or.mpr ⟨hrequest, hlong⟩)]
    have hshort : utf8Len requestId ≤ 128 := Nat.not_lt.mp hlong
    unfold SendHostResponse.secretFits SendHostResponse.given
    cases resolution with
    | provided =>
      dsimp only [HostSecretResolution.wireValue]
      split <;> simp_all
    | unavailable | secureStorageUnavailable =>
      dsimp only [HostSecretResolution.wireValue]
      split <;> simp_all

/-- The core reads what the binding has written. -/
theorem decodeProtocolInput_toByteArray (laws : Wire.Lawful) (decodes : Decodes) {envelope : Envelope}
    (hversion : envelope.protocolVersion = protocolVersion) (hsequence : envelope.sequence = 0)
    (hoperation : envelope.operationId ≠ []) (hcorrelation : envelope.correlationId ≠ [])
    (htype : envelope.messageType ≠ "")
    (hsize : (Wire.envelope.toByteArray envelope).length ≤ maxProtocolMessageBytes) :
    decodeProtocolInput false (Wire.envelope.toByteArray envelope) = .ok envelope := by
  have hrange : envelope.InRange := by
    unfold Envelope.InRange
    rw [hversion, hsequence]
    decide
  have hdecode : Wire.envelope.decode (Wire.envelope.toByteArray envelope) = some envelope :=
    laws.envelope.decode_toByteArray _ hrange (Nat.le_trans hsize (by decide))
  have hne : Wire.envelope.toByteArray envelope ≠ [] := by
    intro hnil
    rw [hnil, laws.envelope.decode_nil] at hdecode
    rw [← Option.some.inj hdecode] at hversion
    exact absurd hversion (by decide : (0 : Nat) ≠ protocolVersion)
  unfold decodeProtocolInput
  rw [if_neg Bool.false_ne_true, if_neg (not_or.mpr ⟨hne, Nat.not_lt.mpr hsize⟩), decodes.envelope, hdecode]
  dsimp only
  rw [if_neg (not_not.mpr hversion), if_neg (not_or.mpr ⟨hoperation, not_or.mpr ⟨hcorrelation, htype⟩⟩)]

/-- An answer whose identifiers are not blank and whose message is not too long: the core takes it if the
binding sends it and the identifier of the request has no more than 128 bytes. -/
theorem sendHostResponse_agrees (laws : Wire.Lawful) (decodes : Decodes)
    (hversion : compatibility.protocolVersion = protocolVersion) (hoperation : isNotBlank call.operationId = true)
    (hcorrelation : isNotBlank call.correlationId = true) (hrequest : isNotBlank call.requestId = true)
    (hsize : (Wire.envelope.toByteArray (call.envelope compatibility)).length ≤ maxProtocolMessageBytes) :
    Answers (Wire.envelope.toByteArray (call.envelope compatibility)) call.requestId call.given ↔
      sendHostResponse compatibility call = .ok (Wire.envelope.toByteArray (call.envelope compatibility)) ∧
        utf8Len call.requestId ≤ 128 := by
  have hinput : decodeProtocolInput false (Wire.envelope.toByteArray (call.envelope compatibility)) =
      .ok (call.envelope compatibility) :=
    decodeProtocolInput_toByteArray laws decodes hversion rfl (ne_nil_of_isNotBlank hoperation)
      (ne_nil_of_isNotBlank hcorrelation) (by decide : "host_secret_response" ≠ "") hsize
  have hresponse : Boundary.decodeResponse (call.envelope compatibility).payload = some call.response := by
    have hpayload := (laws.payload (call.envelope compatibility)).2
    have hbytes : maxProtocolMessageBytes ≤ maxWireBytes := by decide
    rw [decodes.response]
    exact laws.response.decode_toByteArray _ trivial (Nat.le_trans hpayload (Nat.le_trans hsize hbytes))
  have hanswers : Answers (Wire.envelope.toByteArray (call.envelope compatibility)) call.requestId call.given ↔
      checkResponse (call.envelope compatibility) = .ok (call.requestId, call.given) := by
    constructor
    · rintro ⟨envelope, hdecoded, -, -, hcheck⟩
      obtain rfl := Except.ok.inj (hinput.symm.trans hdecoded)
      exact hcheck
    · exact fun hcheck => ⟨_, hinput, rfl, rfl, hcheck⟩
  rw [hanswers, checkResponse_iff hresponse (ne_nil_of_isNotBlank hrequest),
    sendHostResponse_iff hoperation hcorrelation hrequest]
  -- the units of UTF-16 are no more than the bytes
  constructor
  · rintro ⟨hshort, hsecret⟩
    exact ⟨⟨Nat.le_trans (utf16Len_le _) hshort, hsecret⟩, hshort⟩
  · rintro ⟨⟨-, hsecret⟩, hshort⟩
    exact ⟨hshort, hsecret⟩

/-- The core takes a command: its required fields are there, its metadata has no secret in it, and its
secret is a reference if there is one. -/
def Submits (command : TranslateTextCommand) (submission : Submission) : Prop :=
  (command.endpoint ≠ [] ∧ command.modelId ≠ [] ∧ command.sourceText ≠ [] ∧ command.targetLocale ≠ []) ∧
    openaiConfigForCommand command none = .ok submission.config ∧ submission.command = command ∧
    if command.secretRef = [] then submission.secretRef = none
    else Boundary.isSecretRef command.secretRef = true ∧ submission.secretRef = some command.secretRef

omit [Wire] in
theorem checkSubmit_iff {envelope : Envelope} {command : TranslateTextCommand} {submission : Submission}
    (htype : envelope.messageType = "translate_text") (hsequence : envelope.sequence = 0)
    (hdecode : Boundary.decodeCommand envelope.payload = some command) :
    checkSubmit envelope = .ok submission ↔ Submits command submission := by
  obtain ⟨command', config, secretRef⟩ := submission
  unfold checkSubmit Submits
  rw [if_neg (not_not.mpr htype), if_neg (not_not.mpr hsequence), hdecode]
  dsimp only
  split
  · rename_i hmissing
    refine iff_of_false nofun fun h => ?_
    obtain ⟨⟨he, hm, hs, ht⟩, -⟩ := h
    rcases hmissing with h | h | h | h <;> contradiction
  · rename_i hgiven
    simp only [not_or] at hgiven
    cases openaiConfigForCommand command none with
    | error code => exact iff_of_false nofun fun h => nomatch h.2.1
    | ok found =>
      dsimp only
      split
      · simp only [Except.ok.injEq, Submission.mk.injEq]
        constructor
        · rintro ⟨rfl, rfl, rfl⟩
          exact ⟨hgiven, rfl, rfl, rfl⟩
        · rintro ⟨-, rfl, rfl, rfl⟩
          exact ⟨rfl, rfl, rfl⟩
      · split
        · rename_i href
          simp only [Except.ok.injEq, Submission.mk.injEq]
          constructor
          · rintro ⟨rfl, rfl, rfl⟩
            exact ⟨hgiven, rfl, rfl, href, rfl⟩
          · rintro ⟨-, rfl, rfl, -, rfl⟩
            exact ⟨rfl, rfl, rfl⟩
        · rename_i href
          exact iff_of_false nofun fun h => href h.2.2.2.1

end Answer

/-! ## An answer in bytes -/

/-- The decoders of the plain codec, and checks that all pass. -/
@[reducible] def plainBoundary : Boundary where
  decodeEnvelope := PlainWire.envelopeLayout.read
  decodeCommand := PlainWire.commandLayout.read
  decodeResponse := PlainWire.responseLayout.read
  validateField value _ := some value
  isSecretRef _ := true
  isEndpoint _ := true
  isProvider _ := true

/-- An answer with a secret. -/
def secretAnswer (requestId : Str) : SendHostResponse := ⟨['o'], ['c'], requestId, .provided, some ['k']⟩

/-- A hundred and twenty-eight letters that have two bytes each. -/
def accents : Str := List.replicate 128 'é'

theorem sendHostResponse_agrees_accents :
    letI := plainBoundary
    letI := PlainWire.plainWire
    Answers (Wire.envelope.toByteArray ((secretAnswer ['r']).envelope ⟨1, 1⟩)) ['r'] (.provided ['k']) ∧
      sendHostResponse ⟨1, 1⟩ (secretAnswer accents) =
        .ok (Wire.envelope.toByteArray ((secretAnswer accents).envelope ⟨1, 1⟩)) ∧
      ¬ Answers (Wire.envelope.toByteArray ((secretAnswer accents).envelope ⟨1, 1⟩)) accents (.provided ['k']) := by
  let _ : Boundary := plainBoundary
  let _ : Wire := PlainWire.plainWire
  let bytes (requestId : Str) : Message := Wire.envelope.toByteArray ((secretAnswer requestId).envelope ⟨1, 1⟩)
  have hagrees (requestId : Str) (hrequest : isNotBlank requestId = true)
      (hsize : (bytes requestId).length ≤ maxProtocolMessageBytes) :
      Answers (bytes requestId) requestId (.provided ['k']) ↔
        sendHostResponse ⟨1, 1⟩ (secretAnswer requestId) = .ok (bytes requestId) ∧ utf8Len requestId ≤ 128 :=
    sendHostResponse_agrees PlainWire.lawful_plainWire ⟨rfl, rfl, rfl⟩ rfl rfl rfl hrequest hsize
  refine ⟨(hagrees ['r'] rfl (by decide +kernel)).mpr ⟨by decide +kernel, by decide⟩, by decide +kernel, fun h => ?_⟩
  exact absurd ((hagrees accents (by decide +kernel) (by decide +kernel)).mp h).2 (by decide +kernel)

/-- A command with a secret, and without the organization, the project and the headers. -/
def plainCall : TranslateText :=
  ⟨['o'], ['c'], ['e'], ['m'], ['s'], ['l'], none, none, none, some ['r']⟩

end LinguaMesh.Ffi
