import LinguaMesh.Ffi.Messages

/-!
# The host's side of the messages

The core writes its events with `prost`, and the Kotlin binding reads them with the classes that
are generated for it; what the host sends goes the other way. Both codecs are a parameter
(`Wire`), and `Wire.Lawful` is what both follow: one reads what the other wrote.

The functions of the binding are in the second half: `pollDecodedEvent` reads an event,
`translateText` and `sendHostResponse` make the bytes of a message.
-/

namespace LinguaMesh.Ffi

structure TextDeltaEvent where
  text : Str
  deriving DecidableEq, Repr

structure FailureEvent where
  errorKind : String
  message : String
  deriving DecidableEq, Repr

structure SecretRequiredEvent where
  requestId : Str
  secretRef : Str
  deriving DecidableEq, Repr

/-! ## Codecs -/

/-- How both sides write and read the messages of a type. -/
structure Codec (M : Type) where
  /-- `encode_to_vec` -/
  encode : M → Message
  decode : Message → Option M
  toByteArray : M → Message
  parseFrom : Message → Option M

/-- The messages of a byte array of the host. -/
def maxWireBytes : Nat := 2 ^ 31 - 1

/-- One side reads what the other wrote, and both read no bytes as a message of defaults. -/
structure Codec.Lawful {M : Type} (codec : Codec M) (InRange : M → Prop) (defaults : M) : Prop where
  parseFrom_encode : ∀ m, InRange m → (codec.encode m).length ≤ maxWireBytes →
    codec.parseFrom (codec.encode m) = some m
  decode_toByteArray : ∀ m, InRange m → (codec.toByteArray m).length ≤ maxWireBytes →
    codec.decode (codec.toByteArray m) = some m
  parseFrom_nil : codec.parseFrom [] = some defaults
  decode_nil : codec.decode [] = some defaults

class Wire where
  envelope : Codec Envelope
  textDelta : Codec TextDeltaEvent
  failure : Codec FailureEvent
  secretRequired : Codec SecretRequiredEvent
  command : Codec TranslateTextCommand
  response : Codec HostSecretResponse

/-- The numbers of an envelope are of their types. -/
def Envelope.InRange (envelope : Envelope) : Prop :=
  envelope.protocolVersion < 2 ^ 32 ∧ envelope.sequence < 2 ^ 64

structure Wire.Lawful [Wire] : Prop where
  envelope : Wire.envelope.Lawful Envelope.InRange ⟨0, [], [], 0, "", []⟩
  textDelta : Wire.textDelta.Lawful (fun _ => True) ⟨[]⟩
  failure : Wire.failure.Lawful (fun _ => True) ⟨"", ""⟩
  secretRequired : Wire.secretRequired.Lawful (fun _ => True) ⟨[], []⟩
  command : Wire.command.Lawful (fun _ => True) ⟨[], [], [], [], [], [], [], []⟩
  response : Wire.response.Lawful (fun _ => True) ⟨[], "", []⟩
  /-- The bytes of an envelope hold those of its payload. -/
  payload : ∀ m : Envelope, m.payload.length ≤ (Wire.envelope.encode m).length ∧
    m.payload.length ≤ (Wire.envelope.toByteArray m).length

section Events

variable [Wire]

def EventPayload.encode : EventPayload → Message
  | .empty => []
  | .textDelta text => Wire.textDelta.encode ⟨text⟩
  | .failure errorKind message => Wire.failure.encode ⟨errorKind, message⟩
  | .secretRequired requestId secretRef => Wire.secretRequired.encode ⟨requestId, secretRef⟩

def EventEnvelope.envelope (event : EventEnvelope) : Envelope :=
  ⟨protocolVersion, event.operationId, event.correlationId, event.sequence, event.messageType,
    event.payload.encode⟩

/-- The bytes of an event in the queue. -/
def EventEnvelope.encode (event : EventEnvelope) : Message := Wire.envelope.encode event.envelope

end Events

/-! ## The binding -/

inductive CoreEventDetail where
  | started
  | textDelta (text : Str)
  | completed
  | cancelled
  | failed (errorKind message : String)
  | secretRequired (requestId secretRef : Str)
  | unknown (messageType : String) (payload : Message)
  deriving DecidableEq, Repr

structure CoreEvent where
  operationId : Str
  correlationId : Str
  sequence : Nat
  detail : CoreEventDetail
  deriving DecidableEq, Repr

structure CoreCompatibility where
  abiMajor : Nat
  protocolVersion : Nat
  deriving DecidableEq, Repr

/-- What the binding throws. -/
inductive HostError where
  | core (result : LmResultCode)
  | compatibility (expected actual : CoreCompatibility)
  /-- `require` -/
  | illegalArgument (message : String)
  deriving DecidableEq, Repr

section Decode

variable [Wire]

/-- `parseFrom`, with `InvalidProtocolBufferException` as a failure of the core. -/
def parsed {M : Type} (codec : Codec M) (bytes : Message) : Except HostError M :=
  match codec.parseFrom bytes with
  | some m => .ok m
  | none => .error (.core .malformedMessage)

def coreEventDetail (messageType : String) (payload : Message) : Except HostError CoreEventDetail :=
  match messageType with
  | "started" => .ok .started
  | "text_delta" => do
    let event ← parsed Wire.textDelta payload
    .ok (.textDelta event.text)
  | "completed" => .ok .completed
  | "cancelled" => .ok .cancelled
  | "failed" => do
    let event ← parsed Wire.failure payload
    .ok (.failed event.errorKind event.message)
  | "secret_required" => do
    let event ← parsed Wire.secretRequired payload
    .ok (.secretRequired event.requestId event.secretRef)
  | messageType => .ok (.unknown messageType payload)

def decodeCoreEvent (envelope : Envelope) : Except HostError CoreEvent := do
  let detail ← coreEventDetail envelope.messageType envelope.payload
  .ok ⟨envelope.operationId, envelope.correlationId, envelope.sequence, detail⟩

/-- `pollEnvelope`, of the bytes that `pollEvent` gives; there are none after a timeout. -/
def pollEnvelope (compatibility : CoreCompatibility) (bytes : Message) : Except HostError (Option Envelope) :=
  if bytes = [] then .ok none
  else do
    let envelope ← parsed Wire.envelope bytes
    if envelope.protocolVersion ≠ compatibility.protocolVersion then
      .error (.compatibility compatibility { compatibility with protocolVersion := envelope.protocolVersion })
    else .ok (some envelope)

def pollDecodedEvent (compatibility : CoreCompatibility) (bytes : Message) : Except HostError (Option CoreEvent) := do
  match ← pollEnvelope compatibility bytes with
  | none => .ok none
  | some envelope => do
    let event ← decodeCoreEvent envelope
    .ok (some event)

end Decode

/-- `Char.isWhitespace` of Kotlin: a space, a line or a paragraph separator of Unicode, or one of
the controls that Java takes for white space. -/
def isHostWhitespace (c : Char) : Bool :=
  (0x09 ≤ c.val && c.val ≤ 0x0D) || (0x1C ≤ c.val && c.val ≤ 0x20) || c.val == 0xA0 || c.val == 0x1680 ||
    (0x2000 ≤ c.val && c.val ≤ 0x200A) || c.val == 0x2028 || c.val == 0x2029 || c.val == 0x202F ||
    c.val == 0x205F || c.val == 0x3000

def isNotBlank (s : Str) : Bool := s.any (!isHostWhitespace ·)

/-- `String.length`: the UTF-16 units. -/
def utf16Len (s : Str) : Nat := (s.map fun c => if c.val.toNat < 0x10000 then 1 else 2).sum

inductive HostSecretResolution where
  | provided
  | unavailable
  | secureStorageUnavailable
  deriving DecidableEq, Repr

def HostSecretResolution.wireValue : HostSecretResolution → String
  | provided => "provided"
  | unavailable => "unavailable"
  | secureStorageUnavailable => "secure_storage_unavailable"

def maxHostRequestIdLength : Nat := 128

/-- The arguments of `translateText`. -/
structure TranslateText where
  operationId : Str
  correlationId : Str
  endpoint : Str
  modelId : Str
  sourceText : Str
  targetLocale : Str
  organization : Option Str
  project : Option Str
  customHeadersJson : Option Str
  secretRef : Option Str
  deriving DecidableEq, Repr

/-- The arguments of `sendHostResponse`. -/
structure SendHostResponse where
  operationId : Str
  correlationId : Str
  requestId : Str
  resolution : HostSecretResolution
  secret : Option Str
  deriving DecidableEq, Repr

def require (condition : Bool) (message : String) : Except HostError Unit :=
  if condition then .ok () else .error (.illegalArgument message)

section Send

variable [Wire] (compatibility : CoreCompatibility)

def TranslateText.command (call : TranslateText) : TranslateTextCommand :=
  ⟨call.endpoint, call.modelId, call.sourceText, call.targetLocale, call.secretRef.getD [],
    call.organization.getD [], call.project.getD [], call.customHeadersJson.getD []⟩

/-- The bytes that `translateText` submits. -/
def translateText (call : TranslateText) : Message :=
  Wire.envelope.toByteArray ⟨compatibility.protocolVersion, call.operationId, call.correlationId, 0,
    "translate_text", Wire.command.toByteArray call.command⟩

def SendHostResponse.response (call : SendHostResponse) : HostSecretResponse :=
  ⟨call.requestId, call.resolution.wireValue, call.secret.getD []⟩

def SendHostResponse.envelope (call : SendHostResponse) : Envelope :=
  ⟨compatibility.protocolVersion, call.operationId, call.correlationId, 0, "host_secret_response",
    Wire.response.toByteArray call.response⟩

/-- The bytes that `sendHostResponse` sends. -/
def sendHostResponse (call : SendHostResponse) : Except HostError Message := do
  require (isNotBlank call.operationId) "Operation id must not be blank."
  require (isNotBlank call.correlationId) "Correlation id must not be blank."
  require (isNotBlank call.requestId && utf16Len call.requestId ≤ maxHostRequestIdLength)
    "Host secret request id is invalid."
  let value := call.secret.getD []
  match call.resolution with
  | .provided =>
    require (!value.isEmpty && utf8Len value ≤ maxHostSecretBytes) "Provided host secret is invalid."
  | .unavailable | .secureStorageUnavailable =>
    require value.isEmpty "Unavailable host secret responses must not include a secret."
  .ok (Wire.envelope.toByteArray (call.envelope compatibility))

end Send

end LinguaMesh.Ffi
