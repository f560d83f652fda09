import LinguaMesh.Domain.Errors
import LinguaMesh.Domain.Text

/-!
# Messages of the native boundary

The envelopes that the host sends and receives, and the checks that a submit and
a host response make before they touch the state of the engine. The decoders of
the wire format, the checks of a secret reference, of profile fields and of an
endpoint, and the constructor of the provider are parameters (`Boundary`): the
results hold whatever they answer.
-/

namespace LinguaMesh.Ffi

inductive LmResultCode where
  | ok | invalidArgument | shutdown | panic | protocolIncompatible | malformedMessage | busy
  | unsupportedMessage | internal | resourceExhausted
  deriving DecidableEq, Repr

abbrev Message := List UInt8

def protocolVersion : Nat := 1
def maxProtocolMessageBytes : Nat := 1024 * 1024
def maxHostSecretBytes : Nat := 64 * 1024

structure Envelope where
  protocolVersion : Nat
  operationId : Str
  correlationId : Str
  sequence : Nat
  messageType : String
  payload : Message
  deriving DecidableEq, Repr

structure TranslateTextCommand where
  endpoint : Str
  modelId : Str
  sourceText : Str
  targetLocale : Str
  secretRef : Str
  organization : Str
  project : Str
  customHeadersJson : Str
  deriving DecidableEq, Repr

structure HostSecretResponse where
  requestId : Str
  resolution : String
  secret : Str
  deriving DecidableEq, Repr

structure OpenAiConfig where
  endpoint : Str
  credential : Option Str
  organization : Option Str
  project : Option Str
  customHeaders : Option Str
  deriving DecidableEq, Repr

class Boundary where
  decodeEnvelope : Message → Option Envelope
  decodeCommand : Message → Option TranslateTextCommand
  decodeResponse : Message → Option HostSecretResponse
  /-- `validate_non_secret_profile_field` of a value and its field. -/
  validateField : Str → String → Option Str
  /-- Whether `SecretRef::parse` accepts the reference. -/
  isSecretRef : Str → Bool
  /-- Whether `OpenAiCompatibleProvider::validate_endpoint` does. -/
  isEndpoint : Str → Bool
  /-- Whether `OpenAiCompatibleProvider::new` gives a provider. -/
  isProvider : OpenAiConfig → Bool

/-! ## Events -/

inductive TranslationEvent where
  | started (sequence : Nat)
  | textDelta (sequence : Nat) (text : Str)
  | completed (sequence : Nat)
  | cancelled (sequence : Nat)
  | failed (sequence : Nat) (error : TranslationError)
  deriving DecidableEq, Repr

def TranslationEvent.sequence : TranslationEvent → Nat
  | started sequence | textDelta sequence _ | completed sequence | cancelled sequence
  | failed sequence _ => sequence

def TranslationEvent.isTerminal : TranslationEvent → Bool
  | completed _ | cancelled _ | failed _ _ => true
  | _ => false

/-- The payload of an event before it is encoded. -/
inductive EventPayload where
  | empty
  | textDelta (text : Str)
  | failure (errorKind message : String)
  | secretRequired (requestId secretRef : Str)
  deriving DecidableEq, Repr

/-- An event as it stands in the queue. -/
structure EventEnvelope where
  operationId : Str
  correlationId : Str
  sequence : Nat
  messageType : String
  payload : EventPayload
  deriving DecidableEq, Repr

def errorKindName : ErrorKind → String
  | .cancelled => "cancelled"
  | .invalidEndpoint => "invalid_endpoint"
  | .network => "network"
  | .timeout => "timeout"
  | .authentication => "authentication"
  | .rateLimited => "rate_limited"
  | .modelUnavailable => "model_unavailable"
  | .malformedResponse => "malformed_response"
  | .persistence => "persistence"
  | .protocolIncompatible => "protocol_incompatible"
  | .invalidConfiguration => "invalid_configuration"
  | .unsupportedCapability => "unsupported_capability"
  | .secretUnavailable => "secret_unavailable"
  | .secureStorageUnavailable => "secure_storage_unavailable"
  | .internal => "internal"

def encodeEvent (operationId correlationId : Str) (event : TranslationEvent) : EventEnvelope :=
  let (messageType, payload) : String × EventPayload := match event with
    | .started _ => ("started", .empty)
    | .textDelta _ text => ("text_delta", .textDelta text)
    | .completed _ => ("completed", .empty)
    | .cancelled _ => ("cancelled", .empty)
    | .failed _ error => ("failed", .failure (errorKindName error.kind) error.message)
  ⟨operationId, correlationId, event.sequence, messageType, payload⟩

/-- The event that asks the host for a secret. -/
def secretRequiredEvent (operationId correlationId requestId secretRef : Str) : EventEnvelope :=
  ⟨operationId, correlationId, 0, "secret_required", .secretRequired requestId secretRef⟩

/-- The terminal event of an error. -/
def errorTerminal (sequence : Nat) (error : TranslationError) : TranslationEvent :=
  if error.kind = .cancelled then .cancelled sequence else .failed sequence error

def cancelledError : TranslationError := .new .cancelled "Translation was cancelled."

/-! ## Checks -/

section Checks

variable [Boundary]

/-- `decode_protocol_input` of a message, with the state of the shutdown flag. -/
def decodeProtocolInput (shutdown : Bool) (message : Message) : Except LmResultCode Envelope :=
  if shutdown then .error .shutdown
  else if message = [] ∨ maxProtocolMessageBytes < message.length then .error .invalidArgument
  else match Boundary.decodeEnvelope message with
    | none => .error .malformedMessage
    | some envelope =>
      if envelope.protocolVersion ≠ protocolVersion then .error .protocolIncompatible
      else if envelope.operationId = [] ∨ envelope.correlationId = [] ∨ envelope.messageType = "" then
        .error .malformedMessage
      else .ok envelope

def optionalNonSecretMetadata (value : Str) (field : String) : Except LmResultCode (Option Str) :=
  if trim value = [] then .ok none
  else match Boundary.validateField value field with
    | some value => .ok (some value)
    | none => .error .invalidArgument

def openaiConfigForCommand (command : TranslateTextCommand) (credential : Option Str) :
    Except LmResultCode OpenAiConfig := do
  let organization ← optionalNonSecretMetadata command.organization "organization"
  let project ← optionalNonSecretMetadata command.project "project"
  let customHeaders :=
    if trim command.customHeadersJson = [] then none else some command.customHeadersJson
  .ok ⟨command.endpoint, credential, organization, project, customHeaders⟩

/-- What `submit` needs of a command that has passed its checks. -/
structure Submission where
  command : TranslateTextCommand
  config : OpenAiConfig
  secretRef : Option Str
  deriving DecidableEq, Repr

/-- The checks of `submit` before it takes the lock. -/
def checkSubmit (envelope : Envelope) : Except LmResultCode Submission :=
  if envelope.messageType ≠ "translate_text" then .error .unsupportedMessage
  else if envelope.sequence ≠ 0 then .error .malformedMessage
  else match Boundary.decodeCommand envelope.payload with
    | none => .error .malformedMessage
    | some command =>
      if command.endpoint = [] ∨ command.modelId = [] ∨ command.sourceText = [] ∨
          command.targetLocale = [] then .error .malformedMessage
      else match openaiConfigForCommand command none with
        | .error _ => .error .invalidArgument
        | .ok config =>
          if command.secretRef = [] then .ok ⟨command, config, none⟩
          else if Boundary.isSecretRef command.secretRef then
            .ok ⟨command, config, some command.secretRef⟩
          else .error .malformedMessage

/-- The checks of `submit_with_host_secret` on the endpoint and the metadata. -/
def checkHostSecret (submission : Submission) : Bool :=
  Boundary.isEndpoint submission.command.endpoint && Boundary.isProvider submission.config

/-- Whether the provider can be made with the secret. -/
def providerForSecret (command : TranslateTextCommand) (secret : Str) : Bool :=
  match openaiConfigForCommand command (some secret) with
  | .error _ => false
  | .ok config => Boundary.isProvider config

inductive SecretResolution where
  | provided (secret : Str)
  | unavailable
  | secureStorageUnavailable
  deriving DecidableEq, Repr

/-- The checks of `send_host_response` on its payload: the request and the resolution. -/
def checkResponse (envelope : Envelope) : Except LmResultCode (Str × SecretResolution) :=
  match Boundary.decodeResponse envelope.payload with
  | none => .error .malformedMessage
  | some response =>
    if response.requestId = [] ∨ 128 < utf8Len response.requestId then .error .malformedMessage
    else match response.resolution with
      | "provided" =>
        if response.secret ≠ [] ∧ utf8Len response.secret ≤ maxHostSecretBytes then
          .ok (response.requestId, .provided response.secret)
        else .error .malformedMessage
      | "unavailable" =>
        if response.secret = [] then .ok (response.requestId, .unavailable)
        else .error .malformedMessage
      | "secure_storage_unavailable" =>
        if response.secret = [] then .ok (response.requestId, .secureStorageUnavailable)
        else .error .malformedMessage
      | _ => .error .malformedMessage

/-- What `resolve` makes of the host's answer; `none` when the lease was dropped. -/
def resolutionResult : Option SecretResolution → Except TranslationError Str
  | some (.provided secret) => .ok secret
  | some .unavailable =>
    .error (.new .secretUnavailable "The provider credential is unavailable.")
  | some .secureStorageUnavailable =>
    .error (.new .secureStorageUnavailable "Secure credential storage is unavailable.")
  | none => .error (.new .secretUnavailable "The host did not complete the secret request.")

end Checks

end LinguaMesh.Ffi
