import LinguaMesh.Domain.Utf8Encode
import LinguaMesh.Ffi.Wire
import LinguaMesh.Lib.Protobuf

/-!
# A codec for both sides

The messages of `linguamesh.proto` as lists of fields, in the wire format of protocol buffers.
Both sides write and read them in this way, and each reads what the other wrote
(`lawful_plainWire`).
-/

namespace LinguaMesh.PlainWire

open Protobuf Ffi

/-- How a message is made of fields. -/
structure Layout (M : Type) where
  fields : M → List Field
  ofFields : List Field → Option M

structure Layout.Lawful {M : Type} (layout : Layout M) (InRange : M → Prop) (defaults : M) : Prop where
  ofFields_fields : ∀ m, layout.ofFields (layout.fields m) = some m
  ready : ∀ m, InRange m → ∀ f ∈ layout.fields m, Ready f
  ofFields_nil : layout.ofFields [] = some defaults

def Layout.write {M : Type} (layout : Layout M) (m : M) : Message := writeFields (layout.fields m)

def Layout.read {M : Type} (layout : Layout M) (bytes : Message) : Option M :=
  (readFields bytes).bind layout.ofFields

def Layout.codec {M : Type} (layout : Layout M) : Codec M :=
  ⟨layout.write, layout.read, layout.write, layout.read⟩

theorem Layout.Lawful.codec {M : Type} {layout : Layout M} {InRange : M → Prop} {defaults : M}
    (h : layout.Lawful InRange defaults) : layout.codec.Lawful InRange defaults := by
  have hread (m : M) (hrange : InRange m) (hlen : (layout.write m).length ≤ maxWireBytes) :
      layout.read (layout.write m) = some m := by
    have hshort : (writeFields (layout.fields m)).length < 2 ^ 64 := Nat.lt_of_le_of_lt hlen (by decide)
    unfold Layout.read Layout.write
    rw [readFields_ready (h.ready m hrange) hshort, Option.bind_some, h.ofFields_fields]
  exact ⟨hread, hread, h.ofFields_nil, h.ofFields_nil⟩

/-! ## Texts -/

def textField (number : Nat) (s : Str) : List Field := bytesField number (encodeUtf8 s)

def getText (number : Nat) (fields : List Field) : Option Str := (getBytes number fields).bind fromUtf8

theorem only_textField (number other : Nat) (s : Str) :
    only number (textField other s) = if other = number ∧ encodeUtf8 s ≠ [] then [.bytes (encodeUtf8 s)] else [] :=
  only_bytesField number other _

theorem getText_of_only {number : Nat} {fields : List Field} {s : Str}
    (h : only number fields = if encodeUtf8 s ≠ [] then [.bytes (encodeUtf8 s)] else []) :
    getText number fields = some s := by
  unfold getText
  rw [getBytes_of_only h, Option.bind_some, fromUtf8_encode]

theorem ready_textField {number : Nat} {s : Str} (hnumber : 0 < number ∧ number < 2 ^ 29) :
    ∀ f ∈ textField number s, Ready f :=
  ready_bytesField hnumber

/-! ## Messages of texts -/

/-- The texts, with the numbers from `number` on. -/
def textFields : Nat → List Str → List Field
  | _, [] => []
  | number, s :: ss => textField number s ++ textFields (number + 1) ss

theorem only_textFields {number other : Nat} (h : number < other) (ss : List Str) :
    only number (textFields other ss) = [] := by
  induction ss generalizing other with
  | nil => rfl
  | cons s ss ih =>
    rw [textFields, only_append, only_textField, if_neg (by omega), ih (by omega), List.append_nil]

theorem ready_textFields {number : Nat} {ss : List Str} (hpos : 0 < number) (hsmall : number + ss.length < 2 ^ 29) :
    ∀ f ∈ textFields number ss, Ready f := by
  induction ss generalizing number with
  | nil => exact nofun
  | cons s ss ih =>
    rw [List.length_cons] at hsmall
    exact List.forall_mem_append.mpr ⟨ready_textField (by omega), ih (by omega) (by omega)⟩

/-- A message whose fields are all texts. -/
def textsLayout {M : Type} (count : Nat) (texts : M → List Str) (ofTexts : List Str → M) : Layout M where
  fields m := textFields 1 (texts m)
  ofFields fields := ((List.range' 1 count).mapM fun number => getText number fields).map ofTexts

theorem getTexts_textFields {front : List Field} {number : Nat} (hfront : ∀ n, number ≤ n → only n front = [])
    (ss : List Str) :
    (List.range' number ss.length).mapM (fun n => getText n (front ++ textFields number ss)) = some ss := by
  induction ss generalizing front number with
  | nil => rfl
  | cons s ss ih =>
    have hhead : getText number (front ++ textFields number (s :: ss)) = some s := by
      apply getText_of_only
      rw [textFields, only_append, only_append, hfront number (Nat.le_refl _), only_textField,
        only_textFields (Nat.lt_succ_self _), List.nil_append, List.append_nil]
      simp
    have hfront' (n : Nat) (hn : number + 1 ≤ n) : only n (front ++ textField number s) = [] := by
      rw [only_append, hfront n (by omega), only_textField, if_neg (by omega), List.nil_append]
    have hrest := ih hfront'
    rw [List.append_assoc, ← textFields] at hrest
    rw [List.length_cons, List.range'_succ, List.mapM_cons, hhead, hrest]
    rfl

theorem lawful_texts {M : Type} {count : Nat} {texts : M → List Str} {ofTexts : List Str → M} {defaults : M}
    (hcount : ∀ m, (texts m).length = count) (hback : ∀ m, ofTexts (texts m) = m) (hsmall : 1 + count < 2 ^ 29)
    (hnil : (textsLayout count texts ofTexts).ofFields [] = some defaults) :
    (textsLayout count texts ofTexts).Lawful (fun _ => True) defaults where
  ofFields_fields m := by
    have hempty (n : Nat) (_ : 1 ≤ n) : only n [] = [] := rfl
    have htexts := getTexts_textFields hempty (texts m)
    rw [hcount, List.nil_append] at htexts
    unfold textsLayout
    dsimp only
    rw [htexts, Option.map_some, hback]
  ready m _ := ready_textFields Nat.one_pos (by rw [hcount]; exact hsmall)
  ofFields_nil := hnil

/-! ## The messages -/

def envelopeLayout : Layout Envelope where
  fields m := numberField 1 m.protocolVersion ++ textField 2 m.operationId ++ textField 3 m.correlationId ++
    numberField 4 m.sequence ++ textField 5 m.messageType.toList ++ bytesField 6 m.payload
  ofFields fields := do
    let protocolVersion ← getNumber 1 fields
    let operationId ← getText 2 fields
    let correlationId ← getText 3 fields
    let sequence ← getNumber 4 fields
    let messageType ← getText 5 fields
    let payload ← getBytes 6 fields
    some ⟨protocolVersion, operationId, correlationId, sequence, String.ofList messageType, payload⟩

theorem lawful_envelope : envelopeLayout.Lawful Envelope.InRange ⟨0, [], [], 0, "", []⟩ where
  ofFields_fields m := by
    unfold envelopeLayout
    dsimp only
    rw [getNumber_of_only (n := m.protocolVersion) (by simp [only_textField]),
      getText_of_only (s := m.operationId) (by simp [only_textField]),
      getText_of_only (s := m.correlationId) (by simp [only_textField]),
      getNumber_of_only (n := m.sequence) (by simp [only_textField]),
      getText_of_only (s := m.messageType.toList) (by simp [only_textField]),
      getBytes_of_only (b := m.payload) (by simp [only_textField])]
    simp
  ready m hm := by
    simp only [envelopeLayout, List.forall_mem_append]
    exact ⟨⟨⟨⟨⟨ready_numberField (by decide) (Nat.lt_trans hm.1 (by decide)), ready_textField (by decide)⟩,
      ready_textField (by decide)⟩, ready_numberField (by decide) hm.2⟩, ready_textField (by decide)⟩,
      ready_bytesField (by decide)⟩
  ofFields_nil := rfl

/-- The text with this place in the message. -/
def textAt (texts : List Str) (place : Nat) : Str := texts.getD place []

def textDeltaLayout : Layout TextDeltaEvent :=
  textsLayout 1 (fun m => [m.text]) fun texts => ⟨textAt texts 0⟩

def failureLayout : Layout FailureEvent :=
  textsLayout 2 (fun m => [m.errorKind.toList, m.message.toList])
    fun texts => ⟨String.ofList (textAt texts 0), String.ofList (textAt texts 1)⟩

def secretRequiredLayout : Layout SecretRequiredEvent :=
  textsLayout 2 (fun m => [m.requestId, m.secretRef]) fun texts => ⟨textAt texts 0, textAt texts 1⟩

def commandLayout : Layout TranslateTextCommand :=
  textsLayout 8 (fun m => [m.endpoint, m.modelId, m.sourceText, m.targetLocale, m.secretRef, m.organization,
      m.project, m.customHeadersJson])
    fun texts => ⟨textAt texts 0, textAt texts 1, textAt texts 2, textAt texts 3, textAt texts 4, textAt texts 5,
      textAt texts 6, textAt texts 7⟩

def responseLayout : Layout HostSecretResponse :=
  textsLayout 3 (fun m => [m.requestId, m.resolution.toList, m.secret])
    fun texts => ⟨textAt texts 0, String.ofList (textAt texts 1), textAt texts 2⟩

@[reducible] def plainWire : Wire where
  envelope := envelopeLayout.codec
  textDelta := textDeltaLayout.codec
  failure := failureLayout.codec
  secretRequired := secretRequiredLayout.codec
  command := commandLayout.codec
  response := responseLayout.codec

theorem lawful_textDelta : textDeltaLayout.Lawful (fun _ => True) ⟨[]⟩ :=
  lawful_texts (fun _ => rfl) (fun _ => rfl) (by decide) rfl

theorem lawful_failure : failureLayout.Lawful (fun _ => True) ⟨"", ""⟩ :=
  lawful_texts (fun _ => rfl) (fun m => by simp [textAt]) (by decide) rfl

theorem lawful_secretRequired : secretRequiredLayout.Lawful (fun _ => True) ⟨[], []⟩ :=
  lawful_texts (fun _ => rfl) (fun _ => rfl) (by decide) rfl

theorem lawful_command : commandLayout.Lawful (fun _ => True) ⟨[], [], [], [], [], [], [], []⟩ :=
  lawful_texts (fun _ => rfl) (fun _ => rfl) (by decide) rfl

theorem lawful_response : responseLayout.Lawful (fun _ => True) ⟨[], "", []⟩ :=
  lawful_texts (fun _ => rfl) (fun m => by simp [textAt]) (by decide) rfl

theorem payload_le (m : Envelope) : m.payload.length ≤ (envelopeLayout.write m).length := by
  by_cases hnil : m.payload = []
  · rw [hnil]
    exact Nat.zero_le _
  · have hfield : bytesField 6 m.payload = [(6, .bytes m.payload)] := if_neg hnil
    have hmem : ((6, .bytes m.payload) : Field) ∈ envelopeLayout.fields m :=
      List.mem_append_right _ (hfield ▸ List.mem_singleton_self _)
    have hle : (numeral m.payload.length ++ m.payload).length ≤ (envelopeLayout.write m).length :=
      length_write_le hmem
    rw [List.length_append] at hle
    omega

theorem lawful_plainWire : letI := plainWire; Wire.Lawful := by
  let _ : Wire := plainWire
  exact {
    envelope := lawful_envelope.codec
    textDelta := lawful_textDelta.codec
    failure := lawful_failure.codec
    secretRequired := lawful_secretRequired.codec
    command := lawful_command.codec
    response := lawful_response.codec
    payload := fun m => ⟨payload_le m, payload_le m⟩ }

end LinguaMesh.PlainWire
