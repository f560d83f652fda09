import LinguaMesh.Provider.OpenAi
import LinguaMesh.Provider.Anthropic

/-!
# The text of a stream

The OpenAI chat decoder and the Anthropic decoder emit one message for an
event, and both look for usage first. `TextStream` puts them side by side;
`text_kept_iff` says for which events no text and no completion marker is lost.
-/

namespace LinguaMesh

/-! ## What an event carries -/

/-- The text, the completion marker and the usage of an event. -/
structure Carried where
  text : Str
  marker : Bool
  usage : Option UsageResponse

def Carried.nothing : Carried := ⟨[], false, none⟩

/-- `[DONE]` is the marker; any other data is a response with `choices[0].delta.content`. -/
def OpenAi.carried [FromJson OpenAi.StreamResponse] (event : Bytes) : Carried :=
  match eventData event with
  | .error _ => .nothing
  | .ok data =>
    if data.isEmpty then .nothing
    else if data = "[DONE]".toList then ⟨[], true, none⟩
    else match (FromJson.fromStr data : Option OpenAi.StreamResponse) with
    | none => .nothing
    | some r => ⟨(r.choices.head?.bind (·.delta.content)).getD [], false, r.usage⟩

def Anthropic.StreamResponse.text (r : Anthropic.StreamResponse) : Str :=
  match r.delta with
  | some delta =>
    if r.eventType = "content_block_delta".toList ∧ delta.deltaType = "text_delta".toList then
      delta.text.getD []
    else []
  | none => []

/-- `message_stop` is the marker; a `content_block_delta` with a `text_delta` carries text. -/
def Anthropic.carried [FromJson Anthropic.StreamResponse] (event : Bytes) : Carried :=
  match eventData event with
  | .error _ => .nothing
  | .ok data =>
    if data.isEmpty then .nothing
    else match (FromJson.fromStr data : Option Anthropic.StreamResponse) with
    | none => .nothing
    | some r => ⟨r.text, r.eventType = "message_stop".toList,
        (r.message.bind (·.usage)).or r.usage⟩

/-- A decoder of single events, and what its messages mean. -/
structure TextStream where
  Message : Type
  parse : Bytes → Except TranslationError (Option Message)
  text : Message → Str
  completes : Message → Bool
  carried : Bytes → Carried

def OpenAi.textStream [FromJson OpenAi.StreamResponse] : TextStream where
  Message := OpenAi.SseMessage
  parse := OpenAi.parseEvent
  text
    | .delta text => text
    | _ => []
  completes
    | .done | .usageAndDone _ => true
    | _ => false
  carried := OpenAi.carried

def Anthropic.textStream [FromJson Anthropic.StreamResponse] : TextStream where
  Message := Anthropic.SseMessage
  parse := Anthropic.parseEvent
  text
    | .delta text => text
    | _ => []
  completes
    | .done => true
    | _ => false
  carried := Anthropic.carried

/-! ## Text and completion of a sequence of events -/

namespace TextStream

variable {s : TextStream}

/-- What a decoder makes of an event: usage hides everything else. -/
structure UsageFirst (s : TextStream) : Prop where
  usage : ∀ {e m}, s.parse e = .ok m → (s.carried e).usage.isSome = true →
    ∃ x, m = some x ∧ s.text x = [] ∧ s.completes x = false
  marker : ∀ {e m}, s.parse e = .ok m → (s.carried e).usage.isSome = false →
    (s.carried e).marker = true →
    (s.carried e).text = [] ∧ ∃ x, m = some x ∧ s.text x = [] ∧ s.completes x = true
  other : ∀ {e m}, s.parse e = .ok m → (s.carried e).usage.isSome = false →
    (s.carried e).marker = false →
    (m = none ∧ (s.carried e).text = []) ∨
      ∃ x, m = some x ∧ s.text x = (s.carried e).text ∧ s.completes x = false

/-- `e` is the first completion marker of the events. -/
def FirstMarker (s : TextStream) (events before : List Bytes) (e : Bytes) : Prop :=
  (∃ after, events = before ++ e :: after) ∧ (s.carried e).marker = true ∧
    ∀ b ∈ before, (s.carried b).marker = false

/-- The emitted text is the carried text, and the stream completes at the first marker. -/
def KeepsText (s : TextStream) (events : List Bytes) : Prop :=
  ∀ messages, decodeEvents s.parse events = .ok messages →
    messages.flatMap s.text = events.flatMap (fun e => (s.carried e).text) ∧
    ∀ before e, s.FirstMarker events before e → ∃ earlier m,
      decodeEvents s.parse before = .ok earlier ∧ (∀ n ∈ earlier, s.completes n = false) ∧
      s.parse e = .ok (some m) ∧ s.completes m = true

/-- Usage comes alone: not with text, and not with the first marker. -/
def UsageApart (s : TextStream) (events : List Bytes) : Prop :=
  (∀ e ∈ events, (s.carried e).usage.isSome = true → (s.carried e).text = []) ∧
  ∀ before e, s.FirstMarker events before e → (s.carried e).usage.isSome = false

theorem UsageFirst.text_eq (h : s.UsageFirst) {e : Bytes} {m : Option s.Message}
    (hp : s.parse e = .ok m) : m.toList.flatMap s.text =
      if (s.carried e).usage.isSome then [] else (s.carried e).text := by
  by_cases hu : (s.carried e).usage.isSome = true
  · obtain ⟨x, rfl, ht, -⟩ := h.usage hp hu
    simp [hu, ht]
  · have hu := Bool.eq_false_of_not_eq_true hu
    by_cases hm : (s.carried e).marker = true
    · obtain ⟨ht, x, rfl, hx, -⟩ := h.marker hp hu hm
      simp [hu, ht, hx]
    · rcases h.other hp hu (Bool.eq_false_of_not_eq_true hm) with ⟨rfl, ht⟩ | ⟨x, rfl, hx, -⟩
      · simp [hu, ht]
      · simp [hu, hx]

theorem UsageFirst.messages_text (h : s.UsageFirst) {events : List Bytes}
    {messages : List s.Message} (hd : decodeEvents s.parse events = .ok messages) :
    messages.flatMap s.text = events.flatMap fun e =>
      if (s.carried e).usage.isSome then [] else (s.carried e).text := by
  induction events generalizing messages with
  | nil => cases hd; rfl
  | cons e es ih =>
    obtain ⟨m, hm, hd⟩ := Except.bind_ok.mp hd
    obtain ⟨ms, hms, hd⟩ := Except.bind_ok.mp hd
    cases hd
    rw [List.flatMap_append, h.text_eq hm, ih hms, List.flatMap_cons]

/-- Leaving out what some elements give changes nothing when they give nothing. -/
theorem flatMap_skip {α β : Type} {skip : α → Bool} {f : α → List β} {l : List α} :
    (l.flatMap fun a => if skip a then [] else f a) = l.flatMap f ↔
      ∀ a ∈ l, skip a = true → f a = [] := by
  have hle : ∀ l : List α, (l.flatMap fun a => if skip a then [] else f a).length ≤
      (l.flatMap f).length := by
    intro l
    induction l with
    | nil => exact Nat.le_refl _
    | cons a l ih =>
      simp only [List.flatMap_cons, List.length_append]
      split
      · simp only [List.length_nil]
        omega
      · omega
  induction l with
  | nil => simp
  | cons a l ih =>
    rw [List.flatMap_cons, List.flatMap_cons, List.forall_mem_cons]
    by_cases ha : skip a = true
    · simp only [ha, ↓reduceIte, List.nil_append, forall_const]
      constructor
      · intro h
        have hl := congrArg List.length h
        have := hle l
        rw [List.length_append] at hl
        have hf : f a = [] := List.length_eq_zero_iff.mp (by omega)
        rw [hf, List.nil_append] at h
        exact ⟨hf, ih.mp h⟩
      · rintro ⟨hf, h⟩
        rw [hf, List.nil_append]
        exact ih.mpr h
    · simp only [ha, Bool.false_eq_true, ↓reduceIte, List.append_cancel_left_eq, false_implies,
        true_and]
      exact ih

theorem decode_before {events before : List Bytes} {e : Bytes} {messages : List s.Message}
    (h : decodeEvents s.parse events = .ok messages) {after : List Bytes}
    (he : events = before ++ e :: after) :
    (∃ earlier, decodeEvents s.parse before = .ok earlier) ∧ ∃ m, s.parse e = .ok m := by
  subst he
  induction before generalizing messages with
  | nil =>
    obtain ⟨m, hm, -⟩ := Except.bind_ok.mp h
    exact ⟨⟨[], rfl⟩, m, hm⟩
  | cons b before ih =>
    obtain ⟨m, hm, h⟩ := Except.bind_ok.mp h
    obtain ⟨ms, hms, -⟩ := Except.bind_ok.mp h
    obtain ⟨⟨earlier, h1⟩, h2⟩ := ih hms
    refine ⟨⟨m.toList ++ earlier, ?_⟩, h2⟩
    rw [decodeEvents, hm, Except.ok_bind, h1, Except.ok_bind]

theorem UsageFirst.not_completes (h : s.UsageFirst) {before : List Bytes}
    {earlier : List s.Message} (hd : decodeEvents s.parse before = .ok earlier)
    (hb : ∀ b ∈ before, (s.carried b).marker = false) :
    ∀ n ∈ earlier, s.completes n = false := by
  induction before generalizing earlier with
  | nil =>
    cases hd
    exact fun n hn => nomatch hn
  | cons b before ih =>
    obtain ⟨m, hm, hd⟩ := Except.bind_ok.mp hd
    obtain ⟨ms, hms, hd⟩ := Except.bind_ok.mp hd
    cases hd
    intro n hn
    rcases List.mem_append.mp hn with hn | hn
    · have hnb := hb b (List.mem_cons_self ..)
      by_cases hu : (s.carried b).usage.isSome = true
      · obtain ⟨x, rfl, -, hx⟩ := h.usage hm hu
        rw [List.mem_singleton.mp hn, hx]
      · rcases h.other hm (Bool.eq_false_of_not_eq_true hu) hnb with ⟨rfl, -⟩ | ⟨x, rfl, -, hx⟩
        · cases hn
        · rw [List.mem_singleton.mp hn, hx]
    · exact ih hms (fun b hb' => hb b (List.mem_cons_of_mem _ hb')) n hn

theorem UsageFirst.keepsText_iff (h : s.UsageFirst) {events : List Bytes}
    (hacc : ∃ messages, decodeEvents s.parse events = .ok messages) :
    s.KeepsText events ↔ s.UsageApart events := by
  obtain ⟨messages, hd⟩ := hacc
  constructor
  · intro hk
    obtain ⟨ht, hm⟩ := hk messages hd
    rw [h.messages_text hd, flatMap_skip] at ht
    refine ⟨ht, fun before e hf => ?_⟩
    obtain ⟨-, m, -, -, hp, hc⟩ := hm before e hf
    by_contra hu
    obtain ⟨x, hx, -, hxc⟩ := h.usage hp (Bool.eq_true_of_not_eq_false hu)
    cases hx
    rw [hxc] at hc
    cases hc
  · rintro ⟨ht, hu⟩ messages hd
    refine ⟨?_, fun before e hf => ?_⟩
    · rw [h.messages_text hd, flatMap_skip]
      exact ht
    · obtain ⟨⟨after, he⟩, hm, hb⟩ := hf
      obtain ⟨⟨earlier, h1⟩, m, h2⟩ := decode_before hd he
      obtain ⟨-, x, rfl, -, hx⟩ := h.marker h2 (hu before e ⟨⟨after, he⟩, hm, hb⟩) hm
      exact ⟨earlier, x, h1, h.not_completes h1 hb, h2, hx⟩

end TextStream

/-! ## The two decoders -/

theorem length_le_flatMap (events : List Bytes) :
    events.length ≤ (events.flatMap (· ++ lfDelimiter)).length := by
  induction events with
  | nil => exact Nat.le_refl _
  | cons e es ih =>
    rw [List.flatMap_cons, List.length_append, List.length_append, List.length_cons]
    have : lfDelimiter.length = 2 := rfl
    omega

theorem OpenAi.parseEvent_cases [FromJson OpenAi.StreamResponse] {e : Bytes}
    {m : Option OpenAi.SseMessage} (h : OpenAi.parseEvent e = .ok m) :
    (m = none ∧ OpenAi.carried e = .nothing) ∨
    (m = some .done ∧ OpenAi.carried e = ⟨[], true, none⟩) ∨
    (∃ text u, m = some (.usage u.intoRecord) ∧ OpenAi.carried e = ⟨text, false, some u⟩) ∨
    ∃ text, m = some (.delta text) ∧ OpenAi.carried e = ⟨text, false, none⟩ := by
  obtain ⟨data, hd, h⟩ := Except.bind_ok.mp h
  unfold OpenAi.carried
  rw [hd]
  dsimp only
  split at h
  · rename_i he
    cases h
    exact .inl ⟨rfl, by rw [if_pos he]⟩
  · rename_i he
    rw [if_neg he]
    split at h
    · rename_i hdone
      cases h
      exact .inr (.inl ⟨rfl, by rw [if_pos hdone]⟩)
    · rename_i hdone
      rw [if_neg hdone]
      cases hr : (FromJson.fromStr data : Option OpenAi.StreamResponse) with
      | none =>
        rw [hr] at h
        cases h
      | some r =>
        rw [hr] at h
        dsimp only at h ⊢
        split at h
        · rename_i u hu
          cases h
          exact .inr (.inr (.inl ⟨_, u, rfl, by rw [hu]⟩))
        · rename_i hu
          cases h
          exact .inr (.inr (.inr ⟨_, rfl, by rw [hu]⟩))

theorem OpenAi.usageFirst [FromJson OpenAi.StreamResponse] : OpenAi.textStream.UsageFirst where
  usage := by
    intro e m h hu
    change (OpenAi.carried e).usage.isSome = true at hu
    rcases OpenAi.parseEvent_cases h with ⟨-, hc⟩ | ⟨-, hc⟩ | ⟨_, u, rfl, -⟩ | ⟨_, -, hc⟩
    · rw [hc] at hu; cases hu
    · rw [hc] at hu; cases hu
    · exact ⟨_, rfl, rfl, rfl⟩
    · rw [hc] at hu; cases hu
  marker := by
    intro e m h hu hm
    change (OpenAi.carried e).marker = true at hm
    change (OpenAi.carried e).text = [] ∧ _
    rcases OpenAi.parseEvent_cases h with ⟨-, hc⟩ | ⟨rfl, hc⟩ | ⟨_, u, -, hc⟩ | ⟨_, -, hc⟩
    · rw [hc] at hm; cases hm
    · exact ⟨by rw [hc], _, rfl, rfl, rfl⟩
    · rw [hc] at hm; cases hm
    · rw [hc] at hm; cases hm
  other := by
    intro e m h hu hm
    change (OpenAi.carried e).usage.isSome = false at hu
    change (OpenAi.carried e).marker = false at hm
    change (_ ∧ (OpenAi.carried e).text = []) ∨ ∃ x, _ ∧ _ = (OpenAi.carried e).text ∧ _
    rcases OpenAi.parseEvent_cases h with ⟨rfl, hc⟩ | ⟨-, hc⟩ | ⟨_, u, -, hc⟩ | ⟨_, rfl, hc⟩
    · exact .inl ⟨rfl, by rw [hc]; rfl⟩
    · rw [hc] at hm; cases hm
    · rw [hc] at hu; cases hu
    · exact .inr ⟨_, rfl, by rw [hc]; rfl, rfl⟩

theorem Anthropic.parseEvent_cases [FromJson Anthropic.StreamResponse] {e : Bytes}
    {m : Option Anthropic.SseMessage} (h : Anthropic.parseEvent e = .ok m) :
    (m = none ∧ Anthropic.carried e = .nothing) ∨
    ∃ r : Anthropic.StreamResponse,
      Anthropic.carried e = ⟨r.text, r.eventType = "message_stop".toList,
        (r.message.bind (·.usage)).or r.usage⟩ ∧
      ((∃ u, (r.message.bind (·.usage)).or r.usage = some u ∧ m = some (.usage u.intoRecord)) ∨
        (r.message.bind (·.usage)).or r.usage = none ∧
          ((r.eventType = "message_stop".toList ∧ m = some .done ∧ r.text = []) ∨
            r.eventType ≠ "message_stop".toList ∧
              ((m = none ∧ r.text = []) ∨ m = some (.delta r.text)))) := by
  obtain ⟨data, hd, h⟩ := Except.bind_ok.mp h
  unfold Anthropic.carried
  rw [hd]
  dsimp only
  split at h
  · rename_i he
    cases h
    exact .inl ⟨rfl, by rw [if_pos he]⟩
  · rename_i he
    rw [if_neg he]
    cases hr : (FromJson.fromStr data : Option Anthropic.StreamResponse) with
    | none =>
      rw [hr] at h
      cases h
    | some r =>
      rw [hr] at h
      dsimp only at h ⊢
      refine .inr ⟨r, rfl, ?_⟩
      split at h
      · rename_i u hu
        cases h
        exact .inl ⟨u, hu, rfl⟩
      · rename_i hu
        refine .inr ⟨hu, ?_⟩
        unfold Anthropic.StreamResponse.text
        split at h
        · rename_i hstop
          cases h
          refine .inl ⟨hstop, rfl, ?_⟩
          rw [hstop]
          cases r.delta <;> simp
        · rename_i hstop
          refine .inr ⟨hstop, ?_⟩
          cases hdelta : r.delta with
          | none =>
            rw [hdelta] at h
            split at h <;> cases h <;> exact .inl ⟨rfl, rfl⟩
          | some d =>
            rw [hdelta] at h
            dsimp only at h ⊢
            by_cases hblock : r.eventType = "content_block_delta".toList
            · rw [if_pos hblock] at h
              split at h
              · rename_i htext
                cases h
                exact .inr (by rw [if_pos ⟨hblock, htext⟩])
              · rename_i htext
                cases h
                exact .inl ⟨rfl, if_neg fun hh => htext hh.2⟩
            · rw [if_neg hblock] at h
              cases h
              exact .inl ⟨rfl, if_neg fun hh => hblock hh.1⟩

theorem Anthropic.usageFirst [FromJson Anthropic.StreamResponse] :
    Anthropic.textStream.UsageFirst where
  usage := by
    intro e m h hu
    change (Anthropic.carried e).usage.isSome = true at hu
    rcases Anthropic.parseEvent_cases h with ⟨-, hc⟩ | ⟨r, hc, ⟨u, -, rfl⟩ | ⟨hn, -⟩⟩
    · rw [hc] at hu; cases hu
    · exact ⟨_, rfl, rfl, rfl⟩
    · rw [hc, hn] at hu; cases hu
  marker := by
    intro e m h hu hm
    change (Anthropic.carried e).usage.isSome = false at hu
    change (Anthropic.carried e).marker = true at hm
    change (Anthropic.carried e).text = [] ∧ _
    rcases Anthropic.parseEvent_cases h with
      ⟨-, hc⟩ | ⟨r, hc, ⟨u, hs, -⟩ | ⟨-, ⟨-, rfl, ht⟩ | ⟨hne, -⟩⟩⟩
    · rw [hc] at hm; cases hm
    · rw [hc, hs] at hu; cases hu
    · exact ⟨by rw [hc]; exact ht, _, rfl, rfl, rfl⟩
    · rw [hc] at hm
      exact absurd (of_decide_eq_true hm) hne
  other := by
    intro e m h hu hm
    change (Anthropic.carried e).usage.isSome = false at hu
    change (Anthropic.carried e).marker = false at hm
    change (_ ∧ (Anthropic.carried e).text = []) ∨ ∃ x, _ ∧ _ = (Anthropic.carried e).text ∧ _
    rcases Anthropic.parseEvent_cases h with
      ⟨rfl, hc⟩ | ⟨r, hc, ⟨u, hs, -⟩ | ⟨-, ⟨hstop, -⟩ | ⟨-, ⟨rfl, ht⟩ | rfl⟩⟩⟩
    · exact .inl ⟨rfl, by rw [hc]; rfl⟩
    · rw [hc, hs] at hu; cases hu
    · rw [hc] at hm
      exact absurd hstop (of_decide_eq_false hm)
    · exact .inl ⟨rfl, by rw [hc]; exact ht⟩
    · exact .inr ⟨_, rfl, by rw [hc]; rfl, rfl⟩

/-- Pushed with a line-feed delimiter after each, events give their messages and leave no rest. -/
theorem OpenAi.push_events [FromJson OpenAi.StreamResponse] {events : List Bytes}
    (he : ∀ e ∈ events, Search.find lfDelimiter (e ++ lfDelimiter) = some e.length) :
    (⟨[]⟩ : OpenAi.SseDecoder).push (events.flatMap (· ++ lfDelimiter)) =
      (decodeEvents OpenAi.parseEvent events).map fun messages => (messages, ⟨[]⟩) := by
  unfold OpenAi.SseDecoder.push
  dsimp only
  rw [List.nil_append, drainEvents_events _ he (length_le_flatMap events)]
  cases decodeEvents OpenAi.parseEvent events <;> rfl

theorem Anthropic.push_events [FromJson Anthropic.StreamResponse] {events : List Bytes}
    (he : ∀ e ∈ events, Search.find lfDelimiter (e ++ lfDelimiter) = some e.length) :
    (⟨[]⟩ : Anthropic.SseDecoder).push (events.flatMap (· ++ lfDelimiter)) =
      (decodeEvents Anthropic.parseEvent events).map fun messages => (messages, ⟨[]⟩) := by
  unfold Anthropic.SseDecoder.push
  dsimp only
  rw [List.nil_append, drainEvents_events _ he (length_le_flatMap events)]
  cases decodeEvents Anthropic.parseEvent events <;> rfl

/-- The decoders that emit one message for an event. -/
inductive TextProvider where
  | openAiChat
  | anthropic

def TextProvider.stream [FromJson OpenAi.StreamResponse] [FromJson Anthropic.StreamResponse] :
    TextProvider → TextStream
  | .openAiChat => OpenAi.textStream
  | .anthropic => Anthropic.textStream

/-- Of accepted events no text and no completion is lost exactly when usage comes apart. -/
theorem text_kept_iff [FromJson OpenAi.StreamResponse] [FromJson Anthropic.StreamResponse]
    (provider : TextProvider) {events : List Bytes}
    (hacc : ∃ messages, decodeEvents provider.stream.parse events = .ok messages) :
    provider.stream.KeepsText events ↔ provider.stream.UsageApart events := by
  cases provider with
  | openAiChat => exact OpenAi.usageFirst.keepsText_iff hacc
  | anthropic => exact Anthropic.usageFirst.keepsText_iff hacc

/-- The parser that reads one text, as `value`. -/
@[reducible] def jsonFor {α : Type} (text : String) (value : α) : FromJson α :=
  ⟨fun s => if s = text.toList then some value else none⟩

/-- A chat response with text and usage. -/
@[reducible] def chatJson : FromJson OpenAi.StreamResponse :=
  jsonFor "\x7b\"choices\":[\x7b\"delta\":\x7b\"content\":\"a\"\x7d\x7d],\"usage\":\x7b\"total_tokens\":1\x7d\x7d"
    ⟨[⟨⟨some ['a']⟩⟩], some ⟨none, none, some 1⟩⟩

def chatEvent : Bytes := asciiBytes
  "data: \x7b\"choices\":[\x7b\"delta\":\x7b\"content\":\"a\"\x7d\x7d],\"usage\":\x7b\"total_tokens\":1\x7d\x7d"

/-- A `message_stop` with usage. -/
@[reducible] def stopJson : FromJson Anthropic.StreamResponse :=
  jsonFor "\x7b\"type\":\"message_stop\",\"usage\":\x7b\"output_tokens\":1\x7d\x7d"
    ⟨"message_stop".toList, none, none, some ⟨none, some 1, none⟩⟩

def stopEvent : Bytes :=
  asciiBytes "data: \x7b\"type\":\"message_stop\",\"usage\":\x7b\"output_tokens\":1\x7d\x7d"

theorem chatEvent_decoded : decodeEvents (@OpenAi.parseEvent chatJson) [chatEvent] =
    .ok [.usage ⟨.providerReported, none, none, some 1⟩] := by decide +kernel

theorem stopEvent_decoded : decodeEvents (@Anthropic.parseEvent stopJson) [stopEvent] =
    .ok [.usage ⟨.providerReported, none, some 1, none⟩] := by decide +kernel

theorem text_kept_chatEvent :
    (@TextProvider.stream chatJson stopJson .openAiChat).KeepsText [chatEvent] ↔
    (@TextProvider.stream chatJson stopJson .openAiChat).UsageApart [chatEvent] :=
  @text_kept_iff chatJson stopJson .openAiChat [chatEvent] ⟨_, chatEvent_decoded⟩

/-- The chat decoder drops the text of an event with usage, the Anthropic decoder the completion. -/
theorem usage_hides :
    ¬ (@TextProvider.stream chatJson stopJson .openAiChat).KeepsText [chatEvent] ∧
    ¬ (@TextProvider.stream chatJson stopJson .anthropic).KeepsText [stopEvent] := by
  constructor
  · intro h
    have ht := (h _ chatEvent_decoded).1
    have hc : (@OpenAi.carried chatJson chatEvent).text = ['a'] := by decide +kernel
    have : ([] : Str) = ['a'] ++ [] := hc ▸ ht
    cases this
  · intro h
    have hm : (@Anthropic.carried stopJson stopEvent).marker = true := by decide +kernel
    obtain ⟨earlier, m, -, -, hp, hc⟩ := (h _ stopEvent_decoded).2 [] stopEvent
      ⟨⟨[], rfl⟩, hm, fun b hb => nomatch hb⟩
    have hu : @Anthropic.parseEvent stopJson stopEvent =
        .ok (some (.usage ⟨.providerReported, none, some 1, none⟩)) := by decide +kernel
    cases hu.symm.trans hp
    cases hc

end LinguaMesh
