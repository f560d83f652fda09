import LinguaMesh.Provider.ChunkStream

/-!
# Usage of several chunks

The engine merges all usage reports of a stream: the latest value of each field stays.
That completes the reports of one answer, but of several chunks it keeps the last one's
values. `usage_additive_iff` says when these are the sums over the chunks.
-/

namespace LinguaMesh.Engine

open OpenAi UsageRecord

/-! ## Reports of a stream -/

inductive UsageField where
  | input | output | total
  deriving DecidableEq, Repr

def UsageField.of : UsageField → UsageRecord → Option Nat
  | input, record => record.inputTokens
  | output, record => record.outputTokens
  | total, record => record.totalTokens

def report : TranslationStreamEvent → Option UsageRecord
  | .usage record => some record
  | .text _ => none

/-- The latest value of a field. -/
def latest (field : UsageField) (records : List UsageRecord) : Option Nat :=
  (records.filterMap field.of).getLast?

theorem normalized_cap {record : UsageRecord} (h : record.Normalized) (field : UsageField) :
    capUsageTokens (field.of record) = field.of record := by
  obtain ⟨inputTokens, outputTokens, totalTokens, rfl⟩ := h
  cases field <;> exact capUsageTokens_idem _

theorem normalized_le {record : UsageRecord} (h : record.Normalized) {field : UsageField} {value : Nat}
    (hvalue : field.of record = some value) : value ≤ maxUsageTokens := by
  have hcap := normalized_cap h field
  rw [hvalue, capUsageTokens, Option.map_some, Option.some.injEq] at hcap
  split at hcap <;> omega

theorem latest_cons (field : UsageField) (record : UsageRecord) (records : List UsageRecord) :
    latest field (record :: records) = (latest field records).or (field.of record) := by
  unfold latest
  rw [List.filterMap_cons]
  cases hvalue : field.of record with
  | none => rw [Option.or_none]
  | some value =>
    rw [List.getLast?_cons]
    cases (records.filterMap field.of).getLast? <;> rfl

theorem normalized_addUsage {usage : Option UsageRecord} {record : UsageRecord}
    (h : Normalized record) : Normalized (addUsage usage record) := by
  cases usage with
  | none => exact h
  | some previous => exact ⟨_, _, _, rfl⟩

theorem addUsage_of {usage : Option UsageRecord} {record : UsageRecord}
    (husage : ∀ previous ∈ usage, Normalized previous) (h : Normalized record) (field : UsageField) :
    field.of (addUsage usage record) = (field.of record).or (usage.bind field.of) := by
  cases usage with
  | none => exact (Option.or_none).symm
  | some previous =>
    have hmerge : field.of (addUsage (some previous) record) =
        capUsageTokens ((field.of record).or (field.of previous)) := by
      cases field <;> rfl
    rw [hmerge, Option.bind_some]
    cases hvalue : field.of record with
    | none => exact normalized_cap (husage previous rfl) field
    | some value =>
      have hcap := normalized_cap h field
      rw [hvalue] at hcap
      exact hcap

/-- The usage after reports has the latest value of each field. -/
theorem addUsage_latest (field : UsageField) {records : List UsageRecord} {usage : Option UsageRecord}
    (h : ∀ record ∈ records, Normalized record) (husage : ∀ previous ∈ usage, Normalized previous) :
    (records.foldl (fun usage record => some (addUsage usage record)) usage).bind field.of =
      (latest field records).or (usage.bind field.of) := by
  induction records generalizing usage with
  | nil => rfl
  | cons record records ih =>
    obtain ⟨hrecord, hrecords⟩ := List.forall_mem_cons.mp h
    have hnext : ∀ previous ∈ some (addUsage usage record), Normalized previous := by
      rintro previous ⟨⟩
      exact normalized_addUsage hrecord
    rw [List.foldl_cons, ih hrecords hnext, Option.bind_some, addUsage_of husage hrecord field,
      latest_cons, Option.or_assoc]

/-! ## The usage of a completed run -/

/-- The usage of the `Completed` event after the stream's events. -/
def completedUsage (request : TranslationRequest) (events : List TranslationStreamEvent)
    (output : Str) (providerUsage : Option UsageRecord) : Option UsageRecord :=
  ((events.filterMap report).foldl (fun usage record => some (addUsage usage record))
    providerUsage).or (some (.locallyEstimated request.sourceText output))

section

variable {checked : Bool} {receiving : Nat → Bool} {request : TranslationRequest}
  {sent : List TranslationEvent} {last : UInt64} {usage : Option UsageRecord}

/-- No event of the list is a `Completed` one. -/
def Uncompleted (sent : List TranslationEvent) : Prop := ∀ event ∈ sent, event.isCompleted = false

theorem Uncompleted.notMem (h : Uncompleted sent) : .completed last usage ∉ sent := by
  intro hmem
  cases h _ hmem

theorem Uncompleted.delta (h : Uncompleted sent) (sequence : UInt64) (text : Str) :
    Uncompleted (sent ++ [.textDelta sequence text]) :=
  List.forall_mem_append.mpr ⟨h, List.forall_mem_singleton.mpr rfl⟩

theorem sendLast_completed (hsent : Uncompleted sent) {event : TranslationEvent}
    {validated : Option Str}
    (h : .completed last usage ∈ (sendLast receiving sent event validated).events) :
    event = .completed last usage := by
  unfold sendLast at h
  split at h
  · rcases List.mem_append.mp h with h | h
    · exact absurd h hsent.notMem
    · exact (List.mem_singleton.mp h).symm
  · exact absurd h hsent.notMem

theorem sendLast_error (hsent : Uncompleted sent) {sequence : UInt64} {error : TranslationError}
    {validated : Option Str} :
    .completed last usage ∉
      (sendLast receiving sent (errorTerminal sequence error) validated).events := by
  intro h
  have hlast := sendLast_completed hsent h
  unfold errorTerminal at hlast
  split at hlast <;> cases hlast

/-- A run that completes has read all items of the stream, and none is an error. -/
theorem streamLoop_completed {items : List Item} {sequence : UInt64} {output : Str}
    {providerUsage : Option UsageRecord} (hsent : Uncompleted sent)
    (h : .completed last usage ∈
      (streamLoop checked receiving request items sequence output providerUsage sent).events) :
    ∃ events, Completes items events ∧
      usage = completedUsage request events (output ++ (texts items).flatten) providerUsage := by
  fun_induction streamLoop checked receiving request items sequence output providerUsage sent with
  | case1 sequence output providerUsage sent =>
    refine ⟨[], rfl, ?_⟩
    unfold finish at h
    split at h
    · exact absurd h (sendLast_error hsent)
    · obtain ⟨-, rfl⟩ := TranslationEvent.completed.inj (sendLast_completed hsent h)
      rw [texts, List.flatten_nil, List.append_nil]
      rfl
  | case2 text items sequence output providerUsage sent _ _ _ sequence' _ ih =>
    obtain ⟨events, hitems, rfl⟩ := ih (hsent.delta _ _) h
    refine ⟨.text text :: events, congrArg (_ :: ·) hitems, ?_⟩
    rw [texts, List.flatten_cons, ← List.append_assoc]
    rfl
  | case3 text items sequence output providerUsage sent =>
    exact absurd h (hsent.delta _ _).notMem
  | case4 text items sequence output providerUsage sent => exact absurd h hsent.notMem
  | case5 record items sequence output providerUsage sent ih =>
    obtain ⟨events, hitems, rfl⟩ := ih hsent h
    exact ⟨.usage record :: events, congrArg (_ :: ·) hitems, rfl⟩
  | case6 error items sequence output providerUsage sent => exact absurd h (sendLast_error hsent)

theorem translate_completed {offset : UInt64} {outcome : Except TranslationError (List Item)}
    (h : .completed last usage ∈ (translate checked receiving request offset outcome).events) :
    ∃ items events, outcome = .ok items ∧ Completes items events ∧
      usage = completedUsage request events (texts items).flatten none := by
  have hsent : Uncompleted [.started offset] := List.forall_mem_singleton.mpr rfl
  unfold translate at h
  split at h
  · split at h
    · exact absurd h hsent.notMem
    split at h
    · exact absurd h (sendLast_error hsent)
    split at h
    · exact absurd h (sendLast_error hsent)
    · rename_i items
      obtain ⟨events, hitems, husage⟩ := streamLoop_completed hsent h
      exact ⟨items, events, rfl, hitems, husage⟩
  · cases h

end

/-! ## Reports of the chunks -/

theorem latest_append (field : UsageField) (records records' : List UsageRecord) :
    latest field (records ++ records') = (latest field records').or (latest field records) := by
  induction records with
  | nil => exact (Option.or_none).symm
  | cons record records ih => rw [List.cons_append, latest_cons, latest_cons, ih, Option.or_assoc]

theorem latest_le {field : UsageField} {records : List UsageRecord} {value : Nat}
    (h : ∀ record ∈ records, record.Normalized) (hvalue : latest field records = some value) :
    value ≤ maxUsageTokens := by
  obtain ⟨record, hrecord, hfield⟩ := List.mem_filterMap.mp (List.mem_of_getLast? hvalue)
  exact normalized_le (h record hrecord) hfield

/-- All chunks report the field, and `totals` are its latest values in each. -/
def Reported (reports : List (List UsageRecord)) (field : UsageField) (totals : List Nat) : Prop :=
  reports.map (latest field) = totals.map some

theorem Reported.latest {reports : List (List UsageRecord)} {field : UsageField} {totals : List Nat}
    (h : Reported reports field totals) : latest field reports.flatten = totals.getLast? := by
  induction reports generalizing totals with
  | nil =>
    cases totals with
    | nil => rfl
    | cons => cases h
  | cons records reports ih =>
    cases totals with
    | nil => cases h
    | cons total totals =>
      obtain ⟨htotal, hrest⟩ := List.cons.inj h
      rw [List.flatten_cons, latest_append, ih hrest, htotal, List.getLast?_cons]
      cases totals.getLast? <;> rfl

def itemReport : Item → Option UsageRecord
  | .ok event => report event
  | .error _ => none

section Chunks

variable [FromJson StreamResponse] [FromJson ResponsesStreamEvent] {responsesProtocol : Bool}
  {answers : Nat → Answer}

/-- The usage reports in the answer to each of the chunks, from the `k`-th request on. -/
def chunkReports (responsesProtocol : Bool) (answers : Nat → Answer) :
    Nat → List ProtectedSource → List (List UsageRecord)
  | _, [] => []
  | k, chunk :: chunks =>
    (match answers k with
      | .ok body => (protectedItems responsesProtocol chunk body).filterMap itemReport
      | .error _ => []) :: chunkReports responsesProtocol answers (k + 1) chunks

theorem chunkReports_ok {k : Nat} {chunk : ProtectedSource} {chunks : List ProtectedSource} {body : Body}
    (h : answers k = .ok body) : chunkReports responsesProtocol answers k (chunk :: chunks) =
      (protectedItems responsesProtocol chunk body).filterMap itemReport ::
        chunkReports responsesProtocol answers (k + 1) chunks := by
  rw [chunkReports, h]

theorem chunkReports_answered {k : Nat} {chunks : List ProtectedSource}
    {streams : List (List TranslationStreamEvent)}
    (h : Answered responsesProtocol answers k chunks streams) :
    chunkReports responsesProtocol answers k chunks = streams.map (·.filterMap report) := by
  induction chunks generalizing k streams with
  | nil =>
    cases streams with
    | nil => rfl
    | cons => cases h
  | cons chunk chunks ih =>
    cases streams with
    | nil => cases h
    | cons events streams =>
      obtain ⟨⟨body, hbody, hitems⟩, hrest⟩ := h
      rw [chunkReports_ok hbody, ih hrest, List.map_cons,
        show protectedItems responsesProtocol chunk body = events.map .ok from hitems,
        List.filterMap_map]
      rfl

theorem chunkReports_normalized {k : Nat} {chunks : List ProtectedSource} :
    ∀ record ∈ (chunkReports responsesProtocol answers k chunks).flatten, record.Normalized := by
  induction chunks generalizing k with
  | nil => exact List.forall_mem_nil _
  | cons chunk chunks ih =>
    rw [chunkReports, List.flatten_cons]
    refine List.forall_mem_append.mpr ⟨fun record hrecord => ?_, ih⟩
    split at hrecord
    · obtain ⟨item, hitem, hreport⟩ := List.mem_filterMap.mp hrecord
      rcases item with e | event | record'
      · cases hreport
      · cases hreport
      · cases hreport
        exact protectedItems_normalized hitem
    · cases hrecord

variable [UnicodeTables]

/-- The usage of a completed translation has the latest values in all reports. -/
theorem usage_latest {checked : Bool} {receiving : Nat → Bool} {request : StreamRequest}
    {offset last : UInt64} {usage : Option UsageRecord} {chunks : List ProtectedSource}
    (hchunks : request.chunks = .ok chunks)
    (h : .completed last usage ∈ (translate checked receiving request.toTranslationRequest offset
      (translateStream responsesProtocol request answers)).events)
    {field : UsageField} {value : Nat}
    (hvalue : latest field (chunkReports responsesProtocol answers 0 chunks).flatten = some value) :
    usage.bind field.of = some value := by
  obtain ⟨items, events, hstream, hitems, rfl⟩ := translate_completed h
  obtain ⟨chunks', streams, hchunks', hanswered, rfl⟩ := translateStream_completes hstream hitems
  obtain rfl := Except.ok.inj (hchunks.symm.trans hchunks')
  have hreports := chunkReports_answered hanswered
  have hflatten : streams.flatten.filterMap report =
      (chunkReports responsesProtocol answers 0 chunks).flatten := by
    rw [hreports, List.filterMap_flatten]
  have hnormal := @chunkReports_normalized _ _ responsesProtocol answers 0 chunks
  have hlatest := addUsage_latest field hnormal fun previous (hprevious : previous ∈ none) => by
    cases hprevious
  rw [hvalue] at hlatest
  unfold completedUsage
  rw [hflatten]
  cases hfold : (chunkReports responsesProtocol answers 0 chunks).flatten.foldl
      (fun usage record => some (addUsage usage record)) none with
  | none =>
    rw [hfold] at hlatest
    cases hlatest
  | some record =>
    rw [hfold] at hlatest
    exact hlatest

/-- Of a completed translation: the usage is the sum over the chunks of each field that all of them
report, capped, if and only if for each such field the chunks before the last report zero in all, or
the last one reports the greatest count. -/
theorem usage_additive_iff (responsesProtocol checked : Bool) (receiving : Nat → Bool)
    (request : StreamRequest) (offset : UInt64) (answers : Nat → Answer)
    {chunks : List ProtectedSource} (hchunks : request.chunks = .ok chunks) {last : UInt64}
    {usage : Option UsageRecord}
    (h : .completed last usage ∈ (translate checked receiving request.toTranslationRequest offset
      (translateStream responsesProtocol request answers)).events) :
    (∀ field totals, Reported (chunkReports responsesProtocol answers 0 chunks) field totals →
        usage.bind field.of = some (min totals.sum maxUsageTokens)) ↔
    ∀ field totals, Reported (chunkReports responsesProtocol answers 0 chunks) field totals →
        totals.dropLast.sum = 0 ∨ totals.getLast? = some maxUsageTokens := by
  refine forall₂_congr fun field totals => imp_congr_right fun hreported => ?_
  have hnonempty : totals ≠ [] := by
    rintro rfl
    cases chunks with
    | nil => exact StreamRequest.chunks_ne_nil hchunks rfl
    | cons => cases hreported
  obtain ⟨earlier, total, rfl⟩ := (List.eq_nil_or_concat totals).resolve_left hnonempty
  have hlatest := hreported.latest
  rw [List.concat_eq_append, List.getLast?_concat] at hlatest
  have hle := latest_le chunkReports_normalized hlatest
  rw [usage_latest hchunks h hlatest, List.concat_eq_append, List.getLast?_concat, List.dropLast_concat,
    List.sum_append, List.sum_singleton, Option.some.injEq, Option.some.injEq]
  omega

end Chunks

/-! ## Two chunks -/

def deltaData : Str := "\x7b\"choices\":[\x7b\"delta\":\x7b\"content\":\"a\"\x7d\x7d]\x7d".toList

def usageData : Str := "\x7b\"choices\":[],\"usage\":\x7b\"prompt_tokens\":7\x7d\x7d".toList

/-- The parser that reads these two texts. -/
@[reducible] def sentencesJson : FromJson StreamResponse :=
  ⟨fun s =>
    if s = deltaData then some ⟨[⟨⟨some ['a']⟩⟩], none⟩
    else if s = usageData then some ⟨[], some ⟨some 7, none, none⟩⟩
    else none⟩

/-- A text, its usage and the end. -/
def usageBody : Body :=
  [.ok (asciiBytes
    "data: \x7b\"choices\":[\x7b\"delta\":\x7b\"content\":\"a\"\x7d\x7d]\x7d\n\ndata: \x7b\"choices\":[],\"usage\":\x7b\"prompt_tokens\":7\x7d\x7d\n\ndata: [DONE]\n\n")]

def sevenTokens : UsageRecord := ⟨.providerReported, some 7, none, none⟩

def usageItems : List Item := [.ok (.text ['a']), .ok (.usage sevenTokens)]

theorem usageBody_received : @receiveParts sentencesJson noJson false usageBody =
    ([.text ['a'], .usage sevenTokens], .ok ()) := by
  unfold usageBody sentencesJson deltaData usageData
  rw [asciiBytes_ofList, String.toList_ofList, String.toList_ofList]
  decide +kernel

theorem usageBody_items (text : Str) :
    @protectedItems sentencesJson noJson false ⟨text, []⟩ usageBody = usageItems := by
  rw [@protectedItems_completed sentencesJson noJson _ _ _ _ _ _ _ _ usageBody_received rfl rfl]
  rfl

theorem laterChunks_usage (texts : List Str) (k : Nat) :
    @laterChunks sentencesJson noJson false (fun _ => .ok usageBody) k (texts.map (⟨·, []⟩)) =
      texts.flatMap fun _ => usageItems := by
  induction texts generalizing k with
  | nil => rfl
  | cons text texts ih =>
    rw [List.map_cons, @laterChunks_ok sentencesJson noJson _ _ _ _ _ usageBody rfl, usageBody_items, ih]
    rfl

theorem chunkReports_usage (texts : List Str) (k : Nat) :
    @chunkReports sentencesJson noJson false (fun _ => .ok usageBody) k (texts.map (⟨·, []⟩)) =
      texts.map fun _ => [sevenTokens] := by
  induction texts generalizing k with
  | nil => rfl
  | cons text texts ih =>
    rw [List.map_cons, @chunkReports_ok sentencesJson noJson _ _ _ _ _ usageBody rfl, usageBody_items, ih]
    rfl

def sentences (maxChunkBytes : Nat) : StreamRequest where
  sourceText := "One. Two.".toList
  preset := .general
  sourceLocale := none
  targetLocale := "de".toList
  glossary := none
  maxChunkBytes := some maxChunkBytes

/-- The run where every request is answered by `usageBody`. -/
theorem sentences_run {maxChunkBytes : Nat} {text : Str} {texts : List Str}
    (h : @StreamRequest.chunks asciiTables (sentences maxChunkBytes) =
      .ok ((text :: texts).map (⟨·, []⟩))) :
    translate true (fun _ => true) (sentences maxChunkBytes).toTranslationRequest 0
        (@translateStream asciiTables sentencesJson noJson false (sentences maxChunkBytes)
          fun _ => .ok usageBody) =
      translate true (fun _ => true) (sentences maxChunkBytes).toTranslationRequest 0
        (.ok ((text :: texts).flatMap fun _ => usageItems)) := by
  unfold translateStream
  rw [h, Except.ok_bind, List.map_cons]
  dsimp only
  rw [laterChunks_usage, @translateProtectedStream_ok sentencesJson noJson, Except.ok_bind,
    usageBody_items]
  rfl

theorem sentences_whole :
    @StreamRequest.chunks asciiTables (sentences 100) =
      .ok (["One. Two.".toList].map (⟨·, []⟩)) := by
  decide +kernel

theorem sentences_apart :
    @StreamRequest.chunks asciiTables (sentences 5) =
      .ok (["One. ".toList, "Two.".toList].map (⟨·, []⟩)) := by
  decide +kernel

/-- Of one chunk the usage is what its answer reports. -/
theorem usage_additive_whole :
    ∃ chunks usage, @StreamRequest.chunks asciiTables (sentences 100) = .ok chunks ∧
      .completed 2 usage ∈ (translate true (fun _ => true) (sentences 100).toTranslationRequest 0
        (@translateStream asciiTables sentencesJson noJson false (sentences 100)
          fun _ => .ok usageBody)).events ∧
      ∀ field totals,
        Reported (@chunkReports sentencesJson noJson false (fun _ => .ok usageBody) 0 chunks) field
          totals → usage.bind field.of = some (min totals.sum maxUsageTokens) := by
  have hcompleted : .completed 2 (some sevenTokens) ∈
      (translate true (fun _ => true) (sentences 100).toTranslationRequest 0
        (@translateStream asciiTables sentencesJson noJson false (sentences 100)
          fun _ => .ok usageBody)).events := by
    rw [sentences_run sentences_whole]
    decide
  refine ⟨_, some sevenTokens, sentences_whole, hcompleted, ?_⟩
  refine (@usage_additive_iff sentencesJson noJson asciiTables false true (fun _ => true)
    (sentences 100) 0 _ _ sentences_whole _ _ hcompleted).mpr fun field totals h => .inl ?_
  have hlength := congrArg List.length h
  rw [List.length_map, List.length_map] at hlength
  obtain ⟨total, rfl⟩ := List.length_eq_one_iff.mp hlength.symm
  rfl

/-- Two chunks report seven tokens each, and the usage is seven tokens. -/
theorem usage_not_additive :
    ∃ chunks usage, @StreamRequest.chunks asciiTables (sentences 5) = .ok chunks ∧
      .completed 3 usage ∈ (translate true (fun _ => true) (sentences 5).toTranslationRequest 0
        (@translateStream asciiTables sentencesJson noJson false (sentences 5)
          fun _ => .ok usageBody)).events ∧
      Reported (@chunkReports sentencesJson noJson false (fun _ => .ok usageBody) 0 chunks) .input
        [7, 7] ∧
      usage.bind UsageField.input.of = some 7 ∧ min [7, 7].sum maxUsageTokens = 14 := by
  refine ⟨_, some sevenTokens, sentences_apart, ?_, ?_, rfl, by decide⟩
  · rw [sentences_run sentences_apart]
    decide
  · unfold Reported
    rw [chunkReports_usage]
    rfl

end LinguaMesh.Engine
