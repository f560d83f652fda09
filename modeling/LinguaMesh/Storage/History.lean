import LinguaMesh.Domain.Usage
import LinguaMesh.Lib.Runs
import LinguaMesh.Lib.Transaction
import LinguaMesh.Storage.Tables
import Mathlib.Data.Char
import Mathlib.Data.List.Lex

/-!
# History and usage

The tables of translation history and of usage records, the switch that allows
history, and the operations that write them. There is no foreign key between the
two tables: recording trims the history and then deletes the usage records whose
operation is gone, in one transaction.

`Linked` is what every operation keeps: at most a hundred rows of history, and every
usage record refers to one of them.
-/

namespace LinguaMesh.Storage

open Runs Transaction

def maxTranslationHistoryEntries : Nat := 100
def maxTranslationHistoryTextBytes : Nat := 4 * 1024 * 1024

inductive TranslationPrivacyMode where
  | standard | incognito
  deriving DecidableEq, Repr

/-- The fields of a request that recording reads. -/
structure HistoryRequest where
  operationId : Str
  sourceText : Str
  sourceLocale : Option Str
  targetLocale : Str
  modelId : Str
  providerIdentity : Option Str
  privacyMode : TranslationPrivacyMode
  deriving DecidableEq, Repr

def HistoryRequest.isIncognito (r : HistoryRequest) : Bool := r.privacyMode == .incognito

structure HistoryRow where
  operationId : Str
  createdAt : Int
  sourceText : Str
  translatedText : Str
  sourceLocale : Option Str
  targetLocale : Str
  modelId : Str
  deriving DecidableEq, Repr

structure UsageRow where
  operationId : Str
  createdAt : Int
  providerId : Option Str
  modelId : Str
  source : String
  inputTokens : Option Int
  outputTokens : Option Int
  totalTokens : Option Int
  deriving DecidableEq, Repr

/-- `translation_history`, `usage_records` and the row of `translation_history_policy`. -/
structure HistoryTables where
  history : List HistoryRow
  usage : List UsageRow
  enabled : Bool
  deriving DecidableEq, Repr

def usageSourceName : UsageSource → String
  | .providerReported => "provider_reported"
  | .locallyEstimated => "locally_estimated"
  | .unknown => "unknown"

/-- `i64::try_from(value).unwrap_or(i64::MAX)`. -/
def usageTokenSqlValue (value : Nat) : Int := min (value : Int) (2 ^ 63 - 1)

/-- The part of an identity before an `@`, if it is a plain identifier. -/
def safeUsageProviderId (identity : Option Str) : Option Str :=
  identity.bind fun identity =>
    let value := trim (identity.takeWhile (· ≠ '@'))
    if value.isEmpty || 128 < utf8Len value ||
        !value.all fun c => c.isAlphanum || c == '.' || c == '_' || c == '-' then none
    else some value

namespace HistoryTables

def empty : HistoryTables := ⟨[], [], true⟩

/-! ## Statements -/

/-- `INSERT .. ON CONFLICT(operation_id) DO UPDATE` of all other columns. -/
def upsertRow {ρ : Type} (idOf : ρ → Str) (row : ρ) (rows : List ρ) : List ρ :=
  if rows.any (idOf · == idOf row) then
    rows.map fun old => if idOf old = idOf row then row else old
  else rows ++ [row]

def insertHistory (row : HistoryRow) (t : HistoryTables) : HistoryTables :=
  { t with history := upsertRow (·.operationId) row t.history }

def insertUsage (row : UsageRow) (t : HistoryTables) : HistoryTables :=
  { t with usage := upsertRow (·.operationId) row t.usage }

/-- `ORDER BY created_at DESC, operation_id DESC`. -/
def newerFirst (a b : HistoryRow) : Bool :=
  b.createdAt < a.createdAt || (a.createdAt == b.createdAt && b.operationId ≤ a.operationId)

/-- `LIMIT -1 OFFSET` the limit. -/
def surplus (t : HistoryTables) : List Str :=
  ((t.history.insertionSort fun a b => newerFirst a b).drop maxTranslationHistoryEntries).map
    (·.operationId)

def trimHistory (t : HistoryTables) : HistoryTables :=
  { t with history := t.history.filter fun row => !t.surplus.contains row.operationId }

/-- `DELETE FROM usage_records WHERE operation_id NOT IN (SELECT ..)`. -/
def dropUnlinked (t : HistoryTables) : HistoryTables :=
  { t with usage := t.usage.filter fun row =>
      (t.history.map (·.operationId)).contains row.operationId }

def deleteHistory (operationId : Str) (t : HistoryTables) : HistoryTables :=
  { t with history := t.history.filter (·.operationId != operationId) }

def deleteUsage (operationId : Str) (t : HistoryTables) : HistoryTables :=
  { t with usage := t.usage.filter (·.operationId != operationId) }

end HistoryTables

/-! ## Operations -/

abbrev HistorySql : Type → Type := Sql TranslationError HistoryTables

open HistoryTables

def historyRow (request : HistoryRequest) (translatedText : Str) (now : Int) : HistoryRow :=
  ⟨request.operationId, now, request.sourceText, translatedText, request.sourceLocale,
    request.targetLocale, request.modelId⟩

def usageRow (request : HistoryRequest) (usage : UsageRecord) (now : Int) : UsageRow :=
  ⟨request.operationId, now, safeUsageProviderId request.providerIdentity, request.modelId,
    usageSourceName usage.source, usage.inputTokens.map usageTokenSqlValue,
    usage.outputTokens.map usageTokenSqlValue, usage.totalTokens.map usageTokenSqlValue⟩

/-- The transaction of a recording; `now` and `usageNow` are the clock readings of its inserts. -/
def recordRows (request : HistoryRequest) (translatedText : Str) (usage : Option UsageRecord)
    (now usageNow : Int) : HistorySql Unit :=
  transaction do
    write (insertHistory (historyRow request translatedText now))
    match usage with
    | some usage => write (insertUsage (usageRow request usage usageNow))
    | none => pure ()
    write trimHistory
    write dropUnlinked

def recordTranslationHistoryWithUsage (request : HistoryRequest) (translatedText : Str)
    (usage : Option UsageRecord) (now usageNow : Int) : HistorySql Unit :=
  if request.isIncognito then pure ()
  else do
    if !(← query (·.enabled)) then pure ()
    else if maxTranslationHistoryTextBytes < utf8Len request.sourceText ∨
        maxTranslationHistoryTextBytes < utf8Len translatedText then
      giveUp (.new .invalidConfiguration "Translation history entry exceeds the local size limit.")
    else recordRows request translatedText usage now usageNow

def clearTranslationHistory : HistorySql Unit :=
  transaction do
    write fun t => { t with history := [] }
    write fun t => { t with usage := [] }

def deleteTranslationHistoryEntry (operationId : Str) : HistorySql Bool :=
  transaction do
    let deleted ← statement fun t =>
      .ok (t.history.any (·.operationId == operationId), t.deleteHistory operationId)
    write (deleteUsage operationId)
    pure deleted

def setTranslationHistoryEnabled (enabled : Bool) : HistorySql Unit :=
  write fun t => { t with enabled }

/-- A recording without usage is `record_translation_history`. -/
inductive HistoryOp where
  | record (request : HistoryRequest) (translatedText : Str) (usage : Option UsageRecord)
    (now usageNow : Int)
  | clear
  | delete (operationId : Str)
  | setEnabled (enabled : Bool)

def HistoryOp.perform : HistoryOp → HistorySql Unit
  | .record request translatedText usage now usageNow =>
    recordTranslationHistoryWithUsage request translatedText usage now usageNow
  | .clear => clearTranslationHistory
  | .delete operationId => do let _ ← deleteTranslationHistoryEntry operationId
  | .setEnabled enabled => setTranslationHistoryEnabled enabled

/-- The tables after an operation, with the statements of it that fail. -/
def HistoryOp.step (t : HistoryTables) :
    HistoryOp × List (Option TranslationError) → Option HistoryTables
  | (op, faults) => some (op.perform t faults).2.1

/-! ## Rows that are put in -/

section Upsert

variable {ρ : Type} {idOf : ρ → Str} {row : ρ} {rows : List ρ}

theorem upsertRow_ids (h : (rows.map idOf).Nodup) :
    ((upsertRow idOf row rows).map idOf).Nodup := by
  unfold upsertRow
  split
  · have hids : (rows.map fun old => if idOf old = idOf row then row else old).map idOf =
        rows.map idOf := by
      rw [List.map_map]
      refine List.map_congr_left fun old _ => ?_
      show idOf (if idOf old = idOf row then row else old) = idOf old
      split
      · rename_i heq
        exact heq.symm
      · rfl
    rwa [hids]
  · rename_i hnew
    rw [List.map_append]
    refine List.nodup_append.mpr ⟨h, List.nodup_singleton _, fun a ha b hb heq => hnew ?_⟩
    obtain rfl : b = idOf row := by simpa using hb
    obtain ⟨old, hold, rfl⟩ := List.mem_map.mp ha
    exact List.any_eq_true.mpr ⟨old, hold, by simpa using heq⟩

theorem mem_upsertRow {old : ρ} (h : old ∈ upsertRow idOf row rows) : old = row ∨ old ∈ rows := by
  unfold upsertRow at h
  split at h
  · obtain ⟨x, hx, rfl⟩ := List.mem_map.mp h
    split
    · exact .inl rfl
    · exact .inr hx
  · rcases List.mem_append.mp h with h | h
    · exact .inr h
    · exact .inl (List.mem_singleton.mp h)

end Upsert

/-! ## Linked tables -/

structure Linked (t : HistoryTables) : Prop where
  unique : (t.history.map (·.operationId)).Nodup
  usageUnique : (t.usage.map (·.operationId)).Nodup
  bounded : t.history.length ≤ maxTranslationHistoryEntries
  linked : ∀ row ∈ t.usage, row.operationId ∈ t.history.map (·.operationId)

variable {t : HistoryTables}

theorem linked_empty : Linked .empty := ⟨List.nodup_nil, List.nodup_nil, Nat.zero_le _, nofun⟩

/-- The usage records are bounded by what they refer to. -/
theorem Linked.usage_bounded (h : Linked t) : t.usage.length ≤ maxTranslationHistoryEntries := by
  have hsub : t.usage.map (·.operationId) ⊆ t.history.map (·.operationId) := by
    intro id hid
    obtain ⟨row, hrow, rfl⟩ := List.mem_map.mp hid
    exact h.linked row hrow
  have hle := (List.subperm_of_subset h.usageUnique hsub).length_le
  rw [List.length_map, List.length_map] at hle
  exact hle.trans h.bounded

/-- Trimming keeps no row behind the limit. -/
theorem trimHistory_bounded (t : HistoryTables) :
    t.trimHistory.history.length ≤ maxTranslationHistoryEntries := by
  have hperm := List.perm_insertionSort (fun a b => newerFirst a b) t.history
  have hcount : t.trimHistory.history.length =
      ((t.history.insertionSort fun a b => newerFirst a b).filter
        fun row => !t.surplus.contains row.operationId).length :=
    ((hperm.filter _).length_eq).symm
  have hsplit := List.take_append_drop maxTranslationHistoryEntries
    (t.history.insertionSort fun a b => newerFirst a b)
  have hdrop : ((t.history.insertionSort fun a b => newerFirst a b).drop
      maxTranslationHistoryEntries).filter (fun row => !t.surplus.contains row.operationId) = [] := by
    refine List.filter_eq_nil_iff.mpr fun row hrow => ?_
    have hmem : row.operationId ∈ t.surplus := List.mem_map_of_mem hrow
    simpa using hmem
  rw [hcount, ← hsplit, List.filter_append, hdrop, List.append_nil]
  exact (List.length_filter_le _ _).trans (List.length_take_le _ _)

/-- The tables after a recording. -/
def recorded (t : HistoryTables) (row : HistoryRow) (usage : Option UsageRow) : HistoryTables :=
  let t := t.insertHistory row
  (match usage with
    | some usage => t.insertUsage usage
    | none => t).trimHistory.dropUnlinked

theorem linked_recorded (h : Linked t) (row : HistoryRow) (usage : Option UsageRow) :
    Linked (recorded t row usage) := by
  have hbody (u : HistoryTables) (hu : (u.history.map (·.operationId)).Nodup)
      (hu' : (u.usage.map (·.operationId)).Nodup) : Linked u.trimHistory.dropUnlinked := by
    refine ⟨hu.sublist (List.filter_sublist.map _), hu'.sublist (List.filter_sublist.map _),
      trimHistory_bounded u, fun row hrow => ?_⟩
    exact List.elem_iff.mp (List.mem_filter.mp hrow).2
  cases usage with
  | none => exact hbody _ (upsertRow_ids h.unique) h.usageUnique
  | some usage => exact hbody _ (upsertRow_ids h.unique) (upsertRow_ids h.usageUnique)

/-! ## Outcomes -/

/-- The operation may write a row of the operation id. -/
def HistoryOp.Writes (t : HistoryTables) : HistoryOp → Str → Prop
  | .record request _ _ _ _, id =>
    request.isIncognito = false ∧ t.enabled = true ∧ id = request.operationId
  | _, _ => False

/-- What holds of the end of an operation that began in the linked tables `t`. -/
structure Recorded (t : HistoryTables) (op : HistoryOp) (r : Except TranslationError Unit)
    (t' : HistoryTables) : Prop where
  linked : Linked t'
  unchanged : Unchanged t r t'
  history : ∀ row ∈ t'.history, row ∈ t.history ∨ op.Writes t row.operationId
  usage : ∀ row ∈ t'.usage, row ∈ t.usage ∨ op.Writes t row.operationId

theorem Recorded.same (h : Linked t) (op : HistoryOp) (r : Except TranslationError Unit) :
    Recorded t op r t :=
  ⟨h, fun _ _ => rfl, fun _ hrow => .inl hrow, fun _ hrow => .inl hrow⟩

/-- An operation that only deletes. -/
theorem Recorded.deleted {t' : HistoryTables} (h : Linked t') (op : HistoryOp)
    (hhistory : t'.history ⊆ t.history) (husage : t'.usage ⊆ t.usage) :
    Recorded t op (.ok ()) t' :=
  ⟨h, nofun, fun _ hrow => .inl (hhistory hrow), fun _ hrow => .inl (husage hrow)⟩

theorem recorded_recorded (h : Linked t) {request : HistoryRequest} {translatedText : Str}
    {usage : Option UsageRecord} {now usageNow : Int} (hprivate : request.isIncognito = false)
    (henabled : t.enabled = true) :
    Recorded t (.record request translatedText usage now usageNow) (.ok ())
      (recorded t (historyRow request translatedText now)
        (usage.map fun usage => usageRow request usage usageNow)) := by
  refine ⟨linked_recorded h _ _, nofun, fun row hrow => ?_, fun row hrow => ?_⟩
  · have hrow' : row ∈ (t.insertHistory (historyRow request translatedText now)).history := by
      cases usage <;> exact (List.mem_filter.mp hrow).1
    refine (mem_upsertRow hrow').symm.imp_right fun heq => ?_
    exact ⟨hprivate, henabled, heq ▸ rfl⟩
  · cases usage with
    | none => exact .inl (List.mem_filter.mp hrow).1
    | some usage =>
      refine (mem_upsertRow (List.mem_filter.mp hrow).1).symm.imp_right fun heq => ?_
      exact ⟨hprivate, henabled, heq ▸ rfl⟩

theorem recordRows_ensures (request : HistoryRequest) (translatedText : Str)
    (usage : Option UsageRecord) (now usageNow : Int) (t : HistoryTables) :
    Ensures (recordRows request translatedText usage now usageNow) t fun r t' =>
      (∀ e, r = .error e → t' = t) ∧ (r = .ok () →
        t' = recorded t (historyRow request translatedText now)
          (usage.map fun usage => usageRow request usage usageNow)) := by
  refine ensures_transaction (fun _ => ⟨fun _ _ => rfl, nofun⟩) ?_
  refine ensures_bind (ensures_write (fun _ => nofun) ?_)
  have hrest (u : HistoryTables) : Ensures (do write trimHistory; write dropUnlinked : HistorySql Unit)
      u fun r t' => r = .ok () → t' = u.trimHistory.dropUnlinked :=
    ensures_bind (ensures_write (fun _ => nofun) (ensures_write (fun _ => nofun) fun _ => rfl))
  cases usage with
  | none =>
    exact (hrest _).mono fun r t' h a hr => ⟨nofun, fun _ => h hr⟩
  | some usage =>
    refine ensures_bind (ensures_write (fun _ => nofun) ?_)
    exact (hrest _).mono fun r t' h a hr => ⟨nofun, fun _ => h hr⟩

theorem record_outcome (h : Linked t) (request : HistoryRequest) (translatedText : Str)
    (usage : Option UsageRecord) (now usageNow : Int) :
    Ensures (recordTranslationHistoryWithUsage request translatedText usage now usageNow) t
      (Recorded t (.record request translatedText usage now usageNow)) := by
  unfold recordTranslationHistoryWithUsage
  split
  · exact ensures_pure (.same h _ _)
  · rename_i hprivate
    refine ensures_bind (ensures_query (fun _ => .same h _ _) ?_)
    simp only [Then]
    split
    · exact ensures_pure (.same h _ _)
    · rename_i henabled
      split
      · exact ensures_giveUp (.same h _ _)
      · refine (recordRows_ensures request translatedText usage now usageNow t).mono fun r t' hr => ?_
        cases r with
        | error e =>
          obtain rfl := hr.1 e rfl
          exact .same h _ _
        | ok =>
          obtain rfl := hr.2 rfl
          exact recorded_recorded h (by simpa using hprivate) (by simpa using henabled)

theorem clear_outcome (h : Linked t) :
    Ensures clearTranslationHistory t (Recorded t .clear) := by
  refine ensures_transaction (fun _ => .same h _ _) ?_
  refine ensures_bind (ensures_write (fun _ => nofun) (ensures_write (fun _ => nofun) fun _ _ => ?_))
  have hempty : Linked { t with history := [], usage := [] } :=
    ⟨List.nodup_nil, List.nodup_nil, Nat.zero_le _, nofun⟩
  exact .deleted hempty _ (List.nil_subset _) (List.nil_subset _)

theorem linked_delete (h : Linked t) (operationId : Str) :
    Linked ((t.deleteHistory operationId).deleteUsage operationId) := by
  refine ⟨h.unique.sublist (List.filter_sublist.map _),
    h.usageUnique.sublist (List.filter_sublist.map _),
    (List.length_filter_le _ _).trans h.bounded, fun row hrow => ?_⟩
  obtain ⟨hrow, hne⟩ := List.mem_filter.mp hrow
  obtain ⟨row', hrow', hid⟩ := List.mem_map.mp (h.linked row hrow)
  refine List.mem_map.mpr ⟨row', List.mem_filter.mpr ⟨hrow', ?_⟩, hid⟩
  rwa [show row'.operationId = row.operationId from hid]

theorem delete_history_outcome (h : Linked t) (operationId : Str) :
    Ensures (HistoryOp.perform (.delete operationId)) t (Recorded t (.delete operationId)) := by
  refine ensures_bind (ensures_transaction (fun _ => .same h _ _) ?_)
  refine ensures_bind (ensures_statement (fun _ => nofun) fun deleted t₁ ht₁ => ?_)
  obtain ⟨-, rfl⟩ := Prod.mk.inj (Except.ok.inj ht₁)
  refine ensures_bind (ensures_write (fun _ => nofun) (ensures_pure fun _ _ => ensures_pure ?_))
  exact .deleted (linked_delete h operationId) _ (List.filter_subset_self _)
    (List.filter_subset_self _)

theorem setEnabled_outcome (h : Linked t) (enabled : Bool) :
    Ensures (setTranslationHistoryEnabled enabled) t (Recorded t (.setEnabled enabled)) := by
  have hset : Linked { t with enabled } := { h with }
  exact ensures_write (fun _ => .same h _ _)
    (.deleted hset _ (List.Subset.refl _) (List.Subset.refl _))

/-- Every operation on linked tables, with any of its statements failing. -/
theorem history_outcome (h : Linked t) (op : HistoryOp) :
    Ensures op.perform t (Recorded t op) := by
  cases op with
  | record request translatedText usage now usageNow =>
    exact record_outcome h request translatedText usage now usageNow
  | clear => exact clear_outcome h
  | delete operationId => exact delete_history_outcome h operationId
  | setEnabled enabled => exact setEnabled_outcome h enabled

/-- In every state that a sequence of operations reaches, whichever statements fail, there are at
most a hundred rows of each kind and every usage record refers to a row of history; and every
further operation keeps it so, leaves everything as it was if it fails, and writes no row but those of
a standard request while history is allowed. -/
theorem history_linked (h : Reach HistoryOp.step (fun _ _ => True) .empty t) :
    (t.history.length ≤ 100 ∧ t.usage.length ≤ 100 ∧
      ∀ row ∈ t.usage, ∃ old ∈ t.history, old.operationId = row.operationId) ∧
    ∀ op : HistoryOp, Ensures op.perform t (Recorded t op) := by
  have hlinked : Linked t := h.invariant linked_empty fun t a t' ht _ hstep => by
    obtain rfl := Option.some.inj hstep
    exact (history_outcome ht a.1 a.2).linked
  refine ⟨⟨hlinked.bounded, hlinked.usage_bounded, fun row hrow => ?_⟩, history_outcome hlinked⟩
  exact List.mem_map.mp (hlinked.linked row hrow)

def greeting (privacyMode : TranslationPrivacyMode) (operationId : Str) : HistoryRequest where
  operationId := operationId
  sourceText := "Hello".toList
  sourceLocale := none
  targetLocale := "de".toList
  modelId := "small".toList
  providerIdentity := some "work@api.example".toList
  privacyMode := privacyMode

/-- A recording, one that is cut off at its third statement, and one in private. -/
def recordings : List (HistoryOp × List (Option TranslationError)) :=
  [(.record (greeting .standard "a".toList) "Hallo".toList (some ⟨.unknown, none, none, none⟩) 7 7, []),
    (.record (greeting .standard "b".toList) "Hallo".toList none 8 8,
      [none, none, none, some (mapError "disk I/O error")]),
    (.record (greeting .incognito "c".toList) "Hallo".toList none 9 9, [])]

theorem history_linked_recordings : ∃ t, run HistoryOp.step .empty recordings = some t ∧
    t.history.map (·.operationId) = ["a".toList] ∧
    (t.history.length ≤ 100 ∧ t.usage.length ≤ 100 ∧
      ∀ row ∈ t.usage, ∃ old ∈ t.history, old.operationId = row.operationId) ∧
    ∀ op : HistoryOp, Ensures op.perform t (Recorded t op) := by
  obtain ⟨t, hrun, hids⟩ : ∃ t, run HistoryOp.step .empty recordings = some t ∧
      t.history.map (·.operationId) = ["a".toList] := ⟨_, rfl, by decide⟩
  exact ⟨t, hrun, hids, history_linked (.of_run hrun (meets_of_forall (fun _ _ => trivial) _))⟩

end LinguaMesh.Storage
