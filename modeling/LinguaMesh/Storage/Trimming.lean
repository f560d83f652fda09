import LinguaMesh.Storage.Memory

/-!
# What trimming drops

A store with history and translation memory, and a clock that never goes backwards but
may give the same second many times. Within one second the identifiers decide which
rows are kept, and they say nothing about the order the rows were put in: a row that
was just recorded is dropped if a hundred others of its second have larger identifiers.
-/

namespace LinguaMesh.Storage

open Runs Transaction HistoryTables

/-- `clock` is the last reading. -/
structure LocalStore where
  history : HistoryTables
  memory : MemoryTables
  clock : Int
  deriving DecidableEq, Repr

inductive StoreOp where
  | history (op : HistoryOp)
  | memory (op : MemoryOp)

/-- The time an operation gives to the row it puts in. -/
def StoreOp.now : StoreOp → Option Int
  | .history (.record _ _ _ now _) => some now
  | .memory (.record _ _ now) => some now
  | _ => none

namespace LocalStore

def empty (clock : Int) : LocalStore := ⟨.empty, .empty, clock⟩

/-- The clock does not go backwards. -/
def OnTime (s : LocalStore) (a : StoreOp × List (Option TranslationError)) : Prop :=
  ∀ now ∈ a.1.now, s.clock ≤ now

variable [JsonText]

/-- The store after an operation, with the statements of it that fail. -/
def step (s : LocalStore) : StoreOp × List (Option TranslationError) → Option LocalStore
  | (.history op, faults) =>
    some { s with
      history := (op.perform s.history faults).2.1
      clock := (StoreOp.history op).now.getD s.clock }
  | (.memory op, faults) =>
    some { s with
      memory := (op.perform s.memory faults).2.1
      clock := (StoreOp.memory op).now.getD s.clock }

end LocalStore

/-! ## Recordings -/

/-- A recording of history changes nothing, or puts its row in and trims. -/
theorem recordTranslationHistory_cases (request : HistoryRequest) (translatedText : Str)
    (usage : Option UsageRecord) (now usageNow : Int) (t : HistoryTables) :
    Ensures (recordTranslationHistoryWithUsage request translatedText usage now usageNow) t
      fun r t' =>
        t' = t ∧ (r = .ok () → request.isIncognito = true ∨ t.enabled = false) ∨
        t' = recorded t (historyRow request translatedText now)
          (usage.map fun usage => usageRow request usage usageNow) := by
  unfold recordTranslationHistoryWithUsage
  split
  · rename_i hprivate
    exact ensures_pure (.inl ⟨rfl, fun _ => .inl hprivate⟩)
  refine ensures_bind (ensures_query (fun _ => .inl ⟨rfl, nofun⟩) ?_)
  simp only [Then]
  split
  · rename_i hdisabled
    exact ensures_pure (.inl ⟨rfl, fun _ => .inr (by simpa using hdisabled)⟩)
  split
  · exact ensures_giveUp (.inl ⟨rfl, nofun⟩)
  refine (recordRows_ensures request translatedText usage now usageNow t).mono fun r t' hr => ?_
  cases r with
  | error e => exact .inl ⟨hr.1 e rfl, nofun⟩
  | ok => exact .inr (hr.2 rfl)

theorem recorded_history (t : HistoryTables) (row : HistoryRow) (usage : Option UsageRow) :
    (recorded t row usage).history =
      trimmed (·.createdAt) (·.operationId) maxTranslationHistoryEntries
        (upsertRow (·.operationId) row t.history) := by
  cases usage <;> rfl

/-- Where the rows of history come from. -/
theorem history_rows {t : HistoryTables} (h : Linked t) (op : HistoryOp) :
    Ensures op.perform t fun _ t' =>
      ∀ row ∈ t'.history, row ∈ t.history ∨ (StoreOp.history op).now = some row.createdAt := by
  cases op with
  | record request translatedText usage now usageNow =>
    refine (recordTranslationHistory_cases request translatedText usage now usageNow t).mono ?_
    rintro r t' (⟨rfl, -⟩ | rfl) row hrow
    · exact .inl hrow
    rw [recorded_history] at hrow
    rcases mem_upsertRow (List.mem_of_mem_filter hrow) with rfl | hrow
    · exact .inr rfl
    · exact .inl hrow
  | clear => exact (history_outcome h .clear).mono fun r t' hr row hrow => (hr.history row hrow).imp_right False.elim
  | delete operationId =>
    exact (history_outcome h (.delete operationId)).mono fun r t' hr row hrow =>
      (hr.history row hrow).imp_right False.elim
  | setEnabled enabled =>
    exact (history_outcome h (.setEnabled enabled)).mono fun r t' hr row hrow =>
      (hr.history row hrow).imp_right False.elim

theorem mem_recorded_iff {t : HistoryTables} {request : HistoryRequest} {translatedText : Str}
    {now : Int} (usage : Option UsageRow) (h : Linked t)
    (hclock : ∀ row ∈ t.history, row.createdAt ≤ now) :
    historyRow request translatedText now ∈
        (recorded t (historyRow request translatedText now) usage).history ↔
      (t.history.filter fun row => row.createdAt = now ∧ request.operationId < row.operationId).length
        < maxTranslationHistoryEntries := by
  rw [recorded_history]
  exact mem_trimmed_upsert h.unique hclock

/-! ## Stores with a clock -/

/-- Rows have their own identifiers, and none is later than the clock. -/
structure Timely (s : LocalStore) : Prop where
  linked : Linked s.history
  unique : (s.memory.memory.map (·.cacheKey)).Nodup
  history : ∀ row ∈ s.history.history, row.createdAt ≤ s.clock
  memory : ∀ row ∈ s.memory.memory, row.createdAt ≤ s.clock

theorem timely_empty (clock : Int) : Timely (.empty clock) :=
  ⟨linked_empty, List.nodup_nil, nofun, nofun⟩

section Steps

variable [JsonText] {s s' : LocalStore} {a : StoreOp × List (Option TranslationError)}

theorem timely_step (h : Timely s) (hclock : LocalStore.OnTime s a)
    (hstep : LocalStore.step s a = some s') : Timely s' := by
  obtain ⟨op, faults⟩ := a
  have hle : s.clock ≤ op.now.getD s.clock := by
    cases hnow : op.now with
    | none => exact le_refl _
    | some now => exact hclock now hnow
  cases op with
  | history op =>
    obtain rfl := Option.some.inj hstep
    refine ⟨(history_outcome h.linked op faults).linked, h.unique, fun row hrow => ?_,
      fun row hrow => (h.memory row hrow).trans hle⟩
    rcases history_rows h.linked op faults row hrow with hrow | hnow
    · exact (h.history row hrow).trans hle
    · show row.createdAt ≤ (StoreOp.history op).now.getD s.clock
      rw [hnow]
      exact le_refl _
  | memory op =>
    obtain rfl := Option.some.inj hstep
    obtain ⟨hrows, hunique⟩ := memory_step op s.memory faults
    refine ⟨h.linked, hunique h.unique, fun row hrow => (h.history row hrow).trans hle,
      fun row hrow => ?_⟩
    rcases hrows row hrow with hrow | hwrites
    · exact (h.memory row hrow).trans hle
    · cases op with
      | record request translatedText now =>
        obtain ⟨key, -, -, -, rfl⟩ := hwrites
        exact le_refl _
      | _ => exact hwrites.elim

theorem Timely.of_reach {clock : Int}
    (h : Reach LocalStore.step LocalStore.OnTime (.empty clock) s) : Timely s :=
  h.invariant (timely_empty clock) fun _ _ _ => timely_step

/-! ## The newest row -/

/-- In every state that is reached, a row that was recorded successfully is present right after if and
only if fewer than a hundred rows have its second and a larger identifier; so for history and for
translation memory. -/
theorem newest_kept_iff {start : Int}
    (h : Reach LocalStore.step LocalStore.OnTime (.empty start) s) :
    (∀ (request : HistoryRequest) (translatedText : Str) (usage : Option UsageRecord)
        (now usageNow : Int), s.clock ≤ now → request.isIncognito = false →
      s.history.enabled = true →
      Ensures (recordTranslationHistoryWithUsage request translatedText usage now usageNow) s.history
        fun r t' => r = .ok () →
          (historyRow request translatedText now ∈ t'.history ↔
            (s.history.history.filter fun row =>
              row.createdAt = now ∧ request.operationId < row.operationId).length < 100)) ∧
    ∀ (request : MemoryRequest) (translatedText key : Str) (now : Int), s.clock ≤ now →
      request.isIncognito = false → s.memory.enabled = true →
      translationMemoryKey request = .ok key →
      Ensures (recordTranslationMemory request translatedText now) s.memory
        fun r t' => r = .ok () →
          (memoryRow request translatedText key key now ∈ t'.memory ↔
            (s.memory.memory.filter fun row =>
              row.createdAt = now ∧ key < row.cacheKey).length < 100) := by
  have hs := Timely.of_reach h
  constructor
  · intro request translatedText usage now usageNow hnow hprivate henabled
    refine (recordTranslationHistory_cases request translatedText usage now usageNow _).mono ?_
    rintro r t' (⟨-, hsame⟩ | rfl) hr
    · simp [hprivate, henabled] at hsame
      exact absurd hr hsame
    · exact mem_recorded_iff _ hs.linked fun row hrow => (hs.history row hrow).trans hnow
  · intro request translatedText key now hnow hprivate henabled hkey
    refine (recordTranslationMemory_cases request translatedText now _).mono ?_
    rintro r t' (⟨-, hsame⟩ | ⟨-, key', hkey', -, -, -, rfl⟩) hr
    · simp [hprivate, henabled] at hsame
      exact absurd hr hsame
    · obtain rfl : key = key' := Except.ok.inj (hkey.symm.trans hkey')
      exact mem_trimmed_upsert hs.unique fun row hrow => (hs.memory row hrow).trans hnow

end Steps

/-- One recording in each table. -/
def firstRecordings : List (StoreOp × List (Option TranslationError)) :=
  [(.history (.record (greeting .standard "a".toList) "Hallo".toList none 7 7), []),
    (.memory (.record (helloRequest "Hello") "Hallo".toList 7), [])]

theorem newest_kept_first :
    ∃ s, @run _ _ (@LocalStore.step plainJson) (.empty 7) firstRecordings = some s ∧
      s.history.history.length = 1 ∧ s.memory.memory.length = 1 ∧
      (Ensures (recordTranslationHistoryWithUsage (greeting .standard "b".toList) "Hi".toList none 7 7)
        s.history fun r t' => r = .ok () →
          (historyRow (greeting .standard "b".toList) "Hi".toList 7 ∈ t'.history ↔
            (s.history.history.filter fun row =>
              row.createdAt = 7 ∧ "b".toList < row.operationId).length < 100)) ∧
      ∀ key, @translationMemoryKey plainJson (helloRequest "Hi") = .ok key →
        Ensures (@recordTranslationMemory plainJson (helloRequest "Hi") "Hi".toList 8) s.memory
          fun r t' => r = .ok () →
            (memoryRow (helloRequest "Hi") "Hi".toList key key 8 ∈ t'.memory ↔
              (s.memory.memory.filter fun row =>
                row.createdAt = 8 ∧ key < row.cacheKey).length < 100) := by
  obtain ⟨s, hrun, hhistory, hmemory, hclock, henabled, henabled'⟩ :
      ∃ s, @run _ _ (@LocalStore.step plainJson) (.empty 7) firstRecordings = some s ∧
        s.history.history.length = 1 ∧ s.memory.memory.length = 1 ∧ s.clock ≤ 7 ∧
        s.history.enabled = true ∧ s.memory.enabled = true :=
    ⟨_, rfl, by decide, by decide, by decide, by decide, by decide⟩
  have htime : Meets (@LocalStore.step plainJson) LocalStore.OnTime (.empty 7) firstRecordings := by
    refine ⟨fun now hnow => (Option.some.inj hnow).le, fun t ht => ⟨fun now hnow => ?_, fun _ _ => trivial⟩⟩
    obtain rfl := Option.some.inj ht
    exact (Option.some.inj hnow).le
  have hkept := @newest_kept_iff plainJson s 7 (.of_run hrun htime)
  exact ⟨s, hrun, hhistory, hmemory, hkept.1 _ _ _ _ _ hclock rfl henabled,
    fun key hkey => hkept.2 _ _ _ _ (by omega) rfl henabled' hkey⟩

/-! ## A row that is dropped -/

/-- Recordings of one second, each with a longer identifier. -/
def burst (k : Nat) : HistoryRequest := greeting .standard (List.replicate (k + 1) 'b')

def burstRow (k : Nat) : HistoryRow := historyRow (burst k) "Hallo".toList 7

def burstTables (n : Nat) : HistoryTables := ⟨(List.range n).map burstRow, [], true⟩

theorem burst_recorded {n : Nat} (hn : n < 100) :
    recorded (burstTables n) (burstRow n) none = burstTables (n + 1) := by
  have hfresh : (burstTables n).history.any (·.operationId == (burstRow n).operationId) = false := by
    refine List.any_eq_false.mpr fun row hrow hid => ?_
    obtain ⟨k, hk, rfl⟩ := List.mem_map.mp hrow
    have hlength := congrArg List.length (eq_of_beq hid)
    have hk := List.mem_range.mp hk
    simp [burstRow, burst, historyRow, greeting] at hlength
    omega
  have hinsert : (burstTables n).insertHistory (burstRow n) = burstTables (n + 1) := by
    unfold insertHistory upsertRow
    rw [if_neg (by rw [hfresh]; decide)]
    unfold burstTables
    rw [List.range_succ, List.map_append, List.map_singleton]
  have hnone : (burstTables (n + 1)).surplus = [] := by
    unfold surplus
    rw [List.drop_of_length_le, List.map_nil]
    rw [List.length_insertionSort]
    simp only [burstTables, List.length_map, List.length_range, maxTranslationHistoryEntries]
    omega
  unfold recorded
  simp only [hinsert]
  have htrim : (burstTables (n + 1)).trimHistory = burstTables (n + 1) := by
    unfold trimHistory
    rw [hnone]
    simp
  rw [htrim]
  rfl

theorem record_burst {n : Nat} (hn : n < 100) :
    (recordTranslationHistoryWithUsage (burst n) "Hallo".toList none 7 7 (burstTables n) []).2.1 =
      burstTables (n + 1) :=
  burst_recorded hn

theorem reach_burst [JsonText] {n : Nat} (hn : n ≤ 100) :
    Reach LocalStore.step LocalStore.OnTime (.empty 7) ⟨burstTables n, .empty, 7⟩ := by
  induction n with
  | zero => exact .refl
  | succ n ih =>
    refine (ih (by omega)).next (a := (.history (.record (burst n) "Hallo".toList none 7 7), [])) ?_ ?_
    · exact fun now hnow => (Option.some.inj hnow).le
    · have hrecord := record_burst (show n < 100 by omega)
      unfold LocalStore.step
      exact congrArg (fun t => some (⟨t, .empty, 7⟩ : LocalStore)) hrecord

/-- After a hundred recordings in one second, one more in that second succeeds and is not there. -/
theorem newest_dropped :
    ∃ s, @Reach _ _ (@LocalStore.step plainJson) LocalStore.OnTime (.empty 7) s ∧ s.clock = 7 ∧
      (recordTranslationHistoryWithUsage (greeting .standard "a".toList) "Hi".toList none 7 7
        s.history []).1 = .ok () ∧
      historyRow (greeting .standard "a".toList) "Hi".toList 7 ∉
        (recordTranslationHistoryWithUsage (greeting .standard "a".toList) "Hi".toList none 7 7
          s.history []).2.1.history := by
  have hreach := @reach_burst plainJson 100 (le_refl _)
  have htimely := @Timely.of_reach plainJson _ _ hreach
  refine ⟨⟨burstTables 100, .empty, 7⟩, hreach, rfl, rfl, ?_⟩
  show _ ∉ (recorded (burstTables 100) _ none).history
  rw [mem_recorded_iff none htimely.linked htimely.history]
  have hall : ((burstTables 100).history.filter fun row =>
      row.createdAt = 7 ∧ (greeting .standard "a".toList).operationId < row.operationId) =
      (burstTables 100).history := by
    refine List.filter_eq_self.mpr fun row hrow => ?_
    obtain ⟨k, -, rfl⟩ := List.mem_map.mp hrow
    refine decide_eq_true ⟨rfl, ?_⟩
    exact List.Lex.rel (by decide)
  rw [hall]
  simp [burstTables, maxTranslationHistoryEntries]

end LinguaMesh.Storage
