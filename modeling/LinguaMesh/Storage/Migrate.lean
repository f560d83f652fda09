import LinguaMesh.Lib.Atomic
import LinguaMesh.Lib.Migration
import LinguaMesh.Lib.Runs
import LinguaMesh.Storage.Migrations
import LinguaMesh.Storage.Tables

/-!
# Migration of a database

`Storage::migrate` runs in one transaction the scripts that a database has not had yet.
A release runs those up to its own version. From version 6 on every script keeps the
document tables (`keeps_documents`), so a migration carries their rows from the version
it finds to its own, in one open or in several (`migrate_keeps_documents`).
-/

namespace LinguaMesh.Storage.Migrations

open Relational Transaction Runs

abbrev LocalSql : Type → Type := Sql TranslationError LocalDatabase

/-- What SQLite says, without the names it adds. -/
def failureText : Failure → String
  | .noTable => "no such table"
  | .tableExists => "there is already a table with this name"
  | .noColumn => "no such column"
  | .duplicateColumn => "duplicate column name"
  | .indexExists => "there is already an index with this name"
  | .invalidDefault => "Cannot add a column with this default"
  | .notNull => "NOT NULL constraint failed"
  | .check => "CHECK constraint failed"
  | .unique => "UNIQUE constraint failed"
  | .foreignKey => "FOREIGN KEY constraint failed"

/-- `row.get` of the version, a `u32`. -/
def versionOf (row : Row ColumnName) : Except TranslationError Nat :=
  match row .version with
  | .integer i =>
    if 0 ≤ i ∧ i < 2 ^ 32 then .ok i.toNat else .error (mapError "Integer out of range")
  | _ => .error (mapError "Invalid column type")

def currentSchemaVersion : LocalSql Nat := do
  let hasMetadata ← query fun db : LocalDatabase => (db.schema.find .schemaMetadata).isSome
  if !hasMetadata then pure 0
  else do
    let row ← query fun db : LocalDatabase =>
      (db.rows .schemaMetadata).find? fun row => row .singleton == .integer 1
    match row with
    | none => giveUp (mapError "Query returned no rows")
    | some row => fromExcept (versionOf row)

section Program

variable [Engine]

/-- `UPDATE schema_metadata SET version = ?1 WHERE singleton = 1` -/
def setVersion (version : Nat) (db : LocalDatabase) : LocalDatabase :=
  { db with rows := Function.update db.rows .schemaMetadata ((db.rows .schemaMetadata).map fun row =>
      if row .singleton = .integer 1 then
        Function.update row .version (Engine.store .integer (.integer version))
      else row) }

/-- `execute_batch` -/
def executeBatch (now : Value) : Script → LocalSql Unit
  | [] => pure ()
  | s :: script => do
    execute fun db => (db.exec now s).mapError fun failure => mapError (failureText failure)
    executeBatch now script

/-- The loop over the migrations of a release. -/
def runMigrations (now : Value) (current : Nat) : List (Nat × Script) → LocalSql Unit
  | [] => pure ()
  | (version, migration) :: rest =>
    if version ≤ current then runMigrations now current rest
    else do
      executeBatch now migration
      write (setVersion version)
      runMigrations now current rest

/-- The body of the transaction of `migrate`. -/
def upgrade (now : Value) (latest : Nat) : LocalSql Unit := do
  let current ← currentSchemaVersion
  if latest < current then
    giveUp (.new .persistence "Local database schema is newer than this Core version.")
  else runMigrations now current (migrations.filter (·.1 ≤ latest))

/-- `migrate` of the release that has the migrations up to `latest`. -/
def migrate (now : Value) (latest : Nat) : LocalSql Unit := transaction (upgrade now latest)

/-- The release that opens the database, with the time and the faults of its statements. -/
structure Open where
  latest : Nat
  now : Value
  faults : List (Option TranslationError)

def Open.step (db : LocalDatabase) (o : Open) : Option LocalDatabase :=
  some (migrate o.now o.latest db o.faults).2.1

end Program

/-! ## A version -/

def metadataRow (version : Nat) : Row ColumnName
  | .singleton => .integer 1
  | .version => .integer version
  | _ => .null

/-- A database that a release with the migrations up to `version` has left. -/
structure AtVersion (version : Nat) (db : LocalDatabase) : Prop where
  schema : db.schema = schemaAt version
  version : db.rows .schemaMetadata = [metadataRow version]

/-- Each migration from the seventh on keeps the document tables and the version. -/
theorem keeps_documents : ∀ m ∈ migrations, 7 ≤ m.1 →
    (schemaAt (m.1 - 1)).keepsTables (.schemaMetadata :: documentTables) m.2 =
      some (schemaAt m.1) := by
  decide +kernel

/-- From the sixth version on there is a table of the version, and nothing refers to it. -/
theorem metadata_schema : ∀ v ≤ 34, 6 ≤ v →
    (schemaAt v).find .schemaMetadata =
      some ⟨[single, required (integer .version)], [.singleton]⟩ ∧
    (schemaAt v).referred .schemaMetadata = false := by
  decide +kernel

theorem migrations_versions : ∀ latest ≤ 34,
    (migrations.filter (·.1 ≤ latest)).map (·.1) = List.range' 1 latest := by
  decide +kernel

section Steps

variable [Engine] {now : Value} {db db' : LocalDatabase} {v : Nat}

omit [Engine] in
theorem currentSchemaVersion_run (hv : v ≤ 34) (h6 : 6 ≤ v) (h : AtVersion v db) :
    currentSchemaVersion db [] = (.ok v, db, []) := by
  have hfind : (db.schema.find .schemaMetadata).isSome = true := by
    rw [h.schema, (metadata_schema v hv h6).1]
    rfl
  have hversion : versionOf (metadataRow v) = .ok v := by
    unfold versionOf metadataRow
    dsimp only
    rw [if_pos (by omega), Int.toNat_natCast]
  unfold currentSchemaVersion
  rw [run_bind_ok (run_query _ db), hfind, Bool.not_true, if_neg Bool.false_ne_true,
    run_bind_ok (run_query _ db), h.version]
  change fromExcept (versionOf (metadataRow v)) db [] = _
  rw [hversion]
  rfl

/-- A batch without faults. -/
theorem executeBatch_run {script : Script} (h : db.execAll now script = .ok db') :
    executeBatch now script db [] = (.ok (), db', []) := by
  induction script generalizing db with
  | nil =>
    cases h
    rfl
  | cons s script ih =>
    unfold Database.execAll at h
    rw [List.foldlM_cons] at h
    obtain ⟨db1, hexec, h⟩ := Except.bind_ok.mp h
    have hrun : execute (fun db : LocalDatabase => (db.exec now s).mapError fun failure =>
        mapError (failureText failure)) db [] = (.ok (), db1, []) := by
      rw [run_execute, hexec]
      rfl
    unfold executeBatch
    rw [run_bind_ok hrun]
    exact ih h

theorem steady_executeBatch (script : Script) (db : LocalDatabase) :
    Steady (executeBatch now script) db := by
  induction script generalizing db with
  | nil => exact steady_pure _
  | cons s script ih => exact steady_bind (steady_execute _) fun _ db' _ => ih db'

theorem steady_runMigrations (current : Nat) (list : List (Nat × Script)) (db : LocalDatabase) :
    Steady (runMigrations now current list) db := by
  induction list generalizing db with
  | nil => exact steady_pure _
  | cons m list ih =>
    obtain ⟨version, migration⟩ := m
    unfold runMigrations
    split
    · exact ih db
    · refine steady_bind (steady_executeBatch migration db) fun _ db1 _ => ?_
      exact steady_bind (steady_write _) fun _ db2 _ => ih db2

theorem steady_upgrade (latest : Nat) (db : LocalDatabase) : Steady (upgrade now latest) db := by
  have hcurrent : ReadOnly currentSchemaVersion := by
    refine readOnly_bind (readOnly_query _) fun hasMetadata => ?_
    split
    · exact readOnly_pure _
    · refine readOnly_bind (readOnly_query _) fun row => ?_
      cases row with
      | none => exact readOnly_giveUp _
      | some row => exact readOnly_fromExcept _
  refine steady_bind (hcurrent db).1 fun current db1 _ => ?_
  split
  · exact steady_giveUp _
  · exact steady_runMigrations current _ db1

/-! ## What is carried -/

theorem setVersion_other {t : TableName} (ht : t ≠ .schemaMetadata) (version : Nat)
    (db : LocalDatabase) : (setVersion version db).rows t = db.rows t := Function.update_of_ne ht ..

/-- The version is written over the one before. -/
theorem setVersion_metadata (hlawful : Engine.Lawful) {version : Nat}
    (h : db.rows .schemaMetadata = [metadataRow v]) :
    (setVersion version db).rows .schemaMetadata = [metadataRow version] := by
  have hsingle : metadataRow v .singleton = .integer 1 := rfl
  unfold setVersion
  dsimp only
  rw [Function.update_self, h, List.map_singleton, if_pos hsingle, hlawful _ _ rfl]
  congr 1
  funext c
  cases c <;> rfl

theorem stored_metadataRow (hlawful : Engine.Lawful) (v : Nat) :
    Relational.Stored (⟨[single, required (integer .version)], [.singleton]⟩ : Definition) (metadataRow v) := by
  refine ⟨fun column hcolumn => ?_, fun column hcolumn => ?_, fun c hc => ?_⟩
  · rcases List.mem_pair.mp hcolumn with rfl | rfl
    · exact hlawful _ _ rfl
    · exact hlawful _ _ rfl
  · rcases List.mem_pair.mp hcolumn with rfl | rfl
    · rfl
    · rfl
  · unfold metadataRow
    split
    · exact absurd (by decide) hc
    · exact absurd (by decide) hc
    · rfl

theorem valid_metadata (hlawful : Engine.Lawful) (hv : v ≤ 34) (h6 : 6 ≤ v)
    (h : AtVersion v db) : Valid db .schemaMetadata := by
  intro d hd
  rw [h.schema, (metadata_schema v hv h6).1] at hd
  cases hd
  refine ⟨?_, ?_, ?_⟩
  · rw [h.version]
    intro row hrow
    rw [List.mem_singleton.mp hrow]
    exact stored_metadataRow hlawful v
  · rw [h.version]
    exact List.pairwise_singleton _ _
  · exact fun row _ => rfl

/-- The version is no part of another table. -/
theorem valid_setVersion {t : TableName} (ht : t ≠ .schemaMetadata)
    (hreferred : db.schema.referred .schemaMetadata = false) (h : Valid db t) (version : Nat) :
    Valid (setVersion version db) t := by
  intro d hd
  obtain ⟨hstored, hdistinct, hrefers⟩ := h d hd
  refine ⟨?_, ?_, ?_⟩
  · rw [setVersion_other ht]
    exact hstored
  · rw [setVersion_other ht]
    exact hdistinct
  · rw [setVersion_other ht]
    intro row hrow
    have hrow := hrefers row hrow
    unfold TableDef.refers at hrow ⊢
    rw [List.all_eq_true] at hrow ⊢
    intro column hcolumn
    have hcheck := hrow column hcolumn
    cases hr : column.references with
    | none => rfl
    | some r =>
      rw [hr] at hcheck
      dsimp only at hcheck ⊢
      rw [setVersion_other (not_referred hreferred (mem_of_find hd) hcolumn hr)]
      exact hcheck

/-- The document table `t` has in version `w` what it had in version `v`. -/
structure Carries (v w : Nat) (db0 db : LocalDatabase) (t : TableName) : Prop where
  valid : Valid db t
  grows : Grows (schemaAt v) (schemaAt w) t
  rows : ((schemaAt w).find t).isSome →
    db.rows t = carried (schemaAt v) (schemaAt w) t (db0.rows t)

theorem Carries.refl {t : TableName} (hat : AtVersion v db) (h : Valid db t) :
    Carries v v db db t := by
  refine ⟨h, .refl _ _, fun hsome => ?_⟩
  obtain ⟨d, hd⟩ := Option.isSome_iff_exists.mp hsome
  unfold carried
  rw [hd]
  exact (map_extend_self (h d (hat.schema ▸ hd)).stored).symm

/-- One migration. -/
theorem migration_step (hlawful : Engine.Lawful) {m : Nat × Script} (hm : m ∈ migrations)
    (h7 : 7 ≤ m.1) (h34 : m.1 ≤ 34) {db0 : LocalDatabase} (hat : AtVersion (m.1 - 1) db)
    (hcarries : ∀ t ∈ documentTables, Carries v (m.1 - 1) db0 db t) (now : Value) :
    ∃ db1, db.execAll now m.2 = .ok db1 ∧ AtVersion m.1 (setVersion m.1 db1) ∧
      ∀ t ∈ documentTables, Carries v m.1 db0 (setVersion m.1 db1) t := by
  have hmetadata := valid_metadata hlawful (by omega) (by omega) hat
  have hvalid : ∀ t ∈ TableName.schemaMetadata :: documentTables, Valid db t := by
    intro t ht
    rcases List.mem_cons.mp ht with rfl | ht
    · exact hmetadata
    · exact (hcarries t ht).valid
  have hkeeps := keeps_documents m hm h7
  rw [← hat.schema] at hkeeps
  obtain ⟨db1, hall, hschema, hkept⟩ := execAll_keeps hlawful hvalid hkeeps now
  rw [hat.schema] at hkept
  have hfind := metadata_schema m.1 h34 (by omega)
  refine ⟨db1, hall, ⟨hschema, ?_⟩, fun t ht => ?_⟩
  · obtain ⟨-, -, hrows, -⟩ := hkept .schemaMetadata List.mem_cons_self
    have hversion : db1.rows .schemaMetadata = [metadataRow (m.1 - 1)] := by
      rw [hrows (by rw [hfind.1]; rfl), hat.version]
      unfold carried
      rw [hfind.1, (metadata_schema (m.1 - 1) (by omega) (by omega)).1]
      exact congrArg (fun row => [row]) (extend_self (stored_metadataRow hlawful _))
    exact setVersion_metadata hlawful hversion
  · obtain ⟨hvalid1, hgrows, hrows, hwider⟩ := hkept t (List.mem_cons_of_mem _ ht)
    have hne : t ≠ .schemaMetadata := by
      intro he
      rw [he] at ht
      exact absurd ht (by decide)
    have hold := hcarries t ht
    refine ⟨?_, hold.grows.trans hgrows, fun hsome => ?_⟩
    · exact valid_setVersion hne (hschema ▸ hfind.2) hvalid1 m.1
    · rw [setVersion_other hne, hrows hsome]
      cases hbefore : (schemaAt (m.1 - 1)).find t with
      | some d =>
        rw [hold.rows (by rw [hbefore]; rfl)]
        exact carried_carried hold.grows hwider _ (by rw [hbefore]; rfl)
      | none =>
        have hnone : (schemaAt v).find t = none := by
          cases hd : (schemaAt v).find t with
          | none => rfl
          | some d =>
            obtain ⟨d', hd', -⟩ := hold.grows d hd
            cases hbefore.symm.trans hd'
        unfold carried
        rw [hbefore, hnone]

/-! ## Runs -/

/-- The migrations of a release without faults, from the version `current`: the ones up to
`n` are behind. -/
theorem runMigrations_run (hlawful : Engine.Lawful) {db0 : LocalDatabase} {current : Nat}
    (h6 : 6 ≤ current) (list : List (Nat × Script)) (n : Nat)
    (hversions : list.map (·.1) = List.range' (n + 1) list.length)
    (hmem : ∀ m ∈ list, m ∈ migrations) (h34 : n + list.length ≤ 34)
    (hat : AtVersion (max n current) db)
    (hcarries : ∀ t ∈ documentTables, Carries v (max n current) db0 db t) (now : Value) :
    ∃ db', runMigrations now current list db [] = (.ok (), db', []) ∧
      AtVersion (max (n + list.length) current) db' ∧
      ∀ t ∈ documentTables, Carries v (max (n + list.length) current) db0 db' t := by
  induction list generalizing n db with
  | nil => exact ⟨db, rfl, hat, hcarries⟩
  | cons m list ih =>
    obtain ⟨version, migration⟩ := m
    rw [List.map_cons, List.length_cons, List.range'_succ, List.cons.injEq] at hversions
    obtain ⟨hversion, hversions⟩ := hversions
    dsimp only at hversion
    subst hversion
    rw [List.length_cons] at h34 ⊢
    have hlength : n + (list.length + 1) = n + 1 + list.length := by omega
    have hrest : ∀ m ∈ list, m ∈ migrations := fun m hm => hmem m (List.mem_cons_of_mem _ hm)
    rw [hlength]
    unfold runMigrations
    by_cases hskip : n + 1 ≤ current
    · rw [if_pos hskip]
      have hmax : max n current = max (n + 1) current := by omega
      rw [hmax] at hat hcarries
      exact ih (n + 1) hversions hrest (by omega) hat hcarries
    · rw [if_neg hskip]
      have hmax : max n current = n := by omega
      have hmax1 : max (n + 1) current = n + 1 := by omega
      rw [hmax] at hat hcarries
      obtain ⟨db1, hall, hat1, hcarries1⟩ := migration_step (m := (n + 1, migration)) hlawful
        (hmem _ List.mem_cons_self) (by omega) (by omega) hat hcarries now
      have hat1 : AtVersion (max (n + 1) current) (setVersion (n + 1) db1) := hmax1.symm ▸ hat1
      have hcarries1 : ∀ t ∈ documentTables,
          Carries v (max (n + 1) current) db0 (setVersion (n + 1) db1) t := hmax1.symm ▸ hcarries1
      obtain ⟨db', hrun, hat', hcarries'⟩ := ih (n + 1) hversions hrest (by omega) hat1 hcarries1
      refine ⟨db', ?_, hat', hcarries'⟩
      rw [run_bind_ok (executeBatch_run hall), run_bind_ok (run_write _ _)]
      exact hrun

/-- An open without faults ends in the version of the release. -/
theorem migrate_run (hlawful : Engine.Lawful) {db0 : LocalDatabase} {u latest : Nat} (h6 : 6 ≤ u)
    (hu : u ≤ latest) (h34 : latest ≤ 34) (hat : AtVersion u db)
    (hcarries : ∀ t ∈ documentTables, Carries v u db0 db t) (now : Value) :
    ∃ db', migrate now latest db [] = (.ok (), db', []) ∧ AtVersion latest db' ∧
      ∀ t ∈ documentTables, Carries v latest db0 db' t := by
  have hversions := migrations_versions latest h34
  have hlength : (migrations.filter (·.1 ≤ latest)).length = latest := by
    rw [← List.length_map (·.1), hversions, List.length_range']
  have hmax0 : max 0 u = u := by omega
  have hmax : max (0 + latest) u = latest := by omega
  obtain ⟨db', hrun, hat', hcarries'⟩ := runMigrations_run hlawful h6
    (migrations.filter (·.1 ≤ latest)) 0 (by rw [hversions, hlength])
    (fun m hm => (List.mem_filter.mp hm).1) (by omega) (hmax0.symm ▸ hat) (hmax0.symm ▸ hcarries) now
  rw [hlength, hmax] at hat' hcarries'
  refine ⟨db', ?_, hat', hcarries'⟩
  have hbody : upgrade now latest db [] = (.ok (), db', []) := by
    unfold upgrade
    rw [run_bind_ok (currentSchemaVersion_run (by omega) h6 hat), if_neg (by omega)]
    exact hrun
  unfold migrate
  rw [run_transaction hbody]

/-- An older release refuses the database. -/
theorem migrate_newer {u latest : Nat} (h6 : 6 ≤ u) (h34 : u ≤ 34) (hu : latest < u)
    (hat : AtVersion u db) (now : Value) : (migrate now latest db []).2.1 = db := by
  have hbody : upgrade now latest db [] =
      (.error (.new .persistence "Local database schema is newer than this Core version."), db, []) := by
    unfold upgrade
    rw [run_bind_ok (currentSchemaVersion_run h34 h6 hat), if_pos hu]
    rfl
  unfold migrate
  rw [run_transaction hbody]

/-- What holds in every state of a run of opens. -/
def Reached (v : Nat) (db0 db : LocalDatabase) : Prop :=
  ∃ w, 6 ≤ w ∧ w ≤ 34 ∧ AtVersion w db ∧ ∀ t ∈ documentTables, Carries v w db0 db t

theorem reached_step (hlawful : Engine.Lawful) {db0 : LocalDatabase} (h : Reached v db0 db)
    {o : Open} (hlatest : o.latest ≤ 34) (hstep : Open.step db o = some db') :
    Reached v db0 db' := by
  obtain ⟨u, h6, h34, hat, hcarries⟩ := h
  have hleft : db' = db ∨ db' = (migrate o.now o.latest db []).2.1 := by
    cases hstep
    rcases whole_transaction (steady_upgrade o.latest db) o.faults with ⟨h, -⟩ | ⟨h, -⟩
    · exact .inl h
    · exact .inr h
  rcases hleft with rfl | rfl
  · exact ⟨u, h6, h34, hat, hcarries⟩
  · by_cases hu : o.latest < u
    · rw [migrate_newer h6 h34 hu hat]
      exact ⟨u, h6, h34, hat, hcarries⟩
    · obtain ⟨db1, hrun, hat1, hcarries1⟩ :=
        migrate_run hlawful h6 (by omega) hlatest hat hcarries o.now
      rw [hrun]
      exact ⟨o.latest, by omega, hlatest, hat1, hcarries1⟩

omit [Engine] in
theorem documents_found : ∀ t ∈ documentTables, ((schemaAt latestSchemaVersion).find t).isSome := by
  decide +kernel

omit [Engine] in
theorem atVersion_unique {w : Nat} (h : AtVersion v db) (h' : AtVersion w db) : v = w := by
  have hrows := h.version.symm.trans h'.version
  have hversion := congrArg (fun rows => rows.map (· .version)) hrows
  exact Int.ofNat.inj (Value.integer.inj (List.cons.inj hversion).1)

/-- From any version with document tables and any rows that satisfy its constraints, after any
opens by releases in any order, with any faults: at the latest version the document tables have
the rows they had, with the defaults in later columns, and valid references; the latest release
gets there; and an open that fails changes nothing. -/
theorem migrate_keeps_documents (hlawful : Engine.Lawful) (h6 : 6 ≤ v)
    (h34 : v ≤ latestSchemaVersion) {db0 db : LocalDatabase} (hat : AtVersion v db0)
    (hvalid : ∀ t ∈ documentTables, Valid db0 t)
    (hrun : Reach Open.step (fun _ o => o.latest ≤ latestSchemaVersion) db0 db) :
    (AtVersion latestSchemaVersion db → ∀ t ∈ documentTables,
      db.rows t = carried (schemaAt v) (schemaAt latestSchemaVersion) t (db0.rows t) ∧ Valid db t) ∧
    (∀ now, ∃ db', migrate now latestSchemaVersion db [] = (.ok (), db', []) ∧
      AtVersion latestSchemaVersion db') ∧
    ∀ now latest faults e, (migrate now latest db faults).1 = .error e →
      (migrate now latest db faults).2.1 = db := by
  have hreached : Reached v db0 db := by
    refine hrun.invariant ?_ fun _ o _ hreached hlatest hstep =>
      reached_step hlawful hreached hlatest hstep
    exact ⟨v, h6, h34, hat, fun t ht => .refl hat (hvalid t ht)⟩
  obtain ⟨w, hw6, hw34, hatw, hcarries⟩ := hreached
  refine ⟨fun hlatest t ht => ?_, fun now => ?_, fun _ _ _ _ h => transaction_error h⟩
  · cases atVersion_unique hatw hlatest
    exact ⟨(hcarries t ht).rows (documents_found t ht), (hcarries t ht).valid⟩
  · obtain ⟨db', hmigrate, hat', -⟩ :=
      migrate_run hlawful hw6 hw34 (Nat.le_refl latestSchemaVersion) hatw hcarries now
    exact ⟨db', hmigrate, hat'⟩

end Steps

/-! ## A job of version 8 -/

section Sample

/-- A row of these values. -/
def rowOf (values : List (ColumnName × Value)) : Row ColumnName := fun c =>
  (values.lookup c).getD .null

/-- What SQLite makes of texts in text columns and of integers in integer columns. -/
@[reducible] def plainEngine : Engine := ⟨fun _ v => v⟩

local instance sampleEngine : Engine := plainEngine

theorem stored_rowOf {d : Definition} {values : List (ColumnName × Value)}
    (hnames : ∀ e ∈ values, e.1 ∈ d.names) (hadmitted : d.violation (rowOf values) = none) :
    Relational.Stored d (rowOf values) := by
  refine ⟨fun _ _ => rfl, violation_eq_none.mp hadmitted, fun c hc => ?_⟩
  unfold rowOf
  have hnone : values.lookup c = none := by
    rw [List.lookup_eq_none_iff]
    intro e he
    rw [bne_iff_ne]
    exact fun hce => hc (hce ▸ hnames e he)
  rw [hnone]
  rfl

/-- A table of one row. -/
theorem sound_rowOf {db : LocalDatabase} {t : TableName} {d : Definition}
    {values : List (ColumnName × Value)} (hrows : db.rows t = [rowOf values])
    (hnames : ∀ e ∈ values, e.1 ∈ d.names) (hadmitted : d.violation (rowOf values) = none)
    (hrefers : d.refers db.rows (rowOf values)) : Sound db t d := by
  refine ⟨?_, ?_, ?_⟩
  · rw [hrows]
    exact fun row hrow => List.mem_singleton.mp hrow ▸ stored_rowOf hnames hadmitted
  · rw [hrows]
    exact List.pairwise_singleton _ _
  · rw [hrows]
    exact fun row hrow => List.mem_singleton.mp hrow ▸ hrefers

def letters (s : String) : Value := .text s.toList

def sampleJob : List (ColumnName × Value) := [
  (.jobId, letters "j"), (.state, letters "running"), (.format, letters "txt"),
  (.sourceName, letters "a.txt"), (.createdAt, .integer 5), (.updatedAt, .integer 6)]

def sampleSegment : List (ColumnName × Value) := [
  (.jobId, letters "j"), (.segmentIndex, .integer 0), (.kind, letters "prose"),
  (.sourceText, letters "A"), (.translatedText, letters "B"), (.lineEnding, letters "")]

def sampleOptions : List (ColumnName × Value) := [
  (.jobId, letters "j"), (.targetLocale, letters "de"), (.modelId, letters "m"),
  (.providerId, letters "p"), (.updatedAt, .integer 7)]

def sampleRows : TableName → List (Row ColumnName)
  | .schemaMetadata => [metadataRow 8]
  | .documentJobs => [rowOf sampleJob]
  | .documentSegments => [rowOf sampleSegment]
  | .documentJobOptions => [rowOf sampleOptions]
  | _ => []

def sampleDatabase : LocalDatabase := ⟨schemaAt 8, sampleRows⟩

/-- A drop of the jobs before the segments would take these along. -/
example : ((sampleDatabase.exec .null (.dropTable .documentJobs)).map fun db =>
    (db.rows .documentSegments).length).toOption = some 0 := by decide +kernel

theorem sample_definitions :
    (schemaAt 8).find .documentJobs = some (jobsTable states ["txt", "markdown"] false) ∧
    (schemaAt 8).find .documentSegments = some (segmentsTable .documentJobs) ∧
    (schemaAt 8).find .documentJobOptions = some (optionsTable .documentJobs) := by
  decide +kernel

theorem sample_valid : ∀ t ∈ documentTables, Valid sampleDatabase t := by
  obtain ⟨hjobs, hsegments, hoptions⟩ := sample_definitions
  intro t ht d hd
  change (schemaAt 8).find t = some d at hd
  rcases List.mem_cons.mp ht with rfl | ht
  · cases hjobs.symm.trans hd
    exact sound_rowOf rfl (by decide +kernel) (by decide +kernel) (by decide +kernel)
  · rcases List.mem_pair.mp ht with rfl | rfl
    · cases hsegments.symm.trans hd
      exact sound_rowOf rfl (by decide +kernel) (by decide +kernel) (by decide +kernel)
    · cases hoptions.symm.trans hd
      exact sound_rowOf rfl (by decide +kernel) (by decide +kernel) (by decide +kernel)

theorem migrate_keeps_documents_sample : ∃ db : LocalDatabase,
    migrate (.integer 8) latestSchemaVersion sampleDatabase [] = (.ok (), db, []) ∧
    (db.rows .documentJobs).map (fun row => (row .jobId, row .state, row .packageBlob)) =
      [(letters "j", letters "running", .null)] ∧
    (db.rows .documentSegments).map (fun row => (row .sourceText, row .translatedText)) =
      [(letters "A", letters "B")] ∧
    (db.rows .documentJobOptions).map (fun row => (row .targetLocale, row .qualityMode)) =
      [(letters "de", letters "balanced")] := by
  have hlawful : Engine.Lawful := fun _ _ _ => rfl
  have hat : AtVersion 8 sampleDatabase := ⟨rfl, rfl⟩
  obtain ⟨db, hmigrate, hlatest⟩ := (migrate_keeps_documents hlawful (by decide) (by decide) hat
    sample_valid .refl).2.1 (.integer 8)
  have hstep : Open.step sampleDatabase ⟨latestSchemaVersion, .integer 8, []⟩ = some db := by
    unfold Open.step
    rw [hmigrate]
  have hrows := (migrate_keeps_documents hlawful (by decide) (by decide) hat sample_valid
    (.next .refl (Nat.le_refl _) hstep)).1 hlatest
  refine ⟨db, hmigrate, ?_, ?_, ?_⟩
  · rw [(hrows .documentJobs (by decide)).1]
    decide +kernel
  · rw [(hrows .documentSegments (by decide)).1]
    decide +kernel
  · rw [(hrows .documentJobOptions (by decide)).1]
    decide +kernel

end Sample

end LinguaMesh.Storage.Migrations
