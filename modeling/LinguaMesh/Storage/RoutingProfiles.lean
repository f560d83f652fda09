import LinguaMesh.Domain.RoutingExchange
import LinguaMesh.Lib.Shelf
import LinguaMesh.Storage.Tables
import Mathlib.Data.Char
import Mathlib.Data.List.Lex

/-!
# Stored routing profiles

A routing profile is a row of `routing_profiles`, as the JSON that a profile is exchanged as. What is
read is parsed and validated again, and refused if its identifier is not the row's.

The table is a shelf with room for 32 profiles (`routing_history`), whichever statements fail. The text of
a profile is the parameter of the exchange (`RoutingJson`).
-/

namespace LinguaMesh.Storage

open Transaction Shelves Routing

def maxRoutingProfiles : Nat := 32

/-- A row of `routing_profiles`. -/
structure RoutingRow where
  profileId : Str
  profileJson : Str
  createdAt : Int
  updatedAt : Int
  deriving DecidableEq, Repr

structure RoutingProfileRecord where
  id : Str
  profile : RoutingProfile
  createdAt : Int
  updatedAt : Int
  deriving DecidableEq, Repr

abbrev RoutingSql : Type → Type := Sql TranslationError (List RoutingRow)

/-- The `Display` text. -/
def routingMessage : RoutingError → String
  | .invalidConfiguration message => "Invalid routing configuration: " ++ message ++ "."
  | .noEligibleCandidates _ => "No routing candidate satisfies the configured constraints."

def invalidRouting (e : RoutingError) : TranslationError := .new .invalidConfiguration (routingMessage e)

def storedRoutingInvalid : TranslationError := .new .persistence "The stored routing profile is invalid."

def routingFull : TranslationError :=
  .new .invalidConfiguration "The local routing profile limit has been reached."

/-! ## Statements -/

def findRouting (profileId : Str) (rows : List RoutingRow) : Option RoutingRow :=
  findRow RoutingRow.profileId profileId rows

def replaceJson (profileJson : Str) (now : Int) (row : RoutingRow) : RoutingRow :=
  { row with profileJson, updatedAt := now }

/-- `INSERT INTO routing_profiles .. ON CONFLICT(profile_id) DO UPDATE`. -/
def putRouting (profileId profileJson : Str) (now : Int) (rows : List RoutingRow) : List RoutingRow :=
  put RoutingRow.profileId profileId (replaceJson profileJson now) ⟨profileId, profileJson, now, now⟩ rows

/-- `SELECT .. ORDER BY updated_at DESC, profile_id ASC LIMIT`. -/
def selectRouting (rows : List RoutingRow) : List RoutingRow :=
  (sortedRows RoutingRow.profileId RoutingRow.updatedAt rows).take maxRoutingProfiles

section Operations

variable [RoutingJson]

/-! ## Operations -/

def parseRoutingProfileRecord (row : RoutingRow) : Except TranslationError RoutingProfileRecord := do
  let profile ← (deserializeRoutingProfile row.profileJson).mapError fun _ => storedRoutingInvalid
  Except.refuseIf (profile.id != row.profileId || maxRoutingProfileJsonBytes < utf8Len row.profileJson)
    storedRoutingInvalid
  .ok ⟨row.profileId, profile, row.createdAt, row.updatedAt⟩

def routingProfile (profileId : Str) : RoutingSql (Option RoutingProfileRecord) := do
  match ← query (findRouting profileId) with
  | none => pure none
  | some row => some <$> fromExcept (parseRoutingProfileRecord row)

def routingProfiles : RoutingSql (List RoutingProfileRecord) := do
  let rows ← query selectRouting
  fromExcept (rows.mapM parseRoutingProfileRecord)

def saveRoutingRow (profileId profileJson : Str) (now : Int) : RoutingSql Unit := do
  checkRoom (fun rows => (findRouting profileId rows).isSome) List.length maxRoutingProfiles routingFull
  write (putRouting profileId profileJson now)

/-- The checks and the text of a profile that is saved. -/
def routingText (profile : RoutingProfile) : Except TranslationError Str := do
  profile.validate.mapError invalidRouting
  (serializeRoutingProfile profile).mapError invalidRouting

/-- `now` is the clock reading of the statement that writes the row. -/
def saveRoutingProfile (profile : RoutingProfile) (now : Int) : RoutingSql RoutingProfileRecord := do
  let profileJson ← fromExcept (routingText profile)
  transaction (saveRoutingRow profile.id profileJson now)
  match ← routingProfile profile.id with
  | some record => pure record
  | none => giveUp (.new .persistence "The saved routing profile could not be reloaded.")

def deleteRoutingProfile (profileId : Str) : RoutingSql Bool :=
  statement fun rows =>
    .ok ((findRouting profileId rows).isSome, removeRow RoutingRow.profileId profileId rows)

/-! ## The design -/

/-- The calls of the storage; the numbers of a profile fit their types. -/
inductive RoutingOp where
  | save (profile : { p : RoutingProfile // p.Sized }) (now : Int)
  | delete (profileId : Str)
  | find (profileId : Str)
  | list

/-- A profile is kept under its own identifier. -/
def RoutingOp.shelfOp : RoutingOp → ShelfOp Str RoutingProfile
  | .save profile now => .save profile.1.id profile.1 now
  | .delete profileId => .remove profileId
  | .find profileId => .find profileId
  | .list => .list

def RoutingProfileRecord.shelved (record : RoutingProfileRecord) : Str × Entry RoutingProfile :=
  (record.id, ⟨record.profile, record.createdAt, record.updatedAt⟩)

def routingRules : ShelfRules TranslationError Str RoutingProfile where
  checkSave _ profile := (routingText profile).map fun _ => ()
  checkKey _ := .ok ()
  limit := maxRoutingProfiles
  full := routingFull

def routingDesign : Design TranslationError (Shelf Str RoutingProfile) RoutingOp
    (ShelfAnswer Str RoutingProfile) := (shelfDesign routingRules).comap RoutingOp.shelfOp

def RoutingOp.perform : RoutingOp → RoutingSql (ShelfAnswer Str RoutingProfile)
  | .save profile now => (fun r => .saved r.shelved) <$> saveRoutingProfile profile.1 now
  | .delete profileId => .removed <$> deleteRoutingProfile profileId
  | .find profileId => (fun r => .found (r.map RoutingProfileRecord.shelved)) <$> routingProfile profileId
  | .list => (fun r => .listed (r.map RoutingProfileRecord.shelved)) <$> routingProfiles

/-- What a row loads as. -/
def loadRouting (row : RoutingRow) : Option (Entry RoutingProfile) :=
  (parseRoutingProfileRecord row).toOption.map fun record => record.shelved.2

def routingShelf (rows : List RoutingRow) : Shelf Str RoutingProfile :=
  shelf RoutingRow.profileId loadRouting rows

def RoutingStocked (rows : List RoutingRow) : Prop :=
  Stocked RoutingRow.profileId RoutingRow.updatedAt loadRouting maxRoutingProfiles rows

/-! ## Rows -/

variable {rows : List RoutingRow} {profile : RoutingProfile} {profileId profileJson : Str} {now : Int}

theorem parse_iff {row : RoutingRow} {record : RoutingProfileRecord} :
    parseRoutingProfileRecord row = .ok record ↔ ∃ profile,
      deserializeRoutingProfile row.profileJson = .ok profile ∧ profile.id = row.profileId ∧
      utf8Len row.profileJson ≤ maxRoutingProfileJsonBytes ∧
      record = ⟨row.profileId, profile, row.createdAt, row.updatedAt⟩ := by
  unfold parseRoutingProfileRecord
  cases deserializeRoutingProfile row.profileJson with
  | error e => exact ⟨nofun, fun ⟨_, h, _⟩ => nomatch h⟩
  | ok profile =>
    rw [Except.ok_mapError, Except.ok_bind, Except.bind_ok]
    simp only [Except.refuseIf_ok, Except.ok.injEq, exists_eq_left', Bool.or_eq_false_iff,
      bne_eq_false_iff_eq, decide_eq_false_iff_not, Nat.not_lt, exists_const, and_assoc]
    exact and_congr_right fun _ => and_congr_right fun _ => eq_comm

/-- A profile that is written is parsed back, from a row of its own. -/
theorem parse_routingText (hlawful : RoutingJson.Lawful) (hsize : profile.Sized)
    (h : routingText profile = .ok profileJson) {row : RoutingRow} (hid : row.profileId = profile.id)
    (hjson : row.profileJson = profileJson) :
    parseRoutingProfileRecord row = .ok ⟨row.profileId, profile, row.createdAt, row.updatedAt⟩ := by
  obtain ⟨_, hvalid, hserialized⟩ := Except.bind_ok.mp h
  have hvalid := Except.mapError_ok.mp hvalid
  obtain ⟨_, -, hserialized⟩ := Except.bind_ok.mp (Except.mapError_ok.mp hserialized)
  obtain ⟨text, htext, hserialized⟩ := Except.bind_ok.mp hserialized
  obtain ⟨_, hsized, hserialized⟩ := Except.bind_ok.mp hserialized
  obtain rfl := Except.ok.inj hserialized
  have hwritten : RoutingJson.profileText profile = some text := by
    cases hprofile : RoutingJson.profileText profile with
    | none => rw [hprofile] at htext; cases htext
    | some other => rw [hprofile] at htext; exact congrArg some (Except.ok.inj htext)
  have hlimit : utf8Len text ≤ maxRoutingProfileJsonBytes :=
    Nat.not_lt.mp (of_decide_eq_false (Except.refuseIf_ok.mp hsized))
  refine parse_iff.mpr ⟨profile, ?_, hid.symm, hjson ▸ hlimit, rfl⟩
  rw [hjson]
  exact (deserialize_serialized hlawful hsize hvalid hwritten hlimit).2.1

theorem loadRouting_iff {row : RoutingRow} {entry : Entry RoutingProfile} :
    loadRouting row = some entry ↔
      ∃ record, parseRoutingProfileRecord row = .ok record ∧ record.shelved = (row.profileId, entry) := by
  unfold loadRouting
  cases hparse : parseRoutingProfileRecord row with
  | error e => exact ⟨nofun, fun ⟨_, h, _⟩ => nomatch h⟩
  | ok record =>
    obtain ⟨profile, -, -, -, rfl⟩ := parse_iff.mp hparse
    constructor
    · intro h
      exact ⟨_, rfl, Prod.ext rfl (Option.some.inj h)⟩
    · rintro ⟨record, hrecord, hshelved⟩
      obtain rfl := Except.ok.inj hrecord
      exact congrArg some (congrArg Prod.snd hshelved)

theorem loadRouting_times {row : RoutingRow} {entry : Entry RoutingProfile}
    (h : loadRouting row = some entry) :
    entry.createdAt = row.createdAt ∧ entry.updatedAt = row.updatedAt := by
  obtain ⟨record, hparse, hshelved⟩ := loadRouting_iff.mp h
  obtain ⟨profile, -, -, -, rfl⟩ := parse_iff.mp hparse
  obtain rfl := congrArg Prod.snd hshelved
  exact ⟨rfl, rfl⟩

/-! ## Saving -/

/-- The row of a profile after it was saved. -/
def savedRow (profileId profileJson : Str) (now : Int) (rows : List RoutingRow) : RoutingRow :=
  putRow RoutingRow.profileId profileId (replaceJson profileJson now) ⟨profileId, profileJson, now, now⟩ rows

omit [RoutingJson] in
theorem savedRow_eq : savedRow profileId profileJson now rows =
    ⟨profileId, profileJson, ((findRouting profileId rows).map (·.createdAt)).getD now, now⟩ := by
  unfold savedRow putRow findRouting
  cases hfound : findRow RoutingRow.profileId profileId rows with
  | none => rfl
  | some row =>
    rw [← findRow_key hfound]
    rfl

theorem entryAfter_savedRow (h : RoutingStocked rows) :
    (routingShelf rows).entryAfter profileId profile now =
      ⟨profile, (savedRow profileId profileJson now rows).createdAt, now⟩ := by
  rw [savedRow_eq]
  unfold Shelf.entryAfter routingShelf shelf findRouting
  cases hfound : findRow RoutingRow.profileId profileId rows with
  | none => rfl
  | some row =>
    obtain ⟨entry, hentry, -⟩ := h.loads row (findRow_mem hfound)
    rw [Option.bind_some, hentry, Option.map_some, (loadRouting_times hentry).1]
    rfl

theorem stocked_putRouting (now : Int) (hlawful : RoutingJson.Lawful) (h : RoutingStocked rows) (hsize : profile.Sized)
    (htext : routingText profile = .ok profileJson)
    (hroom : (findRouting profile.id rows).isSome = true ∨ rows.length < maxRoutingProfiles) :
    RoutingStocked (putRouting profile.id profileJson now rows) ∧
      routingShelf (putRouting profile.id profileJson now rows) =
        (routingShelf rows).save profile.id profile now := by
  have hnew : RoutingRow.profileId ⟨profile.id, profileJson, now, now⟩ = profile.id := rfl
  have hreplace : ∀ row, row.profileId = profile.id →
      (replaceJson profileJson now row).profileId = profile.id := fun _ h => h
  have hrow : savedRow profile.id profileJson now rows = ⟨profile.id, profileJson, _, now⟩ := savedRow_eq
  have hentry : (routingShelf rows).entryAfter profile.id profile now =
      ⟨profile, (savedRow profile.id profileJson now rows).createdAt, now⟩ := entryAfter_savedRow h
  have hload : loadRouting (savedRow profile.id profileJson now rows) =
      some ((routingShelf rows).entryAfter profile.id profile now) := by
    refine loadRouting_iff.mpr ⟨_, parse_routingText hlawful hsize htext ?_ ?_, ?_⟩
    · rw [hrow]
    · rw [hrow]
    · rw [hentry, hrow]
      rfl
  have hdate : ((routingShelf rows).entryAfter profile.id profile now).updatedAt =
      (savedRow profile.id profileJson now rows).updatedAt := by
    rw [hentry, hrow]
  exact Stocked.put h hreplace hnew hroom (fun _ _ _ => rfl) hload hdate

omit [RoutingJson] in
theorem run_saveRoutingRow
    (hroom : (findRouting profileId rows).isSome = true ∨ rows.length < maxRoutingProfiles) :
    saveRoutingRow profileId profileJson now rows [] =
      (.ok (), putRouting profileId profileJson now rows, []) := by
  have hcheck : checkRoom (fun rows => (findRouting profileId rows).isSome) List.length maxRoutingProfiles
      routingFull rows [] = (.ok (), rows, []) := run_checkRoom_ok hroom
  unfold saveRoutingRow
  rw [run_bind_ok hcheck]
  rfl

/-! ## Reading -/

theorem run_routingProfile (h : RoutingStocked rows) (profileId : Str) : ∃ found,
    routingProfile profileId rows [] = (.ok found, rows, []) ∧
      found.map RoutingProfileRecord.shelved = (routingShelf rows profileId).map (profileId, ·) := by
  have hshelf : routingShelf rows profileId = (findRouting profileId rows).bind loadRouting := rfl
  unfold routingProfile
  rw [run_bind_ok (run_query ..), hshelf]
  cases hfound : findRouting profileId rows with
  | none => exact ⟨none, rfl, rfl⟩
  | some row =>
    obtain ⟨entry, hentry, -⟩ := h.loads row (findRow_mem hfound)
    obtain ⟨record, hrecord, hshelved⟩ := loadRouting_iff.mp hentry
    refine ⟨some record, ?_, ?_⟩
    · change (some <$> fromExcept (parseRoutingProfileRecord row)) rows [] = _
      rw [run_map, hrecord]
      rfl
    · have hkey : row.profileId = profileId := findRow_key hfound
      rw [Option.bind_some, hentry, Option.map_some, Option.map_some, hshelved, hkey]

theorem parse_rows {selected : List RoutingRow} (h : ∀ row ∈ selected, ∃ entry, loadRouting row = some entry) :
    ∃ records, selected.mapM parseRoutingProfileRecord = .ok records ∧
      records.map RoutingProfileRecord.shelved =
        selected.filterMap (shelved RoutingRow.profileId loadRouting) := by
  induction selected with
  | nil => exact ⟨[], rfl, rfl⟩
  | cons row selected ih =>
    obtain ⟨⟨entry, hentry⟩, hrows⟩ := List.forall_mem_cons.mp h
    obtain ⟨record, hrecord, hshelved⟩ := loadRouting_iff.mp hentry
    obtain ⟨records, hrecords, hall⟩ := ih hrows
    refine ⟨record :: records, ?_, ?_⟩
    · rw [List.mapM_cons, hrecord, Except.ok_bind, hrecords]
      rfl
    · have hself : shelved RoutingRow.profileId loadRouting row = some (row.profileId, entry) :=
        shelved_iff.mpr ⟨hentry, rfl⟩
      rw [List.map_cons, hshelved, hall, List.filterMap_cons_some hself]

theorem run_routingProfiles (h : RoutingStocked rows) : ∃ records,
    routingProfiles rows [] = (.ok records, rows, []) ∧
      Lists (routingShelf rows) (records.map RoutingProfileRecord.shelved) ∧
      records.length ≤ maxRoutingProfiles := by
  have hall : selectRouting rows = sortedRows RoutingRow.profileId RoutingRow.updatedAt rows := by
    refine List.take_of_length_le ?_
    rw [sortedRows_perm.length_eq]
    exact h.bounded
  have hloads : ∀ row ∈ selectRouting rows, ∃ entry, loadRouting row = some entry := by
    intro row hrow
    rw [hall] at hrow
    obtain ⟨entry, hentry, -⟩ := h.loads row (sortedRows_perm.mem_iff.mp hrow)
    exact ⟨entry, hentry⟩
  obtain ⟨records, hrecords, hshelved⟩ := parse_rows hloads
  have hlisting : records.map RoutingProfileRecord.shelved =
      listing RoutingRow.profileId RoutingRow.updatedAt loadRouting rows := by
    rw [hshelved, hall]
    rfl
  refine ⟨records, ?_, hlisting ▸ h.lists, ?_⟩
  · unfold routingProfiles
    rw [run_bind_ok (run_query ..), hrecords]
    rfl
  · rw [← List.length_map RoutingProfileRecord.shelved, hlisting, h.length_listing]
    exact h.bounded

/-! ## Programs -/

theorem readOnly_routingProfile (profileId : Str) : ReadOnly (routingProfile profileId) := by
  refine readOnly_bind (readOnly_query _) fun found => ?_
  cases found with
  | none => exact readOnly_pure _
  | some row => exact readOnly_bind (readOnly_fromExcept _) fun record => readOnly_pure (some record)

theorem readOnly_routingProfiles : ReadOnly routingProfiles :=
  readOnly_bind (readOnly_query _) fun _ => readOnly_fromExcept _

omit [RoutingJson] in
theorem steady_saveRoutingRow : Steady (saveRoutingRow profileId profileJson now) rows :=
  steady_bind (readOnly_checkRoom rows).1 fun _ _ _ => steady_write _

theorem whole_saveRoutingProfile : Whole (saveRoutingProfile profile now) rows := by
  refine whole_after_reading (readOnly_fromExcept _) fun profileJson => ?_
  refine whole_before_reading (whole_transaction steady_saveRoutingRow)
    (steady_transaction steady_saveRoutingRow) fun _ => readOnly_bind (readOnly_routingProfile _) fun found => ?_
  cases found with
  | none => exact readOnly_giveUp _
  | some record => exact readOnly_pure record

theorem whole_routingOp (op : RoutingOp) : Whole op.perform rows := by
  cases op with
  | save profile now => exact whole_map _ whole_saveRoutingProfile
  | delete profileId => exact whole_map _ (whole_statement _)
  | find profileId => exact whole_map _ (whole_of_readOnly (readOnly_routingProfile profileId))
  | list => exact whole_map _ (whole_of_readOnly readOnly_routingProfiles)

/-! ## Calls without a fault -/

theorem run_saveRoutingProfile (now : Int) (hlawful : RoutingJson.Lawful) (h : RoutingStocked rows)
    (hsize : profile.Sized) (htext : routingText profile = .ok profileJson)
    (hroom : (findRouting profile.id rows).isSome = true ∨ rows.length < maxRoutingProfiles) : ∃ record,
    saveRoutingProfile profile now rows [] =
        (.ok record, putRouting profile.id profileJson now rows, []) ∧
      record.shelved = (profile.id, (routingShelf rows).entryAfter profile.id profile now) := by
  obtain ⟨hstocked, hshelf⟩ := stocked_putRouting now hlawful h hsize htext hroom
  obtain ⟨found, hfound, hshelved⟩ := run_routingProfile hstocked profile.id
  rw [hshelf, Shelf.save_self, Option.map_some] at hshelved
  obtain ⟨record, rfl, hrecord⟩ := Option.map_eq_some_iff.mp hshelved
  refine ⟨record, ?_, hrecord⟩
  have hbody : saveRoutingRow profile.id profileJson now rows [] =
      (.ok (), putRouting profile.id profileJson now rows, []) := run_saveRoutingRow hroom
  have hcommit := run_transaction hbody
  unfold saveRoutingProfile
  rw [htext, run_bind_ok rfl, run_bind_ok hcommit, run_bind_ok hfound]
  rfl

theorem agrees_saveRouting (hlawful : RoutingJson.Lawful) (h : RoutingStocked rows)
    (profile : { p : RoutingProfile // p.Sized }) : Agrees routingDesign routingShelf RoutingStocked
    (.save profile now) rows (RoutingOp.perform (.save profile now) rows []) := by
  obtain ⟨profile, hsize⟩ := profile
  unfold RoutingOp.perform
  dsimp only
  rw [run_map]
  cases htext : routingText profile with
  | error e =>
    have hrun : saveRoutingProfile profile now rows [] = (.error e, rows, []) := by
      unfold saveRoutingProfile
      rw [htext]
      rfl
    rw [hrun]
    refine ⟨.save ?_, rfl⟩
    change (routingText profile).map (fun _ => ()) = .error e
    rw [htext]
    rfl
  | ok profileJson =>
    have hcheck : routingRules.checkSave profile.id profile = .ok () := by
      change (routingText profile).map (fun _ => ()) = .ok ()
      rw [htext]
      rfl
    by_cases hroom : (findRouting profile.id rows).isSome = true ∨ rows.length < maxRoutingProfiles
    · obtain ⟨record, hrun, hrecord⟩ := run_saveRoutingProfile now hlawful h hsize htext hroom
      obtain ⟨hstocked, hshelf⟩ := stocked_putRouting now hlawful h hsize htext hroom
      rw [hrun]
      refine ⟨?_, hshelf, hstocked⟩
      change ShelfAnswers routingRules (routingShelf rows) (.save profile.id profile now)
        (.saved record.shelved)
      rw [hrecord]
      exact .saved hcheck (h.hasRoom.mpr hroom)
    · have hbody : saveRoutingRow profile.id profileJson now rows [] = (.error routingFull, rows, []) := by
        unfold saveRoutingRow
        rw [run_bind_error (run_checkRoom_full hroom)]
      have hrun : saveRoutingProfile profile now rows [] = (.error routingFull, rows, []) := by
        unfold saveRoutingProfile
        rw [htext, run_bind_ok rfl, run_bind_error (run_transaction hbody)]
      rw [hrun]
      exact ⟨.full hcheck fun hhas => hroom (h.hasRoom.mp hhas), rfl⟩

theorem agrees_deleteRouting (h : RoutingStocked rows) (profileId : Str) :
    Agrees routingDesign routingShelf RoutingStocked (.delete profileId) rows
      (RoutingOp.perform (.delete profileId) rows []) := by
  unfold RoutingOp.perform
  dsimp only
  rw [run_map]
  unfold deleteRoutingProfile
  rw [statement_ok rfl rfl]
  have hkeeps : RoutingStocked (removeRow RoutingRow.profileId profileId rows) ∧
      routingShelf (removeRow RoutingRow.profileId profileId rows) = (routingShelf rows).remove profileId :=
    Stocked.remove h fun _ _ _ => rfl
  refine ⟨?_, hkeeps.2, hkeeps.1⟩
  have hanswer : ShelfAnswers routingRules (routingShelf rows) (.remove profileId)
      (.removed (routingShelf rows profileId).isSome) := .removed rfl
  have hknown : (routingShelf rows profileId).isSome = (findRouting profileId rows).isSome := h.isSome profileId
  exact hknown ▸ hanswer

theorem agrees_findRouting (h : RoutingStocked rows) (profileId : Str) :
    Agrees routingDesign routingShelf RoutingStocked (.find profileId) rows
      (RoutingOp.perform (.find profileId) rows []) := by
  obtain ⟨found, hrun, hshelved⟩ := run_routingProfile h profileId
  unfold RoutingOp.perform
  dsimp only
  rw [run_map, hrun]
  refine ⟨?_, rfl, h⟩
  change ShelfAnswers routingRules (routingShelf rows) (.find profileId)
    (.found (found.map RoutingProfileRecord.shelved))
  rw [hshelved]
  exact .found rfl

theorem agrees_listRouting (h : RoutingStocked rows) :
    Agrees routingDesign routingShelf RoutingStocked .list rows (RoutingOp.perform .list rows []) := by
  obtain ⟨records, hrun, hlists, hbounded⟩ := run_routingProfiles h
  unfold RoutingOp.perform
  dsimp only
  rw [run_map, hrun]
  exact ⟨.listed hlists (by rwa [List.length_map]), rfl, h⟩

/-- Any calls on the table, with any of their statements failing, return what a shelf with room for 32
profiles returns, each under its own identifier: every profile that was saved is read back as it was, with
the time of its first saving. -/
theorem routing_history (hlawful : RoutingJson.Lawful)
    (ops : List (RoutingOp × List (Option TranslationError))) :
    ∃ s, Explained routingDesign Shelf.empty (perform RoutingOp.perform [] ops).1 s := by
  have hempty : RoutingStocked [] := stocked_nil
  have hquiet (op : RoutingOp) (rows : List RoutingRow) (h : RoutingStocked rows) :
      Agrees routingDesign routingShelf RoutingStocked op rows (op.perform rows []) := by
    cases op with
    | save profile now => exact agrees_saveRouting hlawful h profile
    | delete profileId => exact agrees_deleteRouting h profileId
    | find profileId => exact agrees_findRouting h profileId
    | list => exact agrees_listRouting h
  exact ⟨_, (explained_of_quiet hempty (fun op _ _ => whole_routingOp op) hquiet ops).2⟩

end Operations

/-! ### One profile -/

theorem workProfile_sized : workProfile.Sized := by
  constructor
  · decide
  · intro n hn
    cases hn
    decide

section Work

local instance workJson : RoutingJson := oneProfile workProfile workText

/-- A profile is saved, saved again with a reading that fails, and listed. -/
def workCalls : List (RoutingOp × List (Option TranslationError)) :=
  [(.save ⟨workProfile, workProfile_sized⟩ 7, []),
    (.save ⟨workProfile, workProfile_sized⟩ 9,
      [none, none, none, none, some (mapError "disk I/O error")]),
    (.list, [])]

theorem routing_history_work : ∃ s,
    Explained routingDesign Shelf.empty (perform RoutingOp.perform [] workCalls).1 s :=
  routing_history (oneProfile_lawful workProfile workText) workCalls

end Work

end LinguaMesh.Storage
