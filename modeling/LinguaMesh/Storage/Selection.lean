import LinguaMesh.Lib.Runs
import LinguaMesh.Lib.Transaction
import LinguaMesh.Storage.StoredProfile
import LinguaMesh.Storage.Tables

/-!
# The active selection

The tables of provider profiles and models, with the two selections, and the
operations that write them. A foreign key holds in two ways: an insert that breaks
it fails, and deleting a profile deletes its selections too. A foreign key does not
say that the selected profile is enabled; that is left to the operations.

`Sound` is what they keep: along every run the active selection, if there is one,
refers to a profile that exists and is enabled.
-/

namespace LinguaMesh.Storage

open Runs Transaction

inductive ModelSource where
  | discovered | catalog | manual
  deriving DecidableEq, Repr

structure ModelRow where
  id : Str
  displayName : Str
  source : ModelSource
  deriving DecidableEq, Repr

/-- `provider_profiles`, `provider_model_selection`, `active_provider_selection`,
`model_descriptors` and `active_model_selection`. The model of a profile is in the second table, not
in its row. -/
structure ProviderTables where
  profiles : List StoredProfile
  modelSelection : List (Str × Str)
  active : Option Str
  models : List ModelRow
  activeModel : Option Str
  deriving DecidableEq, Repr

namespace ProviderTables

def empty : ProviderTables := ⟨[], [], none, [], none⟩

/-! ## Statements -/

def foreignKeyError : TranslationError := mapError "FOREIGN KEY constraint failed"

def hasProfile (t : ProviderTables) (id : Str) : Bool := t.profiles.any (·.id == id)

/-- A row after `DO UPDATE` with the row `row`: the columns of the last health checks are left. -/
def refreshed (row old : StoredProfile) : StoredProfile :=
  if old.id = row.id then
    { row with
      selectedModel := none
      lastSuccessfulHealthCheck := old.lastSuccessfulHealthCheck
      lastFailureCategory := old.lastFailureCategory }
  else old

/-- `INSERT INTO provider_profiles .. ON CONFLICT(id) DO UPDATE`. -/
def insertProfile (row : StoredProfile) (t : ProviderTables) : ProviderTables :=
  if t.hasProfile row.id then { t with profiles := t.profiles.map (refreshed row) }
  else { t with profiles := t.profiles ++ [{ row with selectedModel := none }] }

/-- `INSERT INTO provider_model_selection .. ON CONFLICT(provider_id) DO UPDATE`. -/
def selectModel (id modelId : Str) (t : ProviderTables) :
    Except TranslationError ProviderTables :=
  if !t.hasProfile id then .error foreignKeyError
  else if t.modelSelection.any (·.1 == id) then
    .ok { t with modelSelection := t.modelSelection.map fun s =>
      if s.1 = id then (id, modelId) else s }
  else .ok { t with modelSelection := t.modelSelection ++ [(id, modelId)] }

def unselectModel (id : Str) (t : ProviderTables) : ProviderTables :=
  { t with modelSelection := t.modelSelection.filter (·.1 != id) }

/-- `DELETE FROM active_provider_selection WHERE provider_id = ?1`. -/
def deactivate (id : Str) (t : ProviderTables) : ProviderTables :=
  { t with active := t.active.filter (· != id) }

/-- `INSERT INTO active_provider_selection .. ON CONFLICT(singleton) DO UPDATE`. -/
def activate (id : Str) (t : ProviderTables) : Except TranslationError ProviderTables :=
  if t.hasProfile id then .ok { t with active := some id } else .error foreignKeyError

/-- `DELETE FROM provider_profiles WHERE id = ?1`, with the two `ON DELETE CASCADE`. -/
def deleteProfile (id : Str) (t : ProviderTables) : ProviderTables :=
  { (t.unselectModel id).deactivate id with profiles := t.profiles.filter (·.id != id) }

/-- `UPDATE provider_profiles SET .. WHERE id = ?`. -/
def updateProfile (id : Str) (change : StoredProfile → StoredProfile) (t : ProviderTables) :
    ProviderTables :=
  { t with profiles := t.profiles.map fun row => if row.id = id then change row else row }

/-- `INSERT INTO model_descriptors .. ON CONFLICT(id) DO UPDATE`. -/
def insertManualModel (modelId : Str) (t : ProviderTables) : ProviderTables :=
  if t.models.any (·.id == modelId) then
    { t with models := t.models.map fun m =>
      if m.id = modelId then ⟨modelId, modelId, .manual⟩ else m }
  else { t with models := t.models ++ [⟨modelId, modelId, .manual⟩] }

def hasModel (t : ProviderTables) (modelId : Str) : Bool := t.models.any (·.id == modelId)

/-- `INSERT INTO active_model_selection .. ON CONFLICT(singleton) DO UPDATE`. -/
def activateModel (modelId : Str) (t : ProviderTables) : Except TranslationError ProviderTables :=
  if t.hasModel modelId then .ok { t with activeModel := some modelId }
  else .error foreignKeyError

/-- `SELECT enabled FROM provider_profiles WHERE id = ?1`. -/
def enabledOf (t : ProviderTables) (id : Str) : Option Bool :=
  (t.profiles.find? (·.id == id)).map (·.enabled)

end ProviderTables

/-! ## Operations -/

abbrev ProviderSql : Type → Type := Sql TranslationError ProviderTables

section Operations

open ProviderTables

variable [Urls] [Uuids]

def upsertProfile (p : ProviderProfile) : ProviderSql Unit :=
  match storedRow p with
  | .error e => giveUp e
  | .ok row => do
    write (insertProfile row)
    match row.selectedModel with
    | some modelId => execute (selectModel row.id modelId)
    | none => write (unselectModel row.id)

def upsertProviderProfile (p : ProviderProfile) : ProviderSql Unit :=
  transaction do
    upsertProfile p
    if p.enabled then pure () else write (deactivate p.id.value)

def disabledError : TranslationError :=
  .new .invalidConfiguration "A disabled provider profile cannot be activated."

def saveAndActivateProvider (p : ProviderProfile) : ProviderSql Unit :=
  if !p.enabled then giveUp disabledError
  else transaction do
    upsertProfile p
    execute (activate p.id.value)

def setActiveProvider (id : ProviderProfileId) : ProviderSql Unit :=
  transaction do
    match ← query (·.enabledOf id.value) with
    | some true => execute (activate id.value)
    | some false => giveUp disabledError
    | none => giveUp (.new .invalidConfiguration "The provider profile does not exist.")

def deleteProviderProfile (id : ProviderProfileId) : ProviderSql Bool :=
  transaction (statement fun t => .ok (t.hasProfile id.value, t.deleteProfile id.value))

def recordProviderHealthSuccess (id : ProviderProfileId) (timestamp : Int) : ProviderSql Bool :=
  if timestamp < 0 then
    giveUp (.new .invalidConfiguration "Provider health timestamps must be non-negative.")
  else statement fun t => .ok (t.hasProfile id.value, t.updateProfile id.value fun row =>
    { row with lastSuccessfulHealthCheck := some timestamp, lastFailureCategory := none })

def recordProviderHealthFailure (id : ProviderProfileId) (category : ErrorKind) :
    ProviderSql Bool :=
  statement fun t => .ok (t.hasProfile id.value, t.updateProfile id.value fun row =>
    { row with lastFailureCategory := some (serializeErrorKind category) })

def upsertManualModel (modelId : Str) : ProviderSql Unit :=
  match checkedProfileText "model_id" modelId with
  | .error e => giveUp (.new .invalidConfiguration ("Manual model ID is invalid: " ++ e.message))
  | .ok _ => write (insertManualModel modelId)

def setActiveModel (modelId : Str) : ProviderSql Unit := do
  if ← query (·.hasModel modelId) then execute (activateModel modelId)
  else giveUp (.new .modelUnavailable "The selected model is not registered.")

inductive ProviderOp where
  | upsert (p : ProviderProfile)
  | saveAndActivate (p : ProviderProfile)
  | setActive (id : ProviderProfileId)
  | delete (id : ProviderProfileId)
  | healthSuccess (id : ProviderProfileId) (timestamp : Int)
  | healthFailure (id : ProviderProfileId) (category : ErrorKind)
  | manualModel (modelId : Str)
  | setActiveModel (modelId : Str)

def ProviderOp.perform : ProviderOp → ProviderSql Unit
  | .upsert p => upsertProviderProfile p
  | .saveAndActivate p => saveAndActivateProvider p
  | .setActive id => setActiveProvider id
  | .delete id => do let _ ← deleteProviderProfile id
  | .healthSuccess id timestamp => do let _ ← recordProviderHealthSuccess id timestamp
  | .healthFailure id category => do let _ ← recordProviderHealthFailure id category
  | .manualModel modelId => upsertManualModel modelId
  | .setActiveModel modelId => Storage.setActiveModel modelId

/-- The tables after an operation, with the statements of it that fail. -/
def ProviderOp.step (t : ProviderTables) :
    ProviderOp × List (Option TranslationError) → Option ProviderTables
  | (op, faults) => some (op.perform t faults).2.1

end Operations

/-! ## Sound tables -/

/-- The profile exists and is enabled. -/
def Selectable (t : ProviderTables) (id : Str) : Prop :=
  ∃ row ∈ t.profiles, row.id = id ∧ row.enabled = true

structure Sound (t : ProviderTables) : Prop where
  unique : (t.profiles.map (·.id)).Nodup
  active : ∀ id, t.active = some id → Selectable t id
  selection : ∀ s ∈ t.modelSelection, t.hasProfile s.1
  activeModel : ∀ modelId, t.activeModel = some modelId → t.hasModel modelId

/-- What holds of the end of an operation that began in the sound tables `t`. -/
structure Outcome (t : ProviderTables) (r : Except TranslationError Unit) (t' : ProviderTables) :
    Prop where
  sound : Sound t'
  unchanged : Unchanged t r t'
  cleared : ∀ id, t.active = some id → ¬ Selectable t' id → t'.active = none

section Soundness

open ProviderTables

variable {t t' : ProviderTables} {id : Str}

theorem sound_empty : Sound .empty := ⟨List.nodup_nil, nofun, nofun, nofun⟩

theorem hasProfile_iff : t.hasProfile id = true ↔ id ∈ t.profiles.map (·.id) := by
  simp [hasProfile]

theorem Outcome.same (h : Sound t) (r : Except TranslationError Unit) : Outcome t r t :=
  ⟨h, fun _ _ => rfl, fun id hid hn => absurd (h.active id hid) hn⟩

/-- An operation that leaves the selection or clears it. -/
theorem Outcome.kept (h : Sound t') (hactive : t'.active = t.active ∨ t'.active = none) :
    Outcome t (.ok ()) t' := by
  refine ⟨h, nofun, fun id hid hn => hactive.resolve_left fun heq => ?_⟩
  exact hn (h.active id (heq.trans hid))

/-- An operation that leaves every profile that may be selected. -/
theorem Outcome.moved (h : Sound t') (hkept : ∀ id, Selectable t id → Selectable t' id)
    (ht : Sound t) : Outcome t (.ok ()) t' :=
  ⟨h, nofun, fun id hid hn => absurd (hkept id (ht.active id hid)) hn⟩

/-! ### The statements -/

/-- `t'` is `t` with the row of a profile, which is enabled or not, put in. -/
structure PutIn (id : Str) (enabled : Bool) (t t' : ProviderTables) : Prop where
  unique : (t'.profiles.map (·.id)).Nodup
  ids : ∀ x, x ∈ t'.profiles.map (·.id) ↔ x = id ∨ x ∈ t.profiles.map (·.id)
  row : ∃ row ∈ t'.profiles, row.id = id ∧ row.enabled = enabled
  others : ∀ row ∈ t.profiles, row.id ≠ id → row ∈ t'.profiles
  selection : ∀ s ∈ t'.modelSelection, t'.hasProfile s.1
  active : t'.active = t.active
  models : t'.models = t.models ∧ t'.activeModel = t.activeModel

theorem map_ids {change : StoredProfile → StoredProfile} (h : ∀ row, (change row).id = row.id)
    (rows : List StoredProfile) : (rows.map change).map (·.id) = rows.map (·.id) := by
  rw [List.map_map]
  exact List.map_congr_left fun row _ => h row

theorem refreshed_id (row old : StoredProfile) : (refreshed row old).id = old.id := by
  unfold refreshed
  split
  · rename_i heq
    exact heq.symm
  · rfl

theorem putIn_insert (h : Sound t) (row : StoredProfile) :
    PutIn row.id row.enabled t (t.insertProfile row) := by
  by_cases hhas : t.hasProfile row.id = true
  · have hid := hasProfile_iff.mp hhas
    have hids := map_ids (refreshed_id row) t.profiles
    rw [show t.insertProfile row = { t with profiles := t.profiles.map (refreshed row) } from
      if_pos hhas]
    refine ⟨hids ▸ h.unique, fun x => ?_, ?_, fun old hold hne => ?_, fun s hs => ?_, rfl, rfl, rfl⟩
    · rw [hids]
      exact ⟨.inr, fun hx => hx.elim (fun he => he ▸ hid) id⟩
    · obtain ⟨old, hold, heq⟩ := List.mem_map.mp hid
      refine ⟨_, List.mem_map_of_mem hold, (refreshed_id row old).trans heq, ?_⟩
      rw [refreshed, if_pos heq]
    · exact List.mem_map.mpr ⟨old, hold, if_neg hne⟩
    · rw [hasProfile_iff, hids, ← hasProfile_iff]
      exact h.selection s hs
  · have hid : row.id ∉ t.profiles.map (·.id) := fun hid => hhas (hasProfile_iff.mpr hid)
    rw [show t.insertProfile row =
      { t with profiles := t.profiles ++ [{ row with selectedModel := none }] } from if_neg hhas]
    refine ⟨?_, fun x => ?_, ⟨{ row with selectedModel := none }, by simp, rfl, rfl⟩,
      fun old hold _ => List.mem_append_left _ hold, fun s hs => ?_, rfl, rfl, rfl⟩
    · rw [List.map_append]
      exact List.nodup_append.mpr ⟨h.unique, List.nodup_singleton _, fun a ha b hb he => by
        obtain rfl : b = row.id := by simpa using hb
        exact hid (he ▸ ha)⟩
    · simp only [List.map_append, List.mem_append, List.map_cons, List.map_nil, List.mem_singleton]
      exact or_comm
    · have hs := hasProfile_iff.mp (h.selection s hs)
      exact hasProfile_iff.mpr (by simp only [List.map_append]; exact List.mem_append_left _ hs)

theorem PutIn.selectModel {enabled : Bool} {x modelId : Str} {t₀ : ProviderTables}
    (h : PutIn id enabled t₀ t) (hs : selectModel x modelId t = .ok t') : PutIn id enabled t₀ t' := by
  unfold ProviderTables.selectModel at hs
  split at hs
  · cases hs
  · rename_i hhas
    have hx : t.hasProfile x = true := by simpa using hhas
    split at hs <;> obtain rfl := Except.ok.inj hs
    · refine { h with selection := fun s hs => ?_ }
      obtain ⟨s', hs', rfl⟩ := List.mem_map.mp hs
      split
      · exact hx
      · exact h.selection s' hs'
    · refine { h with selection := fun s hs => ?_ }
      rcases List.mem_append.mp hs with hs | hs
      · exact h.selection s hs
      · obtain rfl := List.mem_singleton.mp hs
        exact hx

theorem PutIn.unselectModel {enabled : Bool} {x : Str} {t₀ : ProviderTables}
    (h : PutIn id enabled t₀ t) : PutIn id enabled t₀ (t.unselectModel x) :=
  { h with selection := fun s hs => h.selection s (List.mem_filter.mp hs).1 }

/-- A profile that another one was put beside may be selected as before. -/
theorem PutIn.selectable {enabled : Bool} (h : PutIn id enabled t t') {x : Str}
    (hx : x ≠ id ∨ enabled = true) (hs : Selectable t x) : Selectable t' x := by
  obtain ⟨row, hrow, rfl, henabled⟩ := hs
  by_cases hid : row.id = id
  · obtain ⟨row', hrow', hid', henabled'⟩ := h.row
    exact ⟨row', hrow', hid'.trans hid.symm, henabled'.trans (hx.resolve_left (not_not_intro hid))⟩
  · exact ⟨row, h.others row hrow hid, rfl, henabled⟩

/-- The tables are sound again as soon as the selection is. -/
theorem PutIn.sound {enabled : Bool} (h : PutIn id enabled t t') (ht : Sound t) {active : Option Str}
    (hactive : ∀ x, active = some x → Selectable t' x) : Sound { t' with active } where
  unique := h.unique
  active := hactive
  selection := h.selection
  activeModel modelId hm := by
    unfold hasModel
    rw [h.models.1]
    exact ht.activeModel modelId (h.models.2 ▸ hm)

theorem storedRow_id [Urls] [Uuids] {p : ProviderProfile} {row : StoredProfile}
    (h : storedRow p = .ok row) : row.id = p.id.value ∧ row.enabled = p.enabled := by
  unfold storedRow at h
  split at h
  · cases h
  · obtain rfl := Except.ok.inj h
    exact ⟨rfl, rfl⟩

theorem upsertProfile_putIn [Urls] [Uuids] (h : Sound t) (p : ProviderProfile) :
    Ensures (upsertProfile p) t fun r t' => r = .ok () → PutIn p.id.value p.enabled t t' := by
  unfold upsertProfile
  split
  · exact ensures_giveUp nofun
  · rename_i row hrow
    obtain ⟨hid, henabled⟩ := storedRow_id hrow
    have hput := putIn_insert h row
    rw [hid, henabled] at hput
    refine ensures_bind (ensures_write (fun _ => nofun) ?_)
    simp only [Then]
    split
    · exact ensures_execute (fun _ => nofun) fun t₁ ht₁ _ => hput.selectModel ht₁
    · exact ensures_write (fun _ => nofun) fun _ => hput.unselectModel

/-! ### The operations -/

/-- A transaction without a result ensures its outcome if its body does where it succeeds. -/
theorem outcome_transaction {body : ProviderSql Unit} (h : Sound t)
    (hbody : Ensures body t fun r t' => r = .ok () → Outcome t (.ok ()) t') :
    Ensures (transaction body) t (Outcome t) :=
  ensures_transaction (fun _ => .same h _) (hbody.mono fun _ _ hr _ ha => hr ha)

/-- The result of a statement does not matter. -/
theorem outcome_discard {m : ProviderSql Bool} (h : Sound t)
    (hm : Ensures m t fun r t' => (∀ e, r = .error e → t' = t) ∧
      ∀ a, r = .ok a → Outcome t (.ok ()) t') :
    Ensures (m >>= fun _ => pure ()) t (Outcome t) := by
  refine ensures_bind (hm.mono fun r t' hr => ?_)
  cases r with
  | error e =>
    obtain rfl := hr.1 e rfl
    exact .same h _
  | ok a => exact ensures_pure (hr.2 a rfl)

theorem filter_active (active : Option Str) (id : Str) :
    active.filter (· != id) = active ∨ active.filter (· != id) = none := by
  cases active with
  | none => exact .inl rfl
  | some x => by_cases hx : x = id <;> simp [hx]

theorem upsert_outcome [Urls] [Uuids] (h : Sound t) (p : ProviderProfile) :
    Ensures (upsertProviderProfile p) t (Outcome t) := by
  refine outcome_transaction h (ensures_bind ((upsertProfile_putIn h p).mono fun r t₁ hput => ?_))
  cases r with
  | error e => exact nofun
  | ok =>
    have hput := hput rfl
    simp only [Then]
    split
    · rename_i henabled
      refine ensures_pure fun _ => .kept ?_ (.inl hput.active)
      refine @PutIn.sound _ _ _ _ hput h t₁.active fun x hx => ?_
      exact hput.selectable (.inr henabled) (h.active x (hput.active ▸ hx))
    · refine ensures_write (fun _ => nofun) fun _ => ?_
      -- the selection of the profile that is disabled now is gone
      refine .kept (hput.sound h fun x hx => ?_) ?_
      · obtain ⟨hx, hne⟩ := Option.filter_eq_some_iff.mp hx
        exact hput.selectable (.inl (by simpa using hne)) (h.active x (hput.active ▸ hx))
      · exact hput.active ▸ filter_active t₁.active p.id.value

theorem saveAndActivate_outcome [Urls] [Uuids] (h : Sound t) (p : ProviderProfile) :
    Ensures (saveAndActivateProvider p) t (Outcome t) := by
  unfold saveAndActivateProvider
  split
  · exact ensures_giveUp (.same h _)
  · rename_i henabled
    have henabled : p.enabled = true := by simpa using henabled
    refine outcome_transaction h
      (ensures_bind ((upsertProfile_putIn h p).mono fun r t₁ hput => ?_))
    cases r with
    | error e => exact nofun
    | ok =>
      have hput := hput rfl
      simp only [Then]
      refine ensures_execute (fun _ => nofun) fun t₂ ht₂ _ => ?_
      unfold activate at ht₂
      split at ht₂
      · obtain rfl := Except.ok.inj ht₂
        refine .moved (hput.sound h fun x hx => ?_) (fun x hx => hput.selectable (.inr henabled) hx) h
        obtain rfl := Option.some.inj hx
        obtain ⟨row, hrow, hid, hrowEnabled⟩ := hput.row
        exact ⟨row, hrow, hid, hrowEnabled.trans henabled⟩
      · cases ht₂

/-- The row that `SELECT enabled` has found. -/
theorem selectable_of_enabledOf (h : t.enabledOf id = some true) : Selectable t id := by
  unfold enabledOf at h
  obtain ⟨row, hrow, henabled⟩ := Option.map_eq_some_iff.mp h
  exact ⟨row, List.mem_of_find?_eq_some hrow, by simpa using List.find?_some hrow, henabled⟩

theorem setActive_outcome (h : Sound t) (id : ProviderProfileId) :
    Ensures (setActiveProvider id) t (Outcome t) := by
  refine outcome_transaction h (ensures_bind (ensures_query (fun _ => nofun) ?_))
  simp only [Then]
  split
  · rename_i henabled
    refine ensures_execute (fun _ => nofun) fun t₁ ht₁ _ => ?_
    unfold activate at ht₁
    split at ht₁
    · obtain rfl := Except.ok.inj ht₁
      refine .moved { h with active := fun x hx => ?_ } (fun _ hx => hx) h
      obtain rfl := Option.some.inj hx
      exact selectable_of_enabledOf henabled
    · cases ht₁
  · exact ensures_giveUp nofun
  · exact ensures_giveUp nofun

theorem sound_delete (h : Sound t) (id : Str) : Sound (t.deleteProfile id) where
  unique := h.unique.sublist (List.filter_sublist.map _)
  active x hx := by
    obtain ⟨hx, hne⟩ := Option.filter_eq_some_iff.mp hx
    obtain ⟨row, hrow, rfl, henabled⟩ := h.active x hx
    exact ⟨row, List.mem_filter.mpr ⟨hrow, hne⟩, rfl, henabled⟩
  selection s hs := by
    obtain ⟨hs, hne⟩ := List.mem_filter.mp hs
    obtain ⟨row, hrow, hid⟩ := List.mem_map.mp (hasProfile_iff.mp (h.selection s hs))
    refine hasProfile_iff.mpr (List.mem_map.mpr ⟨row, List.mem_filter.mpr ⟨hrow, ?_⟩, hid⟩)
    rwa [show row.id = s.1 from hid]
  activeModel := h.activeModel

theorem delete_outcome (h : Sound t) (id : ProviderProfileId) :
    Ensures (do let _ ← deleteProviderProfile id) t (Outcome t) := by
  refine outcome_discard h (ensures_transaction (fun _ => ⟨fun _ _ => rfl, nofun⟩)
    (ensures_statement (fun _ => nofun) fun a t₁ ht₁ b _ => ⟨nofun, fun _ _ => ?_⟩))
  obtain ⟨-, rfl⟩ := Prod.mk.inj (Except.ok.inj ht₁)
  exact .kept (sound_delete h id.value) (filter_active t.active id.value)

/-- An update of the columns of the last health checks. -/
theorem health_outcome (h : Sound t) (id : Str) {change : StoredProfile → StoredProfile}
    (hchange : ∀ row, (change row).id = row.id ∧ (change row).enabled = row.enabled) :
    Outcome t (.ok ()) (t.updateProfile id change) := by
  have hrow (row : StoredProfile) : (if row.id = id then change row else row).id = row.id ∧
      (if row.id = id then change row else row).enabled = row.enabled := by
    split
    · exact hchange row
    · exact ⟨rfl, rfl⟩
  have hids := map_ids (fun row => (hrow row).1) t.profiles
  have hselectable (x : Str) (hx : Selectable t x) : Selectable (t.updateProfile id change) x := by
    obtain ⟨row, hmem, rfl, henabled⟩ := hx
    exact ⟨_, List.mem_map_of_mem hmem, (hrow row).1, (hrow row).2.trans henabled⟩
  refine .moved ⟨?_, fun x hx => hselectable x (h.active x hx), fun s hs => ?_, h.activeModel⟩
    hselectable h
  · exact hids ▸ h.unique
  · have hs := hasProfile_iff.mp (h.selection s hs)
    exact hasProfile_iff.mpr (hids ▸ hs)

theorem hasModel_insert {x modelId : Str} (hx : t.hasModel x = true) :
    (t.insertManualModel modelId).hasModel x = true := by
  obtain ⟨m, hm, hid⟩ := List.any_eq_true.mp hx
  unfold insertManualModel
  split
  · refine List.any_eq_true.mpr ⟨_, List.mem_map_of_mem hm, ?_⟩
    split
    · rename_i heq
      exact heq ▸ hid
    · exact hid
  · exact List.any_eq_true.mpr ⟨m, List.mem_append_left _ hm, hid⟩

theorem manualModel_outcome (h : Sound t) (modelId : Str) :
    Ensures (upsertManualModel modelId) t (Outcome t) := by
  unfold upsertManualModel
  split
  · exact ensures_giveUp (.same h _)
  · refine ensures_write (fun _ => .same h _) ?_
    have hrest : (t.insertManualModel modelId).profiles = t.profiles ∧
        (t.insertManualModel modelId).modelSelection = t.modelSelection ∧
        (t.insertManualModel modelId).active = t.active ∧
        (t.insertManualModel modelId).activeModel = t.activeModel := by
      unfold insertManualModel
      split <;> exact ⟨rfl, rfl, rfl, rfl⟩
    obtain ⟨hprofiles, hselection, hactive, hmodel⟩ := hrest
    refine .kept ⟨hprofiles ▸ h.unique, fun x hx => ?_, fun s hs => ?_,
      fun x hx => hasModel_insert (h.activeModel x (hmodel ▸ hx))⟩ (.inl hactive)
    · obtain ⟨row, hrow, hid⟩ := h.active x (hactive ▸ hx)
      exact ⟨row, hprofiles ▸ hrow, hid⟩
    · have hs := hasProfile_iff.mp (h.selection s (hselection ▸ hs))
      exact hasProfile_iff.mpr (hprofiles ▸ hs)

theorem setActiveModel_outcome (h : Sound t) (modelId : Str) :
    Ensures (setActiveModel modelId) t (Outcome t) := by
  refine ensures_bind (ensures_query (fun _ => .same h _) ?_)
  simp only [Then]
  split
  · rename_i hmodel
    refine ensures_execute (fun _ => .same h _) fun t₁ ht₁ => ?_
    rw [activateModel, if_pos hmodel] at ht₁
    obtain rfl := Except.ok.inj ht₁
    refine .kept { h with activeModel := fun x hx => ?_ } (.inl rfl)
    obtain rfl := Option.some.inj hx
    exact hmodel
  · exact ensures_giveUp (.same h _)

/-- Every operation on sound tables, with any of its statements failing. -/
theorem perform_outcome [Urls] [Uuids] (h : Sound t) (op : ProviderOp) :
    Ensures op.perform t (Outcome t) := by
  cases op with
  | upsert p => exact upsert_outcome h p
  | saveAndActivate p => exact saveAndActivate_outcome h p
  | setActive id => exact setActive_outcome h id
  | delete id => exact delete_outcome h id
  | healthSuccess id timestamp =>
    refine outcome_discard h ?_
    unfold recordProviderHealthSuccess
    split
    · exact ensures_giveUp ⟨fun _ _ => rfl, nofun⟩
    · refine ensures_statement (fun _ => ⟨fun _ _ => rfl, nofun⟩) fun a t₁ ht₁ =>
        ⟨nofun, fun _ _ => ?_⟩
      obtain ⟨-, rfl⟩ := Prod.mk.inj (Except.ok.inj ht₁)
      exact health_outcome h id.value fun _ => ⟨rfl, rfl⟩
  | healthFailure id category =>
    refine outcome_discard h
      (ensures_statement (fun _ => ⟨fun _ _ => rfl, nofun⟩) fun a t₁ ht₁ => ⟨nofun, fun _ _ => ?_⟩)
    obtain ⟨-, rfl⟩ := Prod.mk.inj (Except.ok.inj ht₁)
    exact health_outcome h id.value fun _ => ⟨rfl, rfl⟩
  | manualModel modelId => exact manualModel_outcome h modelId
  | setActiveModel modelId => exact setActiveModel_outcome h modelId

/-- In every state that a sequence of operations reaches, whichever statements fail, the active
selection refers to an enabled profile; and every further operation keeps it so, leaves everything as
it was if it fails, and clears the selection if it takes its profile away. -/
theorem active_selection_sound [Urls] [Uuids]
    (h : Reach ProviderOp.step (fun _ _ => True) .empty t) :
    (∀ id, t.active = some id → Selectable t id) ∧
      ∀ op : ProviderOp, Ensures op.perform t (Outcome t) := by
  have hsound : Sound t := h.invariant sound_empty fun t a t' ht _ hstep => by
    obtain rfl := Option.some.inj hstep
    exact (perform_outcome ht a.1 a.2).sound
  exact ⟨hsound.active, perform_outcome hsound⟩

end Soundness

/-- A profile with an endpoint and no options. -/
def plainProfile [Urls] [Uuids] (baseEndpoint : EndpointConfiguration) (enabled : Bool) :
    ProviderProfile where
  id := work
  displayName := "Work".toList
  presetId := "generic-openai-compatible".toList
  adapterType := "openai_chat_completions".toList
  baseEndpoint := baseEndpoint
  secretRef := none
  secretCustomHeadersRef := none
  userNotes := none
  organization := none
  project := none
  region := none
  accountIdentifier := none
  customHeaders := none
  proxyUrl := none
  proxyAuthRef := none
  requestTimeoutSecs := 30
  connectionTimeoutSecs := 10
  streamingIdleTimeoutSecs := 60
  trustedCertificatesPem := none
  clientCertificateIdentityRef := none
  enabled := enabled
  selectedModel := some "small".toList
  lastSuccessfulHealthCheck := none
  lastFailureCategory := none

/-- The profile is activated, and then disabled in a transaction whose last statement fails. -/
def disabledLate [Urls] [Uuids] (endpoint : EndpointConfiguration) :
    List (ProviderOp × List (Option TranslationError)) :=
  [(.saveAndActivate (plainProfile endpoint true), []),
    (.upsert (plainProfile endpoint false), [none, none, none, some (mapError "disk I/O error")])]

theorem active_selection_sound_work :
    letI := oneUrl "https://API.example".toList "https://api.example/".toList "api.example".toList
    letI := oneUuid
    ∃ (endpoint : EndpointConfiguration) (t : ProviderTables),
      run ProviderOp.step .empty (disabledLate endpoint) = some t ∧ t.active = some "work".toList ∧
      (∀ id, t.active = some id → Selectable t id) ∧
        ∀ op : ProviderOp, Ensures op.perform t (Outcome t) := by
  let := oneUrl "https://API.example".toList "https://api.example/".toList "api.example".toList
  let := oneUuid
  let endpoint : EndpointConfiguration :=
    ⟨"https://api.example/".toList, "https://API.example".toList, by decide⟩
  obtain ⟨t, hrun, hactive⟩ : ∃ t, run ProviderOp.step .empty (disabledLate endpoint) = some t ∧
      t.active = some "work".toList := ⟨_, rfl, rfl⟩
  exact ⟨endpoint, t, hrun, hactive,
    active_selection_sound (.of_run hrun (meets_of_forall (fun _ _ => trivial) _))⟩

end LinguaMesh.Storage
