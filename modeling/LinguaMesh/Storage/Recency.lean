import LinguaMesh.Lib.Ranking
import LinguaMesh.Storage.History

/-!
# The newest rows

A table that is trimmed keeps the first rows in the order of time and, within one
second, of identifier. `mem_trimmed_upsert` says when a row that was just put in is
among them.
-/

namespace LinguaMesh.Storage

open Ranking HistoryTables

variable {ρ : Type} {createdOf : ρ → Int} {idOf : ρ → Str}

/-- `ORDER BY created_at DESC, id DESC`. -/
def newerBy (createdOf : ρ → Int) (idOf : ρ → Str) (a b : ρ) : Bool :=
  createdOf b < createdOf a || (createdOf a == createdOf b && idOf b ≤ idOf a)

/-- `DELETE .. WHERE id IN (SELECT id .. ORDER BY .. LIMIT -1 OFFSET limit)`. -/
def trimmed (createdOf : ρ → Int) (idOf : ρ → Str) (limit : Nat) (rows : List ρ) : List ρ :=
  let surplus := ((rows.insertionSort fun a b => newerBy createdOf idOf a b).drop limit).map idOf
  rows.filter fun row => !surplus.contains (idOf row)

/-- A row of the same second with a larger identifier. -/
def isRival (createdOf : ρ → Int) (idOf : ρ → Str) (row old : ρ) : Bool :=
  createdOf old = createdOf row ∧ idOf row < idOf old

def rivals (createdOf : ρ → Int) (idOf : ρ → Str) (row : ρ) (rows : List ρ) : List ρ :=
  rows.filter (isRival createdOf idOf row)

theorem newerBy_iff {a b : ρ} : newerBy createdOf idOf a b = true ↔
    createdOf b < createdOf a ∨ createdOf a = createdOf b ∧ idOf b ≤ idOf a := by
  simp [newerBy]

instance total_newerBy : Std.Total fun a b => newerBy createdOf idOf a b = true := by
  refine ⟨fun a b => ?_⟩
  simp only [newerBy_iff]
  rcases lt_trichotomy (createdOf a) (createdOf b) with h | h | h
  · exact .inr (.inl h)
  · exact (le_total (idOf b) (idOf a)).imp (fun hid => .inr ⟨h, hid⟩) fun hid => .inr ⟨h.symm, hid⟩
  · exact .inl (.inl h)

instance trans_newerBy : IsTrans ρ fun a b => newerBy createdOf idOf a b = true := by
  refine ⟨fun a b c hab hbc => ?_⟩
  rw [newerBy_iff] at *
  rcases hab with hab | ⟨hab, hab'⟩
  · rcases hbc with hbc | ⟨hbc, -⟩
    · exact .inl (hbc.trans hab)
    · exact .inl (hbc ▸ hab)
  · rcases hbc with hbc | ⟨hbc, hbc'⟩
    · exact .inl (hab ▸ hbc)
    · exact .inr ⟨hab.trans hbc, hbc'.trans hab'⟩

variable {rows : List ρ} {row : ρ} {limit : Nat}

theorem newerBy_antisymm (hids : (rows.map idOf).Nodup) {a b : ρ} (ha : a ∈ rows) (hb : b ∈ rows)
    (hab : newerBy createdOf idOf a b = true) (hba : newerBy createdOf idOf b a = true) : a = b := by
  rw [newerBy_iff] at hab hba
  refine List.inj_on_of_nodup_map hids ha hb ?_
  have heq : createdOf a = createdOf b := by omega
  rcases hab with hab | ⟨-, hab⟩
  · exact absurd heq hab.ne'
  rcases hba with hba | ⟨-, hba⟩
  · exact absurd heq hba.ne
  exact le_antisymm hba hab

variable [DecidableEq ρ]

/-- A row stays if fewer rows than the limit are before it. -/
theorem mem_trimmed (hids : (rows.map idOf).Nodup) (hrow : row ∈ rows) :
    row ∈ trimmed createdOf idOf limit rows ↔
      (ahead (fun a b => newerBy createdOf idOf a b = true) row rows).length < limit := by
  rw [← mem_take_insertionSort hids.of_map (fun a ha b hb => newerBy_antisymm hids ha hb) hrow]
  have hperm := List.perm_insertionSort (fun a b => newerBy createdOf idOf a b = true) rows
  have hsorted : (rows.insertionSort fun a b => newerBy createdOf idOf a b = true).Nodup :=
    hperm.nodup_iff.mpr hids.of_map
  rw [← List.take_append_drop limit (rows.insertionSort _), List.nodup_append] at hsorted
  have hmem := hperm.mem_iff.mpr hrow
  rw [← List.take_append_drop limit (rows.insertionSort _), List.mem_append] at hmem
  unfold trimmed
  simp only [List.mem_filter, hrow, true_and, Bool.not_eq_true', List.contains_eq_mem,
    decide_eq_false_iff_not, List.mem_map, not_exists, not_and]
  constructor
  · intro h
    rcases hmem with hmem | hmem
    · exact hmem
    · exact absurd rfl (h row hmem)
  · intro h old hold hid
    have hold' : old ∈ rows := hperm.mem_iff.mp (List.mem_of_mem_drop hold)
    obtain rfl := List.inj_on_of_nodup_map hids hold' hrow hid
    exact hsorted.2.2 old h old hold rfl

/-- Which rows are before the latest one. -/
theorem ahead_latest (hids : (rows.map idOf).Nodup) (hrow : row ∈ rows)
    (hlatest : ∀ old ∈ rows, createdOf old ≤ createdOf row) :
    ahead (fun a b => newerBy createdOf idOf a b = true) row rows =
      rivals createdOf idOf row rows := by
  refine List.filter_congr fun old hold => decide_eq_decide.mpr ?_
  simp only [newerBy_iff]
  have hle := hlatest old hold
  constructor
  · rintro ⟨hnewer | ⟨heq, hid⟩, hne⟩
    · omega
    · refine ⟨heq, lt_of_le_of_ne hid fun hid => hne ?_⟩
      exact (List.inj_on_of_nodup_map hids hrow hold hid).symm
  · rintro ⟨heq, hid⟩
    refine ⟨.inr ⟨heq, hid.le⟩, ?_⟩
    rintro rfl
    exact lt_irrefl _ hid

omit [DecidableEq ρ] in
theorem isRival_own {old : ρ} (hold : idOf old = idOf row) :
    ¬ isRival createdOf idOf row old = true := by
  unfold isRival
  rw [decide_eq_true_eq, hold]
  exact fun h => lt_irrefl _ h.2

omit [DecidableEq ρ] in
theorem rivals_upsert : rivals createdOf idOf row (upsertRow idOf row rows) =
    rivals createdOf idOf row rows := by
  unfold upsertRow rivals
  split
  · clear * -
    induction rows with
    | nil => rfl
    | cons old rows ih =>
      rw [List.map_cons]
      by_cases hold : idOf old = idOf row
      · rw [if_pos hold, List.filter_cons_of_neg (isRival_own rfl),
          List.filter_cons_of_neg (isRival_own hold), ih]
      · rw [if_neg hold, List.filter_cons, List.filter_cons, ih]
  · rw [List.filter_append, List.filter_cons_of_neg (isRival_own rfl), List.filter_nil,
      List.append_nil]

omit [DecidableEq ρ] in
theorem mem_upsertRow_self : row ∈ upsertRow idOf row rows := by
  unfold upsertRow
  split
  · rename_i hany
    obtain ⟨old, hold, hid⟩ := List.any_eq_true.mp hany
    exact List.mem_map.mpr ⟨old, hold, if_pos (by simpa using hid)⟩
  · exact List.mem_append_right _ (List.mem_singleton_self _)

/-- A row that was just put in stays if and only if fewer rows than the limit are of its second and
have a larger identifier. -/
theorem mem_trimmed_upsert (hids : (rows.map idOf).Nodup)
    (hclock : ∀ old ∈ rows, createdOf old ≤ createdOf row) :
    row ∈ trimmed createdOf idOf limit (upsertRow idOf row rows) ↔
      (rivals createdOf idOf row rows).length < limit := by
  have hids' := @upsertRow_ids _ _ row _ hids
  rw [mem_trimmed hids' mem_upsertRow_self, ahead_latest hids' mem_upsertRow_self, rivals_upsert]
  intro old hold
  rcases mem_upsertRow hold with rfl | hold
  · exact le_refl _
  · exact hclock old hold

end LinguaMesh.Storage
