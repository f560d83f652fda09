import LinguaMesh.Lib.Histories
import Mathlib.Data.List.Sort
import Mathlib.Order.Lattice

/-!
# A shelf of dated entries

What a table with a primary key, a value and two times is for: under each key there is an entry or none
(`Shelf`). Saving puts an entry in or replaces its value, and keeps the time at which it was made;
there is room for a number of entries. `Lists`: a list has every entry once, the last one to be updated
first. `shelfDesign` is the design of such a store.

The table is a list of rows. `put` is `INSERT .. ON CONFLICT DO UPDATE`; `shelf` is what a table holds,
`Stocked` what its operations keep. `checkRoom` are the queries before a new row.
-/

namespace LinguaMesh.Shelves

open Transaction

variable {κ ν ε ρ : Type}

structure Entry (ν : Type) where
  value : ν
  createdAt : Int
  updatedAt : Int
  deriving DecidableEq, Repr

abbrev Shelf (κ ν : Type) : Type := κ → Option (Entry ν)

namespace Shelf

def empty : Shelf κ ν := fun _ => none

section Saving

variable [LinearOrder κ]

/-- The entry that saving leaves under a key. -/
def entryAfter (s : Shelf κ ν) (key : κ) (value : ν) (now : Int) : Entry ν :=
  ⟨value, ((s key).map Entry.createdAt).getD now, now⟩

def save (s : Shelf κ ν) (key : κ) (value : ν) (now : Int) : Shelf κ ν :=
  Function.update s key (some (s.entryAfter key value now))

def remove (s : Shelf κ ν) (key : κ) : Shelf κ ν := Function.update s key none

theorem save_self {s : Shelf κ ν} {key : κ} {value : ν} {now : Int} :
    s.save key value now key = some (s.entryAfter key value now) := Function.update_self ..

end Saving

end Shelf

/-! ## Listings -/

section Listings

variable [LinearOrder κ]

/-- `ORDER BY updated_at DESC, key ASC`. -/
def Before (a b : κ × Entry ν) : Prop :=
  b.2.updatedAt < a.2.updatedAt ∨ a.2.updatedAt = b.2.updatedAt ∧ a.1 < b.1

/-- The list has each entry of the shelf, in the order. -/
structure Lists (s : Shelf κ ν) (l : List (κ × Entry ν)) : Prop where
  mem : ∀ a, a ∈ l ↔ s a.1 = some a.2
  sorted : l.Pairwise Before

instance irrefl_before : Std.Irrefl (Before (κ := κ) (ν := ν)) where
  irrefl a h := by
    rcases h with h | ⟨-, h⟩
    · exact lt_irrefl _ h
    · exact lt_irrefl _ h

instance antisymm_before : Std.Antisymm (Before (κ := κ) (ν := ν)) where
  antisymm a b hab hba := by
    rcases hab with hab | ⟨hab, hkey⟩ <;> rcases hba with hba | ⟨hba, hkey'⟩
    · exact absurd hab hba.asymm
    · omega
    · omega
    · exact absurd hkey hkey'.asymm

/-- A shelf has one listing. -/
theorem Lists.unique {s : Shelf κ ν} {l l' : List (κ × Entry ν)} (h : Lists s l) (h' : Lists s l') :
    l = l' :=
  h.sorted.eq_of_mem_iff h'.sorted fun a => (h.mem a).trans (h'.mem a).symm

end Listings

/-! ## The design -/

inductive ShelfOp (κ ν : Type) where
  | save (key : κ) (value : ν) (now : Int)
  | remove (key : κ)
  | find (key : κ)
  | list

inductive ShelfAnswer (κ ν : Type) where
  | saved (entry : κ × Entry ν)
  | removed (known : Bool)
  | found (entry : Option (κ × Entry ν))
  | listed (entries : List (κ × Entry ν))

/-- What a store checks before it acts, how many entries it has room for and the error when it is full. -/
structure ShelfRules (ε κ ν : Type) where
  checkSave : κ → ν → Except ε Unit
  checkKey : κ → Except ε Unit
  limit : Nat
  full : ε

section Design

variable [LinearOrder κ]

/-- The key has an entry, or there are fewer entries than the limit. -/
def HasRoom (limit : Nat) (s : Shelf κ ν) (key : κ) : Prop :=
  (s key).isSome = true ∨ ∃ l, Lists s l ∧ l.length < limit

def ShelfOp.apply (s : Shelf κ ν) : ShelfOp κ ν → Shelf κ ν
  | .save key value now => s.save key value now
  | .remove key => s.remove key
  | .find _ | .list => s

variable (rules : ShelfRules ε κ ν)

inductive ShelfAnswers (s : Shelf κ ν) : ShelfOp κ ν → ShelfAnswer κ ν → Prop
  | saved {key : κ} {value : ν} {now : Int} :
    rules.checkSave key value = .ok () → HasRoom rules.limit s key →
    ShelfAnswers s (.save key value now) (.saved (key, s.entryAfter key value now))
  | removed {key : κ} : rules.checkKey key = .ok () →
    ShelfAnswers s (.remove key) (.removed (s key).isSome)
  | found {key : κ} : rules.checkKey key = .ok () →
    ShelfAnswers s (.find key) (.found ((s key).map (key, ·)))
  | listed {l : List (κ × Entry ν)} : Lists s l → l.length ≤ rules.limit →
    ShelfAnswers s .list (.listed l)

/-- A list is never refused. -/
inductive ShelfRefuses (s : Shelf κ ν) : ShelfOp κ ν → ε → Prop
  | save {key : κ} {value : ν} {now : Int} {e : ε} : rules.checkSave key value = .error e →
    ShelfRefuses s (.save key value now) e
  | full {key : κ} {value : ν} {now : Int} : rules.checkSave key value = .ok () →
    ¬ HasRoom rules.limit s key → ShelfRefuses s (.save key value now) rules.full
  | remove {key : κ} {e : ε} : rules.checkKey key = .error e → ShelfRefuses s (.remove key) e
  | find {key : κ} {e : ε} : rules.checkKey key = .error e → ShelfRefuses s (.find key) e

def shelfDesign : Design ε (Shelf κ ν) (ShelfOp κ ν) (ShelfAnswer κ ν) where
  apply := ShelfOp.apply
  Answers := ShelfAnswers rules
  Refuses := ShelfRefuses rules

end Design

/-! ## Tables -/

section Tables

variable [LinearOrder κ] (keyOf : ρ → κ) (updatedOf : ρ → Int) (load : ρ → Option (Entry ν))

def findRow (key : κ) (rows : List ρ) : Option ρ := rows.find? fun row => keyOf row = key

def removeRow (key : κ) (rows : List ρ) : List ρ := rows.filter fun row => keyOf row ≠ key

/-- `INSERT .. ON CONFLICT(key) DO UPDATE`: the rows with the key change, or there is a new one. -/
def put (key : κ) (change : ρ → ρ) (new : ρ) (rows : List ρ) : List ρ :=
  if rows.any fun row => keyOf row = key then
    rows.map fun row => if keyOf row = key then change row else row
  else rows ++ [new]

/-- `ORDER BY updated_at DESC, key ASC`, as a test of two rows. -/
def latestFirst (a b : ρ) : Bool :=
  updatedOf b < updatedOf a || (updatedOf a == updatedOf b && keyOf a ≤ keyOf b)

def sortedRows (rows : List ρ) : List ρ := rows.insertionSort fun a b => latestFirst keyOf updatedOf a b

/-- What is under a key in a table. -/
def shelf (rows : List ρ) : Shelf κ ν := fun key => (findRow keyOf key rows).bind load

/-- The entry of a row, with its key. -/
def shelved (row : ρ) : Option (κ × Entry ν) := (load row).map (keyOf row, ·)

structure Stocked (limit : Nat) (rows : List ρ) : Prop where
  unique : (rows.map keyOf).Nodup
  bounded : rows.length ≤ limit
  loads : ∀ row ∈ rows, ∃ entry, load row = some entry ∧ entry.updatedAt = updatedOf row

variable {keyOf updatedOf load} {limit : Nat} {rows : List ρ} {key : κ}

theorem findRow_key {row : ρ} (h : findRow keyOf key rows = some row) : keyOf row = key :=
  of_decide_eq_true (List.find?_some (p := fun row => keyOf row = key) h)

theorem findRow_mem {row : ρ} (h : findRow keyOf key rows = some row) : row ∈ rows :=
  List.mem_of_find?_eq_some h

theorem findRow_none : findRow keyOf key rows = none ↔ ∀ row ∈ rows, keyOf row ≠ key := by
  unfold findRow
  simp [List.find?_eq_none]

/-- With unique keys the row of a key is the one that has it. -/
theorem findRow_iff (h : (rows.map keyOf).Nodup) {row : ρ} :
    findRow keyOf key rows = some row ↔ row ∈ rows ∧ keyOf row = key := by
  refine ⟨fun hrow => ⟨findRow_mem hrow, findRow_key hrow⟩, fun ⟨hmem, hkey⟩ => ?_⟩
  cases hfound : findRow keyOf key rows with
  | none => exact absurd hkey (findRow_none.mp hfound row hmem)
  | some other =>
    have hsame : keyOf other = keyOf row := (findRow_key hfound).trans hkey.symm
    rw [List.inj_on_of_nodup_map h (findRow_mem hfound) hmem hsame]

theorem any_key : (rows.any fun row => keyOf row = key) = (findRow keyOf key rows).isSome := by
  unfold findRow
  rw [List.isSome_find?]

/-! ### A row that is put in -/

variable {change : ρ → ρ} {new : ρ}

/-- The row of a key after it was put in. -/
def putRow (keyOf : ρ → κ) (key : κ) (change : ρ → ρ) (new : ρ) (rows : List ρ) : ρ :=
  ((findRow keyOf key rows).map change).getD new

section Put

variable (hchange : ∀ row, keyOf row = key → keyOf (change row) = key) (hnew : keyOf new = key)

include hchange in
theorem key_change (row : ρ) : keyOf (if keyOf row = key then change row else row) = keyOf row := by
  split
  · rename_i hkey
    rw [hchange row hkey, hkey]
  · rfl

include hchange in
theorem find_changed (other : κ) :
    findRow keyOf other (rows.map fun row => if keyOf row = key then change row else row) =
      (findRow keyOf other rows).map fun row => if keyOf row = key then change row else row := by
  have htest : (fun row => decide (keyOf row = other)) ∘
      (fun row => if keyOf row = key then change row else row) = fun row => decide (keyOf row = other) := by
    funext row
    rw [Function.comp_apply, key_change hchange]
  unfold findRow
  rw [List.find?_map, htest]

include hchange hnew in
theorem findRow_put : findRow keyOf key (put keyOf key change new rows) =
    some (putRow keyOf key change new rows) := by
  unfold put putRow
  rw [any_key]
  cases hfound : findRow keyOf key rows with
  | none =>
    unfold findRow at hfound ⊢
    rw [if_neg (by simp), List.find?_append, hfound, Option.none_or]
    simp [hnew]
  | some row =>
    rw [Option.isSome_some, if_pos rfl, find_changed hchange, hfound, Option.map_some,
      if_pos (findRow_key hfound)]
    rfl

include hchange hnew in
/-- The other keys have the rows that they had. -/
theorem findRow_put_ne {other : κ} (hne : other ≠ key) :
    findRow keyOf other (put keyOf key change new rows) = findRow keyOf other rows := by
  unfold put
  split
  · rw [find_changed hchange]
    cases hfound : findRow keyOf other rows with
    | none => rfl
    | some row => rw [Option.map_some, if_neg (findRow_key hfound ▸ hne)]
  · unfold findRow
    rw [List.find?_append, List.find?_singleton]
    simp [hnew, hne.symm]

include hchange hnew in
theorem mem_put {row : ρ} (h : row ∈ put keyOf key change new rows) :
    row ∈ rows ∧ keyOf row ≠ key ∨ keyOf row = key := by
  unfold put at h
  split at h
  · obtain ⟨old, hold, rfl⟩ := List.mem_map.mp h
    by_cases hkey : keyOf old = key
    · rw [if_pos hkey]
      exact .inr (hchange old hkey)
    · rw [if_neg hkey]
      exact .inl ⟨hold, hkey⟩
  · rename_i hany
    rcases List.mem_append.mp h with hold | hrow
    · refine .inl ⟨hold, fun hkey => hany ?_⟩
      exact List.any_eq_true.mpr ⟨row, hold, decide_eq_true hkey⟩
    · rw [List.mem_singleton.mp hrow]
      exact .inr hnew

include hchange hnew in
theorem keys_put (h : (rows.map keyOf).Nodup) : ((put keyOf key change new rows).map keyOf).Nodup := by
  unfold put
  split
  · rw [List.map_map]
    have hkeys : keyOf ∘ (fun row => if keyOf row = key then change row else row) = keyOf :=
      funext fun row => key_change hchange row
    rwa [hkeys]
  · rename_i hany
    rw [List.map_append]
    refine List.nodup_append.mpr ⟨h, List.nodup_singleton _, fun a ha b hb heq => hany ?_⟩
    obtain ⟨row, hrow, rfl⟩ := List.mem_map.mp ha
    obtain rfl := List.mem_singleton.mp hb
    exact List.any_eq_true.mpr ⟨row, hrow, decide_eq_true (heq.trans hnew)⟩

theorem length_put : (put keyOf key change new rows).length =
    if (findRow keyOf key rows).isSome then rows.length else rows.length + 1 := by
  unfold put
  rw [any_key]
  split
  · rw [List.length_map]
  · rw [List.length_append]
    rfl

end Put

/-! ### What a table holds -/

/-- The rows of the other keys load as they did. -/
theorem shelf_eq_update {rows' : List ρ} {load' : ρ → Option (Entry ν)} {entry : Option (Entry ν)}
    (hself : (findRow keyOf key rows').bind load' = entry)
    (hother : ∀ other ≠ key, findRow keyOf other rows' = findRow keyOf other rows)
    (hload : ∀ row ∈ rows, keyOf row ≠ key → load' row = load row) :
    shelf keyOf load' rows' = Function.update (shelf keyOf load rows) key entry := by
  funext other
  unfold shelf
  by_cases hother' : other = key
  · rw [hother', Function.update_self, hself]
  · rw [Function.update_of_ne hother', hother other hother']
    cases hfound : findRow keyOf other rows with
    | none => rfl
    | some row => exact hload row (findRow_mem hfound) (findRow_key hfound ▸ hother')

theorem findRow_remove : findRow keyOf key (removeRow keyOf key rows) = none := by
  refine findRow_none.mpr fun row hrow => ?_
  exact of_decide_eq_true (List.mem_filter.mp hrow).2

theorem findRow_remove_ne {other : κ} (hne : other ≠ key) :
    findRow keyOf other (removeRow keyOf key rows) = findRow keyOf other rows := by
  unfold findRow removeRow
  rw [List.find?_filter]
  congr 1
  funext row
  by_cases hkey : keyOf row = other
  · simp [hkey, hne]
  · simp [hkey]

theorem Stocked.isSome (h : Stocked keyOf updatedOf load limit rows) (key : κ) :
    (shelf keyOf load rows key).isSome = (findRow keyOf key rows).isSome := by
  unfold shelf
  cases hfound : findRow keyOf key rows with
  | none => rfl
  | some row =>
    obtain ⟨entry, hentry, -⟩ := h.loads row (findRow_mem hfound)
    rw [Option.bind_some, hentry]
    rfl

/-! ### The listing -/

/-- The listing of a table. -/
def listing (keyOf : ρ → κ) (updatedOf : ρ → Int) (load : ρ → Option (Entry ν)) (rows : List ρ) :
    List (κ × Entry ν) :=
  (sortedRows keyOf updatedOf rows).filterMap (shelved keyOf load)

theorem latestFirst_iff {a b : ρ} : latestFirst keyOf updatedOf a b = true ↔
    updatedOf b < updatedOf a ∨ updatedOf a = updatedOf b ∧ keyOf a ≤ keyOf b := by
  simp [latestFirst]

instance total_latestFirst : Std.Total fun a b => latestFirst keyOf updatedOf a b = true := by
  refine ⟨fun a b => ?_⟩
  simp only [latestFirst_iff]
  rcases lt_trichotomy (updatedOf a) (updatedOf b) with h | h | h
  · exact .inr (.inl h)
  · exact (le_total (keyOf a) (keyOf b)).imp (fun hkey => .inr ⟨h, hkey⟩) fun hkey => .inr ⟨h.symm, hkey⟩
  · exact .inl (.inl h)

instance trans_latestFirst : IsTrans ρ fun a b => latestFirst keyOf updatedOf a b = true := by
  refine ⟨fun a b c hab hbc => ?_⟩
  rw [latestFirst_iff] at *
  rcases hab with hab | ⟨hab, hab'⟩
  · rcases hbc with hbc | ⟨hbc, -⟩
    · exact .inl (hbc.trans hab)
    · exact .inl (hbc ▸ hab)
  · rcases hbc with hbc | ⟨hbc, hbc'⟩
    · exact .inl (hab ▸ hbc)
    · exact .inr ⟨hab.trans hbc, hab'.trans hbc'⟩

theorem sortedRows_perm : (sortedRows keyOf updatedOf rows).Perm rows := List.perm_insertionSort ..

omit [LinearOrder κ] in
theorem shelved_iff {row : ρ} {a : κ × Entry ν} :
    shelved keyOf load row = some a ↔ load row = some a.2 ∧ keyOf row = a.1 := by
  unfold shelved
  rw [Option.map_eq_some_iff]
  constructor
  · rintro ⟨entry, hentry, rfl⟩
    exact ⟨hentry, rfl⟩
  · rintro ⟨hentry, hkey⟩
    exact ⟨a.2, hentry, Prod.ext hkey rfl⟩

/-- A stocked table is listed in full. -/
theorem Stocked.lists (h : Stocked keyOf updatedOf load limit rows) :
    Lists (shelf keyOf load rows) (listing keyOf updatedOf load rows) := by
  refine ⟨fun a => ?_, ?_⟩
  · unfold listing shelf
    rw [List.mem_filterMap]
    constructor
    · rintro ⟨row, hrow, ha⟩
      obtain ⟨hentry, hkey⟩ := shelved_iff.mp ha
      rw [(findRow_iff h.unique).mpr ⟨sortedRows_perm.mem_iff.mp hrow, hkey⟩]
      exact hentry
    · intro ha
      obtain ⟨row, hfound, hentry⟩ := Option.bind_eq_some_iff.mp ha
      refine ⟨row, sortedRows_perm.mem_iff.mpr (findRow_mem hfound), ?_⟩
      exact shelved_iff.mpr ⟨hentry, findRow_key hfound⟩
  · have hunique : ((sortedRows keyOf updatedOf rows).map keyOf).Nodup :=
      (sortedRows_perm.map keyOf).nodup_iff.mpr h.unique
    have hsorted : (sortedRows keyOf updatedOf rows).Pairwise fun a b =>
        latestFirst keyOf updatedOf a b = true := List.pairwise_insertionSort _ _
    have hboth := hsorted.and (List.pairwise_map.mp hunique)
    refine List.pairwise_filterMap.mpr (List.Pairwise.imp_of_mem (fun {a b} ha hb hab x hx y hy => ?_) hboth)
    obtain ⟨hx, hxkey⟩ := shelved_iff.mp hx
    obtain ⟨hy, hykey⟩ := shelved_iff.mp hy
    obtain ⟨entry, hentry, hdate⟩ := h.loads a (sortedRows_perm.mem_iff.mp ha)
    obtain ⟨entry', hentry', hdate'⟩ := h.loads b (sortedRows_perm.mem_iff.mp hb)
    obtain rfl := Option.some.inj (hentry.symm.trans hx)
    obtain rfl := Option.some.inj (hentry'.symm.trans hy)
    unfold Before
    rw [hdate, hdate', ← hxkey, ← hykey]
    refine (latestFirst_iff.mp hab.1).imp_right fun ⟨hsame, hle⟩ => ⟨hsame, ?_⟩
    exact lt_of_le_of_ne hle hab.2

theorem Stocked.length_listing (h : Stocked keyOf updatedOf load limit rows) :
    (listing keyOf updatedOf load rows).length = rows.length := by
  unfold listing
  rw [List.filterMap_length_eq_length.mpr, sortedRows_perm.length_eq]
  intro row hrow
  obtain ⟨entry, hentry, -⟩ := h.loads row (sortedRows_perm.mem_iff.mp hrow)
  rw [shelved, hentry]
  rfl

/-- There is room for a key that has a row, or while the table is not full. -/
theorem Stocked.hasRoom (h : Stocked keyOf updatedOf load limit rows) :
    HasRoom limit (shelf keyOf load rows) key ↔
      (findRow keyOf key rows).isSome = true ∨ rows.length < limit := by
  unfold HasRoom
  rw [h.isSome]
  refine or_congr_right ⟨?_, fun hlt => ?_⟩
  · rintro ⟨l, hl, hlt⟩
    rwa [hl.unique h.lists, h.length_listing] at hlt
  · exact ⟨_, h.lists, by rwa [h.length_listing]⟩

/-! ### What the operations keep -/

/-- A row is put in where there is room, and the other rows load as they did. -/
theorem Stocked.put {load' : ρ → Option (Entry ν)} {entry : Entry ν}
    (h : Stocked keyOf updatedOf load limit rows)
    (hchange : ∀ row, keyOf row = key → keyOf (change row) = key) (hnew : keyOf new = key)
    (hroom : (findRow keyOf key rows).isSome = true ∨ rows.length < limit)
    (hload : ∀ row ∈ rows, keyOf row ≠ key → load' row = load row)
    (hself : load' (putRow keyOf key change new rows) = some entry)
    (hdate : entry.updatedAt = updatedOf (putRow keyOf key change new rows)) :
    Stocked keyOf updatedOf load' limit (put keyOf key change new rows) ∧
      shelf keyOf load' (put keyOf key change new rows) =
        Function.update (shelf keyOf load rows) key (some entry) := by
  have hunique := keys_put hchange hnew h.unique
  refine ⟨⟨hunique, ?_, fun row hrow => ?_⟩, ?_⟩
  · have hbounded := h.bounded
    rw [length_put]
    split
    · exact hbounded
    · rename_i hnone
      have := hroom.resolve_left hnone
      omega
  · rcases mem_put hchange hnew hrow with ⟨hold, hne⟩ | hkey
    · rw [hload row hold hne]
      exact h.loads row hold
    · have hfound := (findRow_iff hunique).mpr ⟨hrow, hkey⟩
      rw [findRow_put hchange hnew] at hfound
      obtain rfl := Option.some.inj hfound
      exact ⟨entry, hself, hdate⟩
  · refine shelf_eq_update ?_ (fun other hne => findRow_put_ne hchange hnew hne) hload
    rw [findRow_put hchange hnew, Option.bind_some, hself]

theorem Stocked.remove {load' : ρ → Option (Entry ν)} (h : Stocked keyOf updatedOf load limit rows)
    (hload : ∀ row ∈ rows, keyOf row ≠ key → load' row = load row) :
    Stocked keyOf updatedOf load' limit (removeRow keyOf key rows) ∧
      shelf keyOf load' (removeRow keyOf key rows) = (shelf keyOf load rows).remove key := by
  refine ⟨⟨h.unique.sublist (List.filter_sublist.map _), ?_, fun row hrow => ?_⟩, ?_⟩
  · exact (List.length_filter_le _ _).trans h.bounded
  · obtain ⟨hold, hne⟩ := List.mem_filter.mp hrow
    rw [hload row hold (of_decide_eq_true hne)]
    exact h.loads row hold
  · refine shelf_eq_update ?_ (fun other hne => findRow_remove_ne hne) hload
    rw [findRow_remove]
    rfl

omit [LinearOrder κ] in
theorem stocked_nil : Stocked keyOf updatedOf load limit [] :=
  ⟨List.nodup_nil, Nat.zero_le _, nofun⟩

end Tables

/-! ## Programs -/

section Programs

variable {σ : Type} {known : σ → Bool} {count : σ → Nat} {limit : Nat} {full : ε} {db : σ}

/-- Whether the key has a row, and if not, whether there are fewer rows than the limit. -/
def checkRoom (known : σ → Bool) (count : σ → Nat) (limit : Nat) (full : ε) : Sql ε σ Unit := do
  let exists' ← query known
  if exists' then pure ()
  else do
    let rows ← query count
    if limit ≤ rows then giveUp full else pure ()

theorem readOnly_checkRoom : ReadOnly (checkRoom known count limit full) := by
  refine readOnly_bind (readOnly_query known) fun exists' => ?_
  split
  · exact readOnly_pure ()
  · refine readOnly_bind (readOnly_query count) fun rows => ?_
    split
    · exact readOnly_giveUp full
    · exact readOnly_pure ()

theorem run_checkRoom_ok (h : known db = true ∨ count db < limit) :
    checkRoom known count limit full db [] = (.ok (), db, []) := by
  unfold checkRoom
  rw [run_bind_ok (run_query known db)]
  split
  · rfl
  · rename_i hnew
    have hroom := h.resolve_left hnew
    rw [run_bind_ok (run_query count db), if_neg (Nat.not_le.mpr hroom)]
    rfl

theorem run_checkRoom_full (h : ¬ (known db = true ∨ count db < limit)) :
    checkRoom known count limit full db [] = (.error full, db, []) := by
  obtain ⟨hnew, hfull⟩ := not_or.mp h
  unfold checkRoom
  rw [run_bind_ok (run_query known db), if_neg hnew, run_bind_ok (run_query count db),
    if_pos (Nat.not_lt.mp hfull)]
  rfl

end Programs

end LinguaMesh.Shelves
