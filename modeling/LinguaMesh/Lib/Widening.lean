import LinguaMesh.Lib.Relational

/-!
# Wider definitions

A definition is wider than another one when it has its columns, no stricter, and others
with a constant default (`TableDef.widens`). A row is extended to a wider definition with
these defaults: what was stored stays stored (`stored_extend`), keys stay distinct
(`sameKey_extend`), and two extensions are one (`extend_extend`). Then what the
statements of a script do to the definitions of a schema.
-/

namespace LinguaMesh.Relational

variable {N C I : Type} [DecidableEq C]

/-! ## Wider definitions -/

def Default.constant : Default → Value
  | value v => v
  | now => .null

/-- Whatever passes the one check passes the other. -/
def Check.implies : Option Check → Option Check → Bool
  | _, none => true
  | some (.oneOf values), some (.oneOf values') => values.all values'.contains
  | some .atLeastZero, some .atLeastZero => true
  | _, _ => false

def Column.widens (old new : Column N C) : Bool :=
  new.affinity == old.affinity && (!new.notNull || old.notNull) &&
    Check.implies old.check new.check && new.default == old.default

/-- The default is a constant that the column admits. -/
def Column.fills (column : Column N C) : Bool :=
  match column.default with
  | .now => false
  | .value v => column.affinity.keeps v && (column.violation v).isNone

namespace TableDef

/-- A row of the old table as a row of the new one. -/
def extend (old new : TableDef N C) (row : Row C) : Row C := fun c =>
  if c ∈ old.names then row c
  else match new.column c with
    | none => .null
    | some column => column.default.constant

/-- The new table has the columns of the old one, no stricter, and others with a default. -/
def widens (old new : TableDef N C) : Bool :=
  decide new.names.Nodup && old.names.all new.names.contains &&
    old.primaryKey.all old.names.contains && new.primaryKey == old.primaryKey &&
    new.columns.all fun column =>
      match old.column column.name with
      | some column' => column'.widens column
      | none => column.fills

end TableDef

structure Stored [Engine] (d : TableDef N C) (row : Row C) : Prop where
  kept : ∀ column ∈ d.columns, Engine.store column.affinity (row column.name) = row column.name
  admitted : ∀ column ∈ d.columns, column.violation (row column.name) = none
  outside : ∀ c, c ∉ d.names → row c = .null

section Columns

variable {d d' : TableDef N C} {c : C} {column : Column N C}

theorem column_some (h : d.column c = some column) : column ∈ d.columns ∧ column.name = c := by
  unfold TableDef.column at h
  exact ⟨List.mem_of_find?_eq_some h, by simpa using List.find?_some h⟩

theorem column_none : d.column c = none ↔ c ∉ d.names := by
  unfold TableDef.column TableDef.names
  simp only [List.find?_eq_none, beq_iff_eq, List.mem_map, not_exists, not_and]

theorem column_isSome (h : c ∈ d.names) : ∃ column, d.column c = some column := by
  cases hc : d.column c with
  | none => exact absurd h (column_none.mp hc)
  | some column => exact ⟨column, rfl⟩

omit [DecidableEq C] in
theorem mem_names (h : column ∈ d.columns) : column.name ∈ d.names := List.mem_map_of_mem h

omit [DecidableEq C] in
theorem violation_eq_none {row : Row C} :
    d.violation row = none ↔ ∀ column ∈ d.columns, column.violation (row column.name) = none := by
  unfold TableDef.violation
  rw [List.findSome?_eq_none_iff]

theorem column_of_mem (hnodup : d.names.Nodup) (h : column ∈ d.columns) :
    d.column column.name = some column := by
  obtain ⟨columns, key⟩ := d
  induction columns with
  | nil => cases h
  | cons first columns ih =>
    obtain ⟨hfirst, hrest⟩ := List.nodup_cons.mp hnodup
    unfold TableDef.column
    rw [List.find?_cons]
    rcases List.mem_cons.mp h with rfl | h
    · rw [beq_self_eq_true]
    · have hne : first.name ≠ column.name := fun he => hfirst (List.mem_map.mpr ⟨column, h, he.symm⟩)
      rw [beq_false_of_ne hne]
      exact ih hrest h

/-- What `widens` says, check by check. -/
structure Wider (d d' : TableDef N C) : Prop where
  nodup : d'.names.Nodup
  names : ∀ c ∈ d.names, c ∈ d'.names
  key : ∀ c ∈ d.primaryKey, c ∈ d.names
  sameKey : d'.primaryKey = d.primaryKey
  old : ∀ column ∈ d'.columns, ∀ column', d.column column.name = some column' →
    column'.widens column
  new : ∀ column ∈ d'.columns, d.column column.name = none → column.fills

theorem widens_iff : d.widens d' ↔ Wider d d' := by
  unfold TableDef.widens
  simp only [Bool.and_eq_true, decide_eq_true_eq, List.all_eq_true, List.contains_iff_mem,
    beq_iff_eq]
  constructor
  · rintro ⟨⟨⟨⟨hnodup, hnames⟩, hkey⟩, hsame⟩, hcolumns⟩
    refine ⟨hnodup, hnames, hkey, hsame, fun column hc column' h => ?_, fun column hc h => ?_⟩
    · have hcolumn := hcolumns column hc
      rwa [h] at hcolumn
    · have hcolumn := hcolumns column hc
      rwa [h] at hcolumn
  · rintro ⟨hnodup, hnames, hkey, hsame, hold, hnew⟩
    refine ⟨⟨⟨⟨hnodup, hnames⟩, hkey⟩, hsame⟩, fun column hc => ?_⟩
    cases h : d.column column.name with
    | none => exact hnew column hc h
    | some column' => exact hold column hc column' h

omit [DecidableEq C] in
theorem fills_iff : column.fills ↔ ∃ v, column.default = .value v ∧ column.affinity.keeps v ∧
    column.violation v = none := by
  unfold Column.fills
  cases column.default with
  | now => simp
  | value v => simp

theorem passes_of_implies {check check' : Option Check} {v : Value}
    (h : Check.implies check check') (hpass : check.any (!·.passes v) = false) :
    check'.any (!·.passes v) = false := by
  unfold Check.implies at h
  split at h
  · rfl
  · rename_i values values'
    simp only [Option.any_some, Bool.not_eq_false', Check.passes, Bool.or_eq_true,
      List.contains_iff_mem] at hpass ⊢
    exact hpass.imp_right fun hmem => List.contains_iff_mem.mp (List.all_eq_true.mp h v hmem)
  · exact hpass
  · cases h

omit [DecidableEq C] in
/-- What the old column admits the new one does. -/
theorem admitted_of_widens {column' : Column N C} {v : Value} (h : column.widens column')
    (hv : column.violation v = none) : column'.violation v = none := by
  unfold Column.widens at h
  simp only [Bool.and_eq_true, beq_iff_eq, Bool.or_eq_true, Bool.not_eq_true'] at h
  obtain ⟨⟨⟨-, hnull⟩, hcheck⟩, -⟩ := h
  unfold Column.violation at hv ⊢
  split at hv
  · cases hv
  · rename_i hnotNull
    split at hv
    · cases hv
    · rename_i hpass
      rw [if_neg, if_neg]
      · rw [Bool.not_eq_true] at hpass ⊢
        exact passes_of_implies hcheck hpass
      · rcases hnull with hnull | hnull
        · simp [hnull]
        · rw [hnull, Bool.true_and] at hnotNull
          simp [hnotNull]

omit [DecidableEq C] in
theorem widens_parts {column' : Column N C} (h : column.widens column') :
    column'.affinity = column.affinity ∧ column'.default = column.default := by
  unfold Column.widens at h
  simp only [Bool.and_eq_true, beq_iff_eq] at h
  exact ⟨h.1.1.1, h.2⟩

/-! ## Extended rows -/

variable {row : Row C}

theorem extend_old (h : c ∈ d.names) : d.extend d' row c = row c := if_pos h

theorem extend_new (h : c ∉ d.names) (hc : d'.column c = some column) :
    d.extend d' row c = column.default.constant := by
  unfold TableDef.extend
  rw [if_neg h, hc]

theorem extend_outside (h : c ∉ d.names) (h' : c ∉ d'.names) : d.extend d' row c = .null := by
  unfold TableDef.extend
  rw [if_neg h, column_none.mpr h']

variable [Engine]

theorem extend_self (h : Stored d row) : d.extend d row = row := by
  funext c
  by_cases hc : c ∈ d.names
  · exact extend_old hc
  · rw [extend_outside hc hc, h.outside c hc]

omit [Engine] in
/-- Two extensions are one. -/
theorem extend_extend {d'' : TableDef N C} (hnames : ∀ c ∈ d.names, c ∈ d'.names)
    (h : Wider d' d'') : d'.extend d'' (d.extend d' row) = d.extend d'' row := by
  funext c
  by_cases hc' : c ∈ d'.names
  · rw [extend_old hc']
    by_cases hc : c ∈ d.names
    · rw [extend_old hc, extend_old hc]
    · obtain ⟨column', hcolumn'⟩ := column_isSome hc'
      obtain ⟨column'', hcolumn''⟩ := column_isSome (h.names c hc')
      obtain ⟨hmem, hname⟩ := column_some hcolumn''
      obtain ⟨-, hdefault⟩ := widens_parts (h.old column'' hmem column' (hname ▸ hcolumn'))
      rw [extend_new hc hcolumn', extend_new hc hcolumn'', hdefault]
  · have hc : c ∉ d.names := fun hc => hc' (hnames c hc)
    unfold TableDef.extend
    rw [if_neg hc', if_neg hc]

theorem stored_extend (hlawful : Engine.Lawful) (h : Wider d d') (hrow : Stored d row) :
    Stored d' (d.extend d' row) := by
  refine ⟨fun column hcolumn => ?_, fun column hcolumn => ?_, fun c hc => ?_⟩
  · cases hold : d.column column.name with
    | some column' =>
      obtain ⟨hmem, hname⟩ := column_some hold
      rw [extend_old (hname ▸ mem_names hmem),
        (widens_parts (h.old column hcolumn column' hold)).1, ← hname]
      exact hrow.kept column' hmem
    | none =>
      obtain ⟨v, hv, hkeeps, -⟩ := fills_iff.mp (h.new column hcolumn hold)
      rw [extend_new (column_none.mp hold) (column_of_mem h.nodup hcolumn), hv]
      exact hlawful _ _ hkeeps
  · cases hold : d.column column.name with
    | some column' =>
      obtain ⟨hmem, hname⟩ := column_some hold
      rw [extend_old (hname ▸ mem_names hmem), ← hname]
      exact admitted_of_widens (h.old column hcolumn column' hold) (hrow.admitted column' hmem)
    | none =>
      obtain ⟨v, hv, -, hadmits⟩ := fills_iff.mp (h.new column hcolumn hold)
      rw [extend_new (column_none.mp hold) (column_of_mem h.nodup hcolumn), hv]
      exact hadmits
  · exact extend_outside (fun hold => hc (h.names c hold)) hc

omit [Engine] in
theorem sameKey_extend (h : Wider d d') (row row' : Row C) :
    d'.sameKey (d.extend d' row) (d.extend d' row') = d.sameKey row row' := by
  unfold TableDef.sameKey
  rw [h.sameKey]
  congr 1
  rw [Bool.eq_iff_iff, List.all_eq_true, List.all_eq_true]
  refine forall₂_congr fun c hc => ?_
  rw [extend_old (h.key c hc), extend_old (h.key c hc)]

end Columns

/-! ## Schemas -/

section Schemas

variable [DecidableEq N] {σ : Schema N C I} {name newName table : N}

theorem lookup_cons_if {β : Type} (t : N) (e : N × β) (l : List (N × β)) :
    (e :: l).lookup t = if t = e.1 then some e.2 else l.lookup t := by
  obtain ⟨n, b⟩ := e
  by_cases h : t = n
  · rw [h, List.lookup_cons_self, if_pos rfl]
  · rw [List.lookup_cons, beq_false_of_ne h, if_neg h]

omit [DecidableEq C] in
theorem find_create (h : σ.find name = none) (d : TableDef N C) (t : N) :
    ({ σ with tables := σ.tables ++ [(name, d)] } : Schema N C I).find t =
      if t = name then some d else σ.find t := by
  unfold Schema.find at h ⊢
  rw [List.lookup_append, lookup_cons_if]
  by_cases ht : t = name
  · simp [ht, h]
  · simp [ht]

omit [DecidableEq C] in
theorem find_drop (σ : Schema N C I) (t : N) :
    (σ.drop name).find t = if t = name then none else σ.find t := by
  obtain ⟨tables, indexes⟩ := σ
  unfold Schema.find Schema.drop
  dsimp only
  induction tables with
  | nil => simp
  | cons e tables ih =>
    rw [List.filter_cons, lookup_cons_if]
    by_cases he : e.1 = name
    · rw [if_neg (by simp [he]), ih]
      by_cases ht : t = name
      · simp [ht]
      · simp [ht, he]
    · rw [if_pos (bne_iff_ne.mpr he), lookup_cons_if, ih]
      by_cases ht : t = e.1
      · simp [ht, he]
      · simp [ht]

omit [DecidableEq C] in
theorem find_rename (hnew : σ.find newName = none) (t : N) :
    (σ.rename name newName).find t =
      if t = newName then (σ.find name).map (TableDef.redirect name newName)
      else if t = name then none else (σ.find t).map (TableDef.redirect name newName) := by
  obtain ⟨tables, indexes⟩ := σ
  unfold Schema.find Schema.rename at *
  dsimp only at *
  induction tables with
  | nil => simp
  | cons e tables ih =>
    rw [lookup_cons_if] at hnew
    have hne : newName ≠ e.1 := by
      intro he
      rw [if_pos he] at hnew
      cases hnew
    rw [if_neg hne] at hnew
    rw [List.map_cons, lookup_cons_if, ih hnew, lookup_cons_if, lookup_cons_if]
    by_cases he : e.1 = name
    · subst he
      by_cases ht : t = newName
      · simp [ht]
      · by_cases hte : t = e.1
        · simp [hte, hne.symm]
        · simp [ht, hte]
    · by_cases ht : t = e.1
      · simp [ht, he, hne.symm]
      · simp [ht, he, Ne.symm he]

omit [DecidableEq C] in
theorem find_addColumn (column : Column N C) (t : N) :
    (σ.addColumn table column).find t =
      (σ.find t).map fun d => if t = table then d.add column else d := by
  obtain ⟨tables, indexes⟩ := σ
  unfold Schema.find Schema.addColumn
  dsimp only
  induction tables with
  | nil => rfl
  | cons e tables ih =>
    rw [List.map_cons, lookup_cons_if, lookup_cons_if]
    by_cases ht : t = e.1
    · simp [ht]
    · rw [if_neg ht, if_neg ht]
      exact ih

omit [DecidableEq C] in
theorem mem_of_find {d : TableDef N C} (h : σ.find name = some d) : (name, d) ∈ σ.tables := by
  unfold Schema.find at h
  obtain ⟨l, l', hl, -⟩ := List.lookup_eq_some_iff.mp h
  rw [hl]
  exact List.mem_append_right l List.mem_cons_self

omit [DecidableEq C] in
theorem redirect_names (d : TableDef N C) : (d.redirect name newName).names = d.names := by
  unfold TableDef.names TableDef.redirect
  rw [List.map_map]
  rfl

theorem redirect_column (d : TableDef N C) (c : C) :
    (d.redirect name newName).column c = (d.column c).map (Column.redirect name newName) := by
  unfold TableDef.column TableDef.redirect
  rw [List.find?_map]
  rfl

theorem extend_redirect (d d' : TableDef N C) :
    d.extend (d'.redirect name newName) = d.extend d' := by
  funext row c
  unfold TableDef.extend
  rw [redirect_column]
  cases d'.column c with
  | none => rfl
  | some column => rfl

/-- Where a reference goes is no part of what a row can be. -/
theorem wider_redirect {d d' : TableDef N C} (h : Wider d d') :
    Wider d (d'.redirect name newName) := by
  refine ⟨?_, ?_, h.key, h.sameKey, ?_, ?_⟩
  · rw [redirect_names]
    exact h.nodup
  · rw [redirect_names]
    exact h.names
  · intro column hcolumn column' hold
    obtain ⟨column, hmem, rfl⟩ := List.mem_map.mp hcolumn
    exact h.old column hmem column' hold
  · intro column hcolumn hold
    obtain ⟨column, hmem, rfl⟩ := List.mem_map.mp hcolumn
    exact h.new column hmem hold

end Schemas

end LinguaMesh.Relational
