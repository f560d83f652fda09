import LinguaMesh.Lib.Except
import LinguaMesh.Lib.Widening

/-!
# Scripts that keep tables

A check of a script against a schema: `keepsTables` runs the statements on the schema
alone and follows in which table the rows of an original table are. A script that
passes runs to its end over any rows that satisfy the constraints, and leaves in each
table that is followed the rows it had, each with the values it had and the default in
every column that the definition has got since (`execAll_keeps`).
-/

namespace LinguaMesh.Relational

variable {N C I : Type} [DecidableEq C]

/-! ## Following tables through a script -/

/-- What is known of the rows of a table. -/
inductive Fact (N : Type) where
  | blank
  /-- The rows of the original table, extended. -/
  | carries (origin : N)
  deriving DecidableEq, Repr

structure Track (N C I : Type) where
  schema : Schema N C I
  facts : N → Option (Fact N)

section Check

variable [DecidableEq N]

/-- The original table refers as the new one does, and the rows it refers to are followed. -/
def Track.parents (original : Schema N C I) (τ : Track N C I) (d0 d : TableDef N C) : Bool :=
  d.columns.all fun column =>
    match column.references with
    | none => true
    | some r =>
      match (d0.column column.name).bind (·.references) with
      | none => false
      | some r0 => r0.column == r.column && τ.facts r.parent == some (.carries r0.parent) &&
        (original.find r0.parent).any fun parent => parent.names.contains r.column

/-- The definition with the column is still wider than that of the rows it has. -/
def Track.staysWider (original : Schema N C I) (τ : Track N C I) (table : N)
    (column : Column N C) : Bool :=
  match τ.facts table, τ.schema.find table with
  | some (.carries origin), some d =>
    (original.find origin).all fun d0 => d0.widens (d.add column)
  | _, _ => true

/-- Some table refers to `name`. -/
def Schema.referred (σ : Schema N C I) (name : N) : Bool :=
  σ.tables.any fun e => e.2.columns.any fun column => column.references.any (·.parent == name)

/-- What is known after a statement, if it is sure to run; `σ` is the schema after it. -/
def Statement.facts (original : Schema N C I) (τ : Track N C I) (σ : Schema N C I) :
    Statement N C I → Option (N → Option (Fact N))
  | createTable _ name _ =>
    some (if (τ.schema.find name).isSome then τ.facts
      else Function.update τ.facts name (some .blank))
  | insertSelect target columns source selected =>
    match τ.facts target, τ.facts source, τ.schema.find target with
    | some .blank, some (.carries origin), some d =>
      match original.find origin with
      | none => none
      | some d0 =>
        if columns == selected && columns.all d0.names.contains && d0.names.all columns.contains &&
            d0.widens d && τ.parents original d0 d then
          some (Function.update τ.facts target (some (.carries origin)))
        else none
    | _, _, _ => none
  | dropTable name => if σ.referred name then none else some (Function.update τ.facts name none)
  | renameTable name newName =>
    some fun t => if t = newName then τ.facts name else if t = name then none else τ.facts t
  | addColumn table column =>
    if column.fills && column.references.isNone && τ.staysWider original table column then
      some τ.facts
    else none
  | createIndex _ _ => some τ.facts

variable [DecidableEq I]

def Track.step (original : Schema N C I) (τ : Track N C I) (s : Statement N C I) :
    Option (Track N C I) :=
  match s.schema τ.schema with
  | .error _ => none
  | .ok σ => (s.facts original τ σ).map fun facts => ⟨σ, facts⟩

/-- The tables that are followed are themselves at the start. -/
def Track.start (original : Schema N C I) (tables : List N) : Track N C I :=
  ⟨original, fun t =>
    match original.find t with
    | some d => if tables.contains t && d.widens d then some (.carries t) else none
    | none => none⟩

/-- At the end the table has its own rows, or is new and empty. -/
def Track.keeps (original : Schema N C I) (τ : Track N C I) (t : N) : Bool :=
  match original.find t, τ.schema.find t with
  | some d0, some d => τ.facts t == some (.carries t) && τ.parents original d0 d
  | none, some _ => τ.facts t == some .blank
  | none, none => true
  | some _, none => false

/-- The schema after a script that keeps the tables. -/
def Schema.keepsTables (original : Schema N C I) (tables : List N)
    (script : List (Statement N C I)) : Option (Schema N C I) :=
  (script.foldlM (Track.step original) (Track.start original tables)).bind fun τ =>
    if tables.all (τ.keeps original) then some τ.schema else none

end Check

/-! ## What the check says -/

section Sound

variable [DecidableEq N] [Engine]

/-- The rows of a table satisfy its constraints. -/
structure Sound (db : Database N C I) (t : N) (d : TableDef N C) : Prop where
  stored : ∀ row ∈ db.rows t, Stored d row
  distinct : (db.rows t).Pairwise fun row row' => d.sameKey row' row = false
  refers : ∀ row ∈ db.rows t, d.refers db.rows row

/-- The rows of `t` are those of the original table, extended. -/
structure Carried (db0 : Database N C I) (d0 d : TableDef N C) (origin : N) (rows : List (Row C)) :
    Prop where
  found : db0.schema.find origin = some d0
  sound : Sound db0 origin d0
  wider : Wider d0 d
  rows : rows = (db0.rows origin).map (d0.extend d)

/-- What a fact says of the rows of `t`. -/
def Knows (db0 : Database N C I) (σ : Schema N C I) (t : N) (rows : List (Row C)) :
    Fact N → Prop
  | .blank => rows = []
  | .carries origin => ∃ d0 d, σ.find t = some d ∧ Carried db0 d0 d origin rows

structure Follows (db0 db : Database N C I) (τ : Track N C I) : Prop where
  schema : db.schema = τ.schema
  known : ∀ t fact, τ.facts t = some fact → Knows db0 τ.schema t (db.rows t) fact

variable {db0 db : Database N C I} {τ τ' : Track N C I} {d0 d : TableDef N C} {t : N}

/-! ## Inserting -/

omit [DecidableEq N] [DecidableEq C] [Engine] in
theorem foldlM_insertRow (new rows : List (Row C)) (hadmitted : ∀ row ∈ new, d.violation row = none)
    (hdistinct : (rows ++ new).Pairwise fun row row' => d.sameKey row' row = false) :
    new.foldlM d.insertRow rows = .ok (rows ++ new) := by
  induction new generalizing rows with
  | nil =>
    rw [List.append_nil]
    rfl
  | cons row new ih =>
    have hany : rows.any (d.sameKey row) = false := by
      rw [List.any_eq_false]
      intro row' hrow'
      rw [Bool.not_eq_true]
      exact (List.pairwise_append.mp hdistinct).2.2 row' hrow' row List.mem_cons_self
    have hinsert : d.insertRow rows row = .ok (rows ++ [row]) := by
      unfold TableDef.insertRow
      rw [hadmitted row List.mem_cons_self]
      dsimp only
      rw [if_neg (by rw [hany]; exact Bool.false_ne_true)]
    rw [List.foldlM_cons, hinsert, Except.ok_bind, ih]
    · rw [List.append_assoc]
      rfl
    · exact fun row' hrow' => hadmitted row' (List.mem_cons_of_mem _ hrow')
    · rwa [List.append_assoc]

omit [DecidableEq N] [Engine] in
theorem lookup_zip_self (columns : List C) (c : C) :
    (columns.zip columns).lookup c = if c ∈ columns then some c else none := by
  induction columns with
  | nil => rfl
  | cons first columns ih =>
    rw [List.zip_cons_cons, lookup_cons_if, ih]
    by_cases hc : c = first
    · simp [hc]
    · simp [hc]

omit [DecidableEq N] in
/-- An `INSERT` that names the columns of a table on both sides makes the extended row. -/
theorem insertion_extend (hlawful : Engine.Lawful) (h : Wider d0 d) {columns : List C}
    (hcolumns : ∀ c, c ∈ columns ↔ c ∈ d0.names) {row row' : Row C} (hrow : Stored d0 row)
    (hsame : ∀ c ∈ d0.names, row' c = row c) (now : Value) :
    d.insertion now (columns.zip columns) row' = d0.extend d row := by
  have hstored := stored_extend hlawful h hrow
  funext c
  unfold TableDef.insertion
  cases hc : d.column c with
  | none => exact (hstored.outside c (column_none.mp hc)).symm
  | some column =>
    obtain ⟨hmem, hname⟩ := column_some hc
    dsimp only
    rw [lookup_zip_self]
    by_cases hold : c ∈ d0.names
    · rw [if_pos ((hcolumns c).mpr hold)]
      dsimp only
      have hkept := hstored.kept column hmem
      rw [hname, extend_old hold] at hkept
      rw [hsame c hold, extend_old hold, hkept]
    · rw [if_neg fun hin => hold ((hcolumns c).mp hin), extend_new hold hc]
      dsimp only
      obtain ⟨v, hv, hkeeps, -⟩ := fills_iff.mp (h.new column hmem (hname ▸ column_none.mpr hold))
      rw [hv]
      exact hlawful _ _ hkeeps

/-- An extended row refers to what the original one does. -/
theorem refers_extend (hf : Follows db0 db τ) (hparents : τ.parents db0.schema d0 d)
    {rows : N → List (Row C)}
    (hrows : ∀ t origin, τ.facts t = some (.carries origin) → rows t = db.rows t)
    {row : Row C} (hrow : d0.refers db0.rows row) : d.refers rows (d0.extend d row) := by
  unfold TableDef.refers at hrow ⊢
  rw [List.all_eq_true] at hrow ⊢
  intro column hcolumn
  have hcheck := List.all_eq_true.mp hparents column hcolumn
  cases hr : column.references with
  | none => rfl
  | some r =>
    rw [hr] at hcheck
    cases hold : d0.column column.name with
    | none =>
      rw [hold] at hcheck
      cases hcheck
    | some column0 =>
      rw [hold, Option.bind_some] at hcheck
      obtain ⟨hmem, hname⟩ := column_some hold
      have hin : column.name ∈ d0.names := hname ▸ mem_names hmem
      cases hr0 : column0.references with
      | none =>
        rw [hr0] at hcheck
        cases hcheck
      | some r0 =>
        rw [hr0] at hcheck
        simp only [Bool.and_eq_true, beq_iff_eq, Option.any_eq_true, List.contains_iff_mem] at hcheck
        obtain ⟨⟨hsame, hfact⟩, parent0, hfound, hkey⟩ := hcheck
        obtain ⟨parent0', parent, -, hcarried⟩ := hf.known _ _ hfact
        cases hfound.symm.trans hcarried.found
        have href := hrow column0 hmem
        rw [hr0] at href
        simp only [Bool.or_eq_true, beq_iff_eq, List.any_eq_true] at href ⊢
        rw [extend_old hin, ← hname]
        refine href.imp_right fun ⟨p, hp, hpkey⟩ => ⟨parent0.extend parent p, ?_, ?_⟩
        · rw [hrows _ _ hfact, hcarried.rows]
          exact List.mem_map_of_mem hp
        · rw [extend_old hkey, ← hsame]
          exact hpkey

theorem Carried.stored (hlawful : Engine.Lawful) {origin : N} {rows : List (Row C)}
    (h : Carried db0 d0 d origin rows) : ∀ row ∈ rows, Stored d row := by
  rw [h.rows]
  intro row hrow
  obtain ⟨row0, hrow0, rfl⟩ := List.mem_map.mp hrow
  exact stored_extend hlawful h.wider (h.sound.stored row0 hrow0)

theorem Carried.distinct {origin : N} {rows : List (Row C)} (h : Carried db0 d0 d origin rows) :
    rows.Pairwise fun row row' => d.sameKey row' row = false := by
  rw [h.rows, List.pairwise_map]
  exact h.sound.distinct.imp fun hrow => (sameKey_extend h.wider _ _).trans hrow

/-! ## Each statement -/

variable [DecidableEq I] {σ : Schema N C I} {facts : N → Option (Fact N)} {name newName table : N}

/-- The rows after a statement, and what is known of them. -/
def Runs (now : Value) (s : Statement N C I) (db0 db : Database N C I) (σ : Schema N C I)
    (facts : N → Option (Fact N)) : Prop :=
  ∃ rows, s.rows now db = .ok rows ∧ Follows db0 ⟨σ, rows⟩ ⟨σ, facts⟩

variable {now : Value}

omit [DecidableEq I] in
theorem follows_of {rows : N → List (Row C)}
    (h : ∀ t fact, facts t = some fact → Knows db0 σ t (rows t) fact) :
    Follows db0 ⟨σ, rows⟩ ⟨σ, facts⟩ := ⟨rfl, h⟩

omit [DecidableEq I] in
/-- What is known of a table depends on its definition only. -/
theorem Knows.frame {σ' : Schema N C I} {rows : List (Row C)} {fact : Fact N}
    (h : Knows db0 σ t rows fact) (hfind : σ'.find t = σ.find t) : Knows db0 σ' t rows fact := by
  cases fact with
  | blank => exact h
  | carries origin =>
    obtain ⟨d0, d, hd, hcarried⟩ := h
    exact ⟨d0, d, hfind.trans hd, hcarried⟩

theorem runs_createTable {ifNotExists : Bool} (hf : Follows db0 db τ)
    (hs : (Statement.createTable ifNotExists name d).schema τ.schema = .ok σ)
    (hfacts : (Statement.createTable ifNotExists name d).facts db0.schema τ σ = some facts) :
    Runs now (.createTable ifNotExists name d) db0 db σ facts := by
  refine ⟨_, rfl, follows_of ?_⟩
  cases hfacts
  rw [hf.schema]
  cases hfind : τ.schema.find name with
  | some d' =>
    simp only [Statement.schema, hfind] at hs
    split at hs
    · cases hs
      exact hf.known
    · cases hs
  | none =>
    simp only [Statement.schema, hfind] at hs
    cases hs
    rw [if_neg (by simp), if_neg (by simp)]
    intro t fact ht
    by_cases hname : t = name
    · subst hname
      rw [Function.update_self] at ht ⊢
      cases ht
      rfl
    · rw [Function.update_of_ne hname] at ht ⊢
      refine (hf.known t fact ht).frame ?_
      rw [find_create hfind, if_neg hname]

theorem runs_createIndex {ifNotExists : Bool} {index : Index N C I} (hf : Follows db0 db τ)
    (hs : (Statement.createIndex ifNotExists index).schema τ.schema = .ok σ)
    (hfacts : (Statement.createIndex ifNotExists index).facts db0.schema τ σ = some facts) :
    Runs now (.createIndex ifNotExists index) db0 db σ facts := by
  refine ⟨_, rfl, follows_of fun t fact ht => ?_⟩
  cases hfacts
  have htables : σ.tables = τ.schema.tables := by
    unfold Statement.schema at hs
    dsimp only at hs
    split at hs
    · split at hs
      · cases hs
        rfl
      · cases hs
    · split at hs
      · cases hs
      · split at hs
        · cases hs
          rfl
        · cases hs
  refine (hf.known t fact ht).frame ?_
  unfold Schema.find
  rw [htables]

omit [Engine] in
theorem insertSelect_schema {target source : N} {columns selected : List C}
    (hs : (Statement.insertSelect target columns source selected).schema τ.schema = .ok σ) :
    σ = τ.schema := by
  simp only [Statement.schema] at hs
  split at hs
  · split at hs
    · cases hs
      rfl
    · cases hs
  · cases hs

omit [Engine] [DecidableEq I] in
/-- What is checked of an `INSERT` with a `SELECT`. -/
theorem insertSelect_facts {σ0 : Schema N C I} {target source : N} {columns selected : List C}
    (h : (Statement.insertSelect target columns source selected).facts σ0 τ σ = some facts) :
    ∃ origin d d0, τ.facts target = some .blank ∧ τ.facts source = some (.carries origin) ∧
      τ.schema.find target = some d ∧ σ0.find origin = some d0 ∧ selected = columns ∧
      (∀ c, c ∈ columns ↔ c ∈ d0.names) ∧ Wider d0 d ∧ τ.parents σ0 d0 d = true ∧
      facts = Function.update τ.facts target (some (.carries origin)) := by
  simp only [Statement.facts] at h
  split at h
  · rename_i origin d htarget hsource hfind
    split at h
    · cases h
    · rename_i d0 horigin
      split at h
      · rename_i hcheck
        simp only [Bool.and_eq_true, beq_iff_eq, List.all_eq_true, List.contains_iff_mem,
          widens_iff] at hcheck
        obtain ⟨⟨⟨⟨hselected, hin⟩, hall⟩, hwider⟩, hparents⟩ := hcheck
        exact ⟨origin, d, d0, htarget, hsource, hfind, horigin, hselected.symm,
          fun c => ⟨hin c, hall c⟩, hwider, hparents, (Option.some.inj h).symm⟩
      · cases h
  · cases h

theorem runs_insertSelect {target source : N} {columns selected : List C}
    (hlawful : Engine.Lawful) (hf : Follows db0 db τ)
    (hs : (Statement.insertSelect target columns source selected).schema τ.schema = .ok σ)
    (hfacts : (Statement.insertSelect target columns source selected).facts db0.schema τ σ =
      some facts) :
    Runs now (.insertSelect target columns source selected) db0 db σ facts := by
  cases insertSelect_schema hs
  obtain ⟨origin, d, d0, htarget, hsource, hfind, horigin, rfl, hcolumns, hwider, hparents, rfl⟩ :=
    insertSelect_facts hfacts
  obtain ⟨d0', ds, -, hcarried⟩ := hf.known source _ hsource
  cases horigin.symm.trans hcarried.found
  -- the rows that are inserted
  have hnew : (db.rows source).map (d.insertion now (selected.zip selected)) =
      (db0.rows origin).map (d0.extend d) := by
    rw [hcarried.rows, List.map_map]
    refine List.map_congr_left fun row hrow => ?_
    exact insertion_extend hlawful hwider hcolumns (hcarried.sound.stored row hrow)
      (fun c hc => extend_old hc) now
  have hmoved : Carried db0 d0 d origin ((db0.rows origin).map (d0.extend d)) :=
    ⟨hcarried.found, hcarried.sound, hwider, rfl⟩
  have hinsert := foldlM_insertRow (d := d) ((db0.rows origin).map (d0.extend d)) []
    (fun row hrow => violation_eq_none.mpr (hmoved.stored hlawful row hrow).admitted)
    hmoved.distinct
  rw [List.nil_append] at hinsert
  have hblank : db.rows target = [] := hf.known target _ htarget
  have hrefers : ((db0.rows origin).map (d0.extend d)).all
      (d.refers (Function.update db.rows target ((db0.rows origin).map (d0.extend d)))) := by
    rw [List.all_eq_true]
    intro row hrow
    obtain ⟨row0, hrow0, rfl⟩ := List.mem_map.mp hrow
    refine refers_extend hf hparents (fun t o ht => ?_) (hcarried.sound.refers row0 hrow0)
    refine Function.update_of_ne (fun he => ?_) ..
    rw [he, htarget] at ht
    cases ht
  refine ⟨Function.update db.rows target ((db0.rows origin).map (d0.extend d)), ?_,
    follows_of fun t fact ht => ?_⟩
  · simp only [Statement.rows, hf.schema, hfind, hnew, hblank]
    rw [hinsert]
    exact if_pos hrefers
  · by_cases htt : t = target
    · subst htt
      rw [Function.update_self] at ht ⊢
      cases ht
      exact ⟨d0, d, hfind, hmoved⟩
    · rw [Function.update_of_ne htt] at ht ⊢
      exact hf.known t fact ht

/-! ## Dropping -/

omit [DecidableEq C] [Engine] [DecidableEq I] in
theorem not_referred {σ : Schema N C I} (h : σ.referred name = false) {t : N} {d : TableDef N C}
    (ht : (t, d) ∈ σ.tables) {column : Column N C} (hcolumn : column ∈ d.columns)
    {r : Reference N C} (hr : column.references = some r) : r.parent ≠ name := by
  intro he
  refine Bool.false_ne_true (h.symm.trans (List.any_eq_true.mpr ⟨(t, d), ht, ?_⟩))
  refine List.any_eq_true.mpr ⟨column, hcolumn, ?_⟩
  rw [hr, Option.any_some, he, beq_self_eq_true]

omit [DecidableEq C] [Engine] [DecidableEq I] in
/-- Where nothing refers to a table, its rows are deleted and no others. -/
theorem doomed_eq (h : (db.schema.drop name).referred name = false) (rounds : Nat) (t : N)
    (row : Row C) : db.doomed name rounds t row = (t == name) := by
  induction rounds generalizing t row with
  | zero => rfl
  | succ rounds ih =>
    unfold Database.doomed
    by_cases ht : t = name
    · rw [ht, beq_self_eq_true, Bool.true_or]
    · rw [beq_false_of_ne ht, Bool.false_or]
      cases hd : db.schema.find t with
      | none => rfl
      | some d =>
        have hmem : (t, d) ∈ (db.schema.drop name).tables :=
          List.mem_filter.mpr ⟨mem_of_find hd, bne_iff_ne.mpr ht⟩
        dsimp only
        rw [List.any_eq_false]
        intro column hcolumn
        cases hr : column.references with
        | none => exact Bool.false_ne_true
        | some r =>
          have hparent := not_referred h hmem hcolumn hr
          simp [ih, hparent]

omit [DecidableEq C] [Engine] [DecidableEq I] in
theorem spared_eq (h : (db.schema.drop name).referred name = false) (t : N) :
    db.spared name t = if t = name then [] else db.rows t := by
  unfold Database.spared
  simp only [doomed_eq h]
  by_cases ht : t = name
  · simp [ht]
  · simp [ht]

omit [DecidableEq C] [Engine] [DecidableEq I] in
theorem dangles_eq (h : (db.schema.drop name).referred name = false) : db.dangles name = false := by
  unfold Database.dangles
  rw [List.any_eq_false]
  intro e he
  by_cases hname : e.1 = name
  · simp [hname]
  · have hmem : e ∈ (db.schema.drop name).tables :=
      List.mem_filter.mpr ⟨he, bne_iff_ne.mpr hname⟩
    simp only [Bool.and_eq_true, not_and, List.any_eq_true, not_exists]
    intro _ row _ column hcolumn
    cases hr : column.references with
    | none => simp
    | some r => simp [not_referred h hmem hcolumn hr]

theorem runs_dropTable (hf : Follows db0 db τ)
    (hs : (Statement.dropTable name).schema τ.schema = .ok σ)
    (hfacts : (Statement.dropTable name).facts db0.schema τ σ = some facts) :
    Runs now (.dropTable name) db0 db σ facts := by
  simp only [Statement.schema] at hs
  split at hs
  · cases hs
    simp only [Statement.facts] at hfacts
    split at hfacts
    · cases hfacts
    · rename_i hreferred
      cases hfacts
      rw [Bool.not_eq_true, ← hf.schema] at hreferred
      refine ⟨db.spared name, ?_, follows_of fun t fact ht => ?_⟩
      · simp only [Statement.rows]
        rw [dangles_eq hreferred, if_neg Bool.false_ne_true]
      · by_cases hname : t = name
        · subst hname
          rw [Function.update_self] at ht
          cases ht
        · rw [Function.update_of_ne hname] at ht
          rw [spared_eq hreferred, if_neg hname]
          refine (hf.known t fact ht).frame ?_
          rw [find_drop, if_neg hname]
  · cases hs

/-! ## Renaming and adding -/

omit [DecidableEq I] in
theorem Knows.redirect (name newName : N) {σ σ' : Schema N C I} {t' : N} {rows : List (Row C)} {fact : Fact N}
    (h : Knows db0 σ t rows fact)
    (hfind : σ'.find t' = (σ.find t).map (TableDef.redirect name newName)) :
    Knows db0 σ' t' rows fact := by
  cases fact with
  | blank => exact h
  | carries origin =>
    obtain ⟨d0, d, hd, hcarried⟩ := h
    refine ⟨d0, d.redirect name newName, by rw [hfind, hd]; rfl, ?_⟩
    refine ⟨hcarried.found, hcarried.sound, wider_redirect hcarried.wider, ?_⟩
    rw [extend_redirect]
    exact hcarried.rows

theorem runs_renameTable (hf : Follows db0 db τ)
    (hs : (Statement.renameTable name newName).schema τ.schema = .ok σ)
    (hfacts : (Statement.renameTable name newName).facts db0.schema τ σ = some facts) :
    Runs now (.renameTable name newName) db0 db σ facts := by
  refine ⟨_, rfl, follows_of fun t fact ht => ?_⟩
  cases hfacts
  simp only [Statement.schema] at hs
  split at hs
  · cases hs
  · split at hs
    · cases hs
    · rename_i hnew
      cases hs
      rw [Option.not_isSome_iff_eq_none] at hnew
      dsimp only at ht
      split at ht
      · rename_i htn
        rw [if_pos htn]
        refine (hf.known name fact ht).redirect name newName ?_
        rw [find_rename hnew, if_pos htn]
      · rename_i htn
        split at ht
        · cases ht
        · rename_i hto
          rw [if_neg htn, if_neg hto]
          refine (hf.known t fact ht).redirect name newName ?_
          rw [find_rename hnew, if_neg htn, if_neg hto]

omit [DecidableEq N] [Engine] in
theorem add_column (column : Column N C) (h : column.name ∉ d.names) (c : C) :
    (d.add column).column c = if c = column.name then some column else d.column c := by
  unfold TableDef.add TableDef.column
  rw [List.find?_append]
  split
  · rename_i hc
    subst hc
    have hnone : d.columns.find? (·.name == column.name) = none := column_none.mpr h
    rw [hnone]
    simp
  · rename_i hc
    simp [Ne.symm hc]

omit [DecidableEq N] [Engine] in
/-- A row with the new column is the extended row. -/
theorem update_extend (hnames : ∀ c ∈ d0.names, c ∈ d.names) {column : Column N C}
    (h : column.name ∉ d.names) (row : Row C) :
    Function.update (d0.extend d row) column.name column.default.constant =
      d0.extend (d.add column) row := by
  funext c
  by_cases hc : c = column.name
  · subst hc
    rw [Function.update_self, extend_new (fun hold => h (hnames _ hold))
      ((add_column column h _).trans (if_pos rfl))]
  · rw [Function.update_of_ne hc]
    unfold TableDef.extend
    rw [add_column column h, if_neg hc]

theorem runs_addColumn {column : Column N C} (hlawful : Engine.Lawful) (hf : Follows db0 db τ)
    (hs : (Statement.addColumn table column).schema τ.schema = .ok σ)
    (hfacts : (Statement.addColumn table column).facts db0.schema τ σ = some facts) :
    Runs now (.addColumn table column) db0 db σ facts := by
  simp only [Statement.facts] at hfacts
  split at hfacts
  · rename_i hcheck
    cases hfacts
    simp only [Bool.and_eq_true, Option.isNone_iff_eq_none, fills_iff] at hcheck
    obtain ⟨⟨⟨v, hv, hkeeps, hadmits⟩, hreferences⟩, hwidens⟩ := hcheck
    have hrows : (Statement.addColumn table column).rows now db =
        .ok (Function.update db.rows table ((db.rows table).map fun row =>
          Function.update row column.name (Engine.store column.affinity v))) := by
      unfold Column.violation at hadmits
      split at hadmits
      · cases hadmits
      · rename_i hnull
        split at hadmits
        · cases hadmits
        · rename_i hpass
          rw [Bool.not_eq_true] at hpass
          simp only [Statement.rows, hv]
          rw [if_neg hnull, hreferences, if_neg (by simp), hpass, Bool.and_false,
            if_neg Bool.false_ne_true]
    simp only [Statement.schema] at hs
    split at hs
    · cases hs
    · rename_i d hfind
      split at hs
      · cases hs
      · rename_i hnew
        cases hs
        rw [List.contains_iff_mem] at hnew
        refine ⟨_, hrows, follows_of fun t fact ht => ?_⟩
        by_cases htt : t = table
        · subst htt
          rw [Function.update_self]
          cases fact with
          | blank =>
            have hblank : db.rows t = [] := hf.known t _ ht
            rw [hblank]
            rfl
          | carries origin =>
            obtain ⟨d0, d', hd, hcarried⟩ := hf.known t _ ht
            cases hfind.symm.trans hd
            simp only [Track.staysWider, ht, hfind, hcarried.found, Option.all_some] at hwidens
            refine ⟨d0, d.add column, ?_, hcarried.found, hcarried.sound, widens_iff.mp hwidens, ?_⟩
            · rw [find_addColumn, hfind, Option.map_some, if_pos rfl]
            · rw [hcarried.rows, List.map_map, hlawful _ _ hkeeps]
              refine List.map_congr_left fun row _ => ?_
              have hupdate := update_extend hcarried.wider.names hnew row
              rw [hv] at hupdate
              exact hupdate
        · rw [Function.update_of_ne htt]
          refine (hf.known t fact ht).frame ?_
          rw [find_addColumn]
          simp [htt]
  · cases hfacts

/-! ## Scripts -/

/-- A statement that passes the check runs, and what is known afterwards holds. -/
theorem exec_follows (hlawful : Engine.Lawful) (hf : Follows db0 db τ) {s : Statement N C I}
    (h : τ.step db0.schema s = some τ') (now : Value) :
    ∃ db', db.exec now s = .ok db' ∧ Follows db0 db' τ' := by
  unfold Track.step at h
  split at h
  · cases h
  · rename_i σ hs
    obtain ⟨facts, hfacts, rfl⟩ := Option.map_eq_some_iff.mp h
    have hruns : Runs now s db0 db σ facts := by
      cases s with
      | createTable ifNotExists name d => exact runs_createTable hf hs hfacts
      | insertSelect target columns source selected =>
        exact runs_insertSelect hlawful hf hs hfacts
      | dropTable name => exact runs_dropTable hf hs hfacts
      | renameTable name newName => exact runs_renameTable hf hs hfacts
      | addColumn table column => exact runs_addColumn hlawful hf hs hfacts
      | createIndex ifNotExists index => exact runs_createIndex hf hs hfacts
    obtain ⟨rows, hrows, hfollows⟩ := hruns
    refine ⟨⟨σ, rows⟩, ?_, hfollows⟩
    unfold Database.exec
    rw [hf.schema, hs, Except.ok_bind, hrows]
    rfl

theorem execAll_follows (hlawful : Engine.Lawful) (hf : Follows db0 db τ)
    {script : List (Statement N C I)} (h : script.foldlM (Track.step db0.schema) τ = some τ')
    (now : Value) : ∃ db', db.execAll now script = .ok db' ∧ Follows db0 db' τ' := by
  induction script generalizing db τ with
  | nil =>
    cases h
    exact ⟨db, rfl, hf⟩
  | cons s script ih =>
    rw [List.foldlM_cons] at h
    obtain ⟨τ1, hstep, h⟩ := Option.bind_eq_some_iff.mp h
    obtain ⟨db1, hexec, hf1⟩ := exec_follows hlawful hf hstep now
    obtain ⟨db', hall, hf'⟩ := ih hf1 h
    refine ⟨db', ?_, hf'⟩
    unfold Database.execAll at hall ⊢
    rw [List.foldlM_cons, hexec, Except.ok_bind]
    exact hall

/-! ## What a script keeps -/

/-- The rows of a table as rows of its definition in a later schema. -/
def carried (σ σ' : Schema N C I) (t : N) (rows : List (Row C)) : List (Row C) :=
  match σ.find t, σ'.find t with
  | some d, some d' => rows.map (d.extend d')
  | _, _ => []

/-- The table is still there, with all its columns. -/
def Grows (σ σ' : Schema N C I) (t : N) : Prop :=
  ∀ d, σ.find t = some d → ∃ d', σ'.find t = some d' ∧ ∀ c ∈ d.names, c ∈ d'.names

/-- A table that is there satisfies its constraints. -/
def Valid (db : Database N C I) (t : N) : Prop := ∀ d, db.schema.find t = some d → Sound db t d

omit [DecidableEq C] [Engine] [DecidableEq I] in
theorem Grows.refl (σ : Schema N C I) (t : N) : Grows σ σ t := fun d hd => ⟨d, hd, fun _ h => h⟩

omit [DecidableEq C] [Engine] [DecidableEq I] in
theorem Grows.trans {σ σ' σ'' : Schema N C I} (h : Grows σ σ' t) (h' : Grows σ' σ'' t) :
    Grows σ σ'' t := by
  intro d hd
  obtain ⟨d', hd', hnames⟩ := h d hd
  obtain ⟨d'', hd'', hnames'⟩ := h' d' hd'
  exact ⟨d'', hd'', fun c hc => hnames' c (hnames c hc)⟩

omit [DecidableEq N] [DecidableEq I] in
theorem map_extend_self {rows : List (Row C)} (h : ∀ row ∈ rows, Stored d row) :
    rows.map (d.extend d) = rows :=
  (List.map_congr_left fun row hrow => extend_self (h row hrow)).trans (List.map_id' rows)

omit [DecidableEq I] in
theorem start_follows {tables : List N} (hvalid : ∀ t ∈ tables, Valid db t) :
    Follows db db (Track.start db.schema tables) := by
  refine ⟨rfl, fun t fact ht => ?_⟩
  unfold Track.start at ht
  dsimp only at ht
  split at ht
  · rename_i d hd
    split at ht
    · rename_i hcheck
      cases ht
      simp only [Bool.and_eq_true, List.contains_iff_mem] at hcheck
      have hsound := hvalid t hcheck.1 d hd
      exact ⟨d, d, hd, hd, hsound, widens_iff.mp hcheck.2, (map_extend_self hsound.stored).symm⟩
    · cases ht
  · cases ht

/-- A script that passes the check runs over any valid tables; they keep their rows and stay
valid. -/
theorem execAll_keeps (hlawful : Engine.Lawful) {tables : List N}
    (hvalid : ∀ t ∈ tables, Valid db t) {script : List (Statement N C I)}
    (h : db.schema.keepsTables tables script = some σ) (now : Value) :
    ∃ db', db.execAll now script = .ok db' ∧ db'.schema = σ ∧ ∀ t ∈ tables,
      Valid db' t ∧ Grows db.schema σ t ∧
        ((σ.find t).isSome → db'.rows t = carried db.schema σ t (db.rows t)) ∧
        ∀ d d', db.schema.find t = some d → σ.find t = some d' → Wider d d' := by
  unfold Schema.keepsTables at h
  obtain ⟨τ, hscript, h⟩ := Option.bind_eq_some_iff.mp h
  split at h
  · rename_i hkeeps
    cases h
    obtain ⟨db', hall, hf⟩ := execAll_follows hlawful (start_follows hvalid) hscript now
    refine ⟨db', hall, hf.schema, fun t ht => ?_⟩
    have hkeep := List.all_eq_true.mp hkeeps t ht
    unfold Track.keeps at hkeep
    unfold Valid Grows carried
    rw [hf.schema]
    cases hold : db.schema.find t with
    | none =>
      rw [hold] at hkeep
      cases hnew : τ.schema.find t with
      | none =>
        refine ⟨fun _ h => ?_, fun _ h => ?_, fun h => ?_, fun _ _ h => ?_⟩ <;> cases h
      | some d' =>
        rw [hnew] at hkeep
        have hblank : db'.rows t = [] := hf.known t _ (beq_iff_eq.mp hkeep)
        refine ⟨fun d _ => ⟨?_, ?_, ?_⟩, fun _ h => ?_, fun _ => hblank, fun _ _ h => ?_⟩
        · rw [hblank]
          exact fun row hrow => absurd hrow List.not_mem_nil
        · rw [hblank]
          exact .nil
        · rw [hblank]
          exact fun row hrow => absurd hrow List.not_mem_nil
        · cases h
        · cases h
    | some d =>
      rw [hold] at hkeep
      cases hnew : τ.schema.find t with
      | none =>
        rw [hnew] at hkeep
        cases hkeep
      | some d' =>
        rw [hnew, Bool.and_eq_true, beq_iff_eq] at hkeep
        obtain ⟨hfact, hparents⟩ := hkeep
        obtain ⟨d0, d1, hfind, hcarried⟩ := hf.known t _ hfact
        cases hold.symm.trans hcarried.found
        cases hnew.symm.trans hfind
        refine ⟨fun d1 hd1 => ?_, fun d1 hd1 => ?_, fun _ => hcarried.rows, fun d1 d2 hd1 hd2 => ?_⟩
        · cases hd1
          refine ⟨hcarried.stored hlawful, hcarried.distinct, fun row hrow => ?_⟩
          rw [hcarried.rows] at hrow
          obtain ⟨row0, hrow0, rfl⟩ := List.mem_map.mp hrow
          exact refers_extend hf hparents (fun _ _ _ => rfl) (hcarried.sound.refers row0 hrow0)
        · cases hd1
          exact ⟨d', rfl, hcarried.wider.names⟩
        · cases hd1
          cases hd2
          exact hcarried.wider
  · cases h

omit [Engine] [DecidableEq I] in
/-- Two steps carry the rows as one does. -/
theorem carried_carried {σ σ' σ'' : Schema N C I} (h : Grows σ σ' t)
    (hwider : ∀ d d', σ'.find t = some d → σ''.find t = some d' → Wider d d')
    (rows : List (Row C)) :
    (σ'.find t).isSome → carried σ' σ'' t (carried σ σ' t rows) = carried σ σ'' t rows := by
  intro hsome
  obtain ⟨d', hd'⟩ := Option.isSome_iff_exists.mp hsome
  unfold carried
  rw [hd']
  cases hd : σ.find t with
  | none =>
    cases σ''.find t with
    | none => rfl
    | some d'' => rfl
  | some d =>
    cases hd'' : σ''.find t with
    | none => rfl
    | some d'' =>
      obtain ⟨d1, hd1, hnames⟩ := h d hd
      cases hd'.symm.trans hd1
      dsimp only
      rw [List.map_map]
      exact List.map_congr_left fun row _ => extend_extend hnames (hwider d' d'' hd' hd'')

end Sound

end LinguaMesh.Relational
