import Mathlib.Logic.Function.Basic

/-!
# Tables with constraints

A database of named tables as SQLite keeps them: columns with an affinity, `NOT NULL`,
`CHECK`, a default and a reference, and a primary key in which a `NULL` equals nothing.
A statement is given by what it does to the schema (`Statement.schema`) and by what it
does to the rows (`Statement.rows`). `DROP TABLE` first deletes the rows of the table,
and with them every row that refers to a deleted one and cascades (`Database.doomed`);
`RENAME TO` rewrites the references to the table. What becomes of a value that is stored
in a column is a parameter (`Engine`).
-/

namespace LinguaMesh.Relational

inductive Value where
  | null
  | integer (i : Int)
  /-- The bits of the double. -/
  | real (bits : UInt64)
  | text (s : List Char)
  | blob (bytes : List UInt8)
  deriving DecidableEq, Repr

inductive Affinity where
  | text | integer | blob
  deriving DecidableEq, Repr

/-- Values that every engine keeps as they are. -/
def Affinity.keeps : Affinity → Value → Bool
  | _, .null => true
  | .text, .text _ => true
  | .integer, .integer _ => true
  | .blob, _ => true
  | _, _ => false

/-- `store a v` is what is stored of `v` in a column of affinity `a`. -/
class Engine where
  store : Affinity → Value → Value

def Engine.Lawful [Engine] : Prop := ∀ a v, Affinity.keeps a v → Engine.store a v = v

inductive Failure where
  | noTable | tableExists | noColumn | duplicateColumn | indexExists | invalidDefault
  | notNull | check | unique | foreignKey
  deriving DecidableEq, Repr

/-! ## Definitions of tables -/

inductive Check where
  | oneOf (values : List Value)
  | atLeastZero
  deriving DecidableEq, Repr

/-- `>= 0`, where a text and a blob come after every number. -/
def Value.atLeastZero : Value → Bool
  | .integer i => 0 ≤ i
  | .real bits => bits ≤ 0x8000000000000000
  | _ => true

/-- A check of `NULL` is unknown, and fails only when it is false. -/
def Check.passes (check : Check) (v : Value) : Bool :=
  v == .null ||
    match check with
    | oneOf values => values.contains v
    | atLeastZero => v.atLeastZero

inductive Default where
  | value (v : Value)
  /-- `unixepoch()` -/
  | now
  deriving DecidableEq, Repr

def Default.eval (now : Value) : Default → Value
  | value v => v
  | .now => now

section

variable (N C I : Type)

/-- `REFERENCES parent(column)`, with or without `ON DELETE CASCADE`. -/
structure Reference where
  parent : N
  column : C
  cascades : Bool
  deriving DecidableEq, Repr

structure Column where
  name : C
  affinity : Affinity
  notNull : Bool
  check : Option Check
  default : Default
  references : Option (Reference N C)
  deriving DecidableEq, Repr

structure TableDef where
  columns : List (Column N C)
  primaryKey : List C
  deriving DecidableEq, Repr

structure Index where
  name : I
  table : N
  columns : List C
  deriving DecidableEq, Repr

structure Schema where
  tables : List (N × TableDef N C)
  indexes : List (Index N C I)
  deriving DecidableEq, Repr

/-- The values of a row, `NULL` where the table has no column. -/
abbrev Row := C → Value

structure Database where
  schema : Schema N C I
  rows : N → List (Row C)

inductive Statement where
  | createTable (ifNotExists : Bool) (name : N) (definition : TableDef N C)
  /-- `INSERT INTO target (columns) SELECT selected FROM source` -/
  | insertSelect (target : N) (columns : List C) (source : N) (selected : List C)
  | dropTable (name : N)
  | renameTable (name newName : N)
  | addColumn (table : N) (column : Column N C)
  | createIndex (ifNotExists : Bool) (index : Index N C I)

end

section Run

variable {N C I : Type} [DecidableEq N] [DecidableEq C] [DecidableEq I]

/-! ## Schemas -/

def TableDef.names (d : TableDef N C) : List C := d.columns.map (·.name)

def TableDef.column (d : TableDef N C) (c : C) : Option (Column N C) :=
  d.columns.find? (·.name == c)

def TableDef.add (d : TableDef N C) (column : Column N C) : TableDef N C :=
  { d with columns := d.columns ++ [column] }

/-- The references to `name` become references to `newName`. -/
def Column.redirect (name newName : N) (column : Column N C) : Column N C :=
  { column with references := column.references.map fun r =>
      if r.parent = name then { r with parent := newName } else r }

def TableDef.redirect (name newName : N) (d : TableDef N C) : TableDef N C :=
  { d with columns := d.columns.map (Column.redirect name newName) }

namespace Schema

def empty : Schema N C I := ⟨[], []⟩

def find (σ : Schema N C I) (name : N) : Option (TableDef N C) := σ.tables.lookup name

def drop (name : N) (σ : Schema N C I) : Schema N C I :=
  ⟨σ.tables.filter (·.1 != name), σ.indexes.filter (·.table != name)⟩

def rename (name newName : N) (σ : Schema N C I) : Schema N C I :=
  ⟨σ.tables.map fun e => (if e.1 = name then newName else e.1, e.2.redirect name newName),
    σ.indexes.map fun i => if i.table = name then { i with table := newName } else i⟩

def addColumn (table : N) (column : Column N C) (σ : Schema N C I) : Schema N C I :=
  { σ with tables := σ.tables.map fun e => (e.1, if e.1 = table then e.2.add column else e.2) }

end Schema

/-- The schema after a statement. -/
def Statement.schema (σ : Schema N C I) : Statement N C I → Except Failure (Schema N C I)
  | createTable ifNotExists name definition =>
    match σ.find name with
    | some _ => if ifNotExists then .ok σ else .error .tableExists
    | none => .ok { σ with tables := σ.tables ++ [(name, definition)] }
  | insertSelect target columns source selected =>
    match σ.find target, σ.find source with
    | some d, some d' =>
      if columns.all d.names.contains && selected.all d'.names.contains &&
          columns.length == selected.length then .ok σ
      else .error .noColumn
    | _, _ => .error .noTable
  | dropTable name => if (σ.find name).isSome then .ok (σ.drop name) else .error .noTable
  | renameTable name newName =>
    if (σ.find name).isNone then .error .noTable
    else if (σ.find newName).isSome then .error .tableExists
    else .ok (σ.rename name newName)
  | addColumn table column =>
    match σ.find table with
    | none => .error .noTable
    | some d =>
      if d.names.contains column.name then .error .duplicateColumn
      else .ok (σ.addColumn table column)
  | createIndex ifNotExists index =>
    if σ.indexes.any (·.name == index.name) then
      if ifNotExists then .ok σ else .error .indexExists
    else
      match σ.find index.table with
      | none => .error .noTable
      | some d =>
        if index.columns.all d.names.contains then
          .ok { σ with indexes := σ.indexes ++ [index] }
        else .error .noColumn

/-! ## Rows -/

def Column.violation (column : Column N C) (v : Value) : Option Failure :=
  if column.notNull && v == .null then some .notNull
  else if column.check.any (!·.passes v) then some .check
  else none

namespace TableDef

def violation (d : TableDef N C) (row : Row C) : Option Failure :=
  d.columns.findSome? fun column => column.violation (row column.name)

/-- The rows have one primary key. -/
def sameKey (d : TableDef N C) (row row' : Row C) : Bool :=
  !d.primaryKey.isEmpty && d.primaryKey.all fun c => row c != .null && row c == row' c

def insertRow (d : TableDef N C) (rows : List (Row C)) (row : Row C) :
    Except Failure (List (Row C)) :=
  match d.violation row with
  | some failure => .error failure
  | none => if rows.any (d.sameKey row) then .error .unique else .ok (rows ++ [row])

/-- Each reference of the row is `NULL` or has its parent. -/
def refers (d : TableDef N C) (rows : N → List (Row C)) (row : Row C) : Bool :=
  d.columns.all fun column =>
    match column.references with
    | none => true
    | some r => row column.name == .null || (rows r.parent).any fun p => p r.column == row column.name

/-- The row that an `INSERT` makes, with the defaults of the columns it does not name. -/
def insertion [Engine] (d : TableDef N C) (now : Value) (assigned : List (C × C)) (row : Row C) :
    Row C := fun c =>
  match d.column c with
  | none => .null
  | some column => Engine.store column.affinity
      (match assigned.lookup c with
      | some selected => row selected
      | none => column.default.eval now)

end TableDef

namespace Database

/-- Whether the row is deleted with the rows of `name`, after so many rounds of cascades. -/
def doomed (db : Database N C I) (name : N) : Nat → N → Row C → Bool
  | 0, table, _ => table == name
  | rounds + 1, table, row => table == name ||
    match db.schema.find table with
    | none => false
    | some d => d.columns.any fun column =>
      match column.references with
      | none => false
      | some r => r.cascades && row column.name != .null &&
        (db.rows r.parent).any fun p =>
          p r.column == row column.name && db.doomed name rounds r.parent p

/-- Each round deletes a row or is the last. -/
def rounds (db : Database N C I) : Nat := (db.schema.tables.flatMap fun e => db.rows e.1).length

/-- What is left of a table when the rows of `name` are deleted. -/
def spared (db : Database N C I) (name table : N) : List (Row C) :=
  (db.rows table).filter fun row => !db.doomed name db.rounds table row

/-- A row that is left refers to a deleted one. -/
def dangles (db : Database N C I) (name : N) : Bool :=
  db.schema.tables.any fun e => e.1 != name && (db.spared name e.1).any fun row =>
    e.2.columns.any fun column => column.references.any fun r => r.parent == name &&
      row column.name != .null && (db.rows name).any fun p => p r.column == row column.name

end Database

/-- The rows after a statement that the schema admits. -/
def Statement.rows [Engine] (now : Value) (db : Database N C I) :
    Statement N C I → Except Failure (N → List (Row C))
  | createTable _ name _ =>
    .ok (if (db.schema.find name).isSome then db.rows else Function.update db.rows name [])
  | insertSelect target columns source selected =>
    match db.schema.find target with
    | none => .error .noTable
    | some d =>
      let new := (db.rows source).map (d.insertion now (columns.zip selected))
      (new.foldlM d.insertRow (db.rows target)).bind fun rows =>
        let after := Function.update db.rows target rows
        if new.all (d.refers after) then .ok after else .error .foreignKey
  | dropTable name => if db.dangles name then .error .foreignKey else .ok (db.spared name)
  | renameTable name newName => .ok fun table =>
      if table = newName then db.rows name else if table = name then [] else db.rows table
  | addColumn table column =>
    match column.default with
    | .now => .error .invalidDefault
    | .value v =>
      if column.notNull && v == .null then .error .notNull
      else if column.references.isSome && v != .null then .error .invalidDefault
      else if !(db.rows table).isEmpty && column.check.any (!·.passes v) then .error .check
      else .ok (Function.update db.rows table ((db.rows table).map fun row =>
        Function.update row column.name (Engine.store column.affinity v)))
  | createIndex _ _ => .ok db.rows

def Database.exec [Engine] (now : Value) (db : Database N C I) (s : Statement N C I) :
    Except Failure (Database N C I) := do
  let schema ← s.schema db.schema
  let rows ← s.rows now db
  .ok ⟨schema, rows⟩

/-- The statements one after the other. -/
def Database.execAll [Engine] (now : Value) (db : Database N C I)
    (script : List (Statement N C I)) : Except Failure (Database N C I) :=
  script.foldlM (Database.exec now) db

end Run

end LinguaMesh.Relational
