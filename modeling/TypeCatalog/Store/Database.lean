import TypeCatalog.Store.Cell
import TypeCatalog.Error

namespace TypeCatalog

inductive Table where
  | namespaces | sourceFiles | fileUsings | namedTypes | typeParameters | externalNamespaces
  | tupleElements | typeReferences | typeUsages
  deriving DecidableEq, Repr

inductive Affinity where
  | integer | text
  deriving DecidableEq, Repr

/-- A column; `refers` names the table whose row ids it holds. -/
structure Column where
  name : String
  affinity : Affinity
  required : Bool
  refers : Option Table
  deriving Repr

namespace Column

def integer (name : String) : Column := ⟨name, .integer, true, none⟩
def text (name : String) : Column := ⟨name, .text, true, none⟩
def link (name : String) (t : Table) : Column := ⟨name, .integer, true, some t⟩
def optional (c : Column) : Column := { c with required := false }

end Column

namespace Table

def all : List Table :=
  [namespaces, sourceFiles, fileUsings, namedTypes, typeParameters, externalNamespaces,
    tupleElements, typeReferences, typeUsages]

def name : Table → String
  | namespaces => "namespaces"
  | sourceFiles => "source_files"
  | fileUsings => "source_file_usings"
  | namedTypes => "named_types"
  | typeParameters => "type_parameters"
  | externalNamespaces => "external_type_namespaces"
  | tupleElements => "tuple_elements"
  | typeReferences => "type_references"
  | typeUsages => "type_usages"

def ofName? (s : String) : Option Table := all.find? (·.name == s)

open Column in
def columns : Table → List Column
  | namespaces => [integer "id", text "name", (link "parent_id" namespaces).optional]
  | sourceFiles => [integer "id", text "path"]
  | fileUsings => [link "file_id" sourceFiles, integer "ordinal", link "namespace_id" namespaces]
  | namedTypes =>
    [integer "id", text "kind", text "name", integer "arity", (text "full_name").optional,
      (link "namespace_id" namespaces).optional, (link "containing_type_id" namedTypes).optional,
      (text "decl_kind").optional, (text "accessibility").optional,
      (link "source_file_id" sourceFiles).optional, (link "declaring_type_id" namedTypes).optional,
      (integer "type_parameter_index").optional]
  | typeParameters =>
    [link "declaring_type_id" namedTypes, integer "ordinal", text "name", text "variance"]
  | externalNamespaces => [link "type_id" namedTypes, text "namespace"]
  | tupleElements =>
    [integer "id", link "tuple_id" namedTypes, integer "ordinal", text "name", integer "rank",
      link "element_type_id" namedTypes]
  | typeReferences =>
    [integer "id", link "named_type_id" namedTypes, integer "rank",
      (link "parent_id" typeReferences).optional]
  | typeUsages =>
    [integer "id", link "owner_type_id" namedTypes, link "reference_id" typeReferences, text "role",
      (text "member_name").optional]

/-- The column sets that no two rows may agree on, the primary key first, as positions. -/
def keys : Table → List (List Nat)
  | namespaces | sourceFiles => [[0], [1]]
  | fileUsings | typeParameters | externalNamespaces => [[0, 1]]
  | namedTypes | typeReferences | typeUsages => [[0]]
  | tupleElements => [[0], [1, 2]]

/-- Whether the first column is the row id itself. -/
def hasId : Table → Bool
  | fileUsings | typeParameters | externalNamespaces => false
  | _ => true

end Table

abbrev Row := List Cell

namespace Row

def cell (r : Row) (i : Nat) : Cell := r.getD i .null

def agree (key : List Nat) (r q : Row) : Bool := key.all fun i => r.cell i == q.cell i

/-- Whether `r` may stand before `q` when rows ascend in the given columns. -/
def before (key : List Nat) (r q : Row) : Bool :=
  match key.find? fun i => r.cell i != q.cell i with
  | some i => Cell.le (r.cell i) (q.cell i)
  | none => true

end Row

/-- The rows of every table, oldest first. -/
structure Database where
  namespaces : List Row := []
  sourceFiles : List Row := []
  fileUsings : List Row := []
  namedTypes : List Row := []
  typeParameters : List Row := []
  externalNamespaces : List Row := []
  tupleElements : List Row := []
  typeReferences : List Row := []
  typeUsages : List Row := []
  deriving DecidableEq, Repr

namespace Database

def rows (db : Database) : Table → List Row
  | .namespaces => db.namespaces
  | .sourceFiles => db.sourceFiles
  | .fileUsings => db.fileUsings
  | .namedTypes => db.namedTypes
  | .typeParameters => db.typeParameters
  | .externalNamespaces => db.externalNamespaces
  | .tupleElements => db.tupleElements
  | .typeReferences => db.typeReferences
  | .typeUsages => db.typeUsages

def setRows (db : Database) (t : Table) (rs : List Row) : Database :=
  match t with
  | .namespaces => { db with namespaces := rs }
  | .sourceFiles => { db with sourceFiles := rs }
  | .fileUsings => { db with fileUsings := rs }
  | .namedTypes => { db with namedTypes := rs }
  | .typeParameters => { db with typeParameters := rs }
  | .externalNamespaces => { db with externalNamespaces := rs }
  | .tupleElements => { db with tupleElements := rs }
  | .typeReferences => { db with typeReferences := rs }
  | .typeUsages => { db with typeUsages := rs }

/-- The key of `t` on which `row` agrees with one of `rs`. The first key is the primary one. -/
def clash? (t : Table) (rs : List Row) (row : Row) : Option DatabaseError :=
  (t.keys.zipIdx.find? fun (key, _) => rs.any (Row.agree key row)).map fun (key, n) =>
    let columns := ", ".intercalate (key.filterMap fun i => t.columns[i]?.map (t.name ++ "." ++ ·.name))
    if n = 0 then .primaryKey columns else .unique columns

/-- Whether every link of `row` that is not null leads to a row. -/
def linksHold (db : Database) (t : Table) (row : Row) : Bool :=
  (t.columns.zip row).all fun (c, cell) =>
    match c.refers with
    | some target => cell == .null || (db.rows target).any (·.cell 0 == cell)
    | none => true

/-- Adds a row at the end. Keys are checked before links, and a row may link to itself. -/
def insert (db : Database) (t : Table) (row : Row) : Except CatalogError Database :=
  match clash? t (db.rows t) row with
  | some e => .error (.database e)
  | none =>
    let grown := db.setRows t (db.rows t ++ [row])
    if linksHold grown t row then .ok grown
    else .error (.database .foreignKey)

/-- Adds a row unless one with the same key is there. -/
def insertNew (db : Database) (t : Table) (row : Row) : Except CatalogError Database :=
  if (clash? t (db.rows t) row).isSome then .ok db else db.insert t row

/-- Adds rows in order; the first that is refused refuses them all. -/
def insertAll (db : Database) (t : Table) (rs : List Row) : Except CatalogError Database :=
  rs.foldlM (fun db r => db.insert t r) db

/-- The rows of a table in ascending order of the given columns. -/
def ordered (db : Database) (t : Table) (key : List Nat) : List Row :=
  (db.rows t).mergeSort (Row.before key)

/-- What a column of this affinity stores for a value. -/
def stored (a : Affinity) (v : Cell) : Cell :=
  match a, v with
  | .integer, .text s =>
    match Numeral.ofText? s with
    | some x => x.cell
    | none => v
  | .text, .int n => .text (toString n)
  | _, v => v

def columnIndex? (t : Table) (name : String) : Option Nat :=
  t.columns.findIdx? (·.name == name)

/-- Sets one cell of a row after the checks of its column. -/
def assign (t : Table) (i : Nat) (c : Column) (v : Cell) (others : List Row) (row : Row) :
    Except CatalogError Row :=
  if t.hasId && i == 0 && !(v matches .int _) then .error (.database .mismatch)
  else if v = .null ∧ c.required then
    .error (.database (.notNull (t.name ++ "." ++ c.name)))
  else
    match clash? t others (row.set i v) with
    | some e => .error (.database e)
    | none => .ok (row.set i v)

/-- Sets a column in every chosen row, without checking links. `before` are the rows already passed. -/
def updateRows (t : Table) (i : Nat) (c : Column) (v : Cell) (chosen : Row → Bool) (before : List Row) :
    List Row → Except CatalogError (List Row × Nat)
  | [] => .ok (before, 0)
  | r :: rs =>
    if chosen r then do
      let r ← assign t i c v (before ++ rs) r
      let (rows, n) ← updateRows t i c v chosen (before ++ [r]) rs
      return (rows, n + 1)
    else updateRows t i c v chosen (before ++ [r]) rs

/-- A change made to the rows of a table whose column `key` holds `value`. -/
structure Edit where
  table : Table
  key : Nat
  value : Cell

/-- An edit of a table by its name and the name of its key column. -/
def Edit.ofNames? (table key : String) (value : Cell) : Option Edit := do
  let t ← Table.ofName? table
  return { table := t, key := ← columnIndex? t key, value }

/-- Whether the edit is about this row. The value is compared as the key column would store it, and
null equals nothing. -/
def Edit.selects (e : Edit) (r : Row) : Bool :=
  let value := e.table.columns[e.key]?.elim e.value fun c => stored c.affinity e.value
  value != .null && r.cell e.key == value

def setColumn (db : Database) (e : Edit) (column : Nat) (v : Cell) :
    Except CatalogError (Database × Nat) :=
  match e.table.columns[column]? with
  | none => .ok (db, 0)
  | some c => do
    let (rows, n) ←
      updateRows e.table column c (stored c.affinity v) e.selects [] (db.rows e.table)
    return (db.setRows e.table rows, n)

/-- Sets a column by its name. A name that no column has changes nothing. -/
def setNamed (db : Database) (e : Edit) (column : String) (v : Cell) :
    Except CatalogError (Database × Nat) :=
  match columnIndex? e.table column with
  | none => .ok (db, 0)
  | some i => db.setColumn e i v

def deleteRows (db : Database) (e : Edit) : Database × Nat :=
  let (gone, kept) := (db.rows e.table).partition e.selects
  (db.setRows e.table kept, gone.length)

end Database

end TypeCatalog
