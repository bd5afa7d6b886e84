import TypeCatalog.Row
import TypeCatalog.Store.Database

namespace TypeCatalog

/-- What a stored catalog holds when it is opened. References and usages stay in the store; only their
highest ids are read. -/
structure Loaded where
  namespaces : List Namespace
  files : List SourceFile
  named : List (TypeId × NamedType)
  elements : List TupleElement
  lastReference : Nat
  lastUsage : Nat

namespace Row

def wrongType (found : String) (i : Nat) (column : String) : CatalogError :=
  .database (.wrongType found i column)

/-- A 32-bit number in column `i`. -/
def getNat (r : Row) (i : Nat) (column : String) : Except CatalogError Nat :=
  match r.cell i with
  | .int n =>
    if 0 ≤ n ∧ n ≤ RowId.largest then .ok n.toNat
    else .error (.database (.outOfRange n i))
  | .real _ => .error (wrongType "Real" i column)
  | .text _ => .error (wrongType "Text" i column)
  | .null => .error (wrongType "Null" i column)

def getNat? (r : Row) (i : Nat) (column : String) : Except CatalogError (Option Nat) :=
  if r.cell i = .null then .ok none else (r.getNat i column).map some

def getText (r : Row) (i : Nat) (column : String) : Except CatalogError String :=
  match r.cell i with
  | .text s => .ok s
  | .int _ => .error (wrongType "Integer" i column)
  | .real _ => .error (wrongType "Real" i column)
  | .null => .error (wrongType "Null" i column)

def getText? (r : Row) (i : Nat) (column : String) : Except CatalogError (Option String) :=
  if r.cell i = .null then .ok none else (r.getText i column).map some

end Row

/-- The columns of a named type before its kind is looked at. -/
structure RawNamedType where
  id : Nat
  kind : String
  name : String
  arity : Nat
  fullName : Option String
  home : Option Nat
  container : Option Nat
  declKind : Option String
  access : Option String
  file : Option Nat
  declaring : Option Nat
  index : Option Nat

namespace Decode

def required (column : String) : Option α → Except CatalogError α
  | some a => .ok a
  | none => .error (.invalidColumn column "NULL")

def word (α : Type) [TextForm α] (column value : String) : Except CatalogError α :=
  match TextForm.ofText? value with
  | some a => .ok a
  | none => .error (.invalidColumn column value)

def «namespace» (r : Row) : Except CatalogError Namespace := do
  let id ← r.getNat 0 "id"
  let name ← r.getText 1 "name"
  let parent ← r.getNat? 2 "parent_id"
  return { id := ⟨id⟩, name, parent := parent.bind RowId.ofNat? }

def fileHead (r : Row) : Except CatalogError (Nat × String) := do
  return (← r.getNat 0 "id", ← r.getText 1 "path")

def rawNamedType (r : Row) : Except CatalogError RawNamedType := do
  return {
    id := ← r.getNat 0 "id"
    kind := ← r.getText 1 "kind"
    name := ← r.getText 2 "name"
    arity := ← r.getNat 3 "arity"
    fullName := ← r.getText? 4 "full_name"
    home := ← r.getNat? 5 "namespace_id"
    container := ← r.getNat? 6 "containing_type_id"
    declKind := ← r.getText? 7 "decl_kind"
    access := ← r.getText? 8 "accessibility"
    file := ← r.getNat? 9 "source_file_id"
    declaring := ← r.getNat? 10 "declaring_type_id"
    index := ← r.getNat? 11 "type_parameter_index" }

/-- A documented type without type parameters has nothing left to load. -/
def documented (r : RawNamedType) : Except CatalogError Documented := do
  let fullName ← required "full_name" r.fullName
  let home ← required "namespace_id" r.home
  let declKind ← word DeclKind "decl_kind" (← required "decl_kind" r.declKind)
  let access ← word Accessibility "accessibility" (← required "accessibility" r.access)
  let file ← required "source_file_id" r.file
  return {
    name := r.name
    fullName
    home := ⟨home⟩
    container := r.container.bind RowId.ofNat?
    declKind
    access
    file := ⟨file⟩
    arity := r.arity
    parameters := if r.arity = 0 then some [] else none }

/-- A single value of a query column, at index 0 of its result. -/
def onlyText (column : String) (c : Cell) : Except CatalogError String :=
  Row.getText [c] 0 column

def onlyNat (column : String) (c : Cell) : Except CatalogError Nat :=
  Row.getNat [c] 0 column

def external (db : Database) (r : RawNamedType) : Except CatalogError External := do
  let seen := (db.rows .externalNamespaces).filter (·.cell 0 == .nat r.id)
  let namespaces ← seen.mapM fun q => onlyText "namespace" (q.cell 1)
  let access ← match r.access with
    | some s => word Accessibility "accessibility" s
    | none => .ok .external
  return { name := r.name, arity := r.arity, access, namespaces := .ofList namespaces }

def parameter (r : RawNamedType) : Except CatalogError Parameter := do
  let declaring ← required "declaring_type_id" r.declaring
  let index ← required "type_parameter_index" r.index
  return { name := r.name, declaring := ⟨declaring⟩, index }

/-- A tuple is read without its elements, which are attached later. -/
def namedType (db : Database) (r : RawNamedType) : Except CatalogError (TypeId × NamedType) := do
  let type : NamedType ← match ← word TypeKind "kind" r.kind with
    | .documented => return (⟨r.id⟩, .documented (← documented r))
    | .external => return (⟨r.id⟩, .external (← external db r))
    | .parameter => return (⟨r.id⟩, .parameter (← parameter r))
    | .tuple => .ok (.tuple { name := r.name, elements := [] })
  return (⟨r.id⟩, type)

def tupleElement (r : Row) : Except CatalogError TupleElement := do
  let id ← r.getNat 0 "id"
  let tuple ← r.getNat 1 "tuple_id"
  let ordinal ← r.getNat 2 "ordinal"
  let name ← r.getText 3 "name"
  let rank ← r.getNat 4 "rank"
  let elementType ← r.getNat 5 "element_type_id"
  return { id := ⟨id⟩, tuple := ⟨tuple⟩, ordinal, name, rank, elementType := ⟨elementType⟩ }

def reference (r : Row) : Except CatalogError Reference := do
  let id ← r.getNat 0 "id"
  let named ← r.getNat 1 "named_type_id"
  let rank ← r.getNat 2 "rank"
  let parent ← r.getNat? 3 "parent_id"
  return { id := ⟨id⟩, named := ⟨named⟩, rank, parent := parent.bind RowId.ofNat? }

/-- Columns of a type parameter as selected without the declaring type. -/
def rawParameter (r : Row) : Except CatalogError (Nat × String × String) := do
  let q : Row := r.drop 1
  return (← q.getNat 0 "ordinal", ← q.getText 1 "name", ← q.getText 2 "variance")

/-- Appends an element to the tuple it points at. -/
def attach (named : List (TypeId × NamedType)) (e : TupleElement) :
    Except CatalogError (List (TypeId × NamedType)) :=
  match (named.find? (·.1 == e.tuple)).bind (·.2.tuple?) with
  | some t =>
    .ok (named.map fun (id, type) =>
      if id = e.tuple then (id, .tuple { t with elements := t.elements ++ [e.id] }) else (id, type))
  | none =>
    .error (.corrupted ("tuple element " ++ e.id.text ++ " points at " ++ e.tuple.text
      ++ " which is not a tuple"))

end Decode

namespace Database

/-- The highest row id of a table, cut to 32 bits. -/
def lastId (db : Database) (t : Table) : Nat :=
  match ((db.rows t).filterMap fun r => (r.cell 0).int?).max? with
  | some n => (n % 4294967296).toNat
  | none => 0

def loadFile (db : Database) (head : Nat × String) : Except CatalogError SourceFile := do
  let own := (db.ordered .fileUsings [1]).filter (·.cell 0 == .nat head.1)
  let usings ← own.mapM fun r => Decode.onlyNat "namespace_id" (r.cell 2)
  return { id := ⟨head.1⟩, path := ⟨head.2⟩, usings := usings.map fun n => ⟨n⟩ }

/-- Reads the catalog back: namespaces, files with their usings, named types, tuple elements. -/
def load (db : Database) : Except CatalogError Loaded := do
  let namespaces ← (db.ordered .namespaces [0]).mapM Decode.namespace
  let heads ← (db.ordered .sourceFiles [0]).mapM Decode.fileHead
  let files ← heads.mapM db.loadFile
  let raw ← (db.ordered .namedTypes [0]).mapM Decode.rawNamedType
  let named ← raw.mapM (Decode.namedType db)
  let elements ← (db.ordered .tupleElements [1, 2]).mapM Decode.tupleElement
  let named ← elements.foldlM Decode.attach named
  return {
    namespaces, files, named, elements
    lastReference := db.lastId .typeReferences
    lastUsage := db.lastId .typeUsages }

/-- The stored type parameters of a documented type. All rows are read before any variance is. -/
def parametersOf (db : Database) (id : TypeId) : Except CatalogError (List TypeParameter) := do
  let own := (db.ordered .typeParameters [1]).filter (·.cell 0 == .nat id.value)
  let raw ← own.mapM Decode.rawParameter
  raw.mapM fun (ordinal, name, variance) =>
    return { ordinal, name, variance := ← Decode.word Variance "variance" variance }

/-- The stored references below `parent`. -/
def referenceChildren (db : Database) (parent : ReferenceId) : Except CatalogError (List Reference) :=
  ((db.ordered .typeReferences [0]).filter (·.cell 3 == .nat parent.value)).mapM Decode.reference

def findNamespaceId (db : Database) (name : String) : Except CatalogError (Option NamespaceId) :=
  match (db.rows .namespaces).find? (·.cell 1 == .text name) with
  | some r => (Decode.onlyNat "id" (r.cell 0)).map fun n => some ⟨n⟩
  | none => .ok none

end Database

end TypeCatalog
