import TypeCatalog.Row
import TypeCatalog.Store.Database

namespace TypeCatalog

/-- The rows of one flush. -/
structure ChangeSet where
  namespaces : List Namespace
  files : List SourceFile
  named : List (TypeId × NamedType)
  externalNamespaces : List (TypeId × String)
  elements : List TupleElement
  references : List Reference
  usages : List Usage

def ChangeSet.size (c : ChangeSet) : Nat :=
  c.namespaces.length + c.files.length + c.named.length + c.externalNamespaces.length
    + c.elements.length + c.references.length + c.usages.length

namespace Encode

def id {e : Entity} (i : RowId e) : Cell := .nat i.value

def id? {e : Entity} (i : Option (RowId e)) : Cell := .ofOption id i

def word [TextForm α] (a : α) : Cell := .text (TextForm.text a)

def «namespace» (n : Namespace) : Row := [id n.id, .text n.name, id? n.parent]

def file (f : SourceFile) : Row := [id f.id, .text f.path.text]

def usings (f : SourceFile) : List Row :=
  f.usings.zipIdx.map fun (ns, ordinal) => [id f.id, .nat ordinal, id ns]

def namedType (i : TypeId) : NamedType → Row
  | .documented d =>
    [id i, word TypeKind.documented, .text d.name, .nat d.arity, .text d.fullName, id d.home,
      id? d.container, word d.declKind, word d.access, id d.file, .null, .null]
  | .external x =>
    [id i, word TypeKind.external, .text x.name, .nat x.arity, .null, .null, .null, .null,
      word x.access, .null, .null, .null]
  | .parameter p =>
    [id i, word TypeKind.parameter, .text p.name, .nat 0, .null, .null, .null, .null, .null, .null,
      id p.declaring, .nat p.index]
  | .tuple t =>
    [id i, word TypeKind.tuple, .text t.name, .nat t.elements.length, .null, .null, .null, .null,
      .null, .null, .null, .null]

def parameter (i : TypeId) (p : TypeParameter) : Row :=
  [id i, .nat p.ordinal, .text p.name, word p.variance]

def externalNamespace (i : TypeId) (name : String) : Row := [id i, .text name]

def tupleElement (e : TupleElement) : Row :=
  [id e.id, id e.tuple, .nat e.ordinal, .text e.name, .nat e.rank, id e.elementType]

def reference (r : Reference) : Row := [id r.id, id r.named, .nat r.rank, id? r.parent]

def usage (u : Usage) : Row :=
  [id u.id, id u.owner, id u.reference, word u.role, .ofOption .text u.member]

end Encode

namespace Database

def insertFile (db : Database) (f : SourceFile) : Except CatalogError Database := do
  (← db.insert .sourceFiles (Encode.file f)).insertAll .fileUsings (Encode.usings f)

def insertExternalNamespace (db : Database) (i : TypeId) (name : String) :
    Except CatalogError Database :=
  db.insertNew .externalNamespaces (Encode.externalNamespace i name)

/-- A named type with what hangs on it: type parameters or namespaces. -/
def insertNamedType (db : Database) (i : TypeId) (type : NamedType) : Except CatalogError Database := do
  let db ← db.insert .namedTypes (Encode.namedType i type)
  match type with
  | .documented d => db.insertAll .typeParameters ((d.parameters.getD []).map (Encode.parameter i))
  | .external x => x.namespaces.names.foldlM (fun db n => db.insertExternalNamespace i n) db
  | .parameter _ | .tuple _ => .ok db

/-- Writes a change set. A refused row refuses the whole set and leaves the database as it was. -/
def write (db : Database) (c : ChangeSet) : Except CatalogError Database := do
  let db ← db.insertAll .namespaces (c.namespaces.map Encode.namespace)
  let db ← c.files.foldlM insertFile db
  let db ← c.named.foldlM (fun db (i, type) => db.insertNamedType i type) db
  let db ← c.externalNamespaces.foldlM (fun db (i, n) => db.insertExternalNamespace i n) db
  let db ← db.insertAll .tupleElements (c.elements.map Encode.tupleElement)
  let db ← db.insertAll .typeReferences (c.references.map Encode.reference)
  db.insertAll .typeUsages (c.usages.map Encode.usage)

end Database

end TypeCatalog
