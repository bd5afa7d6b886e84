import TypeCatalog.Store.Decode
import TypeCatalog.Store.Encode
import TypeCatalog.Text.Dotted

namespace TypeCatalog

/-- Ids of the rows created since the last flush, in order of creation. `externalNamespaces` are
namespaces added to external types that are stored already. -/
structure Pending where
  namespaces : List NamespaceId := []
  files : List FileId := []
  named : List TypeId := []
  externalNamespaces : List (TypeId × String) := []
  elements : List ElementId := []
  references : List ReferenceId := []
  usages : List UsageId := []
  deriving DecidableEq, Repr

namespace Pending

def counts (p : Pending) : List Nat :=
  [p.namespaces.length, p.files.length, p.named.length, p.externalNamespaces.length,
    p.elements.length, p.references.length, p.usages.length]

def size (p : Pending) : Nat := p.counts.foldr (· + ·) 0

def isEmpty (p : Pending) : Bool := p.size == 0

end Pending

/-- A database, kept in a file if there is a path. -/
structure Store where
  database : Database
  path : Option Path
  readOnly : Bool := false
  deriving DecidableEq, Repr

/-- A catalog at work. Rows are visible as soon as they are added and reach the store when changes are
saved. Tables list their rows by ascending id. Of references and usages only those of this session
are here. -/
structure Session where
  store : Option Store
  namespaces : List Namespace := []
  globalNamespace : NamespaceId := ⟨1⟩
  files : List SourceFile := []
  named : List (TypeId × NamedType) := []
  elements : List TupleElement := []
  references : List Reference := []
  usages : List Usage := []
  pending : Pending := {}
  namespaceIds : Counter .scope := .start
  fileIds : Counter .file := .start
  namedIds : Counter .named := .start
  elementIds : Counter .element := .start
  referenceIds : Counter .reference := .start
  usageIds : Counter .usage := .start
  deriving DecidableEq, Repr

namespace Session

def draw {e : Entity} (c : Counter e) : Except CatalogError (RowId e × Counter e) :=
  c.next.mapError .exhausted

/-! Namespaces -/

def namespace? (s : Session) (id : NamespaceId) : Option Namespace :=
  s.namespaces.find? (·.id == id)

def findNamespace (s : Session) (name : String) : Option NamespaceId :=
  (s.namespaces.find? (·.name == name)).map (·.id)

def addNamespace (s : Session) (name : String) (parent : Option NamespaceId) :
    Except CatalogError (NamespaceId × Session) := do
  let (id, namespaceIds) ← draw s.namespaceIds
  return (id, { s with
    namespaceIds
    namespaces := s.namespaces ++ [{ id, name, parent }]
    pending := { s.pending with namespaces := s.pending.namespaces ++ [id] } })

/-- The namespaces around `name`, innermost first; the global one is last. -/
def outerNamespaces (name : String) : List String :=
  let outer := Dotted.enclosing name
  if name.isEmpty || outer.contains "" then outer else outer ++ [""]

/-- Finds `name`, or adds it after the namespaces around it. -/
def ensureWithin (s : Session) (name : String) (outer : List String) :
    Except CatalogError (NamespaceId × Session) :=
  match s.findNamespace name with
  | some id => .ok (id, s)
  | none =>
    match outer with
    | [] => s.addNamespace name none
    | o :: os => do
      let (parent, s) ← ensureWithin s o os
      s.addNamespace name (some parent)

/-- Finds a namespace or adds it together with every namespace around it. -/
def ensureNamespace (s : Session) (name : String) : Except CatalogError (NamespaceId × Session) :=
  s.ensureWithin name (outerNamespaces name)

def ensureNamespaces (s : Session) : List String → Except CatalogError (List NamespaceId × Session)
  | [] => .ok ([], s)
  | n :: ns => do
    let (id, s) ← s.ensureNamespace n
    let (ids, s) ← ensureNamespaces s ns
    return (id :: ids, s)

/-! Source files -/

def sourceFile? (s : Session) (id : FileId) : Option SourceFile := s.files.find? (·.id == id)

/-- The newest file of this path. -/
def findSourceFile (s : Session) (path : Path) : Option FileId :=
  (s.files.reverse.find? (·.path.same path)).map (·.id)

def addSourceFile (s : Session) (path : Path) (usings : List NamespaceId) :
    Except CatalogError (FileId × Session) := do
  let (id, fileIds) ← draw s.fileIds
  return (id, { s with
    fileIds
    files := s.files ++ [{ id, path, usings }]
    pending := { s.pending with files := s.pending.files ++ [id] } })

/-! Named types -/

def named? (s : Session) (id : TypeId) : Option NamedType :=
  (s.named.find? (·.1 == id)).map (·.2)

def requireNamed (s : Session) (id : TypeId) : Except CatalogError NamedType :=
  match s.named? id with
  | some t => .ok t
  | none => .error (.missingNamedType id)

def ofKind (s : Session) (k : TypeKind) : List (TypeId × NamedType) :=
  s.named.filter (·.2.kind == k)

def isDocumented (s : Session) (id : TypeId) : Bool :=
  ((s.named? id).bind NamedType.documented?).isSome

def documented (s : Session) (id : TypeId) : Except CatalogError Documented := do
  match ← s.requireNamed id with
  | .documented d => return d
  | _ => throw (.notDocumented id)

/-- The oldest documented type with this full name and number of type parameters. -/
def findDocumented (s : Session) (fullName : String) (arity : Nat) : Option TypeId :=
  (s.named.find? fun (_, t) =>
    t.documented?.any fun d => d.fullName == fullName && d.arity == arity).map (·.1)

/-- External types with this name and number of type parameters, oldest first. -/
def externalCandidates (s : Session) (name : String) (arity : Nat) : List TypeId :=
  (s.named.filter fun (_, t) =>
    t.external?.any fun x => x.name == name && x.arity == arity).map (·.1)

/-- Tuple types with this many elements, oldest first. -/
def tupleCandidates (s : Session) (count : Nat) : List TypeId :=
  (s.named.filter fun (_, t) => t.tuple?.any (·.elements.length == count)).map (·.1)

def addNamed (s : Session) (t : NamedType) : Except CatalogError (TypeId × Session) := do
  let (id, namedIds) ← draw s.namedIds
  return (id, { s with
    namedIds
    named := s.named ++ [(id, t)]
    pending := { s.pending with named := s.pending.named ++ [id] } })

def addDocumented (s : Session) (d : Documented) : Except CatalogError (TypeId × Session) :=
  s.addNamed (.documented d)

def addExternal (s : Session) (name : String) (arity : Nat) (namespaces : NameSet) :
    Except CatalogError (TypeId × Session) :=
  s.addNamed (.external { name, arity, access := .external, namespaces })

def addParameter (s : Session) (declaring : TypeId) (index : Nat) (name : String) :
    Except CatalogError (TypeId × Session) :=
  s.addNamed (.parameter { name, declaring, index })

def replaceNamed (s : Session) (id : TypeId) (t : NamedType) : Session :=
  { s with named := s.named.map fun (i, u) => if i = id then (i, t) else (i, u) }

/-- The type parameters of a documented type, read from the store when they are first needed. -/
def ensureParameters (s : Session) (id : TypeId) :
    Except CatalogError (List TypeParameter × Session) := do
  let d ← s.documented id
  match d.parameters with
  | some ps => return (ps, s)
  | none =>
    match s.store with
    | none => throw (.parametersUnavailable d.fullName)
    | some store =>
      let ps ← store.database.parametersOf id
      if ps.length = d.arity then
        return (ps, s.replaceNamed id (.documented { d with parameters := some ps }))
      else
        throw (.corrupted ("'" ++ d.fullName ++ "' declares " ++ toString d.arity
          ++ " type parameters but " ++ toString ps.length ++ " are stored"))

/-- Adds namespaces that an external type may live in and counts the new ones. A type that is still
pending will be written with its whole set. -/
def extendExternal (s : Session) (id : TypeId) (namespaces : List String) :
    Except CatalogError (Nat × Session) :=
  match s.named? id with
  | some (.external x) =>
    let grow := fun (acc : NameSet × List String) n =>
      if acc.1.contains n then acc else (acc.1.insert n, acc.2 ++ [n])
    let (known, added) := namespaces.foldl grow (x.namespaces, [])
    let grown := s.replaceNamed id (.external { x with namespaces := known })
    let pending :=
      if s.pending.named.contains id then s.pending
      else { s.pending with
        externalNamespaces := s.pending.externalNamespaces ++ added.map (id, ·) }
    .ok (added.length, { grown with pending })
  | _ => .error (.missingNamedType id)

/-! Tuples -/

def element? (s : Session) (id : ElementId) : Option TupleElement :=
  s.elements.find? (·.id == id)

def tupleElements (s : Session) (id : TypeId) : Except CatalogError (List TupleElement) :=
  match s.named? id with
  | some (.tuple t) =>
    t.elements.mapM fun e =>
      match s.element? e with
      | some row => .ok row
      | none => .error (.corrupted ("tuple " ++ id.text ++ " lists missing element " ++ e.text))
  | _ => .error (.missingNamedType id)

/-- Numbers the elements of `tuple` and gives them ids, from `ordinal` on. -/
def elementRows (tuple : TypeId) (ids : Counter .element) (ordinal : Nat) :
    List NewElement → Except CatalogError (List TupleElement × Counter .element)
  | [] => .ok ([], ids)
  | e :: es => do
    let (id, ids) ← draw ids
    let (rows, ids) ← elementRows tuple ids (ordinal + 1) es
    return ({ id, tuple, ordinal, name := e.name, rank := e.rank, elementType := e.elementType }
      :: rows, ids)

def addTuple (s : Session) (name : String) (elements : List NewElement) :
    Except CatalogError (TypeId × Session) := do
  let (id, namedIds) ← draw s.namedIds
  let (rows, elementIds) ← elementRows id s.elementIds 0 elements
  let ids := rows.map (·.id)
  return (id, { s with
    namedIds
    elementIds
    elements := s.elements ++ rows
    named := s.named ++ [(id, .tuple { name, elements := ids })]
    pending := { s.pending with
      named := s.pending.named ++ [id]
      elements := s.pending.elements ++ ids } })

/-! References and usages -/

def reference? (s : Session) (id : ReferenceId) : Option Reference :=
  s.references.find? (·.id == id)

/-- The references directly below `parent`, oldest first. -/
def referenceChildren (s : Session) (parent : ReferenceId) : List Reference :=
  s.references.filter (·.parent == some parent)

/-- The references below one, down to `depth` levels, each before those below it. -/
def referencesBelow (s : Session) : (depth : Nat) → Reference → List Reference
  | 0, r => [r]
  | depth + 1, r => r :: (s.referenceChildren r.id).flatMap (s.referencesBelow depth)

/-- A reference with all below it, down to as many levels as there are rows. -/
def referenceTree (s : Session) (id : ReferenceId) : List Reference :=
  (s.reference? id).elim [] (s.referencesBelow s.references.length)

def addReference (s : Session) (named : TypeId) (rank : Nat) (parent : Option ReferenceId) :
    Except CatalogError (ReferenceId × Session) := do
  let (id, referenceIds) ← draw s.referenceIds
  return (id, { s with
    referenceIds
    references := s.references ++ [{ id, named, rank, parent }]
    pending := { s.pending with references := s.pending.references ++ [id] } })

def addUsage (s : Session) (owner : TypeId) (reference : ReferenceId) (role : Role)
    (member : Option String) : Except CatalogError (UsageId × Session) := do
  let (id, usageIds) ← draw s.usageIds
  return (id, { s with
    usageIds
    usages := s.usages ++ [{ id, owner, reference, role, member }]
    pending := { s.pending with usages := s.pending.usages ++ [id] } })

/-! Saving -/

/-- Looks up the row of every pending id. -/
def pendingRows {e : Entity} (what : String) (find : RowId e → Option α) (ids : List (RowId e)) :
    Except CatalogError (List α) :=
  ids.mapM fun id =>
    match find id with
    | some a => .ok a
    | none => .error (.corrupted ("pending " ++ what ++ " " ++ id.text ++ " has no row"))

def changeSet (s : Session) : Except CatalogError ChangeSet := do
  let namespaces ← pendingRows "namespace" s.namespace? s.pending.namespaces
  let files ← pendingRows "file" s.sourceFile? s.pending.files
  let named ← pendingRows "named type" (fun id => (s.named? id).map (id, ·)) s.pending.named
  let elements ← pendingRows "tuple element" s.element? s.pending.elements
  let references ← pendingRows "type reference" s.reference? s.pending.references
  let usages ← pendingRows "type usage" (fun id => s.usages.find? (·.id == id)) s.pending.usages
  return { namespaces, files, named, externalNamespaces := s.pending.externalNamespaces, elements,
           references, usages }

/-- Writes the pending rows to the store and counts them. If that fails they stay pending. -/
def save (s : Session) : Except CatalogError (Nat × Session) :=
  if s.pending.isEmpty then .ok (0, s)
  else
    match s.store with
    | none => .ok (s.pending.size, { s with pending := {} })
    | some store => do
      let changes ← s.changeSet
      if store.readOnly then throw (.database .readOnly)
      let database ← store.database.write changes
      return (changes.size, { s with store := some { store with database }, pending := {} })

/-! Opening -/

def withGlobal (s : Session) : Except CatalogError Session := do
  let (globalNamespace, s) ← s.ensureNamespace ""
  return { s with globalNamespace }

/-- A session without a store. -/
def inMemory : Except CatalogError Session := withGlobal { store := none }

def resume {e : Entity} (last : Nat) : Except CatalogError (Counter e) :=
  (Counter.after last).mapError .exhausted

def highest (ids : List Nat) : Nat := ids.foldl max 0

/-- Opens a store: its rows become visible and every counter goes on after the highest id. -/
def openStore (store : Store) : Except CatalogError Session := do
  let l ← store.database.load
  let namespaceIds ← resume (highest (l.namespaces.map (·.id.value)))
  let fileIds ← resume (highest (l.files.map (·.id.value)))
  let namedIds ← resume (highest (l.named.map (·.1.value)))
  let elementIds ← resume (highest (l.elements.map (·.id.value)))
  let referenceIds ← resume l.lastReference
  let usageIds ← resume l.lastUsage
  withGlobal {
    store := some store
    namespaces := l.namespaces
    files := l.files
    named := l.named
    elements := l.elements.mergeSort fun a b => a.id.value ≤ b.id.value
    namespaceIds, fileIds, namedIds, elementIds, referenceIds, usageIds }

/-! Statistics -/

structure Stats where
  namespaces : Nat
  files : Nat
  documented : Nat
  external : Nat
  parameters : Nat
  tuples : Nat
  references : Nat
  usages : Nat

/-- The counts with their names. -/
def Stats.counts (t : Stats) : List (String × Nat) :=
  [("namespaces", t.namespaces), ("files", t.files), ("documented_types", t.documented),
    ("external_types", t.external), ("local_types", t.parameters), ("tuple_types", t.tuples),
    ("type_references", t.references), ("type_usages", t.usages)]

def stats (s : Session) : Stats where
  namespaces := s.namespaces.length
  files := s.files.length
  documented := (s.ofKind .documented).length
  external := (s.ofKind .external).length
  parameters := (s.ofKind .parameter).length
  tuples := (s.ofKind .tuple).length
  references := s.references.length
  usages := s.usages.length

end Session

end TypeCatalog
