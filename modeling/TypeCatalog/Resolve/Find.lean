import TypeCatalog.Resolve.Descriptor
import TypeCatalog.Resolve.Order
import TypeCatalog.Resolve.Resolved

namespace TypeCatalog

/-- Where a type reference stands and whether types may be created for it. -/
structure Scope where
  container : TypeId
  fileContexts : List Context
  allowCreate : Bool

/-- The contexts to search for a descriptor: its own, then what is visible from the container, the
imports of the file and the global namespace. A full name is searched in none. -/
def Scope.contexts (scope : Scope) (s : Session) (d : Descriptor) :
    Except CatalogError (Option (List Context)) :=
  match d.contexts? with
  | none => .ok none
  | some own => do
    let visible ← if s.isDocumented scope.container then s.visibleFrom scope.container else .ok []
    return some (Context.merge (Context.merge (Context.merge own visible) scope.fileContexts)
      [s.globalContext])

namespace Find

/-- The documented type that the name means in the first context that has one. -/
def documented (s : Session) (d : Descriptor) (contexts : Option (List Context)) : Option TypeId :=
  match contexts with
  | none => s.findDocumented d.name d.argumentCount
  | some cs => cs.findSome? fun c => s.findDocumented (c.qualify d.name) d.argumentCount

/-- Whether a descriptor may name a type parameter. -/
def mayBeParameter (d : Descriptor) : Bool :=
  !d.isFull && d.argumentCount == 0 && !d.name.toList.contains '.'

/-- Looks for a type parameter of a type or of the types around it, for at most `steps` types. -/
def parameterFrom (name : String) : (steps : Nat) → Option TypeId → Act ResolveError (Option Target)
  | _, none => return none
  | 0, some _ => return none
  | n + 1, some id => do
    let d ← Act.query .catalog (·.documented id)
    let ps ← if d.arity > 0 then Act.perform .catalog (·.ensureParameters id) else pure []
    match ps.find? (·.name == name) with
    | some p => return some (.parameter id p.ordinal p.name)
    | none => parameterFrom name n d.container

def parameter (scope : Scope) (d : Descriptor) : Act ResolveError (Option Resolved) := do
  let s ← get
  if s.isDocumented scope.container && mayBeParameter d then
    return (← parameterFrom d.name (s.named.length + 1) (some scope.container)).map .ofTarget
  else return none

/-- The namespaces that the type may live in: the qualifier seen from every context. Keyword types
live in a namespace of their own. -/
def effectiveNamespaces (d : Descriptor) (contexts : Option (List Context)) : NameSet :=
  match contexts, d.split.1 with
  | some cs, some qualifier => .ofList (cs.map (·.qualify qualifier))
  | some cs, none => .ofList (cs.map (·.label))
  | none, qualifier =>
    if d.isPredefined then .ofList [Cursor.predefinedNamespace] else .ofList [qualifier.getD ""]

/-- The namespaces that count for a match. The global one is in every scope, so it only counts where
it is the only one or the name is full. -/
def witnesses (effective : NameSet) (contexts : Option (List Context)) : List String :=
  let nested := effective.names.filter (!·.isEmpty)
  if contexts.isNone || nested.isEmpty then effective.names else nested

/-- The oldest external type that fits, or a new one. -/
def external (scope : Scope) (d : Descriptor) (contexts : Option (List Context)) :
    Act ResolveError (Option Resolved) := do
  let s ← get
  let simple := d.split.2
  let effective := effectiveNamespaces d contexts
  let seen := witnesses effective contexts
  let fits := fun id => ((s.named? id).bind NamedType.external?).any (·.couldLiveIn seen)
  match (s.externalCandidates simple d.argumentCount).find? fits with
  | some id => return some (.mk (.existing id) effective [])
  | none =>
    if scope.allowCreate then
      let id ← Act.perform .catalog (·.addExternal simple d.argumentCount effective)
      return some (.named id)
    else return none

/-- Whether a stored tuple has these elements: the same names, ranks and types. -/
def matchesFrom (s : Session) (index : Nat) :
    List TupleElement → List Descriptor → List Resolved → Except CatalogError Bool
  | row :: rows, d :: ds, r :: rs =>
    if row.name != d.elementNameAt index || row.rank != d.rank then .ok false
    else do
      let stored ← s.requireNamed row.elementType
      if ← r.sameIdentity s stored then matchesFrom s (index + 1) rows ds rs else return false
  | _, _, _ => .ok true

def tupleMatches (s : Session) (elements : List Descriptor) (resolved : List Resolved) (id : TypeId) :
    Except CatalogError Bool := do
  let rows ← s.tupleElements id
  if rows.length = elements.length then matchesFrom s 0 rows elements resolved else return false

def firstTuple (s : Session) (elements : List Descriptor) (resolved : List Resolved) :
    List TypeId → Except CatalogError (Option TypeId)
  | [] => .ok none
  | id :: ids => do
    if ← tupleMatches s elements resolved id then return some id
    else firstTuple s elements resolved ids

/-- Commits the elements of a new tuple in order. Each gives its row, and what it was found to be
without the effects that are now done. -/
def commitElements (index : Nat) : List Descriptor → List Resolved →
    Act ResolveError (List NewElement × List Resolved)
  | d :: ds, r :: rs => do
    let id ← Act.perform .catalog r.commit
    let (rows, done) ← commitElements (index + 1) ds rs
    return ({ name := d.elementNameAt index, rank := d.rank, elementType := id } :: rows,
      .mk (.existing id) .empty r.elements :: done)
  | _, _ => return ([], [])

/-- The oldest tuple type with these elements, or a new one, which is saved at once. -/
def tuple (scope : Scope) (d : Descriptor) (resolved : List Resolved) :
    Act ResolveError (Option Resolved) := do
  let s ← get
  let candidates := s.tupleCandidates d.argumentCount
  match ← Act.query .catalog fun s => firstTuple s d.arguments resolved candidates with
  | some id => return some (.mk (.existing id) .empty resolved)
  | none =>
    if scope.allowCreate then
      let (rows, done) ← commitElements 0 d.arguments resolved
      let id ← Act.perform .catalog (·.addTuple d.name rows)
      let _ ← Act.perform .catalog (·.save)
      return some (.mk (.existing id) .empty done)
    else return none

/-- One resolver's answer for a descriptor that is not a tuple. -/
def plain (scope : Scope) (d : Descriptor) : Resolver → Act ResolveError (Option Resolved)
  | .documented => do
    let contexts ← Act.query .catalog (scope.contexts · d)
    return (documented (← get) d contexts).map .named
  | .parameter => parameter scope d
  | .external => do
    let contexts ← Act.query .catalog (scope.contexts · d)
    external scope d contexts
  | .tuple => return none

/-- The first answer of the resolvers in order. -/
def first (scope : Scope) (d : Descriptor) : List Resolver → Act ResolveError (Option Resolved)
  | [] => return none
  | r :: rs => do
    match ← plain scope d r with
    | some found => return some found
    | none => first scope d rs

end Find

namespace Chain

mutual

/-- What a descriptor names. Every resolver treats tuples alike, so for them only the presence of a
resolver counts. -/
def resolve (chain : Chain) (scope : Scope) : Descriptor → Act ResolveError Resolved
  | .mk name form rank e as => do
    let d := Descriptor.mk name form rank e as
    let found ←
      if d.isTuple then
        if chain.order.isEmpty then pure none
        else do
          let elements ← resolveAll chain scope as
          Find.tuple scope d elements
      else Find.first scope d chain.order
    match found with
    | some r => return r
    | none => throw (.unresolved d.display)

def resolveAll (chain : Chain) (scope : Scope) : List Descriptor → Act ResolveError (List Resolved)
  | [] => return []
  | d :: ds => do
    let r ← resolve chain scope d
    let rs ← resolveAll chain scope ds
    return r :: rs

end

/-- One resolver's answer; the chain serves the elements of tuples. -/
def find (chain : Chain) (scope : Scope) (r : Resolver) (d : Descriptor) :
    Act ResolveError (Option Resolved) := do
  if d.isTuple then
    let elements ← chain.resolveAll scope d.arguments
    Find.tuple scope d elements
  else Find.plain scope d r

end Chain

end TypeCatalog
