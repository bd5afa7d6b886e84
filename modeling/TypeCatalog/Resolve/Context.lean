import TypeCatalog.Session

namespace TypeCatalog

/-- The row that a context stands for. -/
inductive ContextScope where
  | space (id : NamespaceId)
  | type (id : TypeId)
  deriving DecidableEq, Repr

/-- A place where a name may be found: a namespace, or a type for the types nested in it. The label
is its full name, empty for the global namespace. -/
structure Context where
  label : String
  scope : ContextScope
  deriving DecidableEq, Repr

namespace Context

def ofNamespace (label : String) (id : NamespaceId) : Context := ⟨label, .space id⟩

def ofType (label : String) (id : TypeId) : Context := ⟨label, .type id⟩

def isGlobal (c : Context) : Bool := c.label.isEmpty

def qualify (c : Context) (name : String) : String := Dotted.within c.label name

/-- Appends the contexts whose labels are new. -/
def merge (contexts extra : List Context) : List Context :=
  extra.foldl (fun cs c => if cs.any (·.label == c.label) then cs else cs ++ [c]) contexts

end Context

namespace Session

def globalContext (s : Session) : Context := .ofNamespace "" s.globalNamespace

/-- Follows parent links for at most `steps` rows. -/
def chainFrom (s : Session) : (steps : Nat) → Option NamespaceId → Except CatalogError (List Context)
  | _, none => .ok []
  | 0, some _ => .ok []
  | n + 1, some id =>
    match s.namespace? id with
    | some ns => return .ofNamespace ns.name id :: (← chainFrom s n ns.parent)
    | none => .error (.missingNamespaceId id)

/-- A namespace and the namespaces around it. A chain without a loop visits no row twice, so it is
not longer than the table; the last step finds the row that is missing, if any. -/
def namespaceChain (s : Session) (id : NamespaceId) : Except CatalogError (List Context) :=
  s.chainFrom (s.namespaces.length + 1) (some id)

/-- A documented type and the types around it, for at most `steps` rows. -/
def containersFrom (s : Session) : (steps : Nat) → Option TypeId →
    Except CatalogError (List (TypeId × Documented))
  | _, none => .ok []
  | 0, some _ => .ok []
  | n + 1, some id => do
    let d ← s.documented id
    return (id, d) :: (← containersFrom s n d.container)

/-- A documented type and the types around it, innermost first. -/
def containers (s : Session) (id : TypeId) : Except CatalogError (List (TypeId × Documented)) :=
  s.containersFrom (s.named.length + 1) (some id)

/-- What is in scope inside a documented type: the type, the types around it, and the namespaces
around the outermost of them. -/
def visibleFrom (s : Session) (id : TypeId) : Except CatalogError (List Context) := do
  let types ← s.containers id
  let contexts := types.map fun (i, d) => Context.ofType d.fullName i
  match types.getLast? with
  | some (_, d) => return Context.merge contexts (← s.namespaceChain d.home)
  | none => return contexts

end Session

end TypeCatalog
