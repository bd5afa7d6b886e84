import TypeCatalog.Act
import TypeCatalog.Resolve.Descriptor
import TypeCatalog.Source.Declaration
import TypeCatalog.Tree.Unit

namespace TypeCatalog

/-- All that is needed to resolve one type reference. `container` is the documented type whose source
holds it, `fileContexts` are the imports of the file. -/
structure Analysis where
  root : Descriptor
  container : TypeId
  file : FileId
  fileContexts : List Context
  parameters : List TypeParameter
  allowCreate : Bool

namespace Analysis

/-- The deepest nesting of type syntax that is accepted. -/
def maxDepth : Nat := 64

def unsupported (c : Cursor) : AnalyzeError := .unsupportedNode c.kind c.span

def liftCatalog : Except CatalogError α → Except AnalyzeError α := Except.mapError .catalog

def namespaceContext (s : Session) (name : String) : Except AnalyzeError Context :=
  match s.findNamespace name with
  | some id => .ok (.ofNamespace name id)
  | none => .error (.catalog (.missingNamespace name))

def typeContext (s : Session) (decl : Cursor) : Except AnalyzeError Context :=
  match decl.fullName? with
  | none => .error (unsupported decl)
  | some name =>
    match s.findDocumented name decl.typeParameterCount with
    | some id => .ok (.ofType name id)
    | none => .error (.uncataloguedType name)

/-- Full names of nested namespace blocks, innermost first, from their own names. A block without a
name has no full name and adds nothing to the others. -/
def blockNames : List (Option String) → List (Option String)
  | [] => []
  | own :: outer =>
    own.map (fun n => ".".intercalate ((outer.filterMap id).reverse ++ [n])) :: blockNames outer

/-- What a namespace block brings into scope: itself, its imports, and the namespaces around it. -/
def blockLabels (block : Cursor) (fullName : String) : List String :=
  fullName :: block.blockUsings ++ Dotted.enclosing fullName

/-- The contexts opened by the declarations around `c`, innermost first. -/
def scopeContexts (s : Session) (c : Cursor) : Except AnalyzeError (List Context) := do
  let anchor := c.innermostScope?
  let types ← match anchor with
    | some decl => (decl :: decl.enclosingTypes).mapM (typeContext s)
    | none => .ok []
  let blocks := (anchor.getD c).enclosingNamespaces
  let labels := (blocks.zip (blockNames (blocks.map Cursor.namespaceName?))).flatMap
    fun (block, name) => (name.map (blockLabels block)).getD []
  return Context.merge types (← labels.mapM (namespaceContext s))

/-- The contexts of `c` with the imports of the file and the global namespace. -/
def lexicalContexts (s : Session) (fileContexts : List Context) (c : Cursor) :
    Except AnalyzeError (List Context) := do
  return Context.merge (Context.merge (← scopeContexts s c) fileContexts) [s.globalContext]

/-- Builds descriptors; the state holds the lexical contexts once they are known, since they are the
same for all nodes of one type. -/
abbrev Build (α : Type) := StateT (Option (List Context)) (Except AnalyzeError) α

section

variable (s : Session) (fileContexts : List Context)

def contextsAt (c : Cursor) : Build (List Context) := do
  match ← get with
  | some contexts => return contexts
  | none =>
    let contexts ← lexicalContexts s fileContexts c
    set (some contexts)
    return contexts

/-- The name of a node and how it is to be looked up. -/
def nameOf (c : Cursor) : Build (String × NameForm) :=
  match c.qualify with
  | .failed text reason => throw (.nameResolution text c.span reason)
  | .full name => return (name, if c.kind == "predefined_type" then .keyword else .rooted)
  | .partially name =>
    if c.kind == "tuple_type" then return (name, .tuple)
    else return (name, .searched (← contextsAt s fileContexts c))

/-- The type arguments of a name, which stand on its last segment. -/
def argumentNodes (c : Cursor) : List Cursor :=
  let generic := match c.typeForm? with
    | some .generic => some c
    | some .qualified | some .aliasQualified => (c.field? "name").filter (·.kind == "generic_name")
    | _ => none
  match generic.bind fun g => g.namedChildren.find? (·.kind == "type_argument_list") with
  | some list => list.namedChildren
  | none => []

/-- The name written for a tuple element of type `type`. -/
def elementNameOf (element type : Cursor) : Option String :=
  let identifiers := element.namedChildren.filter fun x =>
    x.kind == "identifier" && x.index != type.index
  ((element.field? "name").or identifiers.getLast?).map (·.text)

def elementNodes (c : Cursor) : List Cursor := c.namedChildren.filter (·.kind == "tuple_element")

/-- The descriptor of a type node. `levels` is how many levels of nesting are left, this one
included. -/
def build : (levels : Nat) → Cursor → Build Descriptor
  | 0, c => throw (.tooDeep c.span maxDepth)
  | n + 1, c =>
    match c.typeForm? with
    | some .baseWithArguments | some .constraint | some .nullable =>
      match c.wrappedType? with
      | some inner => build n inner
      | none => throw (unsupported c)
    | some .array =>
      match c.wrappedType? with
      | some inner => return (← build n inner).addRank c.arrayRank
      | none => throw (unsupported c)
    | some .predefined | some .identifier | some .generic | some .qualified
    | some .aliasQualified => do
      let (name, form) ← nameOf s fileContexts c
      return .mk name form 0 none (← (argumentNodes c).mapM (build n))
    | some .tuple => do
      let (name, form) ← nameOf s fileContexts c
      let elements ← (elementNodes c).mapM fun e =>
        match e.wrappedType? with
        | some type => return (← build n type).withElementName (elementNameOf e type)
        | none => throw (unsupported e)
      return .mk name form 0 none elements
    | some .tupleElement | some .argumentList | none => throw (unsupported c)

end

/-- The contexts that the imports of a file open. -/
def contextsOfFile (s : Session) (file : FileId) : Except CatalogError (List Context) :=
  match s.sourceFile? file with
  | none => .error (.missingSourceFileId file)
  | some f =>
    f.usings.mapM fun id =>
      match s.namespace? id with
      | some ns => .ok (.ofNamespace ns.name id)
      | none => .error (.missingNamespaceId id)

/-- The type parameters of the container, loaded if it has any. -/
def containerParameters (container : TypeId) : Act AnalyzeError (List TypeParameter) := do
  match (← get).named? container with
  | some (.documented d) =>
    if d.arity > 0 then Act.perform .catalog (·.ensureParameters container) else return []
  | some _ => throw (.notDocumented container)
  | none => throw (.catalog (.missingNamedType container))

/-- Describes the type that `c` writes. The file and every declaration around `c` have to be
catalogued. -/
def ofNode (u : SourceUnit) (container : TypeId) (allowCreate : Bool) (c : Cursor) :
    Act AnalyzeError Analysis := do
  match (← get).findSourceFile u.path with
  | none => throw (.missingSourceFile u.path)
  | some file =>
    let parameters ← containerParameters container
    let s ← get
    match liftCatalog (contextsOfFile s file) with
    | .error e => throw e
    | .ok fileContexts =>
      match (build s fileContexts (maxDepth + 1) c).run none with
      | .error e => throw e
      | .ok (root, _) => return { root, container, file, fileContexts, parameters, allowCreate }

end Analysis

end TypeCatalog
