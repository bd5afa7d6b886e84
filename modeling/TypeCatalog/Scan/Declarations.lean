import TypeCatalog.Session
import TypeCatalog.Source.Declaration
import TypeCatalog.Tree.Unit

namespace TypeCatalog

/-- Outcome of cataloguing a file. -/
inductive Outcome where
  /-- The file is new and holds this many type declarations. -/
  | catalogued (file : FileId) (types : Nat)
  /-- The file was known before. -/
  | known (file : FileId)
  deriving DecidableEq, Repr

/-- The documented type of a declaration. -/
def Session.documentedOf (s : Session) (decl : Cursor) : Option TypeId :=
  decl.fullName?.bind fun name => s.findDocumented name decl.typeParameterCount

namespace Declarations

/-- Catalogues a namespace declaration and what it imports. -/
def enterNamespace (c : Cursor) (s : Session) : Except CatalogError Session := do
  let own := c.namespaceName?.map (Dotted.within c.namespaceOf)
  let (_, s) ← s.ensureNamespaces (own.toList ++ c.blockUsings)
  return s

/-- Finds or adds the documented type of a declaration. The parts of a partial type share one row,
known by full name and number of type parameters. -/
def enterType (file : FileId) (container : Option TypeId) (c : Cursor) (s : Session) :
    Except CatalogError (Option TypeId × Session) :=
  match DeclKind.ofNodeKind? c.kind, c.declaredName?, c.fullName? with
  | some declKind, some name, some fullName =>
    let parameters := c.typeParameters
    match s.findDocumented fullName parameters.length with
    | some id => .ok (some id, s)
    | none => do
      let (home, s) ← s.ensureNamespace c.namespaceOf
      let (id, s) ← s.addDocumented {
        name, fullName, home, container, declKind
        access := c.accessibility
        file
        arity := parameters.length
        parameters := some parameters }
      return (some id, s)
  | _, _, _ => .ok (none, s)

mutual

/-- Catalogues the declarations of a node and below it, and counts the types among them. -/
def visit (file : FileId) (above : List Node) (container : Option TypeId) (s : Session) :
    Node → Except CatalogError (Nat × Session)
  | .mk i cs => do
    let c : Cursor := ⟨.mk i cs, above⟩
    if c.isNamespaceDeclaration then
      let s ← enterNamespace c s
      visitAll file (c.node :: above) container s cs
    else if c.isTypeDeclaration then
      match ← enterType file container c s with
      | (some id, s) =>
        let (n, s) ← visitAll file (c.node :: above) (some id) s cs
        return (n + 1, s)
      | (none, s) => visitAll file (c.node :: above) container s cs
    else visitAll file (c.node :: above) container s cs

def visitAll (file : FileId) (above : List Node) (container : Option TypeId) (s : Session) :
    List Node → Except CatalogError (Nat × Session)
  | [] => .ok (0, s)
  | n :: ns => do
    let (k, s) ← if n.info.named then visit file above container s n else .ok (0, s)
    let (m, s) ← visitAll file above container s ns
    return (k + m, s)

end

end Declarations

/-- Catalogues what a file declares: the file with its imports, its namespaces and its types. -/
def SourceUnit.catalog (u : SourceUnit) (s : Session) : Except CatalogError (Outcome × Session) :=
  match s.findSourceFile u.path with
  | some file => .ok (.known file, s)
  | none => do
    let (usings, s) ← s.ensureNamespaces u.top.usings
    let (file, s) ← s.addSourceFile u.path usings
    let (types, s) ← Declarations.visit file [] none s u.root
    return (.catalogued file types, s)

end TypeCatalog
