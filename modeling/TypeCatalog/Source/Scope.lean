import TypeCatalog.Text.Blank
import TypeCatalog.Text.Dotted
import TypeCatalog.Tree.Basic

namespace TypeCatalog.Cursor

def isTypeDeclaration (c : Cursor) : Bool :=
  ["class_declaration", "interface_declaration", "struct_declaration", "record_declaration",
    "record_struct_declaration", "enum_declaration", "delegate_declaration"].contains c.kind

/-- Declarations whose members see each other. -/
def isScopeDeclaration (c : Cursor) : Bool :=
  ["class_declaration", "interface_declaration", "struct_declaration", "record_declaration",
    "record_struct_declaration"].contains c.kind

def isFileScopedNamespace (c : Cursor) : Bool := c.kind == "file_scoped_namespace_declaration"

def isNamespaceDeclaration (c : Cursor) : Bool :=
  c.kind == "namespace_declaration" || c.isFileScopedNamespace

/-- Name of a type, member or parameter declaration. -/
def declaredName? (c : Cursor) : Option String :=
  ((c.field? "name").or (c.childOf? ["identifier"])).map (·.text)

/-- Dotted name of a namespace declaration, without blanks. -/
def namespaceName? (c : Cursor) : Option String :=
  ((c.field? "name").or (c.childOf? ["qualified_name", "identifier"])).map (Text.unspaced ·.text)

/-- A file-scoped namespace among the children of `root` that governs `c` from beside it. -/
def governing? (c root : Cursor) : Option Cursor :=
  root.children.find? fun x =>
    x.isFileScopedNamespace && x.index != c.index && x.node.info.start ≤ c.node.info.start

/-- Collects the namespaces along the path above `c`. At the compilation unit a file-scoped namespace
that stands beside `c` counts too, unless one was met on the way. -/
def namespacesAlong (c : Cursor) (fileScopedSeen : Bool) : List Cursor → List Cursor
  | [] => []
  | a :: above =>
    let seen := fileScopedSeen || a.isFileScopedNamespace
    let own := if a.isNamespaceDeclaration then [a] else []
    let beside :=
      if a.kind == "compilation_unit" && !seen then (governing? c a).toList else []
    own ++ beside ++ namespacesAlong c seen above

/-- The namespace declarations around `c`, innermost first. -/
def enclosingNamespaces (c : Cursor) : List Cursor := namespacesAlong c false c.enclosing

/-- Full name of the namespace that `c` stands in; empty for the global one. -/
def namespaceOf (c : Cursor) : String :=
  ".".intercalate (c.enclosingNamespaces.filterMap namespaceName?).reverse

/-- The type declarations around `c`, innermost first, without `c` itself. -/
def enclosingTypes (c : Cursor) : List Cursor := c.enclosing.filter isTypeDeclaration

/-- The innermost class, interface, struct or record that contains `c` or is `c`. -/
def innermostScope? (c : Cursor) : Option Cursor := (c :: c.enclosing).find? isScopeDeclaration

/-- Namespace, outer types and name of a type declaration, joined by dots. -/
def fullName? (c : Cursor) : Option String := do
  let name ← c.declaredName?
  let outer ← c.enclosingTypes.reverse.mapM declaredName?
  return Dotted.within c.namespaceOf (".".intercalate (outer ++ [name]))

/-- The namespace that a `using` directive imports. Alias and `static` directives import none. -/
def importedNamespace? (c : Cursor) : Option String :=
  if c.hasChildOf "=" || c.hasChildOf "name_equals" || c.hasChildOf "static" then none
  else
    ((c.namedChildren.filter fun x => x.kind == "qualified_name" || x.kind == "identifier").getLast?).map
      (Text.unspaced ·.text)

/-- The namespaces imported by the `using` directives directly under `c`. -/
def usings (c : Cursor) : List String :=
  (c.children.filter (·.kind == "using_directive")).filterMap importedNamespace?

/-- The member list of a namespace or type declaration. -/
def body? (c : Cursor) : Option Cursor := (c.field? "body").or (c.childOf? ["declaration_list"])

/-- The namespaces imported inside a namespace declaration. -/
def blockUsings (c : Cursor) : List String := (c.body?.getD c).usings

end TypeCatalog.Cursor
