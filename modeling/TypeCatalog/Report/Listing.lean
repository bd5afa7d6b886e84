import TypeCatalog.Report.Grid
import TypeCatalog.Scan.References
import TypeCatalog.Text.Decimal

namespace TypeCatalog

/-- A named type as it is listed. -/
structure TypeRow where
  id : Nat
  kind : String
  name : String
  arity : Nat
  detail : String
  deriving DecidableEq, Repr

namespace TypeRow

/-- What is worth knowing beyond the name: the declaration, the namespaces, the owner or the size. -/
def detailOf (s : Session) : NamedType → String
  | .documented d => TextForm.text d.access ++ " " ++ TextForm.text d.declKind
  | .external x =>
    ", ".intercalate (x.namespaces.names.map fun n => if n.isEmpty then "<global>" else n)
  | .parameter p =>
    let owner := ((s.named? p.declaring).map NamedType.fullName).getD p.declaring.text
    owner ++ " #" ++ toString p.index
  | .tuple t => toString t.elements.length ++ " elements"

def ofNamed (s : Session) (id : TypeId) (t : NamedType) : TypeRow where
  id := id.value
  kind := TextForm.text t.kind
  name := t.fullName
  arity := t.arity
  detail := detailOf s t

def cells (r : TypeRow) : List String :=
  [toString r.id, r.kind, r.name, toString r.arity, r.detail]

def table (rows : List TypeRow) : String :=
  Grid.render ["Id", "Kind", "Name", "Arity", "Detail"] (rows.map cells)

end TypeRow

/-- The named types of a session, or those of one kind. -/
def Session.typeRows (s : Session) (kind : Option TypeKind) : List TypeRow :=
  ((match kind with
    | some k => s.ofKind k
    | none => s.named)).map fun (id, t) => TypeRow.ofNamed s id t

/-- The table that ends a scan. -/
def Summary.table (m : Summary) (milliseconds : Nat) : String :=
  let (num, scale) := Decimal.seconds milliseconds
  Grid.render ["Metric", "Value"]
    [["Files scanned", toString m.filesScanned],
      ["Files skipped", toString m.filesSkipped],
      ["Documented types", toString m.documentedTypes],
      ["Type usages", toString m.usages],
      ["Type references", toString m.references],
      ["Time elapsed", Decimal.twoPlaces num (Nat.pow 2 scale) ++ "s"],
      ["Failures", toString m.failureCount]]

namespace Mark

def success (text : String) : String := "✓ " ++ text
def failure (text : String) : String := "✗ " ++ text
def warning (text : String) : String := "⚠ " ++ text

end Mark

end TypeCatalog
