import TypeCatalog.Files
import TypeCatalog.Resolve.Reference
import TypeCatalog.Scan.Declarations

namespace TypeCatalog

/-- A usage or a file that could not be scanned. -/
structure Failure where
  path : Path
  span : Option Span
  code : String
  message : String
  deriving DecidableEq, Repr

/-- What a scan did. `failures` holds the first of the failures that `failureCount` counts. -/
structure Summary where
  filesScanned : Nat := 0
  filesSkipped : Nat := 0
  filesFailed : Nat := 0
  documentedTypes : Nat := 0
  references : Nat := 0
  usages : Nat := 0
  failureCount : Nat := 0
  failures : List Failure := []
  deriving DecidableEq, Repr

namespace Summary

def maxFailures : Nat := 100

def addFailure (m : Summary) (path : Path) (span : Option Span) (e : ScanError) : Summary :=
  { m with
    failureCount := m.failureCount + 1
    failures :=
      if m.failures.length < maxFailures then
        m.failures ++ [{ path, span, code := e.code, message := e.message }]
      else m.failures }

end Summary

/-- A place in a declaration where a type is used. -/
structure Site where
  role : Role
  member : Option String
  type : Cursor

namespace Cursor

/-- The size of the trees of a worklist. -/
noncomputable def weight : List Cursor → Nat
  | [] => 0
  | c :: cs => sizeOf c.node + weight cs

theorem weight_append (cs ds : List Cursor) : weight (cs ++ ds) = weight cs + weight ds := by
  induction cs with
  | nil => simp [weight]
  | cons c cs ih =>
    simp only [List.cons_append, weight, ih]
    omega

theorem weight_filter_child_lt (p : Cursor → Bool) (c : Cursor) (ns : List Node) :
    weight ((ns.map c.child).filter p) < sizeOf ns := by
  induction ns with
  | nil => simp [weight]
  | cons n ns ih =>
    have hn : sizeOf (c.child n).node = sizeOf n := rfl
    simp only [List.map_cons, List.filter_cons, List.cons.sizeOf_spec]
    split
    · simp only [weight, hn]
      omega
    · omega

theorem weight_namedChildren_lt (c : Cursor) : weight c.namedChildren < sizeOf c.node := by
  rcases c with ⟨⟨i, cs⟩, above⟩
  have h := weight_filter_child_lt (·.node.info.named) ⟨.mk i cs, above⟩ cs
  simp only [namedChildren, children, Node.children, Node.mk.sizeOf_spec] at h ⊢
  omega

/-- The type declarations among the cursors of a worklist and below them, in document order. -/
def typeDeclarationsFrom : List Cursor → List Cursor
  | [] => []
  | c :: rest =>
    let found := typeDeclarationsFrom (c.namedChildren ++ rest)
    if c.isTypeDeclaration then c :: found else found
termination_by work => weight work
decreasing_by
  have := weight_namedChildren_lt c
  simp only [weight_append, weight]
  omega

def typeDeclarations (c : Cursor) : List Cursor := typeDeclarationsFrom [c]

/-- The types used in a declaration: bases, constraints and signatures of members. -/
def sites (c : Cursor) : List Site :=
  c.baseTypes.map (⟨.baseType, none, ·⟩)
    ++ c.constraintClauses.flatMap (fun (p, cs) => cs.map (⟨.constraint, some p, ·⟩))
    ++ c.memberTypes.map fun m => ⟨m.role, some m.member, m.type⟩

end Cursor

namespace Scan

variable (allowCreate : Bool)

def resolveSite (u : SourceUnit) (owner : TypeId) (c : Cursor) : Act ScanError ReferenceId := do
  let analysis ← (Analysis.ofNode u owner allowCreate c).mapError .analyze
  (analysis.resolve Chain.standard).mapError .resolve

/-- Resolves a usage and adds its row. A failure that a scan can survive is counted. -/
def record (u : SourceUnit) (owner : TypeId) (m : Summary) (site : Site) : Act ScanError Summary := do
  match ← (resolveSite allowCreate u owner site.type).attempt with
  | .ok reference =>
    let _ ← Act.perform .catalog (·.addUsage owner reference site.role site.member)
    return { m with usages := m.usages + 1 }
  | .error e =>
    if e.isRecoverable then return m.addFailure u.path (some site.type.span) e
    else throw e

/-- Records the usages of a declaration, unless it is not catalogued. -/
def declaration (u : SourceUnit) (m : Summary) (decl : Cursor) : Act ScanError Summary := do
  match (← get).documentedOf decl with
  | none => return m
  | some owner => decl.sites.foldlM (record allowCreate u owner) m

def references (m : Summary) (u : SourceUnit) : Act ScanError Summary :=
  u.top.typeDeclarations.foldlM (declaration allowCreate u) m

/-- Catalogues the declarations of a file; only a file that is new goes on to the second pass. -/
def declarations (m : Summary) (fresh : List SourceUnit) (u : SourceUnit) :
    Act ScanError (Summary × List SourceUnit) := do
  match ← Act.perform .catalog u.catalog with
  | .catalogued _ types =>
    return ({ m with
      filesScanned := m.filesScanned + 1
      documentedTypes := m.documentedTypes + types }, fresh ++ [u])
  | .known _ => return ({ m with filesSkipped := m.filesSkipped + 1 }, fresh)

/-- Scans files in two passes: first the declarations of all of them, then the types they use. -/
def units (m : Summary) (us : List SourceUnit) : Act ScanError Summary := do
  let (m, fresh) ← us.foldlM (fun (m, fresh) u => declarations m fresh u) (m, [])
  let before := (← get).references.length
  let m ← fresh.foldlM (references allowCreate) m
  return { m with references := (← get).references.length - before }

/-- Scans files as they were read; an unreadable one is counted as a failure. -/
def files (inputs : List (Path × Except ScanError SourceUnit)) : Act ScanError Summary :=
  let m := inputs.foldl (fun (m : Summary) (path, input) =>
    match input with
    | .ok _ => m
    | .error e => { m.addFailure path none e with filesFailed := m.filesFailed + 1 }) {}
  units allowCreate m (inputs.filterMap fun (_, input) => input.toOption)

end Scan

namespace Files

/-- Reads a source file for a scan. -/
def readUnit (fs : Files) (here : Place) (path : Path) : Except ScanError SourceUnit :=
  match fs.read here path.text with
  | .error e => .error (.fileRead path e.message)
  | .ok (source, tree) =>
    match SourceUnit.ofEntries? path source tree with
    | some u => .ok u
    | none => .error (.parse (.noTree path))

end Files

end TypeCatalog
