import TypeCatalog.Path
import TypeCatalog.Text.Escape
import TypeCatalog.Tree.Basic

namespace TypeCatalog

/-- One line of a flat syntax tree: nodes in pre-order, each with the position of its parent, and
byte offsets into the source. -/
structure TreeEntry where
  parent : Option Nat
  kind : String
  start : Nat
  stop : Nat
  field : Option String
  named : Bool
  hasError : Bool
  missing : Bool
  deriving DecidableEq, Repr

namespace TreeEntry

/-- Line and byte column after `n` bytes, starting from `line` and `column`. -/
def advance (line column : Nat) : Nat → List UInt8 → Nat × Nat
  | 0, _ => (line, column)
  | _ + 1, [] => (line, column)
  | n + 1, b :: bs => if b = 10 then advance (line + 1) 0 n bs else advance line (column + 1) n bs

def spanOf (bytes : List UInt8) (start stop : Nat) : Span :=
  let (l₁, c₁) := advance 0 0 start bytes
  let (l₂, c₂) := advance 0 0 stop bytes
  Span.between l₁ c₁ l₂ c₂

def slice (bytes : ByteArray) (start stop : Nat) : String :=
  (String.fromUTF8? (bytes.extract start stop)).getD ""

def info (source : ByteArray) (bytes : List UInt8) (index : Nat) (e : TreeEntry) : NodeInfo where
  index
  kind := e.kind
  field := e.field
  named := e.named
  hasError := e.hasError
  missing := e.missing
  start := e.start
  text := slice source e.start e.stop
  span := spanOf bytes e.start e.stop

/-- Builds the tree from its last entry to its first: `below` holds the finished children of every
node that is still to come. -/
def assemble (source : ByteArray) (bytes : List UInt8) (entries : List TreeEntry) : Option Node :=
  let step := fun (x : TreeEntry × Nat) (s : Array (List Node) × Option Node) =>
    let (below, _) := s
    let node := Node.mk (x.1.info source bytes x.2) (below.getD x.2 [])
    match x.1.parent with
    | some p => (below.modify p (node :: ·), some node)
    | none => (below, some node)
  (entries.zipIdx.foldr step (Array.replicate entries.length [], none)).2

end TreeEntry

/-- A source file with its syntax tree. -/
structure SourceUnit where
  path : Path
  source : String
  root : Node

namespace SourceUnit

def ofEntries? (path : Path) (source : String) (entries : List TreeEntry) : Option SourceUnit := do
  let bytes := source.toUTF8
  let root ← TreeEntry.assemble bytes bytes.toList entries
  return { path, source, root }

def top (u : SourceUnit) : Cursor := ⟨u.root, []⟩

def hasErrors (u : SourceUnit) : Bool := u.root.info.hasError

def findFirst (u : SourceUnit) (kind : String) : Option Cursor :=
  u.top.findDescendant (·.kind == kind)

def findText (u : SourceUnit) (kind text : String) : Option Cursor :=
  u.top.findDescendant fun c => c.kind == kind && c.text == text

/-- The nodes of a kind, or of those the ones with a given text, in document order. -/
def findAll (u : SourceUnit) (kind : String) (text : Option String) : List Cursor :=
  u.top.preorder.filter fun c => c.kind == kind && text.all (· == c.text)

/-- A one-line description: the path in quotes and the size of the source in bytes. -/
def summary (u : SourceUnit) : String :=
  "SourceUnit \x7b path: " ++ Text.quoted u.path.text ++ ", bytes: "
    ++ toString u.source.utf8ByteSize ++ " \x7d"

end SourceUnit

end TypeCatalog
