import TypeCatalog.Files
import TypeCatalog.Text.Decimal

namespace TypeCatalog

/-- A file tree written down line by line. A line is a mark, a blank and a text:
`/` makes a directory, `>` starts a file, `|` adds a line to it, and `:` adds an entry to its syntax
tree. The parts of an entry are divided by tabs: parent (`-` for the root), kind, start, and for all
but plain tokens end, field and flags. -/
structure Bundle where
  files : Files := {}
  /-- The file that further lines belong to. -/
  current : Option Place := none

namespace Bundle

/-- Reads an entry of a syntax tree. Without an end it is a token that is written as its kind. -/
def node? (line : String) : Option TreeEntry := do
  let parent :: kind :: start :: rest := line.splitOn "\t" | none
  let start ← Decimal.digits? start.toList
  let parent ← if parent == "-" then some none else (Decimal.digits? parent.toList).map some
  let field := rest.getD 1 ""
  let flags := (rest.getD 2 "").splitOn " "
  return {
    parent, kind, start
    stop := ((rest.head?.map String.toList).bind Decimal.digits?).getD (start + kind.utf8ByteSize)
    field := if field.isEmpty then none else some field
    named := !rest.isEmpty && !flags.contains "anonymous"
    hasError := flags.contains "error"
    missing := flags.contains "missing" }

/-- Changes the file that is being read. -/
def extend (b : Bundle) (f : ByteArray → List TreeEntry → Entry) : Bundle :=
  match b.current with
  | none => b
  | some p =>
    match b.files.lookup? p with
    | some (.file bytes tree) => { b with files := b.files.put p (f bytes tree) }
    | _ => b

def addLine (b : Bundle) (line : String) : Bundle :=
  let text := String.ofList (line.toList.drop 2)
  match line.toList.head? with
  | some '/' => { files := b.files.put (Path.segments text) .directory }
  | some '>' =>
    let p := Path.segments text
    { files := b.files.put p (.file .empty []), current := some p }
  | some '|' => b.extend fun bytes tree => .file (bytes ++ (text ++ "\n").toUTF8) tree
  | some ':' => b.extend fun bytes tree => .file bytes (tree ++ (node? text).toList)
  | _ => b

def read (lines : List String) : Files := (lines.foldl addLine {}).files

end Bundle

end TypeCatalog
