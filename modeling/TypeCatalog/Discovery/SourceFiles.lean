import TypeCatalog.Discovery.Rules
import TypeCatalog.Files
import TypeCatalog.Settings.Basic

namespace TypeCatalog

/-- The files of a directory that list what to leave out, strongest first. -/
def ignoreFiles : List (List String) :=
  [[".sharpdocignore"], [".ignore"], [".gitignore"], [".git", "info", "exclude"]]

namespace Files

/-- The rules in one ignore file of a directory. -/
def ignoreRules (fs : Files) (directory : Place) (name : List String) : List IgnoreRule :=
  match fs.lookup? (directory ++ name) with
  | some (.file bytes _) => IgnoreRule.ofBytes bytes.toList
  | _ => []

/-- What ignore files of one name say about a place; the nearest that says anything counts. -/
def verdictOf (fs : Files) (p : Place) (isDirectory : Bool) (name : List String) : Option Bool :=
  (Place.upwards p.dropLast).findSome? fun d =>
    IgnoreRule.verdict (fs.ignoreRules d name) ("/".intercalate (p.drop d.length)) isDirectory

def isHidden (p : Place) : Bool := p.getLast?.any (·.startsWith ".")

/-- Whether a place below `root` is left out: by a configured pattern, else by an ignore file, else
because it is hidden. -/
def isSkipped (fs : Files) (patterns : List IgnoreRule) (root p : Place) : Bool :=
  let isDirectory := fs.isDirectory p
  if patterns.any (·.applies ("/".intercalate (p.drop root.length)) isDirectory) then true
  else
    match ignoreFiles.findSome? (fs.verdictOf p isDirectory) with
    | some keep => !keep
    | none => isHidden p

/-- Whether the walk from `root` comes to `p`: no place on the way is left out. -/
def isReached (fs : Files) (patterns : List IgnoreRule) (root p : Place) : Bool :=
  ((List.range p.length).filter (root.length ≤ ·)).all fun n =>
    !fs.isSkipped patterns root (p.take (n + 1))

end Files

namespace Scanning

/-- What follows the last dot of a name, if something stands before that dot. -/
def extension? (name : String) : Option String :=
  match (name.splitOn ".").reverse with
  | ext :: first :: rest => if rest.isEmpty && first.isEmpty then none else some ext
  | _ => none

def lower (s : String) : String := s.map Char.toLower

/-- The endings of files that code generators write. -/
def generatedSuffixes : List String := [".g.cs", ".g.i.cs", ".designer.cs", ".generated.cs"]

def isGenerated (name : String) : Bool := generatedSuffixes.any fun suffix => (lower name).endsWith suffix

def isSource (s : Scanning) (name : String) : Bool :=
  ((extension? name).any fun e => s.extensions.any fun x => lower x == lower e)
    && !(s.skipGenerated && isGenerated name)

/-- The files to scan below `root`, in the order of their paths. A root that is a file is not subject
to ignore files. -/
def sourceFiles (s : Scanning) (fs : Files) (root : Place) : List Place :=
  let patterns := s.ignorePatterns.filterMap IgnoreRule.ofSetting?
  let found := fs.entries.filterMap fun (p, e) =>
    if root.isPrefixOf p && !e.isDirectory && p.getLast?.any s.isSource
      && fs.isReached patterns root p then some p else none
  found.mergeSort fun p q => !List.lex q p fun a b => decide (a < b)

/-- The files to scan below a path, each as the path goes on to it. A path that leads nowhere has
none. -/
def pathsBelow (s : Scanning) (fs : Files) (here : Place) (path : String) : List String :=
  match fs.find here path with
  | .error _ => []
  | .ok root => (s.sourceFiles fs root).map fun p => Path.extend (Path.plain path) (p.drop root.length)

end Scanning

end TypeCatalog
