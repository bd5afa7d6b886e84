import TypeCatalog.Path
import TypeCatalog.Store.Database
import TypeCatalog.Tree.Unit

namespace TypeCatalog

/-- What stands at a place: a directory, a file with its bytes and, for a source file, its syntax tree,
or a file that is a database. -/
inductive Entry where
  | directory
  | file (bytes : ByteArray) (tree : List TreeEntry)
  | database (db : Database)

def Entry.isDirectory : Entry → Bool
  | .directory => true
  | _ => false

/-- Why a file cannot be reached, read or written. -/
inductive FileError where
  | notFound | exists | notADirectory | isADirectory | notText
  deriving DecidableEq, Repr

def FileError.message : FileError → String
  | .notFound => "No such file or directory (os error 2)"
  | .exists => "File exists (os error 17)"
  | .notADirectory => "Not a directory (os error 20)"
  | .isADirectory => "Is a directory (os error 21)"
  | .notText => "stream did not contain valid UTF-8"

/-- A place in the file tree: the names on the way from the top. -/
abbrev Place := List String

namespace Place

def text (p : Place) : String := "/" ++ "/".intercalate p

/-- The place itself and those around it, innermost first. -/
def upwards (p : Place) : List Place :=
  (List.range (p.length + 1)).reverse.map fun n => p.take n

end Place

/-- A file tree, as its entries. The directories on the way to an entry need no entry of their own. -/
structure Files where
  entries : List (Place × Entry) := []

namespace Files

def lookup? (fs : Files) (p : Place) : Option Entry :=
  match fs.entries.find? (·.1 == p) with
  | some (_, e) => some e
  | none => if p.isEmpty || fs.entries.any (p.isPrefixOf ·.1) then some .directory else none

def isDirectory (fs : Files) (p : Place) : Bool := (fs.lookup? p).any Entry.isDirectory

def isFile (fs : Files) (p : Place) : Bool := (fs.lookup? p).any (!·.isDirectory)

/-- Goes down from a place, one name at a time. Every name but the last has to lead to a directory. -/
def walkFrom (fs : Files) (current : Place) : List String → Except FileError Place
  | [] => .ok current
  | name :: names =>
    match fs.lookup? current with
    | none => .error .notFound
    | some .directory =>
      if name == ".." then walkFrom fs current.dropLast names
      else walkFrom fs (current ++ [name]) names
    | some _ => .error .notADirectory

/-- Goes down from a place by names alone: `..` drops the name before it, whether there is such a place
or not. Only files are in the way. -/
def followFrom (fs : Files) (current : Place) : List String → Except FileError Place
  | [] => .ok current
  | name :: names =>
    if name == ".." then followFrom fs current.dropLast names
    else if fs.isFile current then .error .notADirectory
    else followFrom fs (current ++ [name]) names

/-- Where a path starts when working in `here`, and the names on its way. -/
def route (here : Place) (path : String) : Place × List String :=
  (if path.startsWith "/" then [] else here, (Path.segments path).filter (· != "."))

/-- The place that a path means when working in `here`. A trailing slash asks for a directory. -/
def place (fs : Files) (here : Place) (path : String) : Except FileError Place := do
  let (start, names) := route here path
  let p ← walkFrom fs start names
  if (path.endsWith "/" || path.endsWith "/.") && fs.isFile p then throw .notADirectory
  if path.isEmpty then throw .notFound
  return p

/-- The place of a path that leads to something. -/
def find (fs : Files) (here : Place) (path : String) : Except FileError Place := do
  let p ← fs.place here path
  if (fs.lookup? p).isNone then throw .notFound
  return p

def exists? (fs : Files) (here : Place) (path : String) : Bool := (fs.find here path).toOption.isSome

def textAt (fs : Files) (p : Place) : Except FileError (String × List TreeEntry) :=
  match fs.lookup? p with
  | none => .error .notFound
  | some .directory => .error .isADirectory
  | some (.file bytes tree) =>
    match String.fromUTF8? bytes with
    | some text => .ok (text, tree)
    | none => .error .notText
  | some (.database _) => .error .notText

def read (fs : Files) (here : Place) (path : String) : Except FileError (String × List TreeEntry) := do
  fs.textAt (← fs.place here path)

/-- Puts an entry at a place, in the stead of what is there. -/
def put (fs : Files) (p : Place) (e : Entry) : Files :=
  ⟨fs.entries.filter (·.1 != p) ++ [(p, e)]⟩

/-- Writes a text, in the stead of a file that is there. After a slash or a dot there can only be a directory. -/
def write (fs : Files) (here : Place) (path text : String) : Except FileError Files := do
  let (start, names) := route here path
  let p ← fs.walkFrom start names
  if path.isEmpty then throw .notFound
  else if fs.isDirectory p then throw .isADirectory
  else if path.endsWith "/." then throw (if fs.isFile p then .notADirectory else .notFound)
  else if path.endsWith "/" then throw .isADirectory
  else return fs.put p (.file text.toUTF8 [])

/-- Removes a file. Its directory stays. -/
def remove (fs : Files) (p : Place) : Except FileError Files :=
  if fs.isDirectory p then .error .isADirectory
  else
    let kept : Files := ⟨fs.entries.filter (·.1 != p)⟩
    .ok (if kept.isDirectory p.dropLast then kept else kept.put p.dropLast .directory)

/-- Goes down from a place and makes the directories that are missing. -/
def makeFrom (fs : Files) (current : Place) : List String → Except FileError Files
  | [] => .ok fs
  | name :: names =>
    if name == ".." then makeFrom fs current.dropLast names
    else
      let next := current ++ [name]
      match fs.lookup? next with
      | some .directory => makeFrom fs next names
      | none => makeFrom (fs.put next .directory) next names
      | some _ => .error (if names.isEmpty then .exists else .notADirectory)

def makeDirectories (fs : Files) (here : Place) (path : String) : Except FileError Files :=
  let (start, names) := route here path
  fs.makeFrom start names

end Files

end TypeCatalog
