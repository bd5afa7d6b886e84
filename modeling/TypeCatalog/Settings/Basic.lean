import TypeCatalog.Path
import TypeCatalog.Settings.Variables

namespace TypeCatalog

structure Scanning where
  extensions : List String := ["cs"]
  ignorePatterns : List String := ["bin/**", "obj/**"]
  skipGenerated : Bool := true
  deriving DecidableEq, Repr

/-- The configuration of a workspace. -/
structure Settings where
  version : Nat := 1
  catalogPath : String := ".sharpdoc/catalog.db"
  workspaceRoot : Option String := none
  debug : Bool := false
  scanning : Scanning := {}
  allowCreate : Bool := true
  logLevel : String := "warn"
  deriving DecidableEq, Repr

/-- Why a configuration cannot be used, and at which setting. -/
inductive ConfigError where
  /-- The value has the wrong type. -/
  | invalidType (path : List String)
  /-- The value is out of range. -/
  | invalidValue (path : List String)
  /-- The file cannot be read. -/
  | malformed
  deriving DecidableEq, Repr

def ConfigError.message : ConfigError → String
  | .invalidType path => "InvalidType at " ++ ".".intercalate path
  | .invalidValue path => "InvalidValue at " ++ ".".intercalate path
  | .malformed => "Message at "

namespace Path

/-- A path below a directory; an absolute path stays as it is. -/
def join (directory path : String) : String :=
  if path.startsWith "/" || directory.isEmpty then path
  else if directory.endsWith "/" then directory ++ path
  else directory ++ "/" ++ path

end Path

namespace Settings

/-- The catalog file; a relative path starts at the workspace root. -/
def catalogFile (s : Settings) : String :=
  match s.workspaceRoot with
  | some root => Path.join root s.catalogPath
  | none => s.catalogPath

/-- The settings as a table. -/
def toValue (s : Settings) : Value :=
  .table ([("version", .int s.version), ("catalog_path", .text s.catalogPath)]
    ++ (s.workspaceRoot.map fun r => ("workspace_root", Value.text r)).toList
    ++ [("debug", .bool s.debug),
      ("scanning", .table [
        ("extensions", .list (s.scanning.extensions.map .text)),
        ("ignore_patterns", .list (s.scanning.ignorePatterns.map .text)),
        ("skip_generated", .bool s.scanning.skipGenerated)]),
      ("resolution", .table [("allow_create", .bool s.allowCreate)]),
      ("logging", .table [("level", .text s.logLevel)])])

namespace Decode

def bool (path : List String) : Value → Except ConfigError Bool
  | .bool b => .ok b
  | _ => .error (.invalidType path)

def text (path : List String) : Value → Except ConfigError String
  | .text s => .ok s
  | _ => .error (.invalidType path)

/-- A number of 32 bits. -/
def nat (path : List String) : Value → Except ConfigError Nat
  | .int n => if 0 ≤ n ∧ n ≤ 4294967295 then .ok n.toNat else .error (.invalidValue path)
  | _ => .error (.invalidType path)

def textList (path : List String) : Value → Except ConfigError (List String)
  | .list vs => vs.zipIdx.mapM fun (v, i) => text (path ++ [toString i]) v
  | _ => .error (.invalidType path)

/-- A field, or its default where it is absent. -/
def field (decode : List String → Value → Except ConfigError α) (default : α) (path : List String) :
    Option (String × Value) → Except ConfigError α
  | some (k, v) => decode (path ++ [k]) v
  | none => .ok default

/-- The fields of a section in their declared order. A list gives them by position. -/
def fields (path : List String) (names : List String) :
    Value → Except ConfigError (List (Option (String × Value)))
  | .table es => .ok (names.map fun k => (Value.lookup es k).map (k, ·))
  | .list vs => .ok (names.zipIdx.map fun (_, i) => vs[i]?.map (toString i, ·))
  | _ => .error (.invalidType path)

def scanning (path : List String) (v : Value) : Except ConfigError Scanning := do
  let fs ← fields path ["extensions", "ignore_patterns", "skip_generated"] v
  let d : Scanning := {}
  let extensions ← field textList d.extensions path (fs.getD 0 none)
  let ignorePatterns ← field textList d.ignorePatterns path (fs.getD 1 none)
  let skipGenerated ← field bool d.skipGenerated path (fs.getD 2 none)
  return { extensions, ignorePatterns, skipGenerated }

def resolution (path : List String) (v : Value) : Except ConfigError Bool := do
  let fs ← fields path ["allow_create"] v
  field bool true path (fs.getD 0 none)

def logging (path : List String) (v : Value) : Except ConfigError String := do
  let fs ← fields path ["level"] v
  field text ({} : Settings).logLevel path (fs.getD 0 none)

end Decode

open Decode in
/-- Reads settings from a table, by the names of the settings in alphabetical order. Unknown names do
not count. -/
def ofValue (v : Value) : Except ConfigError Settings := do
  let entry := fun k => match v with
    | .table es => (Value.lookup es k).map (k, ·)
    | _ => none
  let d : Settings := {}
  let catalogPath ← field text d.catalogPath [] (entry "catalog_path")
  let debug ← field bool d.debug [] (entry "debug")
  let logLevel ← field logging d.logLevel [] (entry "logging")
  let allowCreate ← field resolution d.allowCreate [] (entry "resolution")
  let scanning ← field Decode.scanning d.scanning [] (entry "scanning")
  let version ← field nat d.version [] (entry "version")
  let workspaceRoot ← match entry "workspace_root" with
    | some (k, v) => some <$> text [k] v
    | none => .ok none
  return { version, catalogPath, workspaceRoot, debug, scanning, allowCreate, logLevel }

/-- Settings in layers: defaults, then a file if there is one, then variables. -/
def layered (file : Option String) (environment : List (String × String)) : Except ConfigError Settings := do
  let document ← match file with
    | none => .ok (.table [])
    | some text =>
      match Toml.parse text with
      | some v => .ok v
      | none => .error .malformed
  ofValue (((({} : Settings).toValue).merge document).merge (Variables.layer environment))

end Settings

end TypeCatalog
