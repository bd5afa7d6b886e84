import TypeCatalog.Command.Request
import TypeCatalog.Discovery.SourceFiles
import TypeCatalog.Report.Json
import TypeCatalog.Settings.Workspace
import TypeCatalog.Store.Location

namespace TypeCatalog

/-- Where a command runs: the files, the working directory and the variables, and what it has printed
so far on the two channels. -/
structure Console where
  files : Files
  here : Place := []
  environment : List (String × String) := []
  out : String := ""
  err : String := ""

namespace Command

/-- What ends a command, with advice if there is any. -/
structure Failure where
  message : String
  suggestions : List String := []

/-- The work of a command. What it did before a failure stays done. -/
abbrev Work (α : Type) := ExceptT Failure (StateM Console) α

def print (line : String) : Work Unit :=
  modify fun c => { c with out := c.out ++ line ++ "\n" }

def printError (line : String) : Work Unit :=
  modify fun c => { c with err := c.err ++ line ++ "\n" }

/-- A message and its causes, each after a colon. -/
def chain (message : String) (causes : List String) : String := ": ".intercalate (message :: causes)

def failed (message : String) (causes : List String) : Failure := { message := chain message causes }

def ofCatalog (e : CatalogError) : Failure := failed e.message e.causes

def ofScan (e : ScanError) : Failure := { failed e.message e.causes with suggestions := e.suggestions }

def orFail {ε α : Type} (wrap : ε → Failure) : Except ε α → Work α
  | .ok a => pure a
  | .error e => throw (wrap e)

/-! Settings -/

/-- The settings of the named file, or of the workspace. Wrong settings of the workspace are reported
and give way to the defaults. -/
def settings (config : Option String) : Work Settings := do
  let c ← get
  match config with
  | some path =>
    orFail (fun e => failed ("configuration error in " ++ path) [e.message])
      (Workspace.loadFrom c.files c.here c.environment path)
  | none =>
    match Workspace.load c.files c.here c.environment with
    | .ok s => return s
    | .error e =>
      printError (Mark.warning ("Configuration error: " ++ e.message))
      return {}

def init (force : Bool) : Work Unit := do
  let c ← get
  let files ← orFail (failed ·.message []) (Workspace.init c.files c.here force)
  modify fun c => { c with files }
  print (Mark.success ("Created configuration file at: " ++ Workspace.settingsFile))
  print "Edit this file to customize your settings."

def showSettings (s : Settings) : Work Unit := do
  print "Current Configuration:"
  print (String.ofList (List.replicate 50 '='))
  print s.render

/-! The catalog -/

/-- The database at a place, if there is one yet. A file of at most one byte holds none. -/
def databaseAt? (files : Files) (path : String) (p : Place) : Except CatalogError (Option Database) :=
  match files.lookup? p with
  | none => .ok none
  | some .directory => .error (.database (.cannotOpen path))
  | some (.file bytes _) => if bytes.size ≤ 1 then .ok none else .error (.database .notADatabase)
  | some (.database db) => .ok (some db)

/-- Keeps the database of a session in its file. -/
def keep (p : Option Place) (s : Session) : Work Unit := do
  match p, s.store with
  | some p, some store => modify fun c => { c with files := c.files.put p (.database store.database) }
  | _, _ => pure ()

/-- The place of a database file. It has to be there unless it may be made. -/
def databasePlace (files : Files) (here : Place) (l : Location) : Except FileError Place := do
  let (start, names) := Files.route here l.path
  let p ← files.followFrom start names
  if !files.isDirectory p.dropLast then throw .notFound
  if l.access != .create && (files.lookup? p).isNone then throw .notFound
  return p

/-- Opens the catalog in a file, which is made if it is missing. The directory that the path names is
made in any case. -/
def openCatalog (path : String) : Work (Session × Option Place) := do
  let c ← get
  let (start, names) := Files.route c.here path
  let files ← orFail (fun (e : FileError) => ofCatalog (.io e.message)) (c.files.makeFrom start names.dropLast)
  modify fun c => { c with files }
  let l ← orFail (ofCatalog ∘ .database) (Location.ofText path)
  if l.isTransient then
    if l.isReadOnly then throw (ofCatalog (.database .readOnly))
    let s ← orFail ofCatalog (Session.openStore { database := {}, path := some ⟨path⟩ })
    return (s, none)
  let p ← orFail (fun (_ : FileError) => ofCatalog (.database (.cannotOpen path)))
    (databasePlace files c.here l)
  let found ← orFail ofCatalog (databaseAt? files path p)
  if l.isReadOnly && found.isNone then
    if (files.lookup? p).isNone then
      modify fun c => { c with files := c.files.put p (.file .empty []) }
    throw (ofCatalog (.database .readOnly))
  let store : Store := { database := found.getD {}, path := some ⟨path⟩, readOnly := l.isReadOnly }
  modify fun c => { c with files := c.files.put p (.database store.database) }
  let s ← orFail ofCatalog (Session.openStore store)
  return (s, some p)

/-- Removes the catalog, if there is one, before it is built anew. -/
def removeCatalog (path : String) : Work Unit := do
  let c ← get
  match c.files.find c.here path with
  | .error _ => pure ()
  | .ok p =>
    let files ← orFail (fun (e : FileError) => failed ("could not remove catalog at " ++ path) [e.message])
      (c.files.remove p)
    modify fun c => { c with files }
    printError "Force rescan requested, rebuilding catalog"

/-! Scanning -/

/-- How many failures of a scan are printed. -/
def printedFailures : Nat := 5

def failureLine (f : TypeCatalog.Failure) : String :=
  let place := match f.span with
    | some span => f.path.text ++ ":" ++ span.text
    | none => f.path.text
  Mark.warning (place ++ ": " ++ f.message)

def listFiles (paths : List String) : Work Unit := do
  paths.forM print
  print ("\n" ++ toString paths.length ++ " files would be scanned")

def report (m : Summary) (written : Nat) (catalog : String) : Work Unit := do
  print (m.table 0)
  (m.failures.take printedFailures).forM fun f => printError (failureLine f)
  if m.failureCount > printedFailures then
    printError ("  ... and " ++ toString (m.failureCount - printedFailures) ++ " more failures")
  print (Mark.success ("Wrote " ++ toString written ++ " rows to " ++ catalog))

/-- Scans files into the catalog. A scan that fails leaves what it has already written. -/
def scanFiles (s : Settings) (paths : List String) : Work Unit := do
  let (session, p) ← openCatalog s.catalogFile
  let c ← get
  let inputs := paths.map fun path => ((⟨path⟩ : Path), c.files.readUnit c.here ⟨path⟩)
  let (result, session) := (Scan.files s.allowCreate inputs).run.run session
  keep p session
  let summary ← orFail ofScan result
  let (written, session) ← orFail ofCatalog session.save
  keep p session
  report summary written s.catalogFile

def scan (s : Settings) (path : String) (force dryRun : Bool) : Work Unit := do
  let c ← get
  let root ← orFail (fun (e : FileError) => failed ("path does not exist: " ++ path) [e.message])
    (c.files.find c.here path)
  let paths := s.scanning.pathsBelow c.files c.here root.text
  if dryRun then listFiles paths
  else
    if force then removeCatalog s.catalogFile
    scanFiles s paths

/-! Listing -/

/-- How many rows there are of each kind that occurs. -/
def breakdown (rows : List TypeRow) : String :=
  ", ".intercalate ((TextForm.all : List TypeKind).filterMap fun k =>
    let count := (rows.filter (·.kind == TextForm.text k)).length
    if count = 0 then none else some (toString count ++ " " ++ TextForm.text k))

def listTypes (s : Settings) (kind : Option TypeKind) (json : Bool) : Work Unit := do
  let c ← get
  if !c.files.exists? c.here s.catalogFile then
    throw (failed ("no catalog at " ++ s.catalogFile
      ++ "; run 'sharpdoc scan <path>' first (settings live in " ++ Workspace.folder ++ ")") [])
  let (session, _) ← openCatalog s.catalogFile
  let rows := session.typeRows kind
  if json then print (TypeRow.jsonList rows)
  else if rows.isEmpty then print "No named types found"
  else
    print (TypeRow.table rows)
    print (toString rows.length ++ " named types (" ++ breakdown rows ++ ")")

/-! Running -/

def perform (config : Option String) (action : Action) : Work Unit := do
  let s ← settings config
  match action with
  | .init force => init force
  | .settings => showSettings s
  | .scan path force noCreate dryRun =>
    scan (if noCreate then { s with allowCreate := false } else s) path force dryRun
  | .types kind json => listTypes s kind json

def versionLine : String := "sharpdoc 0.3.0"

def usage : String := "Usage: sharpdoc [OPTIONS] <COMMAND>"

def helpText : String :=
  "\n".intercalate
    ["Catalog C# declarations and resolve every type they reference.", "", usage, "", "Commands:",
      "  init    Set up .sharpdoc directory with default configuration",
      "  scan    Catalog declarations and resolve type references",
      "  types   List named types in the catalog",
      "  config  Display active settings from .sharpdoc/settings.toml"]

def advice (suggestions : List String) : List String :=
  if suggestions.isEmpty then [] else "\nSuggestions:" :: suggestions.map ("  • " ++ ·)

/-- Runs one command and gives its exit code: 2 for wrong arguments, 1 for a failure. -/
def run (args : List String) (c : Console) : Nat × Console :=
  match Request.parse? args with
  | none => (2, { c with err := c.err ++ usage ++ "\n" })
  | some .help => (0, { c with out := c.out ++ helpText ++ "\n" })
  | some .version => (0, { c with out := c.out ++ versionLine ++ "\n" })
  | some (.perform config action) =>
    match (perform config action).run.run c with
    | (.ok (), c) => (0, c)
    | (.error e, c) =>
      let lines := Mark.failure e.message :: advice e.suggestions
      (1, { c with err := c.err ++ String.join (lines.map (· ++ "\n")) })

end Command

end TypeCatalog
