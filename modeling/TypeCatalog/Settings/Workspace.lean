import TypeCatalog.Files
import TypeCatalog.Settings.Writer

namespace TypeCatalog.Workspace

/-- The directory with the settings and the catalog of a workspace. -/
def folder : String := ".sharpdoc"

def settingsFile : String := folder ++ "/settings.toml"

/-- The workspace around a place: the nearest directory upwards that has a settings directory. -/
def root? (fs : Files) (here : Place) : Option Place :=
  here.upwards.find? fun d => fs.isDirectory (d ++ [folder])

/-- The file that a path leads to. A relative path is tried from `here` and from every directory
around it. -/
def settingsPlace? (fs : Files) (here : Place) (path : String) : Option Place :=
  let starts := if path.startsWith "/" then [here] else here.upwards
  starts.findSome? fun d => (fs.place d path).toOption.filter fs.isFile

def settingsText (fs : Files) (here : Place) (path : String) : Except ConfigError (Option String) :=
  match settingsPlace? fs here path with
  | none => .ok none
  | some p =>
    match fs.textAt p with
    | .ok (text, _) => .ok (some text)
    | .error _ => .error .malformed

/-- The settings of a file, which may be missing, under those of the variables. -/
def loadFrom (fs : Files) (here : Place) (environment : List (String × String)) (path : String) :
    Except ConfigError Settings := do
  Settings.layered (← settingsText fs here path) environment

/-- The settings of the workspace around `here`, with its root if they name none. -/
def load (fs : Files) (here : Place) (environment : List (String × String)) :
    Except ConfigError Settings := do
  let root := (root? fs here).map Place.text
  let s ← loadFrom fs here environment ((root.map (Path.join · settingsFile)).getD settingsFile)
  return if s.workspaceRoot.isSome then s else { s with workspaceRoot := root }

/-- Why settings cannot be saved. -/
inductive SaveError where
  | invalidPath
  | file (e : FileError)
  deriving DecidableEq, Repr

def SaveError.message : SaveError → String
  | .invalidPath => "Invalid path"
  | .file e => e.message

/-- Writes settings to a file and makes the directories that are missing around it. The path has to go
on from the top or from `here`. -/
def save (fs : Files) (here : Place) (s : Settings) (path : String) : Except SaveError Files :=
  if (Path.components ⟨path⟩).all (· == "/") then .error .invalidPath
  else do
    let (start, names) := Files.route here path
    let fs ← (fs.makeFrom start names.dropLast).mapError .file
    (fs.write here path s.render).mapError .file

/-- Why a workspace cannot be set up. -/
inductive InitError where
  | settingsExist
  | file (e : FileError)
  deriving DecidableEq, Repr

def InitError.message : InitError → String
  | .settingsExist => "Configuration file already exists. Use --force to overwrite"
  | .file e => e.message

/-- Writes the first settings file of a workspace. -/
def init (fs : Files) (here : Place) (force : Bool) : Except InitError Files := do
  if !force && fs.exists? here settingsFile then throw .settingsExist
  let fs ← (fs.makeDirectories here folder).mapError .file
  (fs.write here settingsFile Settings.template).mapError .file

end TypeCatalog.Workspace
