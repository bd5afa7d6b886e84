import TypeCatalog.Error
import TypeCatalog.Text.Decimal
import TypeCatalog.Text.Hexadecimal

namespace TypeCatalog

/-- What may be done with a database: read it, write to one that is there, make one that is not. In
memory it has no file. -/
inductive Access where
  | read | write | create | memory
  deriving DecidableEq, Repr

namespace Access

def name : Access → String
  | read => "ro"
  | write => "rw"
  | create => "rwc"
  | memory => "memory"

def ofName? (s : String) : Option Access := [read, write, create, memory].find? (·.name == s)

/-- How much an access asks for. -/
def demand : Access → Nat
  | memory => 0
  | read => 1
  | write => 2
  | create => 3

/-- How much may be asked for after it. -/
def limit : Access → Nat
  | memory => 3
  | a => a.demand

/-- The access that a mode asks for, unless it is more than before. -/
def restrict (a : Access) (mode : String) : Except DatabaseError Access :=
  match ofName? mode with
  | none => .error (.address ("no such access mode: " ++ mode))
  | some b => if b.demand ≤ a.limit then .ok b else .error (.denied ("access mode not allowed: " ++ mode))

end Access

/-- Where a database is kept and how it is opened. No write reaches a frozen one. -/
structure Location where
  path : String
  access : Access := .create
  frozen : Bool := false
  system : String := "unix"
  deriving DecidableEq, Repr

namespace Location

/-! An address is `file:` and a path, then options after a question mark. -/

/-- The bytes of a part of an address, in which `%` and two digits write a byte. A zero byte ends the
part. -/
def bytes : List Char → List UInt8
  | '%' :: a :: b :: cs =>
    match Hexadecimal.byte? a b with
    | some x => if x = 0 then [] else x :: bytes cs
    | none => '%'.toUInt8 :: bytes (a :: b :: cs)
  | c :: cs => String.utf8EncodeChar c ++ bytes cs
  | [] => []

def decode (cs : List Char) : String :=
  (String.fromUTF8? ⟨(bytes cs).toArray⟩).getD (String.ofList cs)

/-- What follows the host, which is this machine. -/
def withoutHost : List Char → Except DatabaseError (List Char)
  | '/' :: '/' :: cs =>
    let (host, rest) := cs.span (· != '/')
    if host.isEmpty || host == "localhost".toList then .ok rest
    else .error (.address ("invalid uri authority: " ++ String.ofList host))
  | cs => .ok cs

/-- The options of an address by their names. Those without a name do not count. -/
def options (query : List Char) : List (String × String) :=
  (((String.ofList query).splitOn "&").map fun s =>
    let (name, value) := s.toList.span (· != '=')
    (decode name, decode (value.drop 1))).filter (!·.1.isEmpty)

/-- Whether the value of an option says yes: by a word, or by a number of which one byte counts. -/
def isYes (s : String) : Bool :=
  match Decimal.digits? (s.toList.takeWhile Char.isDigit) with
  | some n => n < 2147483648 && n % 256 != 0
  | none => ["on", "yes", "true"].contains (s.map Char.toLower)

def apply (l : Location) (option : String × String) : Except DatabaseError Location :=
  match option with
  | ("mode", value) => do return { l with access := ← l.access.restrict value }
  | ("cache", value) =>
    if value == "shared" || value == "private" then .ok l
    else .error (.address ("no such cache mode: " ++ value))
  | ("vfs", value) => .ok { l with system := value }
  | _ => .ok l

/-- Systems that reach files. -/
def fileSystems : List String := ["unix", "unix-none", "unix-dotfile", "unix-excl"]

/-- The system that keeps databases in memory. -/
def memorySystem : String := "memdb"

def ofAddress (cs : List Char) : Except DatabaseError Location := do
  let (path, query) := ((← withoutHost cs).takeWhile (· != '#')).span (· != '?')
  let os := options (query.drop 1)
  let frozen := (os.find? (·.1 == "immutable")).any (isYes ·.2)
  let l ← os.foldlM apply { path := decode path, frozen }
  if (memorySystem :: fileSystems).contains l.system then return l
  else throw (.address ("no such vfs: " ++ l.system))

/-- What a text that names a database means: an address, or else a path. -/
def ofText (text : String) : Except DatabaseError Location :=
  if text.startsWith "file:" then ofAddress (text.toList.drop 5) else .ok { path := text }

/-- Whether no file holds the database. -/
def isTransient (l : Location) : Bool :=
  l.path.isEmpty || l.path == ":memory:" || l.access = .memory || l.system == memorySystem

def isReadOnly (l : Location) : Bool := l.access = .read || (l.frozen && !l.isTransient)

end Location

end TypeCatalog
