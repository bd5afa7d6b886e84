import TypeCatalog.Row

namespace TypeCatalog.Command

/-- An option with its long name and its letter. `takes` says which values it takes, if it takes one. -/
structure Flag where
  long : String
  letter : Option Char := none
  takes : Option (String → Bool) := none

/-- Options with their values, and operands, in the order in which they were given. -/
structure Given where
  options : List (String × String) := []
  operands : List String := []

namespace Given

def has (g : Given) (long : String) : Bool := g.options.any (·.1 == long)

def value? (g : Given) (long : String) : Option String :=
  (g.options.find? (·.1 == long)).map (·.2)

/-- Adds an option, unless it was given before or does not take the value. -/
def add (g : Given) (f : Flag) (value : String) : Option Given :=
  if g.has f.long || !f.takes.all (· value) then none
  else some { g with options := g.options ++ [(f.long, value)] }

end Given

/-- Where arguments are read: the options, how many operands there are, and the commands that may
follow. -/
structure Level where
  flags : List Flag
  operands : Nat := 0
  commands : List String := []

/-- How reading the arguments of a level ends. `command` leaves the rest to another level. -/
inductive Reading where
  | wrong
  | help
  | version
  | finished (g : Given)
  | command (g : Given) (name : String) (rest : List String)

/-- What one argument brings. `wants` leaves an option without its value. -/
inductive Bundle where
  | wrong
  | help
  | version
  | read (g : Given)
  | wants (g : Given) (f : Flag)

namespace Level

def bundle (o : Option Given) : Bundle := o.elim .wrong .read

/-- Letters after a dash. What follows the letter of an option with a value is the value. -/
def letters (l : Level) (g : Given) : List Char → Bundle
  | [] => .read g
  | c :: cs =>
    match l.flags.find? (·.letter == some c) with
    | none => if c == 'h' then .help else if c == 'V' && !l.commands.isEmpty then .version else .wrong
    | some f =>
      if f.takes.isSome then
        match cs with
        | [] => .wants g f
        | '=' :: value => bundle (g.add f (String.ofList value))
        | value => bundle (g.add f (String.ofList value))
      else
        match g.add f "" with
        | some g => letters l g cs
        | none => .wrong

/-- A name after two dashes, with a value after an equals sign. -/
def long (l : Level) (g : Given) (cs : List Char) : Bundle :=
  let (name, value) := cs.span (· != '=')
  let name := String.ofList name
  match l.flags.find? (·.long == name), value with
  | none, [] =>
    if name == "help" then .help
    else if name == "version" && !l.commands.isEmpty then .version
    else .wrong
  | none, _ :: _ => .wrong
  | some f, [] => if f.takes.isSome then .wants g f else bundle (g.add f "")
  | some f, _ :: value => if f.takes.isSome then bundle (g.add f (String.ofList value)) else .wrong

def argument (l : Level) (g : Given) (arg : String) : Bundle :=
  match arg.toList with
  | '-' :: '-' :: cs => l.long g cs
  | '-' :: c :: cs => l.letters g (c :: cs)
  | cs =>
    if g.operands.length < l.operands && !cs.isEmpty then .read { g with operands := g.operands ++ [arg] }
    else .wrong

/-- A dash alone is a value; all else that starts with a dash is not. -/
def isValue (arg : String) : Bool := arg == "-" || !arg.startsWith "-"

/-- Reads arguments one after the other. After two dashes there are only operands. -/
def read (l : Level) (g : Given) : List String → Reading
  | [] => .finished g
  | arg :: rest =>
    if arg == "--" then
      let operands := g.operands ++ rest
      if operands.length ≤ l.operands && rest.all (!·.isEmpty) then .finished { g with operands }
      else .wrong
    else if l.commands.contains arg then .command g arg rest
    else
      match l.argument g arg with
      | .wrong => .wrong
      | .help => .help
      | .version => .version
      | .read g => read l g rest
      | .wants g f =>
        match rest with
        | [] => .wrong
        | value :: rest =>
          if !isValue value then .wrong
          else
            match g.add f value with
            | some g => read l g rest
            | none => .wrong

end Level

inductive Action where
  | init (force : Bool)
  | scan (path : String) (force noCreate dryRun : Bool)
  | types (kind : Option TypeKind) (json : Bool)
  | settings
  deriving DecidableEq, Repr

/-- What the arguments ask for. -/
inductive Request where
  | help
  | version
  | perform (config : Option String) (action : Action)
  deriving DecidableEq, Repr

namespace Request

/-- Options that may stand before and after the command. -/
def shared : List Flag :=
  [{ long := "config", letter := some 'c', takes := some (!·.isEmpty) },
    { long := "verbose", letter := some 'v' }]

def force : Flag := { long := "force", letter := some 'f' }

def kind : Flag :=
  { long := "kind", letter := some 'k', takes := some fun s => (TextForm.ofText? s : Option TypeKind).isSome }

def commands : List String := ["init", "scan", "types", "config"]

def top : Level := { flags := shared, commands := commands ++ ["help"] }

def level (command : String) : Level :=
  match command with
  | "init" => { flags := force :: shared }
  | "scan" =>
    { flags := force :: { long := "no-create" } :: { long := "dry-run" } :: shared, operands := 1 }
  | "types" => { flags := kind :: { long := "json" } :: shared }
  | _ => { flags := shared }

def action? (command : String) (g : Given) : Option Action :=
  match command with
  | "init" => some (.init (g.has "force"))
  | "scan" =>
    g.operands.head?.map fun path =>
      .scan path (g.has "force") (g.has "no-create") (g.has "dry-run")
  | "types" => some (.types ((g.value? "kind").bind TextForm.ofText?) (g.has "json"))
  | _ => some .settings

/-- Help may be asked for one command. -/
def helpFor : List String → Option Request
  | [] => some .help
  | [c] => if top.commands.contains c then some .help else none
  | _ => none

/-- Reads the arguments; `none` if they are wrong. An option after the command wins over the same
option before it. -/
def parse? (args : List String) : Option Request :=
  match top.read {} args with
  | .wrong | .finished _ => none
  | .help => some .help
  | .version => some .version
  | .command _ "help" rest => helpFor rest
  | .command before name rest =>
    match (level name).read {} rest with
    | .wrong | .command _ _ _ => none
    | .help => some .help
    | .version => some .version
    | .finished g =>
      (action? name g).map (.perform ((g.value? "config").or (before.value? "config")))

end Request

end TypeCatalog.Command
