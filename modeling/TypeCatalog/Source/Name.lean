import TypeCatalog.Source.Scope
import TypeCatalog.Source.TypeForm

namespace TypeCatalog

/-- How much of a type name its syntax alone settles. -/
inductive NameState where
  | full | partially | failed
  deriving DecidableEq, Repr

/-- A type name read from syntax: settled completely, to be looked up in the scopes around it, or
unusable. -/
inductive QualifiedName where
  | full (name : String)
  | partially (name : String)
  | failed (text reason : String)
  deriving DecidableEq, Repr

namespace QualifiedName

def state : QualifiedName → NameState
  | full _ => .full
  | partially _ => .partially
  | failed _ _ => .failed

/-- The dotted name without type arguments; of a failure, the source text. -/
def name : QualifiedName → String
  | full n | partially n => n
  | failed text _ => text

def failure? : QualifiedName → Option String
  | failed _ reason => some reason
  | _ => none

/-- A further segment after a dot. -/
def append (segment : String) : QualifiedName → QualifiedName
  | full n => full (n ++ "." ++ segment)
  | partially n => partially (n ++ "." ++ segment)
  | failed text reason => failed text reason

end QualifiedName

namespace Text

/-- Blanks around brackets and commas in a text whose blanks are single spaces: none after an opening
bracket, none before a closing one or a comma, one after a comma. `out` is the text so far, its last
character first. -/
def tighten (out : List Char) : List Char → List Char
  | [] => out.reverse
  | c :: cs =>
    let trimmed := match out with
      | ' ' :: rest => rest
      | _ => out
    match c with
    | ',' => tighten (' ' :: ',' :: trimmed) cs
    | ')' | '>' | ']' => tighten (c :: trimmed) cs
    | ' ' =>
      match out with
      | ' ' :: _ | '(' :: _ | '<' :: _ | '[' :: _ => tighten out cs
      | _ => tighten (' ' :: out) cs
    | _ => tighten (c :: out) cs

/-- The display form of a tuple type. -/
def tupleDisplay (s : String) : String :=
  String.ofList (tighten [] (" ".intercalate (words s)).toList)

end Text

namespace Cursor

/-- The namespace that keyword types live in. -/
def predefinedNamespace : String := "System"

def genericIdentifier? (c : Cursor) : Option String :=
  (c.namedChildren.find? (·.kind == "identifier")).map (·.text)

/-- A name segment: an identifier, or a generic name without its arguments. -/
def segment? (c : Cursor) : Option String :=
  match c.kind with
  | "identifier" => some c.text
  | "generic_name" => c.genericIdentifier?
  | _ => none

/-- Only the alias `global` is known. -/
def qualifyAlias (c : Cursor) : QualifiedName :=
  match (c.field? "alias").map (·.text), (c.field? "name").bind segment? with
  | some label, some name =>
    if label == "global" then .full name
    else .failed c.text ("extern alias '" ++ label ++ "' is not supported")
  | _, _ => .failed c.text "malformed alias-qualified name"

/-- A dotted name, read from its last segment outwards. Type arguments are only allowed on the last
segment of the whole name. -/
def qualifyDotted (c : Cursor) : QualifiedName :=
  match _ : c.field? "qualifier", c.field? "name" with
  | some qualifier, some name =>
    match name.segment? with
    | some last =>
      match qualifier.kind with
      | "identifier" => (QualifiedName.partially qualifier.text).append last
      | "qualified_name" => (qualifyDotted qualifier).append last
      | "alias_qualified_name" => qualifier.qualifyAlias.append last
      | "generic_name" => .failed c.text "type arguments on a qualifier are not supported"
      | other => .failed c.text ("unsupported qualifier '" ++ other ++ "'")
    | none => .failed c.text "unsupported name segment"
  | _, _ => .failed c.text "qualified name without qualifier"
termination_by sizeOf c.node
decreasing_by exact sizeOf_node_of_field? (by assumption)

/-- Reads the type name that a node writes. -/
def qualify (c : Cursor) : QualifiedName :=
  if c.node.isBroken then .failed c.text "type syntax contains errors"
  else
    match c.kind with
    | "predefined_type" => .full c.text
    | "identifier" => .partially c.text
    | "generic_name" =>
      match c.genericIdentifier? with
      | some name => .partially name
      | none => .failed c.text "generic name without identifier"
    | "qualified_name" => c.qualifyDotted
    | "alias_qualified_name" => c.qualifyAlias
    | "tuple_type" => .partially (Text.tupleDisplay c.text)
    | other => .failed c.text ("'" ++ other ++ "' does not name a type")

end Cursor

end TypeCatalog
