import TypeCatalog.Resolve.Context
import TypeCatalog.Source.Name

namespace TypeCatalog

/-- How the name of a descriptor is to be understood. -/
inductive NameForm where
  /-- A keyword such as `int`. -/
  | keyword
  /-- A name that starts at the global namespace. -/
  | rooted
  /-- A name to be looked up in these contexts, innermost first. -/
  | searched (contexts : List Context)
  /-- The display form of a tuple. -/
  | tuple
  deriving DecidableEq, Repr

/-- A type as written. The arguments of a tuple are its elements; `elementName` is the name that a
tuple element is given. `rank` counts array dimensions. -/
inductive Descriptor where
  | mk (name : String) (form : NameForm) (rank : Nat) (elementName : Option String)
    (arguments : List Descriptor)

namespace Descriptor

def name : Descriptor → String
  | mk n _ _ _ _ => n

def form : Descriptor → NameForm
  | mk _ f _ _ _ => f

def rank : Descriptor → Nat
  | mk _ _ r _ _ => r

def elementName : Descriptor → Option String
  | mk _ _ _ e _ => e

def arguments : Descriptor → List Descriptor
  | mk _ _ _ _ as => as

def argumentCount (d : Descriptor) : Nat := d.arguments.length

def isTuple (d : Descriptor) : Bool := d.form == .tuple

def isPredefined (d : Descriptor) : Bool := d.form == .keyword

def state (d : Descriptor) : NameState :=
  match d.form with
  | .keyword | .rooted => .full
  | .searched _ | .tuple => .partially

def isFull (d : Descriptor) : Bool := d.state == .full

def contexts? (d : Descriptor) : Option (List Context) :=
  match d.form with
  | .searched cs => some cs
  | _ => none

def addRank (n : Nat) : Descriptor → Descriptor
  | mk name form rank e as => mk name form (rank + n) e as

def withElementName (e : Option String) : Descriptor → Descriptor
  | mk name form rank e' as => mk name form rank (e.or e') as

/-- The namespace part of a dotted name and the simple name. Tuples are not dotted. -/
def split (d : Descriptor) : Option String × String :=
  if d.isTuple then (none, d.name)
  else
    match Dotted.split? d.name with
    | some (qualifier, simple) => (some qualifier, simple)
    | none => (none, d.name)

mutual

def nodeCount : Descriptor → Nat
  | mk _ _ _ _ as => 1 + nodeCountAll as

def nodeCountAll : List Descriptor → Nat
  | [] => 0
  | d :: ds => nodeCount d + nodeCountAll ds

end

mutual

/-- The descriptor and its descendants with their depth, each before its own descendants. -/
def preorder (depth : Nat) : Descriptor → List (Nat × Descriptor)
  | mk n f r e as => (depth, mk n f r e as) :: preorderAll (depth + 1) as

def preorderAll (depth : Nat) : List Descriptor → List (Nat × Descriptor)
  | [] => []
  | d :: ds => preorder depth d ++ preorderAll depth ds

end

mutual

/-- The type in source form. -/
def display : Descriptor → String
  | mk name form rank _ as =>
    let inner := match form with
      | .tuple => "(" ++ ", ".intercalate (displayElements as) ++ ")"
      | _ =>
        if as.isEmpty then name else name ++ "<" ++ ", ".intercalate (displayAll as) ++ ">"
    inner ++ String.join (List.replicate rank "[]")

def displayAll : List Descriptor → List String
  | [] => []
  | d :: ds => display d :: displayAll ds

/-- Elements carry their names. -/
def displayElements : List Descriptor → List String
  | [] => []
  | d :: ds =>
    (match d.elementName with
      | some n => display d ++ " " ++ n
      | none => display d) :: displayElements ds

end

/-- The name of the element at `index` of a tuple; elements without a name are numbered from 1. -/
def elementNameAt (d : Descriptor) (index : Nat) : String :=
  d.elementName.getD ("Item" ++ toString (index + 1))

end Descriptor

end TypeCatalog
