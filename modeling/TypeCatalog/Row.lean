import TypeCatalog.RowId
import TypeCatalog.Path
import TypeCatalog.Text.Form
import TypeCatalog.Text.NameSet

namespace TypeCatalog

/-- The four kinds of named types. A `parameter` is a use of a documented type's own type parameter. -/
inductive TypeKind where
  | documented | external | parameter | tuple
  deriving DecidableEq, Repr

instance : TextForm TypeKind where
  all := [.documented, .external, .parameter, .tuple]
  text
    | .documented => "documented"
    | .external => "external"
    | .parameter => "local"
    | .tuple => "tuple"

inductive DeclKind where
  | «class» | interface | struct | record | enum | delegate
  deriving DecidableEq, Repr

instance : TextForm DeclKind where
  all := [.class, .interface, .struct, .record, .enum, .delegate]
  text
    | .class => "class"
    | .interface => "interface"
    | .struct => "struct"
    | .record => "record"
    | .enum => "enum"
    | .delegate => "delegate"

/-- The declaration that a syntax node of this kind makes. -/
def DeclKind.ofNodeKind? : String → Option DeclKind
  | "class_declaration" => some .class
  | "interface_declaration" => some .interface
  | "struct_declaration" => some .struct
  | "record_declaration" | "record_struct_declaration" => some .record
  | "enum_declaration" => some .enum
  | "delegate_declaration" => some .delegate
  | _ => none

/-- `external` stands for a type defined outside the documented source. -/
inductive Accessibility where
  | «public» | internal | «protected» | protectedInternal | privateProtected | «private» | external
  deriving DecidableEq, Repr

instance : TextForm Accessibility where
  all := [.public, .internal, .protected, .protectedInternal, .privateProtected, .private, .external]
  text
    | .public => "public"
    | .internal => "internal"
    | .protected => "protected"
    | .protectedInternal => "protected internal"
    | .privateProtected => "private protected"
    | .private => "private"
    | .external => "external"

inductive Variance where
  | invariant | covariant | contravariant
  deriving DecidableEq, Repr

instance : TextForm Variance where
  all := [.invariant, .covariant, .contravariant]
  text
    | .invariant => "none"
    | .covariant => "out"
    | .contravariant => "in"

/-- Where a type reference stands relative to the type that owns it. -/
inductive Role where
  | baseType | constraint | field | property | returnType | parameter
  deriving DecidableEq, Repr

instance : TextForm Role where
  all := [.baseType, .constraint, .field, .property, .returnType, .parameter]
  text
    | .baseType => "base"
    | .constraint => "constraint"
    | .field => "field"
    | .property => "property"
    | .returnType => "return"
    | .parameter => "parameter"

/-- `name` is fully qualified; the global namespace has the empty name. -/
structure Namespace where
  id : NamespaceId
  name : String
  parent : Option NamespaceId
  deriving DecidableEq, Repr

def Namespace.isGlobal (n : Namespace) : Bool := n.name.isEmpty

/-- `usings` are the namespaces imported for the whole file, in the order written. -/
structure SourceFile where
  id : FileId
  path : Path
  usings : List NamespaceId
  deriving DecidableEq, Repr

structure TypeParameter where
  ordinal : Nat
  name : String
  variance : Variance
  deriving DecidableEq, Repr

/-- A type declared in the documented source. `fullName` is the namespace, the outer types and the
name, joined by dots. `parameters` is `none` until the list is read from the store. -/
structure Documented where
  name : String
  fullName : String
  home : NamespaceId
  container : Option TypeId
  declKind : DeclKind
  access : Accessibility
  file : FileId
  arity : Nat
  parameters : Option (List TypeParameter)
  deriving DecidableEq, Repr

/-- A type that is referred to but defined elsewhere, with every namespace it was seen from. -/
structure External where
  name : String
  arity : Nat
  access : Accessibility
  namespaces : NameSet
  deriving DecidableEq, Repr

def External.couldLiveIn (e : External) (namespaces : List String) : Bool :=
  namespaces.any e.namespaces.contains

/-- The use of the type parameter at position `index` of `declaring`. -/
structure Parameter where
  name : String
  declaring : TypeId
  index : Nat
  deriving DecidableEq, Repr

structure Tuple where
  name : String
  elements : List ElementId
  deriving DecidableEq, Repr

inductive NamedType where
  | documented (d : Documented)
  | external (x : External)
  | parameter (p : Parameter)
  | tuple (t : Tuple)
  deriving DecidableEq, Repr

namespace NamedType

def kind : NamedType → TypeKind
  | documented _ => .documented
  | external _ => .external
  | parameter _ => .parameter
  | tuple _ => .tuple

def name : NamedType → String
  | documented d => d.name
  | external x => x.name
  | parameter p => p.name
  | tuple t => t.name

def fullName : NamedType → String
  | documented d => d.fullName
  | t => t.name

def arity : NamedType → Nat
  | documented d => d.arity
  | external x => x.arity
  | parameter _ => 0
  | tuple t => t.elements.length

def documented? : NamedType → Option Documented
  | documented d => some d
  | _ => none

def external? : NamedType → Option External
  | external x => some x
  | _ => none

def tuple? : NamedType → Option Tuple
  | tuple t => some t
  | _ => none

/-- Identity of element types when tuples are compared: two documented types by full name, all others
by name. -/
def sameIdentity : NamedType → NamedType → Bool
  | documented a, documented b => a.fullName == b.fullName
  | a, b => a.name == b.name

end NamedType

structure TupleElement where
  id : ElementId
  tuple : TypeId
  ordinal : Nat
  name : String
  rank : Nat
  elementType : TypeId
  deriving DecidableEq, Repr

/-- A tuple element before it has a row. -/
structure NewElement where
  name : String
  rank : Nat
  elementType : TypeId
  deriving DecidableEq, Repr

/-- A node of a type-reference tree; `rank` counts array dimensions. -/
structure Reference where
  id : ReferenceId
  named : TypeId
  rank : Nat
  parent : Option ReferenceId
  deriving DecidableEq, Repr

/-- A type reference written in the declaration of `owner`. `member` names the member, parameter or
constrained type parameter. -/
structure Usage where
  id : UsageId
  owner : TypeId
  reference : ReferenceId
  role : Role
  member : Option String
  deriving DecidableEq, Repr

end TypeCatalog
