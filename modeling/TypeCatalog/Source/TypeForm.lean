import TypeCatalog.Tree.Basic

namespace TypeCatalog

/-- The forms of type syntax that can be described. A `baseWithArguments` is a base-list entry that
passes constructor arguments. -/
inductive TypeForm where
  | baseWithArguments | constraint | identifier | predefined | array | generic | tuple
  | tupleElement | argumentList | qualified | aliasQualified | nullable
  deriving DecidableEq, Repr

namespace TypeForm

def ofKind? : String → Option TypeForm
  | "primary_constructor_base_type" => some .baseWithArguments
  | "type_parameter_constraint" => some .constraint
  | "identifier" => some .identifier
  | "predefined_type" => some .predefined
  | "array_type" => some .array
  | "generic_name" => some .generic
  | "tuple_type" => some .tuple
  | "tuple_element" => some .tupleElement
  | "type_argument_list" => some .argumentList
  | "qualified_name" => some .qualified
  | "alias_qualified_name" => some .aliasQualified
  | "nullable_type" => some .nullable
  | _ => none

/-- Whether the form is a complete type on its own. -/
def isType : TypeForm → Bool
  | .tupleElement | .argumentList | .constraint => false
  | _ => true

end TypeForm

namespace Cursor

def typeForm? (c : Cursor) : Option TypeForm := TypeForm.ofKind? c.kind

/-- The type inside a wrapper such as a constraint, a nullable or an array type. -/
def wrappedType? (c : Cursor) : Option Cursor :=
  (c.field? "type").or (c.namedChildren.find? fun x => x.typeForm?.any (·.isType))

/-- Dimensions that the rank specifiers directly under an array type add: `[]` one, `[,]` two. -/
def arrayRank (c : Cursor) : Nat :=
  (c.children.filter (·.kind == "array_rank_specifier")).foldr
    (fun s rank => s.children.countP (·.kind == ",") + 1 + rank) 0

end Cursor

end TypeCatalog
