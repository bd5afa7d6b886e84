import TypeCatalog.Row
import TypeCatalog.Source.Scope
import TypeCatalog.Source.TypeForm

namespace TypeCatalog.Cursor

def parameterList? (c : Cursor) : Option Cursor :=
  (c.field? "type_parameters").or (c.childOf? ["type_parameter_list"])

/-- The type parameter nodes of a declaration, in order. -/
def parameterNodes (c : Cursor) : List Cursor :=
  match c.parameterList? with
  | some list => list.namedChildren.filter (·.kind == "type_parameter")
  | none => []

def variance (c : Cursor) : Variance :=
  if c.hasChildOf "out" then .covariant
  else if c.hasChildOf "in" then .contravariant
  else .invariant

/-- The declared type parameters, numbered in order. -/
def typeParameters (c : Cursor) : List TypeParameter :=
  (c.parameterNodes.filterMap fun p => p.declaredName?.map (·, p.variance)).zipIdx.map
    fun ((name, variance), ordinal) => { ordinal, name, variance }

def typeParameterCount (c : Cursor) : Nat := c.parameterNodes.length

/-- Accessibility by the modifiers. Without one, nested types are private and others internal. -/
def accessibility (c : Cursor) : Accessibility :=
  let modifiers := (c.children.filter (·.kind == "modifier")).map (·.text)
  if modifiers.contains "public" then .public
  else if modifiers.contains "protected" && modifiers.contains "internal" then .protectedInternal
  else if modifiers.contains "private" && modifiers.contains "protected" then .privateProtected
  else if modifiers.contains "protected" then .protected
  else if modifiers.contains "internal" then .internal
  else if modifiers.contains "private" || !c.enclosingTypes.isEmpty then .private
  else .internal

/-- The entries of the base list, in order. -/
def baseTypes (c : Cursor) : List Cursor :=
  match c.childOf? ["base_list"] with
  | some list => list.namedChildren.filter (·.kind != "argument_list")
  | none => []

/-- The `where` clauses: the type parameter and its constraints that name a type. -/
def constraintClauses (c : Cursor) : List (String × List Cursor) :=
  (c.children.filter (·.kind == "type_parameter_constraints_clause")).filterMap fun clause => do
    let target ← (clause.field? "target").or (clause.childOf? ["identifier"])
    return (target.text, clause.children.filter fun x =>
      x.kind == "type_parameter_constraint" && x.wrappedType?.isSome)

end TypeCatalog.Cursor

namespace TypeCatalog

/-- A type written in the signature of a member. -/
structure MemberType where
  role : Role
  member : String
  type : Cursor

namespace Cursor

/-- The parameters of a method or constructor, named `Member.parameter`. -/
def signatureParameters (c : Cursor) (member : String) : List MemberType :=
  match (c.field? "parameters").or (c.childOf? ["parameter_list"]) with
  | some list =>
    (list.namedChildren.filter (·.kind == "parameter")).filterMap fun p => do
      let type ← p.field? "type"
      let name ← p.declaredName?
      return { role := .parameter, member := member ++ "." ++ name, type }
  | none => []

/-- A field declaration lists all its variables under one type. -/
def fieldType (c : Cursor) : Option MemberType := do
  let declaration ← c.childOf? ["variable_declaration"]
  let type ← declaration.field? "type"
  let names := (declaration.namedChildren.filter (·.kind == "variable_declarator")).filterMap declaredName?
  return { role := .field, member := ", ".intercalate names, type }

def propertyType (c : Cursor) : Option MemberType := do
  let type ← c.field? "type"
  let name ← c.declaredName?
  return { role := .property, member := name, type }

def isGenericMethod (c : Cursor) : Bool :=
  c.kind == "method_declaration" && c.declaredName?.isSome && c.parameterList?.isSome

/-- Return type, unless it is `void`, and parameters. -/
def methodTypes (c : Cursor) (name : String) : List MemberType :=
  let returned :=
    match (c.field? "returns").or (c.field? "type") with
    | some type => if type.text == "void" then [] else [{ role := .returnType, member := name, type }]
    | none => []
  returned ++ c.signatureParameters name

/-- The types in the signature of one member. Methods with type parameters of their own are left
out. -/
def signatureTypes (c : Cursor) : List MemberType :=
  match c.kind with
  | "field_declaration" => c.fieldType.toList
  | "property_declaration" => c.propertyType.toList
  | "method_declaration" =>
    match c.declaredName? with
    | some name => if c.parameterList?.isSome then [] else c.methodTypes name
    | none => []
  | "constructor_declaration" =>
    match c.declaredName? with
    | some name => c.signatureParameters name
    | none => []
  | _ => []

def members (c : Cursor) : List Cursor :=
  match c.body? with
  | some body => body.namedChildren
  | none => []

/-- The types in field, property, method and constructor signatures of a declaration. Nested type
declarations are not entered. -/
def memberTypes (c : Cursor) : List MemberType := c.members.flatMap signatureTypes

/-- Names of the methods with type parameters, which are not scanned. -/
def genericMethods (c : Cursor) : List String :=
  (c.members.filter isGenericMethod).filterMap declaredName?

end Cursor

end TypeCatalog
