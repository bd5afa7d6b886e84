import TypeCatalog.Act
import TypeCatalog.Resolve.Context

namespace TypeCatalog

/-- What a descriptor was found to name: a row, or a type parameter whose row is still to be added. -/
inductive Target where
  | existing (id : TypeId)
  | parameter (declaring : TypeId) (index : Nat) (name : String)
  deriving DecidableEq, Repr

def Target.text : Target → String
  | existing id => id.text
  | parameter _ _ name => "local " ++ name

/-- A found target with its effects, which wait for `commit`: namespaces that an external type is seen
from. A tuple also carries what its elements were found to be. -/
inductive Resolved where
  | mk (target : Target) (learned : NameSet) (elements : List Resolved)

namespace Resolved

def target : Resolved → Target
  | mk t _ _ => t

def learned : Resolved → NameSet
  | mk _ l _ => l

def elements : Resolved → List Resolved
  | mk _ _ es => es

def ofTarget (t : Target) : Resolved := mk t .empty []

def named (id : TypeId) : Resolved := ofTarget (.existing id)

def existing? (r : Resolved) : Option TypeId :=
  match r.target with
  | .existing id => some id
  | .parameter _ _ _ => none

/-- Whether the target has the identity of a stored type. -/
def sameIdentity (s : Session) (stored : NamedType) (r : Resolved) : Except CatalogError Bool :=
  match r.target with
  | .existing id => return stored.sameIdentity (← s.requireNamed id)
  | .parameter _ _ name => return stored.name == name

/-- Carries out the waiting effects and gives the row. -/
def commit (r : Resolved) (s : Session) : Except CatalogError (TypeId × Session) :=
  match r.target with
  | .existing id =>
    if r.learned.isEmpty then .ok (id, s)
    else do
      let (_, s) ← s.extendExternal id r.learned.names
      return (id, s)
  | .parameter declaring index name => s.addParameter declaring index name

end Resolved

end TypeCatalog
