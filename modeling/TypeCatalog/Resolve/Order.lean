import TypeCatalog.Error
import TypeCatalog.Precedence
import TypeCatalog.Row

namespace TypeCatalog

/-- A resolver finds named types of one kind. -/
inductive Resolver where
  | documented | parameter | external | tuple
  deriving DecidableEq, Repr

namespace Resolver

def kind : Resolver → TypeKind
  | documented => .documented
  | parameter => .parameter
  | external => .external
  | tuple => .tuple

def text (r : Resolver) : String := TextForm.text r.kind

def all : List Resolver := [documented, parameter, external, tuple]

def ofText? (s : String) : Option Resolver := all.find? (·.text == s)

/-- Type parameters shadow documented types and documented types shadow external ones. The external
resolver, which may create rows, comes last. -/
def precedence : List (Resolver × Resolver) :=
  [(parameter, documented), (documented, tuple), (tuple, external)]

end Resolver

/-- The order in which resolvers are asked. -/
structure Chain where
  order : List Resolver
  deriving DecidableEq, Repr

namespace Chain

def ofConstraints (resolvers : List Resolver) (constraints : List (Resolver × Resolver)) :
    Except ResolveError Chain :=
  match Precedence.sort resolvers constraints with
  | .ok order => .ok ⟨order⟩
  | .error stuck => .error (.resolverOrder (", ".intercalate (stuck.map Resolver.text)))

def standard : Chain := ⟨[.parameter, .documented, .tuple, .external]⟩

theorem ofConstraints_precedence :
    ofConstraints Resolver.all Resolver.precedence = .ok standard :=
  rfl

end Chain

end TypeCatalog
