namespace TypeCatalog

/-- A set of names, kept as a list in ascending order without repetitions. Names are ordered by their
characters' code points, which is also the order of their bytes. -/
structure NameSet where
  names : List String
  deriving DecidableEq, Repr

namespace NameSet

def empty : NameSet := ⟨[]⟩

def insertName (x : String) : List String → List String
  | [] => [x]
  | y :: ys => if x = y then y :: ys else if x < y then x :: y :: ys else y :: insertName x ys

def insert (s : NameSet) (x : String) : NameSet := ⟨insertName x s.names⟩

def ofList (xs : List String) : NameSet := xs.foldl insert empty

def contains (s : NameSet) (x : String) : Bool := s.names.contains x

def isEmpty (s : NameSet) : Bool := s.names.isEmpty

end NameSet

end TypeCatalog
