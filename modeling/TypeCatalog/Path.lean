namespace TypeCatalog

/-- A file path, kept as it was first written. -/
structure Path where
  text : String
  deriving DecidableEq, Repr

namespace Path

/-- The parts between slashes, without empty ones. -/
def segments (s : String) : List String :=
  (s.splitOn "/").filter (!·.isEmpty)

/-- What identifies a path: a leading `/`, or a leading `.`, and the named parts. Repeated and
trailing slashes and inner `.` parts do not count. -/
def components (p : Path) : List String :=
  let named := (segments p.text).filter (· != ".")
  if p.text.startsWith "/" then "/" :: named
  else if p.text == "." || p.text.startsWith "./" then "." :: named
  else named

def same (p q : Path) : Bool := p.components == q.components

/-- A path without the empty and `.` parts at its start. -/
def plain (s : String) : String :=
  let rest := "/".intercalate ((s.splitOn "/").dropWhile fun p => p.isEmpty || p == ".")
  if s.startsWith "/" then "/" ++ rest else rest

/-- Goes on from a path by names; the text of the path stays as it is. -/
def extend (s : String) (names : List String) : String :=
  if names.isEmpty then s
  else if s.isEmpty || s.endsWith "/" then s ++ "/".intercalate names
  else s ++ "/" ++ "/".intercalate names

end Path

end TypeCatalog
