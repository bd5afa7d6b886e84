namespace TypeCatalog

/-- A configuration value. No setting is a number with a fraction, so such a number carries nothing. -/
inductive Value where
  | bool (b : Bool)
  | int (n : Int)
  | float
  | text (s : String)
  | list (vs : List Value)
  | table (entries : List (String × Value))

namespace Value

def lookup (es : List (String × Value)) (k : String) : Option Value :=
  (es.find? (·.1 == k)).map (·.2)

def put (es : List (String × Value)) (k : String) (v : Value) : List (String × Value) :=
  if es.any (·.1 == k) then es.map fun e => if e.1 == k then (k, v) else e else es ++ [(k, v)]

mutual

/-- Lays a value over an older one. Tables are merged entry by entry, all else is replaced. -/
def merge (old : Value) : Value → Value
  | .table new =>
    match old with
    | .table es => .table (mergeAll es new)
    | _ => .table new
  | v => v

def mergeAll (es : List (String × Value)) : List (String × Value) → List (String × Value)
  | [] => es
  | (k, v) :: rest =>
    let merged := match lookup es k with
      | some old => merge old v
      | none => v
    mergeAll (put es k merged) rest

end

/-- A value at the end of a path of keys. -/
def nest (v : Value) : List String → Value
  | [] => v
  | k :: ks => .table [(k, nest v ks)]

end Value

end TypeCatalog
