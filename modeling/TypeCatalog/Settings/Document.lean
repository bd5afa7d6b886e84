import TypeCatalog.Settings.Value

namespace TypeCatalog

/-- How a table of a document came about: by its own header, by the header of a table inside it, or by
a dotted key. -/
inductive Definition where
  | explicit | implicit | dotted
  deriving DecidableEq, Repr

/-- What a key of a document holds. `tables` are the tables of a repeated header, in order. -/
inductive Item where
  | value (v : Value)
  | table (how : Definition) (entries : List (String × Item))
  | tables (ts : List (List (String × Item)))

namespace Item

abbrev Entries := List (String × Item)

def lookup (es : Entries) (k : String) : Option Item := (es.find? (·.1 == k)).map (·.2)

def replace (es : Entries) (k : String) (i : Item) : Entries :=
  es.map fun e => if e.1 == k then (k, i) else e

mutual

def toValue : Item → Value
  | .value v => v
  | .table _ es => .table (toEntries es)
  | .tables ts => .list (toTables ts)

def toEntries : List (String × Item) → List (String × Value)
  | [] => []
  | (k, i) :: es => (k, toValue i) :: toEntries es

def toTables : List (List (String × Item)) → List Value
  | [] => []
  | t :: ts => .table (toEntries t) :: toTables ts

end

/-- Changes the entries at a path of keys. Tables on the way that are missing are implied; of repeated
tables the last is meant. -/
def alter (change : Entries → Option Entries) : List String → Entries → Option Entries
  | [], es => change es
  | k :: ks, es =>
    match lookup es k with
    | none => do return es ++ [(k, .table .implicit (← alter change ks []))]
    | some (.table how inner) => do return replace es k (.table how (← alter change ks inner))
    | some (.tables ts) => do
      let last ← ts.getLast?
      return replace es k (.tables (ts.dropLast ++ [← alter change ks last]))
    | some (.value _) => none

/-- Opens a table by a header. A table has at most one header, and none if dotted keys made it. -/
def openTable (k : String) (es : Entries) : Option Entries :=
  match lookup es k with
  | none => some (es ++ [(k, .table .explicit [])])
  | some (.table .implicit inner) => some (replace es k (.table .explicit inner))
  | _ => none

/-- Opens one more table of a repeated header. -/
def appendTable (k : String) (es : Entries) : Option Entries :=
  match lookup es k with
  | none => some (es ++ [(k, .tables [[]])])
  | some (.tables ts) => some (replace es k (.tables (ts ++ [[]])))
  | _ => none

/-- Sets a key that is not set yet. The keys before the last dot name tables; the last of them is one
that only dotted keys define, and none of them has a header of its own. Of repeated tables the last is
meant. -/
def assign (k : String) (v : Value) : List String → Entries → Option Entries
  | [], es => if (lookup es k).isSome then none else some (es ++ [(k, .value v)])
  | d :: ds, es =>
    match lookup es d with
    | none => do return es ++ [(d, .table .dotted (← assign k v ds []))]
    | some (.table .dotted inner) => do return replace es d (.table .dotted (← assign k v ds inner))
    | some (.table .implicit inner) =>
      if ds.isEmpty then none
      else do return replace es d (.table .implicit (← assign k v ds inner))
    | some (.tables ts) =>
      if ds.isEmpty then none
      else do
        let last ← ts.getLast?
        return replace es d (.tables (ts.dropLast ++ [← assign k v ds last]))
    | _ => none

end Item

end TypeCatalog
