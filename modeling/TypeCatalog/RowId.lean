namespace TypeCatalog

/-- The kinds of rows that carry an id. Ids of different kinds do not mix. -/
inductive Entity where
  | scope | file | named | element | reference | usage
  deriving DecidableEq, Repr

/-- A row number of one kind. Rows are counted from 1, so 0 names no row. -/
structure RowId (e : Entity) where
  value : Nat
  deriving DecidableEq, Repr

abbrev NamespaceId := RowId .scope
abbrev FileId := RowId .file
abbrev TypeId := RowId .named
abbrev ElementId := RowId .element
abbrev ReferenceId := RowId .reference
abbrev UsageId := RowId .usage

namespace RowId

variable {e : Entity}

def ofNat? (n : Nat) : Option (RowId e) :=
  if n = 0 then none else some ⟨n⟩

def text (i : RowId e) : String := toString i.value

/-- Ids are 32-bit numbers; this is the largest of them. -/
def largest : Nat := 4294967295

end RowId

/-- Why no further id can be handed out. -/
inductive Exhausted where
  /-- The highest stored id is the largest one. -/
  | space
  /-- The counter has reached the largest id. -/
  | counter
  deriving DecidableEq, Repr

def Exhausted.message : Exhausted → String
  | .space => "Catalog id space exhausted"
  | .counter => "Catalog id counter overflow"

/-- Hands out ids in sequence; `used` is the highest one handed out so far. -/
structure Counter (e : Entity) where
  used : Nat
  deriving DecidableEq, Repr

namespace Counter

variable {e : Entity}

def start : Counter e := ⟨0⟩

/-- The counter that goes on after `last`. -/
def after (last : Nat) : Except Exhausted (Counter e) :=
  if last < RowId.largest then .ok ⟨last⟩ else .error .space

/-- The largest id is never handed out, so the counter always has a successor. -/
def next (c : Counter e) : Except Exhausted (RowId e × Counter e) :=
  if c.used + 1 < RowId.largest then .ok (⟨c.used + 1⟩, ⟨c.used + 1⟩) else .error .counter

def take (c : Counter e) : Nat → Except Exhausted (List (RowId e) × Counter e)
  | 0 => .ok ([], c)
  | n + 1 => do
    let (i, c) ← c.next
    let (is, c) ← c.take n
    return (i :: is, c)

end Counter

end TypeCatalog
