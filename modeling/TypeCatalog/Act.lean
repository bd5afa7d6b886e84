import TypeCatalog.Session

namespace TypeCatalog

/-- A step of work on a session. A step that fails keeps what it did before. -/
abbrev Act (ε α : Type) := ExceptT ε (StateM Session) α

namespace Act

variable {ε α : Type}

/-- One operation of the session; a failing operation changes nothing. -/
def perform (wrap : CatalogError → ε) (op : Session → Except CatalogError (α × Session)) : Act ε α := do
  match op (← get) with
  | .ok (a, s) =>
    set s
    return a
  | .error e => throw (wrap e)

def query (wrap : CatalogError → ε) (q : Session → Except CatalogError α) : Act ε α := do
  match q (← get) with
  | .ok a => return a
  | .error e => throw (wrap e)

def mapError {δ : Type} (f : ε → δ) (a : Act ε α) : Act δ α := ExceptT.adapt f a

/-- The outcome of a step, which is itself no failure. -/
def attempt {δ : Type} (a : Act ε α) : Act δ (Except ε α) := ExceptT.lift a.run

end Act

end TypeCatalog
