namespace TypeCatalog.Precedence

variable {α : Type} [DecidableEq α]

/-- Position of the last occurrence of `x`. -/
def lastIndex? (x : α) : List α → Option Nat
  | [] => none
  | y :: ys =>
    match lastIndex? x ys with
    | some i => some (i + 1)
    | none => if y = x then some 0 else none

/-- The constraints between listed items, as pairs of positions. -/
def edges (items : List α) (constraints : List (α × α)) : List (Nat × Nat) :=
  constraints.filterMap fun (b, a) =>
    match lastIndex? b items, lastIndex? a items with
    | some i, some j => some (i, j)
    | _, _ => none

def targeted (es : List (Nat × Nat)) (i : Nat) : Bool := es.any (·.2 == i)

/-- Positions below `n` that lose their last incoming edge when `i` is taken out. -/
def released (n i : Nat) (es : List (Nat × Nat)) : List Nat :=
  (List.range n).filter fun j => es.contains (i, j) && !targeted (es.filter (·.1 != i)) j

/-- Takes positions off the front of the queue, at most `steps` of them. A position joins the end of
the queue once nothing is left that has to come before it. Returns the positions taken, in order,
and the edges left over. -/
def drain (n : Nat) : (steps : Nat) → (queue : List Nat) → List (Nat × Nat) →
    List Nat × List (Nat × Nat)
  | 0, _, es => ([], es)
  | _ + 1, [], es => ([], es)
  | s + 1, i :: queue, es =>
    let (taken, rest) := drain n s (queue ++ released n i es) (es.filter (·.1 != i))
    (i :: taken, rest)

/-- Orders `items` so that `b` comes before `a` for each constraint `(b, a)`; among items that are
ready together the listed order wins. The error lists the items that cannot be placed. -/
def sort (items : List α) (constraints : List (α × α)) : Except (List α) (List α) :=
  let n := items.length
  let es := edges items constraints
  let (taken, rest) := drain n n ((List.range n).filter fun i => !targeted es i) es
  if taken.length < n then
    .error (((List.range n).filter (targeted rest)).filterMap (items[·]?))
  else
    .ok (taken.filterMap (items[·]?))

end TypeCatalog.Precedence
