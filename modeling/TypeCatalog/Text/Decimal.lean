namespace TypeCatalog.Decimal

def digit (c : Char) : Nat := c.toNat - '0'.toNat

/-- The number that a run of decimal digits writes. -/
def digits? (cs : List Char) : Option Nat :=
  if cs.isEmpty || !cs.all Char.isDigit then none
  else some (cs.foldl (fun n c => 10 * n + digit c) 0)

/-- The quotient to the nearest integer; a half goes to the even neighbour. -/
def roundDiv (num den : Nat) : Nat :=
  let q := num / den
  let r := num % den
  if den < 2 * r || (2 * r == den && q % 2 == 1) then q + 1 else q

/-- The integer `e` with `2 ^ e ≤ num / den < 2 ^ (e + 1)`. -/
def exponent (num den : Nat) : Int :=
  let e : Int := (num.log2 : Int) - (den.log2 : Int)
  if num * Nat.pow 2 (-e).toNat < den * Nat.pow 2 e.toNat then e - 1 else e

/-- The number `n / 2 ^ scale` that is nearest to `num / den` among those with 53 significant bits and
at most 1074 binary places, as `(n, scale)`. -/
def nearestBinary (num den : Nat) : Nat × Nat :=
  if num = 0 then (0, 0)
  else
    let last := max (exponent num den - 52) (-1074)
    (roundDiv (num * Nat.pow 2 (-last).toNat) (den * Nat.pow 2 last.toNat) * Nat.pow 2 last.toNat,
      (-last).toNat)

/-- A duration in seconds as a binary fraction: whole seconds and the fraction of a second are rounded
first, then their sum. -/
def seconds (milliseconds : Nat) : Nat × Nat :=
  let (whole, a) := nearestBinary (milliseconds / 1000) 1
  let (part, b) := nearestBinary (milliseconds % 1000 * 1000000) 1000000000
  nearestBinary (whole * Nat.pow 2 b + part * Nat.pow 2 a) (Nat.pow 2 (a + b))

def padTwo (n : Nat) : String := if n < 10 then "0" ++ toString n else toString n

/-- A fraction with two places. -/
def twoPlaces (num den : Nat) : String :=
  let n := roundDiv (num * 100) den
  toString (n / 100) ++ "." ++ padTwo (n % 100)

end TypeCatalog.Decimal
