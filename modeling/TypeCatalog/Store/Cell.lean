import TypeCatalog.Text.Decimal

namespace TypeCatalog

/-- The number `num / 2 ^ scale`, in lowest terms. -/
structure Binary where
  num : Int
  scale : Nat
  deriving DecidableEq, Repr

namespace Binary

def ofInt (n : Int) : Binary := ⟨n, 0⟩

/-- Halves the numerator as long as it is even. -/
def lowest (n : Nat) : Nat → Nat × Nat
  | 0 => (n, 0)
  | k + 1 => if n % 2 = 0 then lowest (n / 2) k else (n, k + 1)

def le (a b : Binary) : Bool :=
  a.num * Int.ofNat (Nat.pow 2 b.scale) ≤ b.num * Int.ofNat (Nat.pow 2 a.scale)

end Binary

inductive Cell where
  | null
  | int (n : Int)
  | real (x : Binary)
  | text (s : String)
  deriving DecidableEq, Repr

namespace Cell

/-- Sort order of cells: nulls, then numbers, then texts. -/
def le : Cell → Cell → Bool
  | null, _ => true
  | _, null => false
  | int a, int b => a ≤ b
  | int a, real b => (Binary.ofInt a).le b
  | real a, int b => a.le (.ofInt b)
  | real a, real b => a.le b
  | text a, text b => a ≤ b
  | _, text _ => true
  | text _, _ => false

def ofOption (f : α → Cell) : Option α → Cell
  | some a => f a
  | none => null

def nat (n : Nat) : Cell := int n

def int? : Cell → Option Int
  | int n => some n
  | _ => none

end Cell

/-- The parts of a text that writes a number. `plain` when it has neither a point nor an exponent. -/
structure Numeral where
  negative : Bool
  whole : List Char
  fraction : List Char
  exponent : Int
  plain : Bool

namespace Numeral

def isSpace (c : Char) : Bool := c == ' ' || ('\t' ≤ c && c ≤ '\r')

def trim (cs : List Char) : List Char :=
  ((cs.dropWhile isSpace).reverse.dropWhile isSpace).reverse

def sign : List Char → Bool × List Char
  | '-' :: cs => (true, cs)
  | '+' :: cs => (false, cs)
  | cs => (false, cs)

/-- Once an exponent has reached ten thousand, every further digit makes it ten thousand. -/
def exponentOf (negative : Bool) (ds : List Char) : Int :=
  let e := ds.foldl (fun e c => if e < 10000 then 10 * e + Decimal.digit c else 10000) 0
  if negative then -Int.ofNat e else Int.ofNat e

/-- Reads the whole text between blanks: a sign, digits on at least one side of a point, an exponent. -/
def ofText? (s : String) : Option Numeral :=
  let (negative, cs) := sign (trim s.toList)
  let (whole, cs) := cs.span Char.isDigit
  let (fraction, cs, plain) := match cs with
    | '.' :: cs => ((cs.span Char.isDigit).1, (cs.span Char.isDigit).2, false)
    | cs => ([], cs, true)
  if whole.isEmpty && fraction.isEmpty then none
  else
    match cs with
    | [] => some { negative, whole, fraction, exponent := 0, plain }
    | c :: cs =>
      let (below, ds) := sign cs
      if (c == 'e' || c == 'E') && !ds.isEmpty && ds.all Char.isDigit then
        some { negative, whole, fraction, exponent := exponentOf below ds, plain := false }
      else none

/-- A significand takes no further digit once it has reached this. -/
def room : Nat := 1844674407370955160

/-- Takes one more digit, or drops it; either way the power of ten changes. -/
def takeDigit (taken dropped : Int) (a : Nat × Int) (c : Char) : Nat × Int :=
  if a.1 < room then (10 * a.1 + Decimal.digit c, a.2 + taken) else (a.1, a.2 + dropped)

/-- The significand and the power of ten that it is multiplied by. -/
def significand (x : Numeral) : Nat × Int :=
  x.fraction.foldl (takeDigit (-1) 0) (x.whole.foldl (takeDigit 0 1) (0, x.exponent))

/-- The magnitude as a binary fraction; `2 ^ 1024` stands for everything from there on. -/
def magnitude (x : Numeral) : Nat × Nat :=
  let (s, e) := x.significand
  let top := Nat.pow 2 1024
  if s = 0 ∨ e < -400 then (0, 0)
  else if e > 400 then (top, 0)
  else
    let (n, scale) := Decimal.nearestBinary (s * Nat.pow 10 e.toNat) (Nat.pow 10 (-e).toNat)
    let (n, scale) := Binary.lowest n scale
    (min n top, scale)

def signed (x : Numeral) (n : Nat) : Int := if x.negative then -Int.ofNat n else Int.ofNat n

/-- An integer of 64 bits that is written plainly is kept exactly. Every other number is rounded to 53
bits, and is an integer again if it is one of fewer than 64 bits. -/
def cell (x : Numeral) : Cell :=
  let exact := x.signed ((Decimal.digits? x.whole).getD 0)
  if x.plain ∧ -9223372036854775808 ≤ exact ∧ exact ≤ 9223372036854775807 then .int exact
  else
    let (n, scale) := x.magnitude
    if scale = 0 ∧ n < 9223372036854775808 then .int (x.signed n)
    else .real ⟨x.signed n, scale⟩

end Numeral

end TypeCatalog
