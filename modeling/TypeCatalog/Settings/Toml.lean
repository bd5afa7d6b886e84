import TypeCatalog.Settings.Document
import TypeCatalog.Text.Hexadecimal

namespace TypeCatalog.Toml

/-- A reader takes what it reads off the front of the text. -/
abbrev Reader (α : Type) := List Char → Option (α × List Char)

def isControl (c : Char) : Bool := (c.toNat < 0x20 && c != '\t') || c.toNat == 0x7f

def isSpace (c : Char) : Bool := c == ' ' || c == '\t'

def skipSpace (cs : List Char) : List Char := cs.dropWhile isSpace

/-- The rest of a line after a comment sign, up to the line break. -/
def skipComment : List Char → Option (List Char)
  | [] => some []
  | '\n' :: cs => some ('\n' :: cs)
  | '\r' :: '\n' :: cs => some ('\r' :: '\n' :: cs)
  | c :: cs => if isControl c then none else skipComment cs

/-- The end of a line: spaces, a comment, and a line break or the end of the text. -/
def endLine (cs : List Char) : Option (List Char) := do
  let rest ← match skipSpace cs with
    | '#' :: cs => skipComment cs
    | cs => some cs
  match rest with
  | [] => some []
  | '\n' :: cs => some cs
  | '\r' :: '\n' :: cs => some cs
  | _ => none

/-- Skips spaces, line breaks and comments. -/
def skipBlank : (fuel : Nat) → List Char → Option (List Char)
  | 0, cs => some cs
  | n + 1, cs =>
    match cs with
    | ' ' :: cs | '\t' :: cs | '\n' :: cs => skipBlank n cs
    | '\r' :: '\n' :: cs => skipBlank n cs
    | '#' :: cs => do skipBlank n (← skipComment cs)
    | cs => some cs

/-! Strings -/

/-- The character of a code point that is not a surrogate. -/
def charOf? (n : Nat) : Option Char :=
  if n.isValidChar then some (Char.ofNat n) else none

/-- The character that stands after a backslash. -/
def escape : Reader Char
  | 'b' :: cs => some ('\x08', cs)
  | 't' :: cs => some ('\t', cs)
  | 'n' :: cs => some ('\n', cs)
  | 'f' :: cs => some ('\x0c', cs)
  | 'r' :: cs => some ('\r', cs)
  | '"' :: cs => some ('"', cs)
  | '\\' :: cs => some ('\\', cs)
  | 'u' :: cs => if cs.length < 4 then none else do
      return (← charOf? (← Hexadecimal.number? (cs.take 4)), cs.drop 4)
  | 'U' :: cs => if cs.length < 8 then none else do
      return (← charOf? (← Hexadecimal.number? (cs.take 8)), cs.drop 8)
  | _ => none

/-- The rest of a string in double quotes. -/
def basic : (fuel : Nat) → Reader (List Char)
  | 0, _ => none
  | n + 1, cs =>
    match cs with
    | '"' :: cs => some ([], cs)
    | '\\' :: cs => do
      let (c, cs) ← escape cs
      let (s, cs) ← basic n cs
      return (c :: s, cs)
    | c :: cs =>
      if isControl c then none
      else do
        let (s, cs) ← basic n cs
        return (c :: s, cs)
    | [] => none

/-- The rest of a string in single quotes. -/
def literal : Reader (List Char)
  | '\'' :: cs => some ([], cs)
  | c :: cs =>
    if isControl c then none
    else do
      let (s, cs) ← literal cs
      return (c :: s, cs)
  | [] => none

/-- Skips spaces and line breaks. A carriage return alone is not a line break. -/
def skipLines : List Char → List Char
  | '\n' :: cs => skipLines cs
  | '\r' :: '\n' :: cs => skipLines cs
  | c :: cs => if isSpace c then skipLines cs else c :: cs
  | [] => []

/-- After a backslash at the end of a line, the line break and all blanks that follow. -/
def foldedLine? (cs : List Char) : Option (List Char) :=
  match skipSpace cs with
  | '\n' :: cs => some (skipLines cs)
  | '\r' :: '\n' :: cs => some (skipLines cs)
  | _ => none

/-- The rest of a string in triple quotes `q`. Up to two quotes may stand right before the end. Only
double quotes know escapes. -/
def multiline (q : Char) (escapes : Bool) : (fuel : Nat) → Reader (List Char)
  | 0, _ => none
  | n + 1, cs =>
    let quotes := (cs.takeWhile (· == q)).length
    if 3 ≤ quotes then some (List.replicate (min quotes 5 - 3) q, cs.drop (min quotes 5))
    else
      match cs with
      | [] => none
      | '\r' :: '\n' :: cs => do
        let (s, cs) ← multiline q escapes n cs
        return ('\n' :: s, cs)
      | c :: cs =>
        if escapes && c == '\\' then
          match foldedLine? cs with
          | some cs => multiline q escapes n cs
          | none => do
            let (c, cs) ← escape cs
            let (s, cs) ← multiline q escapes n cs
            return (c :: s, cs)
        else if isControl c && c != '\n' then none
        else do
          let (s, cs) ← multiline q escapes n cs
          return (c :: s, cs)

/-- A line break right after the opening quotes does not count. -/
def skipFirstBreak : List Char → List Char
  | '\n' :: cs => cs
  | '\r' :: '\n' :: cs => cs
  | cs => cs

def string : Reader String
  | '"' :: '"' :: '"' :: cs => do
    let cs := skipFirstBreak cs
    let (s, cs) ← multiline '"' true (cs.length + 1) cs
    return (String.ofList s, cs)
  | '\'' :: '\'' :: '\'' :: cs => do
    let cs := skipFirstBreak cs
    let (s, cs) ← multiline '\'' false (cs.length + 1) cs
    return (String.ofList s, cs)
  | '"' :: cs => do
    let (s, cs) ← basic (cs.length + 1) cs
    return (String.ofList s, cs)
  | '\'' :: cs => do
    let (s, cs) ← literal cs
    return (String.ofList s, cs)
  | _ => none

/-! Keys -/

def isKeyChar (c : Char) : Bool := c.isAlphanum || c == '_' || c == '-'

/-- A bare key, or one in single or double quotes. -/
def simpleKey (cs : List Char) : Option (String × List Char) :=
  match cs with
  | '"' :: '"' :: '"' :: _ => none
  | '\'' :: '\'' :: '\'' :: _ => none
  | '"' :: _ => string cs
  | '\'' :: _ => string cs
  | _ =>
    let (key, rest) := cs.span isKeyChar
    if key.isEmpty then none else some (String.ofList key, rest)

/-- How deep values may be nested, and how many keys dots may join. -/
def maxNesting : Nat := 79

/-- At most `n` keys joined by dots, with spaces around the dots. -/
def dottedKeyOf : (n : Nat) → Reader (List String)
  | 0, _ => none
  | n + 1, cs => do
    let (k, cs) ← simpleKey (skipSpace cs)
    match skipSpace cs with
    | '.' :: cs =>
      let (ks, cs) ← dottedKeyOf n cs
      return (k :: ks, cs)
    | cs => return ([k], cs)

def dottedKey : Reader (List String) := dottedKeyOf maxNesting

/-! Numbers and dates -/

/-- Whether `cs` is a run of digits in which single underscores may stand between digits. -/
def isDigits (digit : Char → Bool) : List Char → Bool
  | [] => false
  | [c] => digit c
  | c :: '_' :: cs => digit c && isDigits digit cs
  | c :: cs => digit c && isDigits digit cs

def digitValue (base : Nat) (cs : List Char) : Nat :=
  (cs.filterMap Hexadecimal.digit?).foldl (fun n d => base * n + d) 0

def unsigned (cs : List Char) : Bool × List Char :=
  match cs with
  | '-' :: cs => (true, cs)
  | '+' :: cs => (false, cs)
  | cs => (false, cs)

def leadingZero : List Char → Bool
  | '0' :: _ :: _ => true
  | _ => false

/-- Integers have 64 bits. -/
def inRange (n : Int) : Option Int :=
  if -9223372036854775808 ≤ n ∧ n ≤ 9223372036854775807 then some n else none

def integer? (cs : List Char) : Option Int :=
  let based := fun (base : Nat) digit (ds : List Char) =>
    if isDigits digit ds then inRange (digitValue base ds) else none
  match cs with
  | '0' :: 'x' :: ds => based 16 (fun c => (Hexadecimal.digit? c).isSome) ds
  | '0' :: 'o' :: ds => based 8 (fun c => '0' ≤ c && c ≤ '7') ds
  | '0' :: 'b' :: ds => based 2 (fun c => c == '0' || c == '1') ds
  | cs =>
    let (negative, ds) := unsigned cs
    if isDigits Char.isDigit ds && !leadingZero ds then
      inRange (if negative then -(digitValue 10 ds : Int) else digitValue 10 ds)
    else none

/-- Whether `ds` times a power of ten is nearer to `2 ^ 1024` than to any smaller number of 53 bits. -/
def tooLarge (ds : List Char) (power : Int) : Bool :=
  let n := digitValue 10 ds
  if n = 0 ∨ power + ds.length < 309 then false
  else if 308 < power then true
  else (Nat.pow 2 54 - 1) * Nat.pow 2 970 * Nat.pow 10 (-power).toNat ≤ n * Nat.pow 10 power.toNat

/-- A number with a fraction or an exponent. It is not too large, but may be too far below zero. -/
def isFloat (cs : List Char) : Bool :=
  let (negative, cs) := unsigned cs
  if cs == "inf".toList || cs == "nan".toList then true
  else
    let isExponent := fun c => c == 'e' || c == 'E'
    let (mantissa, exponent) := cs.span (!isExponent ·)
    let (whole, fraction) := mantissa.span (· != '.')
    let (below, ds) := unsigned (exponent.drop 1)
    let places := (fraction.filter Char.isDigit).length
    let power : Int := (if below then -(digitValue 10 ds : Int) else digitValue 10 ds) - places
    isDigits Char.isDigit whole && !leadingZero whole
      && (fraction.isEmpty || isDigits Char.isDigit (fraction.drop 1))
      && (exponent.isEmpty || isDigits Char.isDigit ds)
      && !(fraction.isEmpty && exponent.isEmpty)
      && (negative || !tooLarge (mantissa.filter Char.isDigit) power)

/-- The number that exactly `n` digits write. -/
def fixedDigits? (n : Nat) (cs : List Char) : Option Nat :=
  if cs.length == n && cs.all Char.isDigit then some (digitValue 10 cs) else none

def daysIn (year month : Nat) : Nat :=
  match month with
  | 2 => if year % 4 == 0 && (year % 100 != 0 || year % 400 == 0) then 29 else 28
  | 4 | 6 | 9 | 11 => 30
  | _ => 31

def isDate (cs : List Char) : Bool :=
  match fixedDigits? 4 (cs.take 4), fixedDigits? 2 ((cs.drop 5).take 2), fixedDigits? 2 (cs.drop 8) with
  | some y, some m, some d =>
    cs.getD 4 ' ' == '-' && cs.getD 7 ' ' == '-' && 1 ≤ m && m ≤ 12 && 1 ≤ d && d ≤ daysIn y m
  | _, _, _ => false

/-- Hours and minutes. -/
def isClock (cs : List Char) : Bool :=
  match fixedDigits? 2 (cs.take 2), fixedDigits? 2 (cs.drop 3) with
  | some h, some m => cs.getD 2 ' ' == ':' && h ≤ 23 && m ≤ 59
  | _, _ => false

def isTime (cs : List Char) : Bool :=
  let rest := cs.drop 8
  isClock (cs.take 5) && cs.getD 5 ' ' == ':' && (fixedDigits? 2 ((cs.drop 6).take 2)).any (· ≤ 60)
    && (rest.isEmpty || (rest.getD 0 ' ' == '.' && 1 < rest.length && (rest.drop 1).all Char.isDigit))

def isOffset (cs : List Char) : Bool :=
  match cs with
  | [] | ['Z'] | ['z'] => true
  | '+' :: cs | '-' :: cs => isClock cs
  | _ => false

/-- A date, a time, or both with an optional offset. -/
def isDateTime (cs : List Char) : Bool :=
  if isDate cs || isTime cs then true
  else
    let sep := cs.getD 10 'x'
    let isZone := fun c => c == 'Z' || c == 'z' || c == '+' || c == '-'
    let (time, offset) := (cs.drop 11).span (!isZone ·)
    isDate (cs.take 10) && (sep == 'T' || sep == 't' || sep == ' ') && isTime time && isOffset offset

def isTokenChar (c : Char) : Bool :=
  c.isAlphanum || c == '_' || c == '+' || c == '-' || c == '.' || c == ':'

/-- What a date is read as: a table of its own parts, none of which is a setting. -/
def date : Value := .table []

/-- A value written without quotes or brackets. A space may join a date and a time. -/
def token : Reader Value := fun cs =>
  let (t, rest) := cs.span isTokenChar
  if t == "true".toList then some (.bool true, rest)
  else if t == "false".toList then some (.bool false, rest)
  else
    match integer? t with
    | some n => some (.int n, rest)
    | none =>
      if isFloat t then some (.float, rest)
      else
        match rest with
        | ' ' :: cs =>
          let (u, after) := cs.span isTokenChar
          if isDate t && isDateTime (t ++ ' ' :: u) then some (date, after)
          else if isDateTime t then some (date, rest) else none
        | _ => if isDateTime t then some (date, rest) else none

/-! Values -/

/-- The values of an array after the opening bracket. -/
def arrayItems (item : Reader Value) : (fuel : Nat) → Reader (List Value)
  | 0, _ => none
  | n + 1, cs => do
    match ← skipBlank (cs.length + 1) cs with
    | ']' :: cs => return ([], cs)
    | cs =>
      let (v, cs) ← item cs
      match ← skipBlank (cs.length + 1) cs with
      | ',' :: cs =>
        let (vs, cs) ← arrayItems item n cs
        return (v :: vs, cs)
      | ']' :: cs => return ([v], cs)
      | _ => none

/-- The last key and the keys before it. -/
def splitKey (ks : List String) : Option (List String × String) :=
  ks.getLast?.map (ks.dropLast, ·)

/-- A key, an equals sign and a value. -/
def keyValue (item : Reader Value) : Reader (List String × String × Value) := fun cs => do
  let (ks, cs) ← dottedKey cs
  match cs with
  | '=' :: cs =>
    let (v, cs) ← item (skipSpace cs)
    let (path, k) ← splitKey ks
    return ((path, k, v), cs)
  | _ => none

/-- The entries of an inline table, which stands on one line. -/
def inlineEntries (item : Reader Value) (es : Item.Entries) : (fuel : Nat) → Reader Item.Entries
  | 0, _ => none
  | n + 1, cs => do
    let ((path, k, v), cs) ← keyValue item cs
    let es ← Item.assign k v path es
    match skipSpace cs with
    | ',' :: cs => inlineEntries item es n cs
    | '\x7d' :: cs => return (es, cs)
    | _ => none

/-- A value that holds no other. -/
def scalar : Reader Value := fun cs =>
  match cs with
  | '"' :: _ | '\'' :: _ => do
    let (s, cs) ← string cs
    return (.text s, cs)
  | cs => token cs

/-- Reads a value; `levels` is how deep it may still be nested. -/
def value : (levels : Nat) → Reader Value
  | 0, cs => scalar cs
  | n + 1, cs =>
    match cs with
    | '[' :: cs => do
      let (vs, cs) ← arrayItems (value n) (cs.length + 1) cs
      return (.list vs, cs)
    | '\x7b' :: cs =>
      match skipSpace cs with
      | '\x7d' :: cs => some (.table [], cs)
      | cs => do
        let (es, cs) ← inlineEntries (value n) [] (cs.length + 1) cs
        return (.table (Item.toEntries es), cs)
    | cs => scalar cs

/-! Documents -/

/-- A document that is being read: its entries and the table that keys go into. -/
structure State where
  entries : Item.Entries
  header : List String

/-- A header up to its closing brackets. -/
def header (brackets : List Char) (cs : List Char) : Option (List String × List Char) := do
  let (ks, cs) ← dottedKey cs
  if brackets.isPrefixOf cs then return (ks, cs.drop brackets.length) else none

/-- Reads one line, or one entry if its value spans lines. -/
def statement (s : State) (cs : List Char) : Option (State × List Char) :=
  match cs with
  | '[' :: '[' :: cs => do
    let (ks, cs) ← header [']', ']'] cs
    let (path, k) ← splitKey ks
    let entries ← Item.alter (Item.appendTable k) path s.entries
    return (⟨entries, ks⟩, ← endLine cs)
  | '[' :: cs => do
    let (ks, cs) ← header [']'] cs
    let (path, k) ← splitKey ks
    let entries ← Item.alter (Item.openTable k) path s.entries
    return (⟨entries, ks⟩, ← endLine cs)
  | cs => do
    let ((path, k, v), cs) ← keyValue (value maxNesting) cs
    let entries ← Item.alter (Item.assign k v path) s.header s.entries
    return ({ s with entries }, ← endLine cs)

def statements (s : State) : (fuel : Nat) → List Char → Option State
  | 0, _ => none
  | n + 1, cs => do
    match ← skipBlank (cs.length + 1) cs with
    | [] => return s
    | cs =>
      let (s, cs) ← statement s cs
      statements s n cs

/-- Reads a document. A byte order mark at its start does not count. -/
def parse (text : String) : Option Value := do
  let cs := match text.toList with
    | '\ufeff' :: cs => cs
    | cs => cs
  let s ← statements ⟨[], []⟩ (cs.length + 1) cs
  return .table (Item.toEntries s.entries)

end TypeCatalog.Toml
