import TypeCatalog.Settings.Toml
import TypeCatalog.Text.Blank

namespace TypeCatalog.Variables

open Toml (Reader)

/-- Blanks between the parts of a written value. -/
def isBlank (c : Char) : Bool :=
  c == ' ' || c == '\t' || c == '\n' || c == '\x0c' || c == '\r'

def skip (cs : List Char) : List Char := cs.dropWhile isBlank

def isSeparator (c : Char) : Bool :=
  c == ',' || c == '\x7b' || c == '\x7d' || c == '[' || c == ']'

def trim (cs : List Char) : List Char :=
  ((cs.dropWhile Text.isBlank).reverse.dropWhile Text.isBlank).reverse

def allDigits (cs : List Char) : Bool := cs.all Char.isDigit

/-- A number with a point: digits on at least one side, and an optional exponent. -/
def isPointed (cs : List Char) : Bool :=
  let (_, cs) := Toml.unsigned cs
  let (mantissa, exponent) := cs.span fun c => c != 'e' && c != 'E'
  let (whole, fraction) := mantissa.span (· != '.')
  let ds := (Toml.unsigned (exponent.drop 1)).2
  !fraction.isEmpty && allDigits whole && allDigits (fraction.drop 1)
    && !(whole.isEmpty && fraction.length == 1) && (exponent.isEmpty || (allDigits ds && !ds.isEmpty))

/-- An integer that fits 64 bits, with or without sign. -/
def integer? (cs : List Char) : Option Int :=
  let (negative, ds) := Toml.unsigned cs
  if ds.isEmpty || !allDigits ds then none
  else
    let n : Int := Toml.digitValue 10 ds
    if negative then (if n ≤ 9223372036854775808 then some (-n) else none)
    else if n ≤ 18446744073709551615 then some n else none

/-- An unquoted value: a number if it reads as one, else its text. -/
def plain : Reader Value := fun cs =>
  let (t, rest) := cs.span (!isSeparator ·)
  let t := trim t
  if t.contains '.' && isPointed t then some (.float, rest)
  else
    match integer? t with
    | some n => some (.int n, rest)
    | none => some (.text (String.ofList t), rest)

/-- The characters of a quoted text up to its closing quote. A backslash takes the next character
along. -/
def untilQuote : List Char → Option (List Char × List Char)
  | '"' :: cs => some ([], cs)
  | '\\' :: c :: cs => (untilQuote cs).map fun (s, rest) => ('\\' :: c :: s, rest)
  | c :: cs => (untilQuote cs).map fun (s, rest) => (c :: s, rest)
  | [] => none

/-- Replaces escapes by the characters they stand for. Control characters are written as escapes. -/
def unescapeAll : (fuel : Nat) → List Char → Option (List Char)
  | 0, _ => none
  | n + 1, cs =>
    match cs with
    | [] => some []
    | '\\' :: cs => do
      let (c, cs) ← Toml.escape cs
      return c :: (← unescapeAll n cs)
    | c :: cs => if Toml.isControl c then none else do return c :: (← unescapeAll n cs)

/-- The front of a text that fills `bytes`, unless a character reaches across its end. -/
def front? : List Char → (bytes : Nat) → Option (List Char)
  | [], _ => some []
  | c :: cs, bytes =>
    if bytes = 0 then some []
    else if c.utf8Size ≤ bytes then do return c :: (← front? cs (bytes - c.utf8Size))
    else none

/-- Replaces escapes by the characters they stand for. If there are any, then the text before the first
keeps as many bytes as it has characters. -/
def unescape (cs : List Char) : Option (List Char) := do
  let (before, rest) := cs.span (· != '\\')
  let after ← unescapeAll (rest.length + 1) rest
  if before.any Toml.isControl then none
  else if rest.isEmpty then return before
  else return (← front? before before.length) ++ after

def quoted : Reader String
  | '"' :: cs => do
    let (s, rest) ← untilQuote cs
    return (String.ofList (← unescape s), rest)
  | _ => none

/-- Items up to the closing bracket, with commas between them. -/
def items {α : Type} (item : Reader α) (close : Char) : (fuel : Nat) → Reader (List α)
  | 0, _ => none
  | n + 1, cs =>
    if cs.head? == some close then some ([], cs.tail)
    else do
      let (x, cs) ← item cs
      match cs with
      | ',' :: cs =>
        let (xs, cs) ← items item close n cs
        return (x :: xs, cs)
      | c :: cs => if c == close then return ([x], cs) else none
      | [] => none

def key (cs : List Char) : Option (String × List Char) :=
  match cs with
  | '"' :: _ => quoted cs
  | _ =>
    let (k, rest) := cs.span Toml.isKeyChar
    if k.isEmpty then none else some (String.ofList k, rest)

def keyValue (item : Reader Value) : Reader (String × Value) := fun cs => do
  let (k, cs) ← key (skip cs)
  match skip cs with
  | '=' :: cs =>
    let (v, cs) ← item (skip cs)
    return ((k, v), skip cs)
  | _ => none

/-- Reads a written value; `levels` is how deep it may be nested. -/
def value : (levels : Nat) → Reader Value
  | 0, _ => none
  | n + 1, cs => do
    let (v, cs) ← match skip cs with
      | 't' :: 'r' :: 'u' :: 'e' :: cs => some (.bool true, cs)
      | 'f' :: 'a' :: 'l' :: 's' :: 'e' :: cs => some (.bool false, cs)
      | '\x7b' :: cs =>
        (items (keyValue (value n)) '\x7d' (cs.length + 1) cs).map fun (es, cs) =>
          (.table (es.foldl (fun t (k, v) => Value.put t k v) []), cs)
      | '[' :: cs => (items (value n) ']' (cs.length + 1) cs).map fun (vs, cs) => (.list vs, cs)
      | '"' :: cs => (quoted ('"' :: cs)).map fun (s, cs) => (.text s, cs)
      | '\'' :: c :: '\'' :: cs => some (.text c.toString, cs)
      | '\'' :: _ => none
      | cs => plain cs
    return (v, skip cs)

/-- What a variable's text means: a value if all of it reads as one, else the text itself. -/
def parse (text : String) : Value :=
  let cs := text.toList
  match value (cs.length + 1) cs with
  | some (v, []) => v
  | _ => .text text

/-- The small letter of a letter. The Kelvin sign counts as a letter K. -/
def lower (c : Char) : Char := if c == '\u212a' then 'k' else c.toLower

/-- The setting that a variable is for: the name after the mark `SD_` in small letters, where two
underscores lead into a section. Blanks around the name, with and without the mark, do not count. -/
def path? (name : String) : Option (List String) :=
  let cs := trim name.toList
  if (cs.take 3).map Char.toLower == "sd_".toList then
    let dotted := ".".intercalate ((String.ofList ((cs.drop 3).map lower)).splitOn "__")
    let parts := (String.ofList (trim dotted.toList)).splitOn "."
    if parts.any (·.isEmpty) then none else some parts
  else none

/-- The settings that variables make. -/
def layer (environment : List (String × String)) : Value :=
  environment.foldl (fun v (name, text) =>
    match path? name with
    | some path => v.merge (Value.nest (parse text) path)
    | none => v) (.table [])

end TypeCatalog.Variables
