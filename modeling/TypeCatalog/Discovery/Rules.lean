import TypeCatalog.Discovery.Glob
import TypeCatalog.Text.Blank

namespace TypeCatalog

/-- A line of an ignore file: paths that match are left out, or kept where an earlier line would leave
them out. -/
structure IgnoreRule where
  glob : Glob
  keep : Bool
  onlyDirectories : Bool

namespace IgnoreRule

/-- Removes blanks at the end, unless the last one is escaped. -/
def trimEnd (cs : List Char) : List Char :=
  match cs.reverse with
  | ' ' :: '\\' :: _ => cs
  | reversed => (reversed.dropWhile Text.isBlank).reverse

/-- Removes a slash at the end, together with a backslash before it. -/
def dropSlash (cs : List Char) : Bool × List Char :=
  match cs.reverse with
  | '/' :: '\\' :: r => (true, r.reverse)
  | '/' :: r => (true, r.reverse)
  | _ => (false, cs)

/-- The pattern on whole paths. A name without a slash may stand at any depth, and everything below a
directory does not include the directory. -/
def wholePath (anchored : Bool) (cs : List Char) : List Char :=
  let cs := if anchored || cs.contains '/' || cs == ['*', '*'] then cs else ['*', '*', '/'] ++ cs
  if ['/', '*', '*'].isSuffixOf cs then cs ++ ['/', '*'] else cs

/-- Reads a pattern: a slash at the start ties it to the directory of the file, one at the end to
directories. -/
def ofPattern? (lenient keep : Bool) (cs : List Char) : Option IgnoreRule := do
  let (anchored, cs) := match cs with
    | '/' :: r => (true, r)
    | _ => (false, cs)
  let (onlyDirectories, cs) := dropSlash cs
  let glob ← Glob.parse? lenient (wholePath anchored cs)
  return { glob, keep, onlyDirectories }

/-- Reads a line of an ignore file. Comments, blank lines and wrong patterns give no rule. -/
def ofLine? (line : List Char) : Option IgnoreRule :=
  if line.head? == some '#' then none
  else
    match trimEnd line with
    | [] => none
    | '\\' :: '!' :: cs => ofPattern? true false ('!' :: cs)
    | '\\' :: '#' :: cs => ofPattern? true false ('#' :: cs)
    | '!' :: cs => ofPattern? true true cs
    | cs => ofPattern? true false cs

/-- A configured pattern, which only leaves paths out. -/
def ofSetting? (pattern : String) : Option IgnoreRule :=
  ofPattern? false false (trimEnd pattern.toList)

def applies (r : IgnoreRule) (path : String) (isDirectory : Bool) : Bool :=
  (isDirectory || !r.onlyDirectories) && r.glob.accepts path

/-- The rules of an ignore file. Reading ends at the first line that is no text; a mark for the byte
order at the start does not count. -/
def ofBytes (bytes : List UInt8) : List IgnoreRule :=
  let lines := (bytes.splitOn 10).map fun l => if l.getLast? == some 13 then l.dropLast else l
  let texts := (lines.map fun l => String.fromUTF8? ⟨l.toArray⟩).takeWhile Option.isSome
  let texts := (texts.filterMap id).map String.toList
  let texts := match texts with
    | first :: rest => first.dropWhile (· == '\uFEFF') :: rest
    | [] => []
  texts.filterMap ofLine?

/-- What the last rule that applies says: `true` to keep the path, `false` to leave it out. -/
def verdict (rules : List IgnoreRule) (path : String) (isDirectory : Bool) : Option Bool :=
  (rules.reverse.find? (·.applies path isDirectory)).map (·.keep)

end IgnoreRule

end TypeCatalog
