import TypeCatalog.Settings.Basic

namespace TypeCatalog.Toml

/-- The longest run of `q` in a text. -/
def longestRun (q : Char) (run best : Nat) : List Char → Nat
  | [] => max run best
  | c :: cs => if c == q then longestRun q (run + 1) best cs else longestRun q 0 (max run best) cs

/-- Control characters that can only be written as escapes. -/
def needsCode (c : Char) : Bool := isControl c && c != '\n'

inductive Quoting where
  | basic | literal | multiline | multilineLiteral
  deriving DecidableEq, Repr

/-- The plainest quoting for a text: one that needs no escapes if there is one. -/
def quoting (cs : List Char) : Quoting :=
  let codes := cs.any needsCode
  let backslash := cs.contains '\\'
  let newline := cs.contains '\n'
  let double := longestRun '"' 0 0 cs
  let single := longestRun '\'' 0 0 cs
  if !codes && !backslash && double == 0 && !newline then .basic
  else if !codes && single == 0 && !newline then .literal
  else if !codes && !backslash && double ≤ 2 then .multiline
  else if !codes && single ≤ 2 then .multilineLiteral
  else if newline then .multiline
  else .basic

def hexDigits (n : Nat) : List Char :=
  let ds := (Nat.toDigits 16 n).map Char.toUpper
  List.replicate (4 - ds.length) '0' ++ ds

/-- How a character that is not a quote stands between double quotes. -/
def written (lines : Bool) (c : Char) : List Char :=
  if c == '\x08' then ['\\', 'b']
  else if c == '\t' then ['\\', 't']
  else if c == '\n' then (if lines then ['\n'] else ['\\', 'n'])
  else if c == '\x0c' then ['\\', 'f']
  else if c == '\r' then ['\\', 'r']
  else if c == '\\' then ['\\', '\\']
  else if isControl c then '\\' :: 'u' :: hexDigits c.toNat
  else [c]

/-- The text between double quotes. Line breaks stand as they are if `lines` allows them, and then up
to two quotes in a row do too; `run` counts the quotes just written. -/
def escaped (lines : Bool) (run : Nat) : List Char → List Char
  | [] => []
  | c :: cs =>
    if c == '"' then
      if lines && run < 2 then '"' :: escaped lines (run + 1) cs
      else '\\' :: '"' :: escaped lines 0 cs
    else written lines c ++ escaped lines 0 cs

/-- A text that spans lines starts on a line of its own. -/
def renderChars (cs : List Char) : List Char :=
  let start := if cs.contains '\n' then ['\n'] else []
  match quoting cs with
  | .basic => '"' :: escaped false 0 cs ++ ['"']
  | .literal => '\'' :: cs ++ ['\'']
  | .multiline => ['"', '"', '"'] ++ start ++ escaped true 0 cs ++ ['"', '"', '"']
  | .multilineLiteral => ['\'', '\'', '\''] ++ start ++ cs ++ ['\'', '\'', '\'']

def renderText (s : String) : String := String.ofList (renderChars s.toList)

/-- Two or more items stand on lines of their own. -/
def renderList (xs : List String) : String :=
  match xs with
  | [] => "[]"
  | [x] => "[" ++ renderText x ++ "]"
  | xs => "[\n" ++ String.join (xs.map fun x => "    " ++ renderText x ++ ",\n") ++ "]"

def renderBool (b : Bool) : String := if b then "true" else "false"

def line (key value : String) : String := key ++ " = " ++ value ++ "\n"

end TypeCatalog.Toml

namespace TypeCatalog.Settings

open Toml in
/-- The settings as a document that reads back as the same settings. -/
def render (s : Settings) : String :=
  String.join [
    line "version" (toString s.version),
    line "catalog_path" (renderText s.catalogPath),
    (s.workspaceRoot.map fun r => line "workspace_root" (renderText r)).getD "",
    line "debug" (renderBool s.debug),
    "\n[scanning]\n",
    line "extensions" (renderList s.scanning.extensions),
    line "ignore_patterns" (renderList s.scanning.ignorePatterns),
    line "skip_generated" (renderBool s.scanning.skipGenerated),
    "\n[resolution]\n",
    line "allow_create" (renderBool s.allowCreate),
    "\n[logging]\n",
    line "level" (renderText s.logLevel)]

/-- The settings file that a new workspace starts with, line by line. -/
def templateLines : List String :=
  ["# sharpdoc configuration",
    "",
    "# Version of the configuration schema",
    "version = 1",
    "",
    "# Path to the SQLite catalog (relative to workspace root)",
    "catalog_path = \".sharpdoc/catalog.db\"",
    "",
    "# Global debug mode",
    "debug = false",
    "",
    "[scanning]",
    "# File extensions to scan",
    "extensions = [\"cs\"]",
    "",
    "# Additional patterns to ignore (.gitignore and .sharpdocignore are always honoured)",
    "ignore_patterns = [\"bin/**\", \"obj/**\"]",
    "",
    "# Skip generated sources (*.g.cs, *.Designer.cs)",
    "skip_generated = true",
    "",
    "[resolution]",
    "# Catalogue external and tuple types the first time they are referenced",
    "allow_create = true",
    "",
    "[logging]",
    "# error, warn, info, debug or trace",
    "level = \"warn\""]

def template : String := String.join (templateLines.map (· ++ "\n"))

end TypeCatalog.Settings
