import TypeCatalog.Command.Bundle
import TypeCatalog.Command.Console

namespace TypeCatalog

/-- The variables that settings can come from. -/
def variableNames : List String :=
  ["SD_VERSION", "SD_CATALOG_PATH", "SD_WORKSPACE_ROOT", "SD_DEBUG", "SD_SCANNING__EXTENSIONS",
    "SD_SCANNING__IGNORE_PATTERNS", "SD_SCANNING__SKIP_GENERATED", "SD_RESOLUTION__ALLOW_CREATE",
    "SD_LOGGING__LEVEL"]

partial def readLines (input : IO.FS.Stream) (lines : List String) : IO (List String) := do
  let line ← input.getLine
  if line.isEmpty then return lines.reverse
  readLines input ((line.dropEndWhile (· == '\n')).toString :: lines)

end TypeCatalog

open TypeCatalog in
/-- Runs one command over the files that standard input holds. -/
def main (args : List String) : IO UInt32 := do
  let lines ← readLines (← IO.getStdin) []
  let environment ← variableNames.filterMapM fun name =>
    return (← IO.getEnv name).map (name, ·)
  let (exit, console) := Command.run args { files := Bundle.read lines, environment }
  IO.print console.out
  IO.eprint console.err
  return .ofNat exit
