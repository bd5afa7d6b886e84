import TypeCatalog.Report.Listing

namespace TypeCatalog

namespace Text

/-- A character inside quotes. Control characters without a letter of their own are written by their
number, in four hexadecimal digits. -/
def jsonChar (c : Char) : List Char :=
  match c with
  | '"' => ['\\', '"']
  | '\\' => ['\\', '\\']
  | '\x08' => ['\\', 'b']
  | '\t' => ['\\', 't']
  | '\n' => ['\\', 'n']
  | '\x0c' => ['\\', 'f']
  | '\r' => ['\\', 'r']
  | c =>
    if c.toNat < 0x20 then
      ['\\', 'u', '0', '0', Nat.digitChar (c.toNat / 16), Nat.digitChar (c.toNat % 16)]
    else [c]

def json (s : String) : String := "\"" ++ String.ofList (s.toList.flatMap jsonChar) ++ "\""

end Text

namespace TypeRow

/-- The fields of a row, each with its value as it is written. -/
def fields (r : TypeRow) : List (String × String) :=
  [("id", toString r.id), ("kind", Text.json r.kind), ("name", Text.json r.name),
    ("arity", toString r.arity), ("detail", Text.json r.detail)]

def json (r : TypeRow) : String :=
  let lines := r.fields.map fun (k, v) => "    " ++ Text.json k ++ ": " ++ v
  "  \x7b\n" ++ ",\n".intercalate lines ++ "\n  \x7d"

/-- The rows as a list of objects, one field a line. -/
def jsonList (rows : List TypeRow) : String :=
  if rows.isEmpty then "[]" else "[\n" ++ ",\n".intercalate (rows.map json) ++ "\n]"

end TypeRow

end TypeCatalog
