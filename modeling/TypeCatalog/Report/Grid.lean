import TypeCatalog.Text.Width

namespace TypeCatalog.Grid

/-- The strokes of a horizontal line: left end, filling, crossing, right end. -/
structure Rule where
  left : String
  fill : String
  cross : String
  right : String

def Rule.top : Rule := ⟨"╭", "─", "┬", "╮"⟩
def Rule.header : Rule := ⟨"╞", "═", "╪", "╡"⟩
def Rule.between : Rule := ⟨"├", "╌", "┼", "┤"⟩
def Rule.bottom : Rule := ⟨"╰", "─", "┴", "╯"⟩

def Rule.draw (r : Rule) (widths : List Nat) : String :=
  r.left ++ r.cross.intercalate (widths.map fun w => String.join (List.replicate (w + 2) r.fill)) ++ r.right

def lines (cell : String) : List String := cell.splitOn "\n"

/-- The columns that the longest line of a cell takes. -/
def cellWidth (cell : String) : Nat := (lines cell).foldl (fun w l => max w (Text.width l)) 0

def pad (w : Nat) (s : String) : String := s ++ String.join (List.replicate (w - Text.width s) " ")

/-- The lines of a row. Cells that end early are filled with blank lines. -/
def drawRow (widths : List Nat) (cells : List String) : List String :=
  let columns := (widths.zip cells).map fun (w, c) => (w, lines c)
  let height := columns.foldl (fun h (_, ls) => max h ls.length) 0
  (List.range height).map fun i =>
    "│" ++ "┆".intercalate (columns.map fun (w, ls) => " " ++ pad w (ls.getD i "") ++ " ") ++ "│"

def drawRows (widths : List Nat) : List (List String) → List String
  | [] => []
  | [r] => drawRow widths r
  | r :: rs => drawRow widths r ++ [Rule.between.draw widths] ++ drawRows widths rs

/-- A table in box-drawing characters. Short rows are filled with empty cells; a column is at least one
character wide. -/
def render (headers : List String) (rows : List (List String)) : String :=
  let count := rows.foldl (fun n r => max n r.length) headers.length
  let fill := fun (r : List String) => r ++ List.replicate (count - r.length) ""
  let cells := (headers :: rows).map fill
  let widths := (List.range count).map fun i =>
    cells.foldl (fun w r => max w (cellWidth (r.getD i ""))) 1
  "\n".intercalate
    ([Rule.top.draw widths] ++ drawRow widths (fill headers) ++ [Rule.header.draw widths]
      ++ drawRows widths (rows.map fill) ++ [Rule.bottom.draw widths])

end TypeCatalog.Grid
