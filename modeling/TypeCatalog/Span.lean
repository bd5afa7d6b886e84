namespace TypeCatalog

/-- A stretch of source text by lines and byte columns, both counted from 0. Columns are kept in
16 bits. -/
structure Span where
  startLine : UInt32
  startColumn : UInt16
  endLine : UInt32
  endColumn : UInt16
  deriving DecidableEq, Repr

namespace Span

/-- The stretch between two exact positions, each column cut to its low 16 bits. -/
def between (startLine startColumn endLine endColumn : Nat) : Span :=
  ⟨.ofNat startLine, .ofNat startColumn, .ofNat endLine, .ofNat endColumn⟩

def contains (s : Span) (line : UInt32) (column : UInt16) : Bool :=
  s.startLine ≤ line && line ≤ s.endLine
    && !(line == s.startLine && column < s.startColumn)
    && !(line == s.endLine && s.endColumn < column)

/-- Line and column of the start as people count them, from 1. -/
def text (s : Span) : String :=
  toString (s.startLine + 1).toNat ++ ":" ++ toString (s.startColumn + 1).toNat

end Span

end TypeCatalog
