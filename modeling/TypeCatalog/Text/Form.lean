namespace TypeCatalog

/-- A finite vocabulary with one written form per word. -/
class TextForm (α : Type) where
  all : List α
  text : α → String

namespace TextForm

variable {α : Type} [TextForm α]

def ofText? (s : String) : Option α :=
  (all : List α).find? fun a => text a == s

end TextForm

end TypeCatalog
