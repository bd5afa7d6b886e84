namespace TypeCatalog.Dotted

/-- Splits at the last dot, if there is one. -/
def splitLast : List Char → Option (List Char × List Char)
  | [] => none
  | c :: cs =>
    match splitLast cs with
    | some (outer, last) => some (c :: outer, last)
    | none => if c = '.' then some ([], cs) else none

theorem length_of_splitLast {cs outer last : List Char} (h : splitLast cs = some (outer, last)) :
    outer.length < cs.length := by
  induction cs generalizing outer with
  | nil => simp [splitLast] at h
  | cons c cs ih =>
    rw [splitLast] at h
    split at h
    · next o l he =>
      obtain ⟨rfl, rfl⟩ := by simpa using h
      have := ih he
      simp only [List.length_cons]
      omega
    · split at h
      · obtain ⟨rfl, rfl⟩ := by simpa using h
        simp
      · simp at h

/-- The text before the last dot and the text after it. -/
def split? (name : String) : Option (String × String) :=
  (splitLast name.toList).map fun (o, l) => (String.ofList o, String.ofList l)

/-- The text before the last dot. -/
def outer? (name : String) : Option String := (split? name).map (·.1)

def enclosingChars (cs : List Char) : List (List Char) :=
  match _ : splitLast cs with
  | some (outer, _) => outer :: enclosingChars outer
  | none => []
termination_by cs.length
decreasing_by exact length_of_splitLast (by assumption)

/-- The names that enclose `name`, longest first: the text before its last dot, the text before the
last dot of that, and so on. -/
def enclosing (name : String) : List String := (enclosingChars name.toList).map String.ofList

/-- `name` as seen from inside `outer`; the empty name is the outermost scope. -/
def within (outer name : String) : String :=
  if outer.isEmpty then name else outer ++ "." ++ name

end TypeCatalog.Dotted
