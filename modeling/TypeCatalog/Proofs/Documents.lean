import TypeCatalog.Proofs.Values

namespace TypeCatalog.Toml

variable {cs ds rest : List Char} {fuel : Nat} {s t : State} {lines : List Line}

/-! Keys -/

/-- A key that needs no quotes. -/
structure BareKey where
  text : String
  ne_nil : text.toList ≠ [] := by decide
  bare : text.toList.all isKeyChar = true := by decide

theorem BareKey.cons (k : BareKey) : ∃ c cs, k.text.toList = c :: cs ∧ isKeyChar c = true := by
  obtain ⟨c, cs, hchars⟩ := List.exists_cons_of_ne_nil k.ne_nil
  exact ⟨c, cs, hchars, List.all_eq_true.mp k.bare c (hchars ▸ List.mem_cons_self)⟩

theorem BareKey.head (k : BareKey) : ∀ c ∈ (k.text.toList ++ rest).head?, isKeyChar c = true := by
  obtain ⟨c, cs, hchars, hc⟩ := k.cons
  rw [hchars]
  rintro _ ⟨⟩
  exact hc

/-- A written value with what it is read as where the line ends after it. -/
structure Spelling where
  written : String
  value : Value
  reads : ∀ rest, Toml.value maxNesting (skipSpace (written.toList ++ '\n' :: rest)) = some (value, '\n' :: rest)

/-- A line that says something, or the header of a section after a blank line. -/
inductive Line where
  | header (key : BareKey)
  | entry (key : BareKey) (spelling : Spelling)

def Line.text : Line → String
  | header k => "\n[" ++ k.text ++ "]\n"
  | entry k v => line k.text v.written

/-- What a line adds to a document. -/
def Line.apply (s : State) : Line → Option State
  | header k => (Item.openTable k.text s.entries).map (⟨·, [k.text]⟩)
  | entry k v => (Item.alter (Item.assign k.text v.value []) s.header s.entries).map ({ s with entries := · })

theorem line_cons (k : BareKey) (v : Spelling) :
    ∃ cs, (line k.text v.written).toList ++ rest = k.text.toList ++ cs := by
  simp only [line, String.toList_append, List.append_assoc]
  exact ⟨_, rfl⟩

theorem Line.ne_nil (l : Line) : l.text.toList ≠ [] := by
  cases l with
  | header k =>
    simp only [Line.text, String.toList_append]
    exact List.cons_ne_nil _ _
  | entry k v =>
    obtain ⟨cs, hcs⟩ := @line_cons [] k v
    intro h
    rw [Line.text] at h
    rw [h] at hcs
    exact k.ne_nil (List.append_eq_nil_iff.mp hcs.symm).1

end TypeCatalog.Toml
