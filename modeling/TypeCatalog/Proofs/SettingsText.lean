import TypeCatalog.Proofs.Documents

namespace TypeCatalog.Toml.Spelling

def ofText (s : String) : Spelling where
  written := renderText s
  value := .text s
  reads rest := by
    rw [skipSpace_eq_self fun c hc => by obtain rfl | rfl := head_renderText c hc <;> decide]
    exact value_renderText (by rintro _ ⟨⟩; decide)

def ofList (xs : List String) : Spelling where
  written := renderList xs
  value := .list (xs.map .text)
  reads rest := by
    have hhead : (renderList xs).toList.head? = some '[' := by
      match xs with
      | [] => rfl
      | [x] =>
        simp only [renderList, String.toList_append]
        rfl
      | x :: y :: xs =>
        rw [toList_renderList]
        rfl
    rw [skipSpace_eq_self]
    · exact value_renderList
    · intro c hc
      rw [List.head?_append, hhead] at hc
      cases hc
      decide

def ofBool (b : Bool) : Spelling where
  written := renderBool b
  value := .bool b
  reads rest := by
    rw [skipSpace_eq_self]
    · exact value_renderBool (by rintro _ ⟨⟩; decide)
    · cases b <;> (rintro _ ⟨⟩; decide)

def ofNat (n : Nat) (hn : n ≤ 9223372036854775807) : Spelling where
  written := toString n
  value := .int n
  reads rest := by
    have hchars : (toString n).toList = Nat.toDigits 10 n := Nat.toList_repr
    rw [skipSpace_eq_self]
    · exact value_number hn (by rintro _ ⟨⟩; decide)
    · intro c hc
      rw [hchars, List.head?_append_of_ne_nil _ Nat.toDigits_ne_nil] at hc
      have hdigit := isDigit_toDigits c (List.mem_of_head? hc)
      constructor <;> (rintro rfl; exact absurd hdigit (by decide))

end TypeCatalog.Toml.Spelling

namespace TypeCatalog.Settings

open Toml

variable {s : Settings}

/-- The lines that settings are written on. -/
def lines (s : Settings) (hversion : s.version ≤ 4294967295) : List Line :=
  [.entry (.mk "version") (.ofNat s.version (Nat.le_trans hversion (by decide))),
    .entry (.mk "catalog_path") (.ofText s.catalogPath)]
  ++ (s.workspaceRoot.map fun r => Line.entry (.mk "workspace_root") (.ofText r)).toList
  ++ [.entry (.mk "debug") (.ofBool s.debug),
    .header (.mk "scanning"),
    .entry (.mk "extensions") (.ofList s.scanning.extensions),
    .entry (.mk "ignore_patterns") (.ofList s.scanning.ignorePatterns),
    .entry (.mk "skip_generated") (.ofBool s.scanning.skipGenerated),
    .header (.mk "resolution"),
    .entry (.mk "allow_create") (.ofBool s.allowCreate),
    .header (.mk "logging"),
    .entry (.mk "level") (.ofText s.logLevel)]

end TypeCatalog.Settings
