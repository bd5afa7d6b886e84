import TypeCatalog.Text.NameSet
import TypeCatalog.Text.Dotted

namespace TypeCatalog

namespace NameSet

/-- The order that a set of names is kept in. -/
def Ascending (s : NameSet) : Prop := s.names.Pairwise (· < ·)

theorem mem_insertName {x y : String} {names : List String} :
    y ∈ insertName x names ↔ y = x ∨ y ∈ names := by
  induction names with
  | nil => simp [insertName]
  | cons z zs ih =>
    unfold insertName
    split
    · next h => subst h; simp
    · split
      · simp
      · simp only [List.mem_cons, ih]
        exact or_left_comm

theorem mem_insert {s : NameSet} {x y : String} : y ∈ (s.insert x).names ↔ y = x ∨ y ∈ s.names :=
  mem_insertName

theorem mem_foldl_insert {s : NameSet} {xs : List String} {y : String} :
    y ∈ (xs.foldl insert s).names ↔ y ∈ xs ∨ y ∈ s.names := by
  induction xs generalizing s with
  | nil => simp
  | cons x xs ih => rw [List.foldl_cons, ih, mem_insert, List.mem_cons, or_left_comm, or_assoc]

theorem mem_ofList {xs : List String} {y : String} : y ∈ (ofList xs).names ↔ y ∈ xs := by
  simp [ofList, mem_foldl_insert, empty]

theorem Ascending.insert {s : NameSet} (h : s.Ascending) (x : String) : (s.insert x).Ascending := by
  obtain ⟨names⟩ := s
  unfold Ascending NameSet.insert at *
  dsimp only at *
  induction names with
  | nil => exact List.pairwise_singleton _ _
  | cons y ys ih =>
    rw [List.pairwise_cons] at h
    unfold insertName
    split
    · exact List.pairwise_cons.mpr h
    · next hne =>
      split
      · next hlt =>
        rw [List.pairwise_cons]
        refine ⟨?_, List.pairwise_cons.mpr h⟩
        intro z hz
        rcases List.mem_cons.mp hz with rfl | hz
        · exact hlt
        · exact String.lt_trans hlt (h.1 z hz)
      · next hge =>
        rw [List.pairwise_cons]
        refine ⟨?_, ih h.2⟩
        intro z hz
        rcases mem_insertName.mp hz with rfl | hz
        · exact Std.lt_of_le_of_ne (String.not_lt.mp hge) (Ne.symm hne)
        · exact h.1 z hz

theorem ascending_foldl_insert {s : NameSet} (h : s.Ascending) (xs : List String) :
    (xs.foldl NameSet.insert s).Ascending := by
  induction xs generalizing s with
  | nil => exact h
  | cons x xs ih => exact ih (h.insert x)

theorem ascending_ofList (xs : List String) : (ofList xs).Ascending :=
  ascending_foldl_insert List.Pairwise.nil xs

/-- Sets with the same names are the same, since names are kept in order. -/
theorem Ascending.ext {s t : NameSet} (hs : s.Ascending) (ht : t.Ascending)
    (h : ∀ x, x ∈ s.names ↔ x ∈ t.names) : s = t := by
  obtain ⟨xs⟩ := s
  obtain ⟨ys⟩ := t
  congr 1
  have hnodup (l : List String) (hl : l.Pairwise (· < ·)) : l.Nodup := by
    refine hl.imp ?_
    rintro a _ hab rfl
    exact String.lt_irrefl _ hab
  have hperm : List.Perm xs ys := (List.perm_ext_iff_of_nodup (hnodup _ hs) (hnodup _ ht)).mpr h
  exact hperm.eq_of_pairwise (fun a b _ _ hab hba => absurd (String.lt_trans hab hba) (String.lt_irrefl _)) hs ht

end NameSet

end TypeCatalog
