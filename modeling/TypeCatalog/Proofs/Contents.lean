import Mathlib.Data.List.Nodup
import TypeCatalog.Proofs.Names
import TypeCatalog.Proofs.Ordering
import TypeCatalog.Proofs.RowCodec

namespace TypeCatalog

/-- The look-up of a row by something that no two rows share. -/
theorem find?_of_nodup {α β : Type} [DecidableEq β] {f : α → β} {xs : List α} (hn : (xs.map f).Nodup)
    {x : α} (hx : x ∈ xs) : xs.find? (f · == f x) = some x := by
  induction xs with
  | nil => simp at hx
  | cons y ys ih =>
    rw [List.map_cons, List.nodup_cons] at hn
    rcases List.mem_cons.mp hx with rfl | hx
    · rw [List.find?_cons_of_pos (by simp)]
    · have hyx : f y ≠ f x := by
        intro hyx
        exact hn.1 (hyx ▸ List.mem_map_of_mem hx)
      rw [List.find?_cons_of_neg (by simpa using hyx)]
      exact ih hn.2 hx

theorem RowId.eq_of_value {e : Entity} {i j : RowId e} (h : i.value = j.value) : i = j := by
  cases i
  cases j
  rw [RowId.mk.injEq]
  exact h

/-- The ids of a table without gaps: 1, 2, 3 and so on, with ids left over. -/
structure Counted {e : Entity} (ids : List (RowId e)) : Prop where
  values : ids.map (·.value) = List.range' 1 ids.length
  room : ids.length < RowId.largest

namespace Counted

variable {e : Entity} {ids : List (RowId e)}

theorem nil : Counted ([] : List (RowId e)) := ⟨rfl, Nat.zero_lt_succ _⟩

theorem mem_iff (h : Counted ids) {i : RowId e} : i ∈ ids ↔ 0 < i.value ∧ i.value ≤ ids.length := by
  have hv : i ∈ ids ↔ i.value ∈ ids.map (·.value) := by
    constructor
    · exact List.mem_map_of_mem
    · intro hi
      obtain ⟨j, hj, hji⟩ := List.mem_map.mp hi
      rw [← RowId.eq_of_value hji]
      exact hj
  rw [hv, h.values, List.mem_range'_1]
  omega

theorem pos (h : Counted ids) {i : RowId e} (hi : i ∈ ids) : 0 < i.value := (h.mem_iff.mp hi).1

/-- A table of `n` rows has no id above `n`. -/
theorem value_le_length {α : Type} {rows : List α} {id : α → RowId e} (h : Counted (rows.map id)) {i : RowId e}
    (hi : i ∈ rows.map id) : i.value ≤ rows.length := by
  have hle := (h.mem_iff.mp hi).2
  rwa [List.length_map] at hle

theorem le_largest (h : Counted ids) {i : RowId e} (hi : i ∈ ids) : i.value ≤ RowId.largest := by
  have := (h.mem_iff.mp hi).2
  have := h.room
  omega

theorem ascending (h : Counted ids) : ids.Pairwise fun i j => i.value < j.value := by
  have hp : (ids.map (·.value)).Pairwise (· < ·) := h.values ▸ List.pairwise_lt_range'
  exact List.pairwise_map.mp hp

theorem nodup (h : Counted ids) : ids.Nodup :=
  h.ascending.imp fun hlt heq => by
    subst heq
    exact Nat.lt_irrefl _ hlt

/-- An id has one row. -/
theorem unique {α : Type} {rows : List (RowId e × α)} (h : Counted (rows.map (·.1))) {i : RowId e} {a b : α}
    (ha : (i, a) ∈ rows) (hb : (i, b) ∈ rows) : a = b := by
  have heq := List.inj_on_of_nodup_map h.nodup ha hb rfl
  rw [Prod.mk.injEq] at heq
  exact heq.2

theorem append {α : Type} {xs ys : List α} {id : α → RowId e} (h : Counted (xs.map id))
    (hys : (ys.map id).map (·.value) = List.range' (xs.length + 1) ys.length)
    (hroom : xs.length + ys.length < RowId.largest) : Counted ((xs ++ ys).map id) where
  values := by
    have hv := h.values
    rw [List.length_map] at hv ⊢
    rw [List.map_append, List.map_append, List.length_append, hv, hys, ← List.range'_append_1,
      Nat.add_comm]
  room := by
    rw [List.length_map, List.length_append]
    exact hroom

theorem concat {α : Type} {xs : List α} {id : α → RowId e} {x : α} (h : Counted (xs.map id))
    (hx : id x = ⟨xs.length + 1⟩) (hroom : xs.length + 1 < RowId.largest) :
    Counted ((xs ++ [x]).map id) := by
  have hroom : xs.length + [x].length < RowId.largest := hroom
  apply h.append _ hroom
  rw [List.map_singleton, hx]
  rfl

end Counted

/-- The rows of a catalog, with everything loaded. -/
structure Contents where
  namespaces : List Namespace := []
  files : List SourceFile := []
  named : List (TypeId × NamedType) := []
  elements : List TupleElement := []
  references : List Reference := []
  usages : List Usage := []

/-- The list of type parameters of a declaration: as long as it should be and numbered in order. -/
def Documented.Declared (d : Documented) : Prop :=
  ∃ ps, d.parameters = some ps ∧ ps.map (·.ordinal) = List.range d.arity

namespace Contents

/-- Every table is numbered without gaps, and the elements of tuples stand in the order of their tuples. -/
structure Regular (c : Contents) : Prop where
  namespaces : Counted (c.namespaces.map (·.id))
  files : Counted (c.files.map (·.id))
  named : Counted (c.named.map (·.1))
  elements : Counted (c.elements.map (·.id))
  references : Counted (c.references.map (·.id))
  usages : Counted (c.usages.map (·.id))
  external : ∀ i x, (i, .external x) ∈ c.named → x.namespaces.Ascending
  tuple : ∀ i t, (i, .tuple t) ∈ c.named →
    t.elements = (c.elements.filter (·.tuple == i)).map (·.id)
  owner : ∀ e ∈ c.elements, ∃ t, (e.tuple, .tuple t) ∈ c.named
  sorted : c.elements.Pairwise fun d e =>
    d.tuple.value < e.tuple.value ∨ d.tuple = e.tuple ∧ d.ordinal < e.ordinal

/-- Every documented type has the list of type parameters that it declares. -/
structure Sound (c : Contents) : Prop extends Regular c where
  documented : ∀ i d, (i, .documented d) ∈ c.named → d.Declared

/-- Every link leads to a row; a link to the same table leads to a row that is not newer. -/
structure Linked (c : Contents) : Prop where
  parent : ∀ n ∈ c.namespaces, ∀ p, n.parent = some p →
    p ∈ c.namespaces.map (·.id) ∧ p.value ≤ n.id.value
  imported : ∀ f ∈ c.files, ∀ u ∈ f.usings, u ∈ c.namespaces.map (·.id)
  named : ∀ r ∈ c.named, r.2.Links (· ∈ c.namespaces.map (·.id)) (· ∈ c.files.map (·.id))
    fun j => j ∈ c.named.map (·.1) ∧ j.value ≤ r.1.value
  element : ∀ e ∈ c.elements, e.tuple ∈ c.named.map (·.1) ∧ e.elementType ∈ c.named.map (·.1)
  reference : ∀ r ∈ c.references, r.named ∈ c.named.map (·.1) ∧
    ∀ p, r.parent = some p → p ∈ c.references.map (·.id) ∧ p.value ≤ r.id.value
  usage : ∀ u ∈ c.usages, u.owner ∈ c.named.map (·.1) ∧ u.reference ∈ c.references.map (·.id)

/-- All numbers that are read when the catalog is opened have 32 bits. -/
structure Bounded (c : Contents) : Prop where
  named : ∀ r ∈ c.named, r.2.number ≤ RowId.largest
  elements : ∀ e ∈ c.elements, e.ordinal ≤ RowId.largest ∧ e.rank ≤ RowId.largest

/-- What is read from a store with these rows. -/
def loaded (c : Contents) : Loaded where
  namespaces := c.namespaces
  files := c.files
  named := c.named.map fun r => (r.1, r.2.unloaded)
  elements := c.elements
  lastReference := c.references.length
  lastUsage := c.usages.length

end Contents

theorem Encode.id_inj {e : Entity} {i j : RowId e} : Encode.id i = Encode.id j ↔ i = j := by
  constructor
  · intro h
    apply RowId.eq_of_value
    unfold Encode.id Cell.nat at h
    rw [Cell.int.injEq] at h
    omega
  · rintro rfl
    rfl

theorem Encode.cell_zero_namedType (r : TypeId × NamedType) :
    (Encode.namedType r.1 r.2).cell 0 = Encode.id r.1 := by
  obtain ⟨i, a⟩ := r
  cases a <;> rfl

/-- The rows that a named type has in the table of type parameters. -/
def Encode.parameters : TypeId × NamedType → List Row
  | (i, .documented d) => (d.parameters.getD []).map (Encode.parameter i)
  | _ => []

/-- The tables of a database hold these rows, oldest first. The namespaces of external types may stand
in any order. -/
structure Database.Holds (db : Database) (c : Contents) : Prop where
  namespaces : db.rows .namespaces = c.namespaces.map Encode.namespace
  files : db.rows .sourceFiles = c.files.map Encode.file
  usings : db.rows .fileUsings = c.files.flatMap Encode.usings
  named : db.rows .namedTypes = c.named.map fun r => Encode.namedType r.1 r.2
  parameters : db.rows .typeParameters = c.named.flatMap Encode.parameters
  external : ∀ row, row ∈ db.rows .externalNamespaces ↔ ∃ i x n, (i, .external x) ∈ c.named ∧
    n ∈ x.namespaces.names ∧ row = Encode.externalNamespace i n
  elements : db.rows .tupleElements = c.elements.map Encode.tupleElement
  references : db.rows .typeReferences = c.references.map Encode.reference
  usages : db.rows .typeUsages = c.usages.map Encode.usage

end TypeCatalog
