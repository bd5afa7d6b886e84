import TypeCatalog.Proofs.Saving

namespace TypeCatalog

theorem Counted.covers {e : Entity} {ids : List (RowId e)} (h : Counted ids) {c : Counter e}
    (hc : c.used = ids.length) : c.Covers ids where
  ascending := h.ascending
  bounded := by
    intro i hi
    rw [hc]
    exact (h.mem_iff.mp hi).2

namespace Session

variable {s t : Session} {c f : Contents} {store : Store}

theorem highest_counted {e : Entity} {α : Type} {rows : List α} {id : α → RowId e}
    (h : Counted (rows.map id)) : highest (rows.map fun a => (id a).value) = rows.length := by
  have hrange : ∀ n, highest (List.range' 1 n) = n := by
    intro n
    induction n with
    | zero => rfl
    | succ n ih =>
      unfold highest at ih ⊢
      rw [List.range'_1_concat, List.foldl_append, ih]
      simp only [List.foldl_cons, List.foldl_nil]
      omega
  have hvalues := h.values
  rw [List.map_map, List.length_map] at hvalues
  rw [← hrange rows.length, ← hvalues]
  rfl

theorem resume_eq {e : Entity} {n : Nat} (h : n < RowId.largest) :
    (resume n : Except CatalogError (Counter e)) = .ok ⟨n⟩ := by
  unfold resume Counter.after
  rw [if_pos h]
  rfl

/-- The session over a store with these rows, before its global namespace is looked up. -/
def opened (store : Store) (c : Contents) : Session where
  store := some store
  namespaces := c.namespaces
  files := c.files
  named := c.named.map fun r => (r.1, r.2.unloaded)
  elements := c.elements
  namespaceIds := ⟨c.namespaces.length⟩
  fileIds := ⟨c.files.length⟩
  namedIds := ⟨c.named.length⟩
  elementIds := ⟨c.elements.length⟩
  referenceIds := ⟨c.references.length⟩
  usageIds := ⟨c.usages.length⟩

theorem openStore_of_load (hs : c.Regular) (h : store.database.load = .ok c.loaded) :
    openStore store = withGlobal (opened store c) := by
  have hroom {e : Entity} {α : Type} {rows : List α} {id : α → RowId e} (h : Counted (rows.map id)) :
      (resume rows.length : Except CatalogError (Counter e)) = .ok ⟨rows.length⟩ := by
    have hroom := h.room
    rw [List.length_map] at hroom
    exact resume_eq hroom
  have hnamed : highest ((c.named.map fun r => (r.1, r.2.unloaded)).map (·.1.value)) = c.named.length := by
    rw [List.map_map]
    exact highest_counted hs.named
  have hsorted : c.elements.mergeSort (fun a b => a.id.value ≤ b.id.value) = c.elements := by
    apply List.mergeSort_of_pairwise
    refine (List.pairwise_map.mp hs.elements.ascending).imp ?_
    intro d e hlt
    simp only [decide_eq_true_eq]
    omega
  unfold openStore
  rw [h, ok_bind]
  dsimp only [Contents.loaded]
  rw [highest_counted hs.namespaces, hroom hs.namespaces, ok_bind, highest_counted hs.files,
    hroom hs.files, ok_bind, hnamed, hroom hs.named, ok_bind, highest_counted hs.elements,
    hroom hs.elements, ok_bind, hroom hs.references, ok_bind, hroom hs.usages, ok_bind, hsorted]
  rfl

/-- A store that was written row by row is opened exactly if its numbers have 32 bits. -/
theorem openStore_iff (hh : store.database.Holds c) (hs : c.Regular) (hl : store.database.Linked) :
    openStore store = .ok s ↔ c.Bounded ∧ withGlobal (opened store c) = .ok s := by
  have hload {l : Loaded} := Database.load_iff hh hs (hh.linked hs hl) (l := l)
  constructor
  · intro h
    obtain ⟨l, hl, -⟩ := bind_eq_ok.mp h
    obtain ⟨hb, rfl⟩ := hload.mp hl
    rw [openStore_of_load hs hl] at h
    exact ⟨hb, h⟩
  · rintro ⟨hb, h⟩
    rw [openStore_of_load hs (hload.mpr ⟨hb, rfl⟩)]
    exact h

theorem rowsBecome_unloaded {rows : List (TypeId × NamedType)}
    (h : ∀ r ∈ rows, r.2.number ≤ RowId.largest) :
    RowsBecome (fun _ => NamedType.Shown) (fun _ => False) rows (rows.map fun r => (r.1, r.2.unloaded)) := by
  induction rows with
  | nil => exact .nil (by simp)
  | cons r rows ih =>
    refine .cons (.inr ⟨rfl, h r List.mem_cons_self⟩) (ih ?_)
    intro q hq
    exact h q (List.mem_cons_of_mem r hq)

theorem journal_opened (hh : store.database.Holds c) (hs : c.Regular) (hl : store.database.Linked)
    (hb : c.Bounded) : (opened store c).Journal c c where
  namespaces := rfl
  files := rfl
  rows := (rowsBecome_unloaded hb.named).mono (fun _ _ _ hshown => hshown.alike) fun _ hnew => hnew
  elements := rfl
  references := ⟨c.references, List.prefix_rfl, by simp [opened]⟩
  usages := ⟨c.usages, List.prefix_rfl, by simp [opened]⟩
  namespaceIds := rfl
  fileIds := rfl
  namedIds := rfl
  elementIds := rfl
  referenceIds := rfl
  usageIds := rfl
  pending := Pending.completes_self c
  fresh := by
    rintro r - ⟨⟩
  memory := by rintro ⟨⟩
  holds := by
    rintro st ⟨⟩
    exact ⟨hh, hl⟩
  storedRegular := hs
  regular := hs

theorem ledger_opened (hh : store.database.Holds c) (hs : c.Sound) (hl : store.database.Linked)
    (hb : c.Bounded) : (opened store c).Ledger c c :=
  { journal_opened hh hs.toRegular hl hb with
    named := rowsBecome_unloaded hb.named
    storedSound := hs
    sound := hs }

theorem Ledger.ensureNamespace (h : s.Ledger c f) {name : String} {id : NamespaceId}
    (ha : s.ensureNamespace name = .ok (id, t)) : ∃ ns, t.Ledger c { f with namespaces := ns } := by
  refine ensureWithin_induction (P := fun u => ∃ ns, u.Ledger c { f with namespaces := ns }) ?_ ?_ ha
  · rintro u name parent id v ⟨ns, hu⟩ hv
    exact ⟨_, hu.addNamespace hv⟩
  · exact ⟨f.namespaces, h⟩

/-- The global namespace is the one without a name. -/
def Rooted (s : Session) : Prop := s.findNamespace "" = some s.globalNamespace

theorem Rooted.of_grows (h : s.Rooted) (hg : s.Grows t) : t.Rooted := by
  unfold Rooted at *
  rw [hg.globalNamespace]
  exact hg.findNamespace h

theorem withGlobal_eq {id : NamespaceId} (h : s.findNamespace "" = some id) :
    withGlobal s = .ok { s with globalNamespace := id } := by
  unfold withGlobal Session.ensureNamespace ensureWithin
  rw [h]
  rfl

theorem outerNamespaces_empty : outerNamespaces "" = [] := by
  simp [outerNamespaces, Dotted.enclosing, Dotted.enclosingChars, Dotted.splitLast]

theorem withGlobal_ok (h : withGlobal s = .ok t) :
    t.Rooted ∧ ∃ id u, s.ensureNamespace "" = .ok (id, u) ∧ t = { u with globalNamespace := id } := by
  obtain ⟨⟨id, u⟩, hu, h⟩ := bind_eq_ok.mp h
  cases h
  refine ⟨?_, id, u, hu, rfl⟩
  show u.findNamespace "" = some id
  unfold Session.ensureNamespace ensureWithin at hu
  rw [outerNamespaces_empty] at hu
  split at hu
  · next hfound =>
    cases hu
    exact hfound
  · next hnone =>
    obtain ⟨-, rfl, rfl⟩ := addNamespace_ok hu
    have hnone : s.namespaces.find? (·.name == "") = none := Option.map_eq_none_iff.mp hnone
    unfold findNamespace
    rw [List.find?_append, hnone]
    rfl

theorem Ledger.withGlobal (h : s.Ledger c f) (hg : s.withGlobal = .ok t) :
    t.Rooted ∧ ∃ ns, t.Ledger c { f with namespaces := ns } := by
  obtain ⟨hroot, id, u, hu, rfl⟩ := withGlobal_ok hg
  obtain ⟨ns, hns⟩ := h.ensureNamespace hu
  exact ⟨hroot, ns, { hns with }⟩

/-- A session over a store that was opened shows its rows, and perhaps a new global namespace. -/
theorem ledger_openStore (hh : store.database.Holds c) (hs : c.Sound) (hl : store.database.Linked)
    (h : openStore store = .ok t) :
    c.Bounded ∧ t.Rooted ∧ ∃ ns, t.Ledger c { c with namespaces := ns } := by
  obtain ⟨hb, hg⟩ := (openStore_iff hh hs.toRegular hl).mp h
  exact ⟨hb, (ledger_opened hh hs hl hb).withGlobal hg⟩

/-- Opening the store of a session again shows the rows that are stored there. -/
theorem Ledger.reopen (h : s.Ledger c f) (hstore : s.store = some store) {path : Option Path} {readOnly : Bool}
    (ho : openStore { store with path, readOnly } = .ok t) :
    c.Bounded ∧ t.Rooted ∧ ∃ ns, t.Ledger c { c with namespaces := ns } := by
  obtain ⟨hholds, hlinked⟩ := h.holds store hstore
  have hholds : ({ store with path, readOnly } : Store).database.Holds c := hholds
  exact ledger_openStore hholds h.storedSound hlinked ho

/-- Nothing is in a new database. -/
theorem holds_empty : ({} : Database).Holds {} ∧ ({} : Contents).Sound ∧ ({} : Database).Linked := by
  refine ⟨⟨rfl, rfl, rfl, rfl, rfl, by simp [Database.rows], rfl, rfl, rfl⟩,
    ⟨⟨.nil, .nil, .nil, .nil, .nil, .nil, by simp, by simp, by simp, .nil⟩, by simp⟩, ?_⟩
  intro t before row hrow
  have hnil : ({} : Database).rows t = [] := by cases t <;> rfl
  rw [hnil, List.prefix_nil] at hrow
  simp at hrow

theorem Journal.numbered (h : s.Journal c f) : s.Numbered where
  namespaces := by
    rw [h.namespaces]
    exact h.regular.namespaces.covers (by rw [List.length_map, h.namespaceIds])
  files := by
    rw [h.files]
    exact h.regular.files.covers (by rw [List.length_map, h.fileIds])
  named := by
    rw [h.rows.map_fst]
    exact h.regular.named.covers (by rw [List.length_map, h.namedIds])
  elements := by
    rw [h.elements]
    exact h.regular.elements.covers (by rw [List.length_map, h.elementIds])
  references := by
    obtain ⟨older, -, hall⟩ := h.references
    have hcovers := h.regular.references.covers (by rw [List.length_map, h.referenceIds])
    rw [hall, List.map_append] at hcovers
    exact hcovers.suffix
  usages := by
    obtain ⟨older, -, hall⟩ := h.usages
    have hcovers := h.regular.usages.covers (by rw [List.length_map, h.usageIds])
    rw [hall, List.map_append] at hcovers
    exact hcovers.suffix

end Session

end TypeCatalog
