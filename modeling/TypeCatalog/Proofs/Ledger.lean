import TypeCatalog.Proofs.Growth
import TypeCatalog.Proofs.Loading
import TypeCatalog.Proofs.Writing

namespace TypeCatalog

/-- A row as a session shows it: all of it, or without the type parameters that it can still load. -/
def NamedType.Shown (a b : NamedType) : Prop := b = a ∨ b = a.unloaded ∧ a.number ≤ RowId.largest

/-- Rows that may differ in the list of type parameters, and in nothing else. -/
def NamedType.Alike : NamedType → NamedType → Prop
  | .documented d, b => ∃ ps, b = .documented { d with parameters := ps }
  | a, b => b = a

theorem NamedType.Alike.refl (a : NamedType) : a.Alike a := by
  cases a with
  | documented d => exact ⟨d.parameters, rfl⟩
  | external x => rfl
  | parameter p => rfl
  | tuple r => rfl

theorem NamedType.Shown.alike {a b : NamedType} (h : a.Shown b) : a.Alike b := by
  rcases h with rfl | ⟨rfl, -⟩
  · exact .refl b
  · cases a with
    | documented d => exact ⟨_, rfl⟩
    | external x => rfl
    | parameter p => rfl
    | tuple r => rfl

/-- The stored row of an external type with the namespaces that wait to be stored. -/
def NamedType.Awaits (waiting : List (TypeId × String)) (id : TypeId) : NamedType → NamedType → Prop
  | .external x, b => ∃ names, b = .external { x with namespaces := names } ∧
      ∀ n, n ∈ names.names ↔ n ∈ x.namespaces.names ∨ (id, n) ∈ waiting
  | a, b => b = a

/-- The pending changes make up the difference between the stored rows and all rows. -/
structure Pending.Completes (p : Pending) (stored all : Contents) : Prop where
  namespaces : ∃ new, all.namespaces = stored.namespaces ++ new ∧ p.namespaces = new.map (·.id)
  files : ∃ new, all.files = stored.files ++ new ∧ p.files = new.map (·.id)
  named : ∃ old new, all.named = old ++ new ∧ p.named = new.map (·.1) ∧
    RowsBecome (NamedType.Awaits p.externalNamespaces) (fun _ => False) stored.named old
  external : ∀ q ∈ p.externalNamespaces, ∃ x, (q.1, .external x) ∈ stored.named
  elements : ∃ new, all.elements = stored.elements ++ new ∧ p.elements = new.map (·.id)
  references : ∃ new, all.references = stored.references ++ new ∧ p.references = new.map (·.id)
  usages : ∃ new, all.usages = stored.usages ++ new ∧ p.usages = new.map (·.id)

/-- The rows of a table with one of them replaced. -/
def replaceRow (id : TypeId) (b : NamedType) (rows : List (TypeId × NamedType)) :
    List (TypeId × NamedType) :=
  rows.map fun r => if r.1 = id then (r.1, b) else r

section

variable {id : TypeId} {b : NamedType} {rows later : List (TypeId × NamedType)}

theorem mem_replaceRow {r : TypeId × NamedType} :
    r ∈ replaceRow id b rows ↔ r.1 ≠ id ∧ r ∈ rows ∨ r = (id, b) ∧ id ∈ rows.map (·.1) := by
  unfold replaceRow
  rw [List.mem_map, List.mem_map]
  constructor
  · rintro ⟨q, hq, rfl⟩
    by_cases hid : q.1 = id
    · rw [if_pos hid, hid]
      exact .inr ⟨rfl, q, hq, hid⟩
    · rw [if_neg hid]
      exact .inl ⟨hid, hq⟩
  · rintro (⟨hid, hr⟩ | ⟨rfl, q, hq, hid⟩)
    · exact ⟨r, hr, if_neg hid⟩
    · exact ⟨q, hq, by rw [if_pos hid, hid]⟩

theorem map_fst_replaceRow : (replaceRow id b rows).map (·.1) = rows.map (·.1) := by
  unfold replaceRow
  rw [List.map_map]
  apply List.map_congr_left
  intro r _
  dsimp only [Function.comp_apply]
  split <;> rfl

theorem replaceRow_append :
    replaceRow id b (rows ++ later) = replaceRow id b rows ++ replaceRow id b later := List.map_append

theorem replaceRow_of_not_mem (h : id ∉ rows.map (·.1)) : replaceRow id b rows = rows := by
  unfold replaceRow
  conv => rhs; rw [← List.map_id rows]
  apply List.map_congr_left
  intro r hr
  rw [if_neg]
  · rfl
  · rintro rfl
    exact h (List.mem_map_of_mem hr)

theorem RowsBecome.replaceRow {C : TypeId → NamedType → NamedType → Prop} {b' : NamedType}
    (h : RowsBecome C (fun _ => False) rows later) (hb : C id b b') :
    RowsBecome C (fun _ => False) (replaceRow id b rows) (replaceRow id b' later) := by
  induction h with
  | @nil added h =>
    cases added with
    | nil => exact .nil h
    | cons r _ => exact (h r List.mem_cons_self).elim
  | @cons j a a' rows later h _ ih =>
    by_cases hj : j = id
    · subst hj
      simp only [TypeCatalog.replaceRow, List.map_cons, if_true] at ih ⊢
      exact .cons hb ih
    · simp only [TypeCatalog.replaceRow, List.map_cons, if_neg hj] at ih ⊢
      exact .cons h ih

/-- Replacing a row by one that its own earlier row may become too. -/
theorem RowsBecome.replaceRow_right {C D : TypeId → NamedType → NamedType → Prop}
    (h : RowsBecome C (fun _ => False) rows later) (hother : ∀ i a a', i ≠ id → C i a a' → D i a a')
    (hself : ∀ a a', (id, a) ∈ rows → (id, a') ∈ later → C id a a' → D id a b) :
    RowsBecome D (fun _ => False) rows (TypeCatalog.replaceRow id b later) := by
  induction h with
  | @nil added h =>
    cases added with
    | nil => exact .nil h
    | cons r _ => exact (h r List.mem_cons_self).elim
  | @cons j a a' rows later h _ ih =>
    have ih := ih fun c c' hc hc' => hself c c' (List.mem_cons_of_mem _ hc) (List.mem_cons_of_mem _ hc')
    by_cases hj : j = id
    · subst hj
      simp only [TypeCatalog.replaceRow, List.map_cons, if_true] at ih ⊢
      exact .cons (hself a a' List.mem_cons_self List.mem_cons_self h) ih
    · simp only [TypeCatalog.replaceRow, List.map_cons, if_neg hj] at ih ⊢
      exact .cons (hother j a a' hj h) ih

end

namespace Pending.Completes

variable {p : Pending} {stored all : Contents} {id : TypeId}

/-- A row that waits to be stored may change. -/
theorem replaceRow_waiting (h : p.Completes stored all) (hn : (all.named.map (·.1)).Nodup)
    (hid : id ∈ p.named) {b : NamedType} :
    p.Completes stored { all with named := replaceRow id b all.named } := by
  obtain ⟨old, new, hnew, hpend, hold⟩ := h.named
  rw [hnew, List.map_append, ← hpend] at hn
  refine { h with named := ⟨old, replaceRow id b new, ?_, ?_, hold⟩ }
  · have hold' : id ∉ old.map (·.1) := fun hmem => (List.nodup_append.mp hn).2.2 id hmem id hid rfl
    show replaceRow id b all.named = _
    rw [hnew, replaceRow_append, replaceRow_of_not_mem hold']
  · rw [map_fst_replaceRow, hpend]

/-- A stored external type may be seen from more namespaces, which then wait. -/
theorem replaceRow_stored (h : p.Completes stored all) (hn : (all.named.map (·.1)).Nodup)
    (hid : id ∉ p.named) {x : External} (hx : (id, .external x) ∈ all.named) {names : NameSet}
    {added : List String} (hadded : ∀ n, n ∈ names.names ↔ n ∈ added ∨ n ∈ x.namespaces.names) :
    Completes { p with externalNamespaces := p.externalNamespaces ++ added.map (id, ·) } stored
      { all with named := replaceRow id (.external { x with namespaces := names }) all.named } := by
  obtain ⟨old, new, hnew, hpend, hold⟩ := h.named
  have hx : (id, .external x) ∈ old := by
    rw [hnew] at hx
    refine (List.mem_append.mp hx).resolve_right fun hx => hid ?_
    rw [hpend]
    exact List.mem_map_of_mem hx
  have hother (i : TypeId) (n : String) (hi : i ≠ id) :
      (i, n) ∈ p.externalNamespaces ++ added.map (id, ·) ↔ (i, n) ∈ p.externalNamespaces := by
    rw [List.mem_append, List.mem_map]
    constructor
    · rintro (h | ⟨m, _, hm⟩)
      · exact h
      · cases hm
        exact absurd rfl hi
    · exact .inl
  have hsame (n : String) :
      (id, n) ∈ p.externalNamespaces ++ added.map (id, ·) ↔ (id, n) ∈ p.externalNamespaces ∨ n ∈ added := by
    rw [List.mem_append, List.mem_map]
    simp
  rw [hnew, List.map_append, List.nodup_append] at hn
  refine { h with
    named := ⟨replaceRow id (.external { x with namespaces := names }) old, new, ?_, hpend, ?_⟩
    external := ?_ }
  · show replaceRow id _ all.named = _
    have hnew' : id ∉ new.map (·.1) := hpend ▸ hid
    rw [hnew, replaceRow_append, replaceRow_of_not_mem hnew']
  · apply hold.replaceRow_right
    · intro i a a' hi haw
      cases a with
      | external y =>
        obtain ⟨names, rfl, hnames⟩ := haw
        exact ⟨names, rfl, fun n => by rw [hnames, hother i n hi]⟩
      | documented d => exact haw
      | parameter d => exact haw
      | tuple r => exact haw
    · intro a a' _ ha' haw
      have hsame' := List.inj_on_of_nodup_map hn.1 ha' hx rfl
      cases hsame'
      cases a with
      | external y =>
        obtain ⟨names', heq, hnames⟩ := haw
        cases heq
        refine ⟨names, rfl, fun n => ?_⟩
        rw [hadded, hnames, hsame]
        grind
      | documented d => cases haw
      | parameter d => cases haw
      | tuple r => cases haw
  · intro q hq
    rcases List.mem_append.mp hq with hq | hq
    · exact h.external q hq
    · obtain ⟨m, _, rfl⟩ := List.mem_map.mp hq
      obtain ⟨a, ha, haw⟩ := hold.of_mem hx
      cases a with
      | external y => exact ⟨y, ha⟩
      | documented d => cases haw
      | parameter d => cases haw
      | tuple r => cases haw

end Pending.Completes

/-- What a row of a named type has to be when it is added. Tuples are added with their elements. -/
def NamedType.Regular : NamedType → Prop
  | .external x => x.namespaces.Ascending
  | .tuple _ => False
  | _ => True

/-- The same, with all that a declaration declares. -/
def NamedType.WellFormed : NamedType → Prop
  | .documented d => d.Declared
  | .external x => x.namespaces.Ascending
  | .parameter _ => True
  | .tuple _ => False

theorem NamedType.WellFormed.regular {a : NamedType} (h : a.WellFormed) : a.Regular := by
  cases a with
  | documented d => trivial
  | external x => exact h
  | parameter p => trivial
  | tuple r => exact h

/-- A row that is no tuple may be replaced by another one that is none. -/
theorem Contents.Regular.replaceRow {f : Contents} (h : f.Regular) {id : TypeId} {a b : NamedType}
    (ha : (id, a) ∈ f.named) (hnot : a.tuple? = none) (hb : b.Regular) :
    Regular { f with named := replaceRow id b f.named } :=
  { h with
    named := by
      show Counted ((TypeCatalog.replaceRow id b f.named).map _)
      rw [map_fst_replaceRow]
      exact h.named
    external := by
      intro i x hx
      rcases mem_replaceRow.mp hx with ⟨-, hx⟩ | ⟨heq, -⟩
      · exact h.external i x hx
      · cases heq
        exact hb
    tuple := by
      intro i r hr
      rcases mem_replaceRow.mp hr with ⟨-, hr⟩ | ⟨heq, -⟩
      · exact h.tuple i r hr
      · cases heq
        exact hb.elim
    owner := by
      intro e he
      obtain ⟨r, hr⟩ := h.owner e he
      refine ⟨r, mem_replaceRow.mpr (.inl ⟨?_, hr⟩)⟩
      rintro rfl
      rw [h.named.unique ha hr] at hnot
      cases hnot }

/-- A new row that is no tuple. -/
theorem Contents.Regular.addNamed {f : Contents} (h : f.Regular) {a : NamedType} (ha : a.Regular)
    (hroom : f.named.length + 1 < RowId.largest) :
    Regular { f with named := f.named ++ [(⟨f.named.length + 1⟩, a)] } :=
  { h with
    named := h.named.concat rfl hroom
    external := by
      intro i x hx
      rcases List.mem_append.mp hx with hx | hx
      · exact h.external i x hx
      · cases List.mem_singleton.mp hx
        exact ha
    tuple := by
      intro i r hr
      rcases List.mem_append.mp hr with hr | hr
      · exact h.tuple i r hr
      · cases List.mem_singleton.mp hr
        exact ha.elim
    owner := by
      intro e he
      obtain ⟨r, hr⟩ := h.owner e he
      exact ⟨r, List.mem_append_left _ hr⟩ }

theorem Contents.Regular.tuple_value_le {f : Contents} (h : f.Regular) {e : TupleElement} (he : e ∈ f.elements) :
    e.tuple.value ≤ f.named.length := by
  obtain ⟨r, hr⟩ := h.owner e he
  exact h.named.value_le_length (List.mem_map_of_mem hr)

namespace Session

theorem mem_numberedElements {tuple : TypeId} {n ordinal : Nat} {es : List NewElement} {e : TupleElement}
    (he : e ∈ numberedElements tuple n ordinal es) :
    e.tuple = tuple ∧ ordinal ≤ e.ordinal ∧ e.ordinal < ordinal + es.length ∧
      ∃ d ∈ es, e.rank = d.rank ∧ e.elementType = d.elementType := by
  induction es generalizing n ordinal with
  | nil => cases he
  | cons d es ih =>
    rw [List.length_cons]
    rcases List.mem_cons.mp he with rfl | he
    · exact ⟨rfl, Nat.le_refl _, by dsimp only; omega, d, List.mem_cons_self, rfl, rfl⟩
    · obtain ⟨ht, hle, hlt, x, hx, heq⟩ := ih he
      exact ⟨ht, by omega, by omega, x, List.mem_cons_of_mem d hx, heq⟩

theorem pairwise_numberedElements {tuple : TypeId} {n ordinal : Nat} {es : List NewElement} :
    (numberedElements tuple n ordinal es).Pairwise fun d e => d.tuple = e.tuple ∧ d.ordinal < e.ordinal := by
  induction es generalizing n ordinal with
  | nil => exact .nil
  | cons d es ih =>
    refine .cons ?_ ih
    intro e he
    obtain ⟨ht, hle, -⟩ := mem_numberedElements he
    exact ⟨ht.symm, hle⟩

theorem filter_numberedElements_self {tuple : TypeId} {n ordinal : Nat} {es : List NewElement} :
    (numberedElements tuple n ordinal es).filter (·.tuple == tuple) = numberedElements tuple n ordinal es := by
  rw [List.filter_eq_self]
  intro e he
  rw [(mem_numberedElements he).1, beq_iff_eq]

theorem filter_numberedElements_of_ne {tuple i : TypeId} {n ordinal : Nat} {es : List NewElement}
    (hi : i ≠ tuple) : (numberedElements tuple n ordinal es).filter (·.tuple == i) = [] := by
  rw [List.filter_eq_nil_iff]
  intro e he
  rw [(mem_numberedElements he).1, beq_iff_eq]
  exact Ne.symm hi

/-- The elements of a new tuple stand apart from those of the earlier ones. -/
theorem filter_addTuple {f : Contents} (h : f.Regular) {es : List NewElement} {i : TypeId} :
    (f.elements ++ numberedElements ⟨f.named.length + 1⟩ f.elements.length 0 es).filter (·.tuple == i) =
      if i = ⟨f.named.length + 1⟩ then numberedElements ⟨f.named.length + 1⟩ f.elements.length 0 es
      else f.elements.filter (·.tuple == i) := by
  rw [List.filter_append]
  split
  · next hi =>
    subst hi
    have hnone : f.elements.filter (·.tuple == ⟨f.named.length + 1⟩) = [] := by
      rw [List.filter_eq_nil_iff]
      intro e he heq
      have hle := h.tuple_value_le he
      rw [beq_iff_eq.mp heq] at hle
      dsimp only at hle
      omega
    rw [hnone, filter_numberedElements_self, List.nil_append]
  · next hi => rw [filter_numberedElements_of_ne hi, List.append_nil]

/-- A new tuple with its elements, which come behind those of the earlier tuples. -/
theorem regular_addTuple {f : Contents} (h : f.Regular) {name : String} {es : List NewElement}
    (hroom : f.named.length + 1 < RowId.largest)
    (hlast : es = [] ∨ f.elements.length + es.length < RowId.largest) :
    Contents.Regular { f with
      named := f.named ++ [(⟨f.named.length + 1⟩, .tuple { name, elements :=
        (numberedElements ⟨f.named.length + 1⟩ f.elements.length 0 es).map (·.id) })]
      elements := f.elements ++ numberedElements ⟨f.named.length + 1⟩ f.elements.length 0 es } :=
  { h with
    named := h.named.concat rfl hroom
    elements := by
      apply h.elements.append
      · rw [map_id_numberedElements, length_numberedElements]
      · rw [length_numberedElements]
        rcases hlast with rfl | hlast
        · have := h.elements.room
          rw [List.length_map] at this
          simpa using this
        · exact hlast
    external := by
      intro i x hx
      rcases List.mem_append.mp hx with hx | hx
      · exact h.external i x hx
      · cases List.mem_singleton.mp hx
    tuple := by
      intro i r hr
      rw [filter_addTuple h]
      rcases List.mem_append.mp hr with hr | hr
      · rw [if_neg, h.tuple i r hr]
        rintro rfl
        have hle := h.named.value_le_length (List.mem_map_of_mem hr)
        dsimp only at hle
        omega
      · cases List.mem_singleton.mp hr
        rw [if_pos rfl]
    owner := by
      intro e he
      rcases List.mem_append.mp he with he | he
      · obtain ⟨r, hr⟩ := h.owner e he
        exact ⟨r, List.mem_append_left _ hr⟩
      · rw [(mem_numberedElements he).1]
        exact ⟨_, List.mem_append_right _ List.mem_cons_self⟩
    sorted := by
      rw [List.pairwise_append]
      refine ⟨h.sorted, pairwise_numberedElements.imp .inr, ?_⟩
      intro d hd e he
      left
      rw [(mem_numberedElements he).1]
      exact Nat.lt_succ_of_le (h.tuple_value_le hd) }

/-- A session over a store: the session shows all rows, of references and usages the newest ones, and
the store holds those that are not pending. Without a store, nothing is left out. -/
structure Journal (s : Session) (stored all : Contents) : Prop where
  namespaces : s.namespaces = all.namespaces
  files : s.files = all.files
  rows : RowsBecome (fun _ => NamedType.Alike) (fun _ => False) all.named s.named
  elements : s.elements = all.elements
  references : ∃ older, older <+: stored.references ∧ all.references = older ++ s.references
  usages : ∃ older, older <+: stored.usages ∧ all.usages = older ++ s.usages
  namespaceIds : s.namespaceIds.used = all.namespaces.length
  fileIds : s.fileIds.used = all.files.length
  namedIds : s.namedIds.used = all.named.length
  elementIds : s.elementIds.used = all.elements.length
  referenceIds : s.referenceIds.used = all.references.length
  usageIds : s.usageIds.used = all.usages.length
  pending : s.pending.Completes stored all
  fresh : ∀ r ∈ s.named, r.1 ∈ s.pending.named → r ∈ all.named
  memory : s.store = none → s.named = all.named
  holds : ∀ store, s.store = some store → store.database.Holds stored ∧ store.database.Linked
  storedRegular : stored.Regular
  regular : all.Regular

namespace Journal

variable {s t : Session} {c f : Contents}

/-- New rows at the end of a table wait to be stored. -/
theorem append_waiting {α β : Type} {id : α → β} {stored all added : List α} {ids : List β}
    (h : ∃ new, all = stored ++ new ∧ ids = new.map id) :
    ∃ new, all ++ added = stored ++ new ∧ ids ++ added.map id = new.map id := by
  obtain ⟨new, rfl, rfl⟩ := h
  exact ⟨new ++ added, List.append_assoc _ _ _, (List.map_append ..).symm⟩

theorem append_resident {α : Type} {stored all resident : List α} {x : α}
    (h : ∃ older, older <+: stored ∧ all = older ++ resident) :
    ∃ older, older <+: stored ∧ all ++ [x] = older ++ (resident ++ [x]) := by
  obtain ⟨older, hstored, rfl⟩ := h
  exact ⟨older, hstored, List.append_assoc _ _ _⟩

theorem addNamespace (h : s.Journal c f) {name : String} {parent : Option NamespaceId} {id : NamespaceId}
    (ha : s.addNamespace name parent = .ok (id, t)) :
    t.Journal c { f with namespaces := f.namespaces ++ [⟨⟨f.namespaces.length + 1⟩, name, parent⟩] } := by
  obtain ⟨hroom, -, rfl⟩ := addNamespace_ok ha
  rw [h.namespaceIds] at hroom ⊢
  exact { h with
    namespaces := by rw [h.namespaces]
    namespaceIds := by rw [List.length_append]; rfl
    pending := { h.pending with namespaces := append_waiting h.pending.namespaces }
    regular := { h.regular with namespaces := h.regular.namespaces.concat rfl hroom } }

theorem addSourceFile (h : s.Journal c f) {path : Path} {usings : List NamespaceId} {id : FileId}
    (ha : s.addSourceFile path usings = .ok (id, t)) :
    t.Journal c { f with files := f.files ++ [⟨⟨f.files.length + 1⟩, path, usings⟩] } := by
  obtain ⟨hroom, -, rfl⟩ := addSourceFile_ok ha
  rw [h.fileIds] at hroom ⊢
  exact { h with
    files := by rw [h.files]
    fileIds := by rw [List.length_append]; rfl
    pending := { h.pending with files := append_waiting h.pending.files }
    regular := { h.regular with files := h.regular.files.concat rfl hroom } }

theorem addReference (h : s.Journal c f) {named : TypeId} {rank : Nat} {parent : Option ReferenceId}
    {id : ReferenceId} (ha : s.addReference named rank parent = .ok (id, t)) :
    t.Journal c { f with
      references := f.references ++ [⟨⟨f.references.length + 1⟩, named, rank, parent⟩] } := by
  obtain ⟨hroom, -, rfl⟩ := addReference_ok ha
  rw [h.referenceIds] at hroom ⊢
  exact { h with
    references := append_resident h.references
    referenceIds := by rw [List.length_append]; rfl
    pending := { h.pending with references := append_waiting h.pending.references }
    regular := { h.regular with references := h.regular.references.concat rfl hroom } }

theorem addUsage (h : s.Journal c f) {owner : TypeId} {reference : ReferenceId} {role : Role}
    {member : Option String} {id : UsageId} (ha : s.addUsage owner reference role member = .ok (id, t)) :
    t.Journal c { f with
      usages := f.usages ++ [⟨⟨f.usages.length + 1⟩, owner, reference, role, member⟩] } := by
  obtain ⟨hroom, -, rfl⟩ := addUsage_ok ha
  rw [h.usageIds] at hroom ⊢
  exact { h with
    usages := append_resident h.usages
    usageIds := by rw [List.length_append]; rfl
    pending := { h.pending with usages := append_waiting h.pending.usages }
    regular := { h.regular with usages := h.regular.usages.concat rfl hroom } }

/-- A new row of a named type is above those that are there. -/
theorem not_mem_named (h : s.Journal c f) {a : NamedType} : (⟨f.named.length + 1⟩, a) ∉ s.named := by
  intro hmem
  have hmem : (⟨f.named.length + 1⟩ : TypeId) ∈ f.named.map (·.1) := by
    rw [← h.rows.map_fst]
    exact List.mem_map_of_mem hmem
  have hle := h.regular.named.value_le_length hmem
  dsimp only at hle
  omega

theorem named_waiting {stored all : List (TypeId × NamedType)} {ids : List TypeId}
    {waiting : List (TypeId × String)} {r : TypeId × NamedType}
    (h : ∃ old new, all = old ++ new ∧ ids = new.map (·.1) ∧
      RowsBecome (NamedType.Awaits waiting) (fun _ => False) stored old) :
    ∃ old new, all ++ [r] = old ++ new ∧ ids ++ [r.1] = new.map (·.1) ∧
      RowsBecome (NamedType.Awaits waiting) (fun _ => False) stored old := by
  obtain ⟨old, new, rfl, rfl, hold⟩ := h
  refine ⟨old, new ++ [r], List.append_assoc _ _ _, ?_, hold⟩
  rw [List.map_append]
  rfl

theorem fresh_concat (h : s.Journal c f) {a : NamedType} :
    ∀ r ∈ s.named ++ [(⟨f.named.length + 1⟩, a)], r.1 ∈ s.pending.named ++ [⟨f.named.length + 1⟩] →
      r ∈ f.named ++ [(⟨f.named.length + 1⟩, a)] := by
  intro r hr hid
  rcases List.mem_append.mp hr with hr | hr
  · rcases List.mem_append.mp hid with hid | hid
    · exact List.mem_append_left _ (h.fresh r hr hid)
    · obtain ⟨i, b⟩ := r
      cases List.mem_singleton.mp hid
      exact absurd hr h.not_mem_named
  · exact List.mem_append_right _ hr

theorem addNamed (h : s.Journal c f) {a : NamedType} (hw : a.Regular) {id : TypeId}
    (ha : s.addNamed a = .ok (id, t)) :
    t.Journal c { f with named := f.named ++ [(⟨f.named.length + 1⟩, a)] } := by
  obtain ⟨hroom, -, rfl⟩ := addNamed_ok ha
  rw [h.namedIds] at hroom ⊢
  exact { h with
    rows := h.rows.concat (.refl _)
    namedIds := by rw [List.length_append]; rfl
    pending := { h.pending with
      named := named_waiting h.pending.named }
    fresh := h.fresh_concat
    memory := fun hstore => by rw [h.memory hstore]
    regular := h.regular.addNamed hw hroom }

theorem addTuple (h : s.Journal c f) {name : String} {es : List NewElement} {id : TypeId}
    (ha : s.addTuple name es = .ok (id, t)) :
    t.Journal c { f with
      named := f.named ++ [(⟨f.named.length + 1⟩, .tuple { name, elements :=
        (numberedElements ⟨f.named.length + 1⟩ f.elements.length 0 es).map (·.id) })]
      elements := f.elements ++ numberedElements ⟨f.named.length + 1⟩ f.elements.length 0 es } := by
  obtain ⟨hroom, hlast, rfl, rfl⟩ := addTuple_ok ha
  rw [h.namedIds] at hroom ⊢
  rw [h.elementIds] at hlast ⊢
  exact { h with
    rows := h.rows.concat (.refl _)
    elements := by rw [h.elements]
    namedIds := by rw [List.length_append]; rfl
    elementIds := by rw [List.length_append, length_numberedElements]
    pending := { h.pending with
      named := named_waiting h.pending.named
      elements := append_waiting h.pending.elements }
    fresh := h.fresh_concat
    memory := fun hstore => by rw [h.memory hstore]
    regular := regular_addTuple h.regular hroom hlast }

/-- Only documented types are shown in more than one way. -/
theorem mem_of_alike (h : s.Journal c f) {id : TypeId} {b : NamedType} (hb : (id, b) ∈ s.named)
    (hd : b.documented? = none) : (id, b) ∈ f.named := by
  obtain ⟨a, ha, hab⟩ := h.rows.of_mem hb
  cases a with
  | documented d =>
    obtain ⟨ps, rfl⟩ := hab
    cases hd
  | external x => rwa [show b = _ from hab]
  | parameter p => rwa [show b = _ from hab]
  | tuple r => rwa [show b = _ from hab]

theorem external_mem (h : s.Journal c f) {id : TypeId} {x : External}
    (hx : s.named? id = some (.external x)) : (id, .external x) ∈ f.named :=
  h.mem_of_alike (List.mem_of_find?_eq_some (find?_of_named?.mp hx)) rfl

theorem extendExternal (h : s.Journal c f) {id : TypeId} {names : List String} {n : Nat}
    (he : s.extendExternal id names = .ok (n, t)) :
    ∃ x, s.named? id = some (.external x) ∧
      t.Journal c { f with named := replaceRow id (.external (seenFrom x names)) f.named } ∧
      t.named = replaceRow id (.external (seenFrom x names)) s.named := by
  obtain ⟨x, hx, -, rfl⟩ := extendExternal_ok he
  have hmem := h.external_mem hx
  have hasc := h.regular.external id x hmem
  refine ⟨x, hx, ?_, rfl⟩
  exact { h with
    rows := h.rows.replaceRow (.refl _)
    namedIds := by
      show s.namedIds.used = (replaceRow id _ f.named).length
      rw [h.namedIds, ← List.length_map, ← map_fst_replaceRow, List.length_map]
    pending := by
      dsimp only
      split
      · next hid => exact h.pending.replaceRow_waiting h.regular.named.nodup (by simpa using hid)
      · next hid =>
        exact h.pending.replaceRow_stored h.regular.named.nodup (by simpa using hid) hmem
          fun n => NameSet.mem_foldl_insert
    fresh := by
      intro r hr hid
      have hid : r.1 ∈ s.pending.named := by
        dsimp only at hid
        split at hid <;> exact hid
      rcases mem_replaceRow.mp hr with ⟨hne, hr⟩ | ⟨rfl, -⟩
      · exact mem_replaceRow.mpr (.inl ⟨hne, h.fresh r hr hid⟩)
      · exact mem_replaceRow.mpr (.inr ⟨rfl, List.mem_map_of_mem hmem⟩)
    memory := fun hstore => by
      show replaceRow id _ s.named = replaceRow id _ f.named
      rw [h.memory hstore]
    regular := h.regular.replaceRow hmem rfl (NameSet.ascending_foldl_insert hasc _) }

theorem nodup_named (h : s.Journal c f) : (s.named.map (·.1)).Nodup := by
  rw [h.rows.map_fst]
  exact h.regular.named.nodup

theorem named?_eq (h : s.Journal c f) {id : TypeId} {a : NamedType} :
    s.named? id = some a ↔ (id, a) ∈ s.named := by
  rw [find?_of_named?]
  exact ⟨List.mem_of_find?_eq_some, fun hmem => find?_of_nodup h.nodup_named hmem⟩

theorem tuple_mem (h : s.Journal c f) {id : TypeId} {r : Tuple} (hr : s.named? id = some (.tuple r)) :
    (id, .tuple r) ∈ f.named :=
  h.mem_of_alike (h.named?_eq.mp hr) rfl

theorem tupleElements_ok (h : s.Journal c f) {id : TypeId} {r : Tuple} (hr : s.named? id = some (.tuple r)) :
    s.tupleElements id = .ok (f.elements.filter (·.tuple == id)) := by
  unfold tupleElements
  rw [hr]
  dsimp only
  rw [h.regular.tuple id r (h.tuple_mem hr)]
  conv => rhs; rw [← List.map_id (f.elements.filter (·.tuple == id))]
  apply mapM_eq_ok
  intro e he
  have hfind : s.element? e.id = some e := by
    unfold element?
    rw [h.elements]
    exact find?_of_nodup h.regular.elements.nodup (List.mem_filter.mp he).1
  rw [hfind]
  rfl

/-- Loading type parameters changes at most a row that is not stored yet. -/
theorem ensureParameters (h : s.Journal c f) {id : TypeId} {ps : List TypeParameter}
    (he : s.ensureParameters id = .ok (ps, t)) :
    ∃ rows, t.Journal c { f with named := rows } ∧ ∀ i r, (i, .tuple r) ∈ rows → (i, .tuple r) ∈ f.named := by
  obtain ⟨d, hd, ⟨-, rfl⟩ | ⟨-, ⟨store, hstore, -⟩, -, rfl⟩⟩ := ensureParameters_ok he
  · exact ⟨f.named, h, fun _ _ hr => hr⟩
  · have hshown := h.named?_eq.mp hd
    have hmemory : s.store ≠ none := by
      rw [hstore]
      simp
    -- a row that waits is changed for the store too, a stored one is only shown otherwise
    by_cases hid : id ∈ s.pending.named
    · have hmem := h.fresh _ hshown hid
      refine ⟨replaceRow id (.documented { d with parameters := some ps }) f.named, { h with
        rows := h.rows.replaceRow (.refl _)
        namedIds := by
          show s.namedIds.used = (replaceRow id _ f.named).length
          rw [h.namedIds, ← List.length_map, ← map_fst_replaceRow, List.length_map]
        pending := h.pending.replaceRow_waiting h.regular.named.nodup hid
        fresh := ?_
        memory := fun hnone => absurd hnone hmemory
        regular := h.regular.replaceRow hmem rfl trivial }, ?_⟩
      · intro r hr hr'
        rcases mem_replaceRow.mp hr with ⟨hne, hr⟩ | ⟨rfl, -⟩
        · exact mem_replaceRow.mpr (.inl ⟨hne, h.fresh r hr hr'⟩)
        · exact mem_replaceRow.mpr (.inr ⟨rfl, List.mem_map_of_mem hmem⟩)
      · intro i r hr
        rcases mem_replaceRow.mp hr with ⟨-, hr⟩ | ⟨heq, -⟩
        · exact hr
        · cases heq
    · refine ⟨f.named, { h with
        rows := h.rows.replaceRow_right (fun _ _ _ _ hab => hab) ?_
        fresh := ?_
        memory := fun hnone => absurd hnone hmemory }, fun _ _ hr => hr⟩
      · intro a a' ha ha' hab
        cases List.inj_on_of_nodup_map h.nodup_named ha' hshown rfl
        cases a with
        | documented e =>
          obtain ⟨qs, heq⟩ := hab
          cases heq
          exact ⟨some ps, rfl⟩
        | external x => cases hab
        | parameter p => cases hab
        | tuple r => cases hab
      · intro r hr hr'
        rcases mem_replaceRow.mp hr with ⟨-, hr⟩ | ⟨rfl, -⟩
        · exact h.fresh r hr hr'
        · exact absurd hr' hid

end Journal

/-- A session over a store that shows every type as it was declared, or without the type parameters that
the store has. -/
structure Ledger (s : Session) (stored all : Contents) : Prop extends Journal s stored all where
  named : RowsBecome (fun _ => NamedType.Shown) (fun _ => False) all.named s.named
  storedSound : stored.Sound
  sound : all.Sound

namespace Ledger

variable {s t : Session} {c f : Contents}

theorem addNamespace (h : s.Ledger c f) {name : String} {parent : Option NamespaceId} {id : NamespaceId}
    (ha : s.addNamespace name parent = .ok (id, t)) :
    t.Ledger c { f with namespaces := f.namespaces ++ [⟨⟨f.namespaces.length + 1⟩, name, parent⟩] } := by
  have hj := h.toJournal.addNamespace ha
  obtain ⟨-, -, rfl⟩ := addNamespace_ok ha
  exact { hj with
    named := h.named
    storedSound := h.storedSound
    sound := { hj.regular with documented := h.sound.documented } }

theorem addSourceFile (h : s.Ledger c f) {path : Path} {usings : List NamespaceId} {id : FileId}
    (ha : s.addSourceFile path usings = .ok (id, t)) :
    t.Ledger c { f with files := f.files ++ [⟨⟨f.files.length + 1⟩, path, usings⟩] } := by
  have hj := h.toJournal.addSourceFile ha
  obtain ⟨-, -, rfl⟩ := addSourceFile_ok ha
  exact { hj with
    named := h.named
    storedSound := h.storedSound
    sound := { hj.regular with documented := h.sound.documented } }

theorem addReference (h : s.Ledger c f) {named : TypeId} {rank : Nat} {parent : Option ReferenceId}
    {id : ReferenceId} (ha : s.addReference named rank parent = .ok (id, t)) :
    t.Ledger c { f with
      references := f.references ++ [⟨⟨f.references.length + 1⟩, named, rank, parent⟩] } := by
  have hj := h.toJournal.addReference ha
  obtain ⟨-, -, rfl⟩ := addReference_ok ha
  exact { hj with
    named := h.named
    storedSound := h.storedSound
    sound := { hj.regular with documented := h.sound.documented } }

theorem addUsage (h : s.Ledger c f) {owner : TypeId} {reference : ReferenceId} {role : Role}
    {member : Option String} {id : UsageId} (ha : s.addUsage owner reference role member = .ok (id, t)) :
    t.Ledger c { f with
      usages := f.usages ++ [⟨⟨f.usages.length + 1⟩, owner, reference, role, member⟩] } := by
  have hj := h.toJournal.addUsage ha
  obtain ⟨-, -, rfl⟩ := addUsage_ok ha
  exact { hj with
    named := h.named
    storedSound := h.storedSound
    sound := { hj.regular with documented := h.sound.documented } }

theorem documented_concat (h : f.Sound) {i : TypeId} {a : NamedType}
    (ha : ∀ d, a = .documented d → d.Declared) :
    ∀ j d, (j, .documented d) ∈ f.named ++ [(i, a)] → d.Declared := by
  intro j d hd
  rcases List.mem_append.mp hd with hd | hd
  · exact h.documented j d hd
  · cases List.mem_singleton.mp hd
    exact ha d rfl

theorem addNamed (h : s.Ledger c f) {a : NamedType} (hw : a.WellFormed) {id : TypeId}
    (ha : s.addNamed a = .ok (id, t)) :
    t.Ledger c { f with named := f.named ++ [(⟨f.named.length + 1⟩, a)] } := by
  have hj := h.toJournal.addNamed hw.regular ha
  obtain ⟨-, -, rfl⟩ := addNamed_ok ha
  rw [h.namedIds] at hj ⊢
  exact { hj with
    named := h.named.concat (.inl rfl)
    storedSound := h.storedSound
    sound := { hj.regular with
      documented := documented_concat h.sound (by rintro d rfl; exact hw) } }

theorem addTuple (h : s.Ledger c f) {name : String} {es : List NewElement} {id : TypeId}
    (ha : s.addTuple name es = .ok (id, t)) :
    t.Ledger c { f with
      named := f.named ++ [(⟨f.named.length + 1⟩, .tuple { name, elements :=
        (numberedElements ⟨f.named.length + 1⟩ f.elements.length 0 es).map (·.id) })]
      elements := f.elements ++ numberedElements ⟨f.named.length + 1⟩ f.elements.length 0 es } := by
  have hj := h.toJournal.addTuple ha
  obtain ⟨-, -, rfl, rfl⟩ := addTuple_ok ha
  rw [h.namedIds, h.elementIds] at hj ⊢
  exact { hj with
    named := h.named.concat (.inl rfl)
    storedSound := h.storedSound
    sound := { hj.regular with documented := documented_concat h.sound (by simp) } }

theorem extendExternal (h : s.Ledger c f) {id : TypeId} {names : List String} {n : Nat}
    (he : s.extendExternal id names = .ok (n, t)) :
    ∃ x, s.named? id = some (.external x) ∧
      t.Ledger c { f with named := replaceRow id (.external (seenFrom x names)) f.named } := by
  obtain ⟨x, hx, hj, hnamed⟩ := h.toJournal.extendExternal he
  refine ⟨x, hx, { hj with
    named := ?_
    storedSound := h.storedSound
    sound := { hj.regular with documented := ?_ } }⟩
  · rw [hnamed]
    exact h.named.replaceRow (.inl rfl)
  · intro i d hd
    rcases mem_replaceRow.mp hd with ⟨-, hd⟩ | ⟨heq, -⟩
    · exact h.sound.documented i d hd
    · cases heq

/-- A documented type is shown loaded, or its list of type parameters is in the store. -/
theorem documented_mem (h : s.Ledger c f) {id : TypeId} {d : Documented}
    (hd : s.named? id = some (.documented d)) :
    ∃ ps, (id, .documented { d with parameters := some ps }) ∈ f.named ∧
      (d.parameters = some ps ∨ d.parameters = none ∧ ps.length = d.arity ∧
        ∃ store, s.store = some store ∧ store.database.parametersOf id = .ok ps) := by
  rw [h.named?_eq] at hd
  obtain ⟨a, ha, rfl | ⟨hshown, hnumber⟩⟩ := h.named.of_mem hd
  · obtain ⟨ps, hps, -⟩ := h.sound.documented id d ha
    exact ⟨ps, by rw [← hps]; exact ha, .inl hps⟩
  · cases a with
    | external x => cases hshown
    | parameter p => cases hshown
    | tuple r => cases hshown
    | documented e =>
      cases hshown
      obtain ⟨ps, hps, hord⟩ := h.sound.documented id e ha
      have hlen : ps.length = e.arity := by simpa using congrArg List.length hord
      refine ⟨ps, by rw [← hps]; exact ha, ?_⟩
      dsimp only
      by_cases harity : e.arity = 0
      · rw [if_pos harity]
        rw [harity] at hlen
        exact .inl (by rw [List.eq_nil_of_length_eq_zero hlen])
      · rw [if_neg harity]
        refine .inr ⟨rfl, hlen, ?_⟩
        -- the row is not pending, since it is shown without its list
        rw [if_neg harity] at hd
        have hnot : ∀ hmem : (id, NamedType.documented { e with parameters := none }) ∈ f.named, False := by
          intro hmem
          obtain ⟨qs, hqs, -⟩ := h.sound.documented id _ hmem
          cases hqs
        cases hstore : s.store with
        | none => exact (hnot (h.memory hstore ▸ hd)).elim
        | some store =>
          refine ⟨store, rfl, ?_⟩
          obtain ⟨old, new, hnew, hpend, hold⟩ := h.pending.named
          have hold' : (id, .documented e) ∈ old := by
            rw [hnew] at ha
            refine (List.mem_append.mp ha).resolve_right fun ha => hnot (h.fresh _ hd ?_)
            rw [hpend]
            exact List.mem_map.mpr ⟨_, ha, rfl⟩
          obtain ⟨a, hstored, haw⟩ := hold.of_mem hold'
          have haw : a = .documented e := by
            cases a with
            | external y =>
              obtain ⟨names, heq, -⟩ := haw
              cases heq
            | documented e' => exact Eq.symm haw
            | parameter p => exact Eq.symm haw
            | tuple r => exact Eq.symm haw
          rw [haw] at hstored
          exact Database.parametersOf_eq (h.holds store hstore).1 h.storedSound hstored hnumber hps

/-- The type parameters of a documented type can always be had, and are those it was added with. -/
theorem ensureParameters (h : s.Ledger c f) {id : TypeId} {d : Documented}
    (hd : s.named? id = some (.documented d)) :
    ∃ ps t, s.ensureParameters id = .ok (ps, t) ∧ t.Ledger c f ∧
      (id, .documented { d with parameters := some ps }) ∈ f.named := by
  obtain ⟨ps, hmem, hps | ⟨hps, hlen, store, hstore, hread⟩⟩ := h.documented_mem hd
  · refine ⟨ps, s, ?_, h, hmem⟩
    unfold Session.ensureParameters
    rw [documented_ok.mpr hd]
    simp only [bind, Except.bind, hps]
    rfl
  · have hread' : s.ensureParameters id =
        .ok (ps, s.replaceNamed id (.documented { d with parameters := some ps })) := by
      unfold Session.ensureParameters
      rw [documented_ok.mpr hd]
      simp only [bind, Except.bind, hps, hstore, hread, hlen, if_true]
      rfl
    refine ⟨ps, _, hread', ?_, hmem⟩
    have hnamed : RowsBecome (fun _ => NamedType.Shown) (fun _ => False) f.named
        (replaceRow id (.documented { d with parameters := some ps }) s.named) := by
      apply h.named.replaceRow_right
      · exact fun _ _ _ _ hshown => hshown
      · intro a a' ha _ _
        exact .inl (h.sound.named.unique hmem ha)
    exact { h with
      rows := hnamed.mono (fun _ _ _ hshown => hshown.alike) fun _ hnew => hnew
      named := hnamed
      fresh := by
        intro r hr hid
        rcases mem_replaceRow.mp hr with ⟨-, hr⟩ | ⟨rfl, -⟩
        · exact h.fresh r hr hid
        · exact hmem
      memory := fun hnone => by
        rw [show s.store = none from hnone] at hstore
        cases hstore }

end Ledger

theorem isDocumented_iff {s : Session} {id : TypeId} :
    s.isDocumented id ↔ ∃ d, s.named? id = some (.documented d) := by
  unfold isDocumented
  rw [Option.isSome_iff_exists]
  refine exists_congr fun d => ?_
  rw [Option.bind_eq_some_iff]
  constructor
  · rintro ⟨a, ha, hd⟩
    cases a <;> cases hd
    exact ha
  · intro hd
    exact ⟨_, hd, rfl⟩

theorem Ledger.isDocumented_iff {s : Session} {c f : Contents} (h : s.Ledger c f) {id : TypeId} :
    s.isDocumented id ↔ ∃ d, (id, .documented d) ∈ f.named := by
  rw [Session.isDocumented_iff]
  constructor
  · rintro ⟨d, hd⟩
    obtain ⟨ps, hps, -⟩ := h.documented_mem hd
    exact ⟨_, hps⟩
  · rintro ⟨d, hd⟩
    obtain ⟨b, hb, rfl | ⟨rfl, -⟩⟩ := h.named.mem hd
    · exact ⟨_, h.named?_eq.mpr hb⟩
    · exact ⟨_, h.named?_eq.mpr hb⟩

end Session

end TypeCatalog
