import TypeCatalog.Proofs.Namespaces
import TypeCatalog.Proofs.RoundTrip

namespace TypeCatalog

/-- Every namespace stands under the one that its name says, and the elements of a tuple are numbered from 0. -/
structure Contents.Arranged (c : Contents) : Prop where
  names : (c.namespaces.map (·.name)).Nodup
  parent : ∀ n ∈ c.namespaces, n.name ≠ "" → ∃ p ∈ c.namespaces,
    n.parent = some p.id ∧ p.name = (Dotted.outer? n.name).getD "" ∧ p.id.value < n.id.value
  ordinals : ∀ i r, (i, .tuple r) ∈ c.named →
    (c.elements.filter (·.tuple == i)).map (·.ordinal) = List.range r.elements.length

theorem Contents.arranged_empty : ({} : Contents).Arranged := ⟨.nil, by simp, by simp⟩

namespace Session

theorem mem_unseen {known : NameSet} {names : List String} {n : String} (h : n ∈ unseen known names) :
    n ∉ known.names := by
  induction names generalizing known with
  | nil => cases h
  | cons m names ih =>
    unfold unseen at h
    split at h
    · exact ih h
    · next hm =>
      rcases List.mem_cons.mp h with rfl | h
      · simpa [NameSet.contains] using hm
      · intro hn
        exact ih h (NameSet.mem_insert.mpr (.inr hn))

theorem nodup_unseen {known : NameSet} {names : List String} : (unseen known names).Nodup := by
  induction names generalizing known with
  | nil => exact .nil
  | cons m names ih =>
    unfold unseen
    split
    · exact ih
    · refine List.nodup_cons.mpr ⟨?_, ih⟩
      intro hm
      exact mem_unseen hm (NameSet.mem_insert.mpr (.inl rfl))

theorem map_ordinal_numberedElements {tuple : TypeId} {n ordinal : Nat} {es : List NewElement} :
    (numberedElements tuple n ordinal es).map (·.ordinal) = List.range' ordinal es.length := by
  induction es generalizing n ordinal with
  | nil => rfl
  | cons e es ih => simp only [numberedElements, List.map_cons, List.length_cons, List.range'_succ, ih]

/-- A session whose rows, stored or not, are arranged. No namespace waits twice for the same type. -/
structure Orderly (s : Session) (stored all : Contents) : Prop extends Journal s stored all where
  storedArranged : stored.Arranged
  arranged : all.Arranged
  waiting : s.pending.externalNamespaces.Nodup

variable {s t : Session} {c f : Contents}

theorem Journal.mem_waiting (h : s.Journal c f) {id : TypeId} {x : External} {n : String}
    (hx : s.named? id = some (.external x)) (hn : (id, n) ∈ s.pending.externalNamespaces) :
    n ∈ x.namespaces.names := by
  obtain ⟨old, new, hnew, hpend, hold⟩ := h.pending.named
  obtain ⟨y, hy⟩ := h.pending.external _ hn
  obtain ⟨b, hb, names, rfl, hnames⟩ := hold.mem hy
  have hsame := h.regular.named.unique (h.external_mem hx) (hnew ▸ List.mem_append_left _ hb)
  cases hsame
  exact (hnames n).mpr (.inr hn)

namespace Orderly

theorem addUnder (h : s.Orderly c f) {name : String} {parent : Option NamespaceId} {id : NamespaceId}
    (hnone : s.findNamespace name = none) (hunder : s.Under name parent)
    (ha : s.addNamespace name parent = .ok (id, t)) :
    t.Orderly c { f with namespaces := f.namespaces ++ [⟨⟨f.namespaces.length + 1⟩, name, parent⟩] } := by
  have hj := h.toJournal.addNamespace ha
  obtain ⟨-, -, rfl⟩ := addNamespace_ok ha
  refine { hj with
    storedArranged := h.storedArranged
    waiting := h.waiting
    arranged := { h.arranged with
      names := nodup_map_concat h.arranged.names (h.namespaces ▸ findNamespace_eq_none hnone)
      parent := forall_mem_concat ?_ ?_ } }
  · intro n hn hne
    obtain ⟨p, hp, hparent⟩ := h.arranged.parent n hn hne
    exact ⟨p, List.mem_append_left _ hp, hparent⟩
  · intro hne
    dsimp only at hne ⊢
    unfold Under at hunder
    rw [if_neg hne] at hunder
    obtain ⟨p, rfl, hp⟩ := hunder
    obtain ⟨m, hm, hname, rfl⟩ := mem_of_findNamespace hp
    rw [h.namespaces] at hm
    have hle := h.regular.namespaces.value_le_length (List.mem_map_of_mem hm)
    exact ⟨m, List.mem_append_left _ hm, rfl, hname, Nat.lt_succ_of_le hle⟩

theorem ensureNamespace (h : s.Orderly c f) {name : String} {id : NamespaceId}
    (ha : s.ensureNamespace name = .ok (id, t)) : ∃ f, t.Orderly c f :=
  (ensureWithin_nested (P := fun s => ∃ f, s.Orderly c f)
    (fun _ _ _ _ _ ⟨_, hs⟩ _ hnone hunder hadd => ⟨_, hs.addUnder hnone hunder hadd⟩) rfl ⟨f, h⟩ ha).1

theorem addSourceFile (h : s.Orderly c f) {path : Path} {usings : List NamespaceId} {id : FileId}
    (ha : s.addSourceFile path usings = .ok (id, t)) : ∃ f, t.Orderly c f := by
  have hj := h.toJournal.addSourceFile ha
  obtain ⟨-, -, rfl⟩ := addSourceFile_ok ha
  exact ⟨_, { hj with
    storedArranged := h.storedArranged
    waiting := h.waiting
    arranged := { h.arranged with } }⟩

theorem addNamed (h : s.Orderly c f) {a : NamedType} {id : TypeId} (ha : s.addNamed a = .ok (id, t))
    (hw : a.Regular) : ∃ f, t.Orderly c f := by
  have hj := h.toJournal.addNamed hw ha
  obtain ⟨-, -, rfl⟩ := addNamed_ok ha
  refine ⟨_, { hj with
    storedArranged := h.storedArranged
    waiting := h.waiting
    arranged := { h.arranged with ordinals := ?_ } }⟩
  intro i r hr
  rcases List.mem_append.mp hr with hr | hr
  · exact h.arranged.ordinals i r hr
  · cases List.mem_singleton.mp hr
    exact hw.elim

theorem addTuple (h : s.Orderly c f) {name : String} {es : List NewElement} {id : TypeId}
    (ha : s.addTuple name es = .ok (id, t)) : ∃ f, t.Orderly c f := by
  have hj := h.toJournal.addTuple ha
  obtain ⟨-, -, rfl, rfl⟩ := addTuple_ok ha
  refine ⟨_, { hj with
    storedArranged := h.storedArranged
    waiting := h.waiting
    arranged := { h.arranged with ordinals := ?_ } }⟩
  intro i r hr
  rw [filter_addTuple h.regular]
  rcases List.mem_append.mp hr with hr | hr
  · rw [if_neg, h.arranged.ordinals i r hr]
    rintro rfl
    have hle := h.regular.named.value_le_length (List.mem_map_of_mem hr)
    dsimp only at hle
    omega
  · cases List.mem_singleton.mp hr
    rw [if_pos rfl, map_ordinal_numberedElements, List.length_map, length_numberedElements,
      List.range_eq_range']

theorem extendExternal (h : s.Orderly c f) {id : TypeId} {names : List String} {n : Nat}
    (he : s.extendExternal id names = .ok (n, t)) : ∃ f, t.Orderly c f := by
  obtain ⟨x, hx, hj, -⟩ := h.toJournal.extendExternal he
  refine ⟨_, { hj with
    storedArranged := h.storedArranged
    arranged := { h.arranged with ordinals := ?_ }
    waiting := ?_ }⟩
  · intro i r hr
    rcases mem_replaceRow.mp hr with ⟨-, hr⟩ | ⟨heq, -⟩
    · exact h.arranged.ordinals i r hr
    · cases heq
  · obtain ⟨y, hy, -, rfl⟩ := extendExternal_ok he
    dsimp only
    split
    · exact h.waiting
    · refine List.nodup_append.mpr ⟨h.waiting, nodup_unseen.map fun _ _ heq => (Prod.mk.inj heq).2, ?_⟩
      rintro q hq _ hadded rfl
      obtain ⟨m, hm, rfl⟩ := List.mem_map.mp hadded
      exact mem_unseen hm (h.mem_waiting hy hq)

theorem addReference (h : s.Orderly c f) {named : TypeId} {rank : Nat} {parent : Option ReferenceId}
    {id : ReferenceId} (ha : s.addReference named rank parent = .ok (id, t)) : ∃ f, t.Orderly c f := by
  have hj := h.toJournal.addReference ha
  obtain ⟨-, -, rfl⟩ := addReference_ok ha
  exact ⟨_, { hj with
    storedArranged := h.storedArranged
    waiting := h.waiting
    arranged := { h.arranged with } }⟩

theorem addUsage (h : s.Orderly c f) {owner : TypeId} {reference : ReferenceId} {role : Role}
    {member : Option String} {id : UsageId} (ha : s.addUsage owner reference role member = .ok (id, t)) :
    ∃ f, t.Orderly c f := by
  have hj := h.toJournal.addUsage ha
  obtain ⟨-, -, rfl⟩ := addUsage_ok ha
  exact ⟨_, { hj with
    storedArranged := h.storedArranged
    waiting := h.waiting
    arranged := { h.arranged with } }⟩

theorem ensureParameters (h : s.Orderly c f) {id : TypeId} {ps : List TypeParameter}
    (he : s.ensureParameters id = .ok (ps, t)) : ∃ f, t.Orderly c f := by
  obtain ⟨rows, hj, hrows⟩ := h.toJournal.ensureParameters he
  have hpending : t.pending = s.pending := by
    obtain ⟨d, -, ⟨-, rfl⟩ | ⟨-, -, -, rfl⟩⟩ := ensureParameters_ok he <;> rfl
  exact ⟨_, { hj with
    storedArranged := h.storedArranged
    waiting := hpending ▸ h.waiting
    arranged := { h.arranged with ordinals := fun i r hr => h.arranged.ordinals i r (hrows i r hr) } }⟩

theorem save (h : s.Orderly c f) {n : Nat} (hs : s.save = .ok (n, t)) : t.Orderly f f := by
  have hwaiting : t.pending.externalNamespaces.Nodup := by
    obtain ⟨-, rfl⟩ | ⟨-, rfl⟩ | ⟨store, changes, database, -, -, -, -, rfl⟩ := save_ok hs
    · exact h.waiting
    · exact .nil
    · exact .nil
  exact { h.toJournal.save hs with
    storedArranged := h.arranged
    arranged := h.arranged
    waiting := hwaiting }

theorem withGlobal (h : s.Orderly c f) (hg : s.withGlobal = .ok t) : t.Rooted ∧ ∃ c f, t.Orderly c f := by
  obtain ⟨hroot, id, u, hu, rfl⟩ := withGlobal_ok hg
  obtain ⟨g, hg⟩ := h.ensureNamespace hu
  exact ⟨hroot, c, g, { hg with }⟩

end Orderly

/-- One of the operations that change a session, on whatever it is given. -/
inductive Mutates (s t : Session) : Prop
  | ensureNamespace {name : String} {id : NamespaceId} (h : s.ensureNamespace name = .ok (id, t))
  | addSourceFile {path : Path} {usings : List NamespaceId} {id : FileId}
      (h : s.addSourceFile path usings = .ok (id, t))
  | addDocumented {d : Documented} {id : TypeId} (h : s.addDocumented d = .ok (id, t))
  | addExternal {name : String} {arity : Nat} {namespaces : NameSet} {id : TypeId}
      (hn : namespaces.Ascending) (h : s.addExternal name arity namespaces = .ok (id, t))
  | extendExternal {id : TypeId} {names : List String} {n : Nat} (h : s.extendExternal id names = .ok (n, t))
  | addParameter {declaring : TypeId} {index : Nat} {name : String} {id : TypeId}
      (h : s.addParameter declaring index name = .ok (id, t))
  | addTuple {name : String} {elements : List NewElement} {id : TypeId}
      (h : s.addTuple name elements = .ok (id, t))
  | addReference {named : TypeId} {rank : Nat} {parent : Option ReferenceId} {id : ReferenceId}
      (h : s.addReference named rank parent = .ok (id, t))
  | addUsage {owner : TypeId} {reference : ReferenceId} {role : Role} {member : Option String} {id : UsageId}
      (h : s.addUsage owner reference role member = .ok (id, t))
  | ensureParameters {id : TypeId} {ps : List TypeParameter} (h : s.ensureParameters id = .ok (ps, t))
  | save {n : Nat} (h : s.save = .ok (n, t))

theorem Mutates.grows (h : s.Mutates t) (hs : s.Numbered) : s.Grows t := by
  cases h with
  | ensureNamespace h => exact grows_ensureNamespace h
  | addSourceFile h => exact grows_addSourceFile h
  | addDocumented h => exact grows_addNamed h
  | addExternal _ h => exact grows_addNamed h
  | extendExternal h => exact grows_extendExternal hs h
  | addParameter h => exact grows_addNamed h
  | addTuple h => exact grows_addTuple h
  | addReference h => exact grows_addReference h
  | addUsage h => exact grows_addUsage h
  | ensureParameters h => exact grows_ensureParameters hs h
  | save h => exact grows_save h

theorem Orderly.mutate (hs : s.Orderly c f) (h : s.Mutates t) : ∃ c f, t.Orderly c f := by
  cases h with
  | ensureNamespace h => exact ⟨c, hs.ensureNamespace h⟩
  | addSourceFile h => exact ⟨c, hs.addSourceFile h⟩
  | addDocumented h => exact ⟨c, hs.addNamed h trivial⟩
  | addExternal hn h => exact ⟨c, hs.addNamed h hn⟩
  | extendExternal h => exact ⟨c, hs.extendExternal h⟩
  | addParameter h => exact ⟨c, hs.addNamed h trivial⟩
  | addTuple h => exact ⟨c, hs.addTuple h⟩
  | addReference h => exact ⟨c, hs.addReference h⟩
  | addUsage h => exact ⟨c, hs.addUsage h⟩
  | ensureParameters h => exact ⟨c, hs.ensureParameters h⟩
  | save h => exact ⟨f, f, hs.save h⟩

/-- A session in memory or over a new store, after any operations and after opening again what was stored. -/
inductive Arises : Session → Prop
  | inMemory {s : Session} (h : inMemory = .ok s) : Arises s
  | create {s : Session} {path : Option Path} {readOnly : Bool}
      (h : openStore { database := {}, path, readOnly } = .ok s) : Arises s
  | mutate {s t : Session} (hs : Arises s) (h : s.Mutates t) : Arises t
  | reopen {s t : Session} {store : Store} {path : Option Path} {readOnly : Bool} (hs : Arises s)
      (hstore : s.store = some store) (ho : openStore { store with path, readOnly } = .ok t) : Arises t

theorem orderly_openStore {store : Store} (hh : store.database.Holds c) (hs : c.Regular)
    (hl : store.database.Linked) (hc : c.Arranged) (h : openStore store = .ok t) :
    t.Rooted ∧ ∃ c f, t.Orderly c f := by
  obtain ⟨hb, hg⟩ := (openStore_iff hh hs hl).mp h
  have hopened : (opened store c).Orderly c c :=
    { journal_opened hh hs hl hb with storedArranged := hc, arranged := hc, waiting := .nil }
  exact hopened.withGlobal hg

theorem Arises.orderly (h : s.Arises) : s.Rooted ∧ ∃ c f, s.Orderly c f := by
  induction h with
  | inMemory h =>
    have hempty : Orderly { store := none } {} {} :=
      { ledger_empty.toJournal with
        storedArranged := Contents.arranged_empty
        arranged := Contents.arranged_empty
        waiting := .nil }
    exact hempty.withGlobal h
  | create h =>
    exact orderly_openStore holds_empty.1 holds_empty.2.1.toRegular holds_empty.2.2 Contents.arranged_empty h
  | mutate _ h ih =>
    obtain ⟨hroot, c, f, hs⟩ := ih
    exact ⟨hroot.of_grows (h.grows hs.toJournal.numbered), hs.mutate h⟩
  | @reopen s t store path readOnly _ hstore ho ih =>
    obtain ⟨-, c, f, hs⟩ := ih
    obtain ⟨hholds, hlinked⟩ := hs.holds store hstore
    have hholds : ({ store with path, readOnly } : Store).database.Holds c := hholds
    exact orderly_openStore hholds hs.storedRegular hlinked hs.storedArranged ho

/-- A look-up of ids: those with some property, oldest first. -/
def Enumerates (ids : List TypeId) (p : TypeId → Prop) : Prop :=
  ids.Pairwise (fun i j => i.value < j.value) ∧ ∀ i, i ∈ ids ↔ p i

/-- What waits to be stored is there, once. Namespaces wait only for external types that do not wait
themselves. -/
structure Awaited (s : Session) : Prop where
  namespaces : s.pending.namespaces.Nodup ∧ ∀ i ∈ s.pending.namespaces, ∃ n, s.namespace? i = some n
  files : s.pending.files.Nodup ∧ ∀ i ∈ s.pending.files, ∃ f, s.sourceFile? i = some f
  named : s.pending.named.Nodup ∧ ∀ i ∈ s.pending.named, ∃ a, s.named? i = some a
  elements : s.pending.elements.Nodup ∧ ∀ i ∈ s.pending.elements, ∃ e, s.element? i = some e
  references : s.pending.references.Nodup ∧ ∀ i ∈ s.pending.references, ∃ r, s.reference? i = some r
  usages : s.pending.usages.Nodup ∧ ∀ i ∈ s.pending.usages, ∃ u, s.usages.find? (·.id == i) = some u
  external : s.pending.externalNamespaces.Nodup ∧ ∀ q ∈ s.pending.externalNamespaces,
    q.1 ∉ s.pending.named ∧ ∃ x, s.named? q.1 = some (.external x) ∧ q.2 ∈ x.namespaces.names

/-- The tables, look-ups, counters and pending changes of a session fit together. -/
structure Integral (s : Session) : Prop where
  numbered : s.Numbered
  namespaces : ∀ name id, s.findNamespace name = some id ↔ ∃ n, s.namespace? id = some n ∧ n.name = name
  root : s.findNamespace "" = some s.globalNamespace
  parent : ∀ id n, s.namespace? id = some n → n.name ≠ "" → ∃ i p, n.parent = some i ∧
    s.namespace? i = some p ∧ p.name = (Dotted.outer? n.name).getD "" ∧ i.value < id.value
  documented : ∀ fullName arity id, s.findDocumented fullName arity = some id ↔
    (∃ d, s.named? id = some (.documented d) ∧ d.fullName = fullName ∧ d.arity = arity) ∧
      ∀ j d, s.named? j = some (.documented d) → d.fullName = fullName → d.arity = arity → id.value ≤ j.value
  external : ∀ name arity, Enumerates (s.externalCandidates name arity) fun id =>
    ∃ x, s.named? id = some (.external x) ∧ x.name = name ∧ x.arity = arity
  tuples : ∀ count, Enumerates (s.tupleCandidates count) fun id =>
    ∃ r, s.named? id = some (.tuple r) ∧ r.elements.length = count
  elements : ∀ id r, s.named? id = some (.tuple r) → ∃ es, s.tupleElements id = .ok es ∧
    es.map (·.id) = r.elements ∧ (∀ e ∈ es, e.tuple = id) ∧ es.map (·.ordinal) = List.range r.elements.length
  awaited : s.Awaited

theorem find?_fst_iff {rows : List (TypeId × NamedType)}
    (hrows : (rows.map (·.1)).Pairwise fun i j => i.value < j.value) {p : TypeId × NamedType → Bool} {id : TypeId} :
    (rows.find? p).map (·.1) = some id ↔
      (∃ a, (id, a) ∈ rows ∧ p (id, a)) ∧ ∀ j a, (j, a) ∈ rows → p (j, a) → id.value ≤ j.value := by
  -- the ids ascend, so the first row with the property has the least id
  induction rows with
  | nil => simp
  | cons r rows ih =>
    rw [List.map_cons, List.pairwise_cons] at hrows
    have hlt {j : TypeId} {a : NamedType} (hj : (j, a) ∈ rows) : r.1.value < j.value :=
      hrows.1 j (List.mem_map_of_mem (f := (·.1)) hj)
    by_cases hp : p r = true
    · rw [List.find?_cons_of_pos hp, Option.map_some, Option.some.injEq]
      constructor
      · rintro rfl
        refine ⟨⟨r.2, List.mem_cons_self, hp⟩, ?_⟩
        intro j a hj _
        rcases List.mem_cons.mp hj with rfl | hj
        · exact Nat.le_refl _
        · exact Nat.le_of_lt (hlt hj)
      · rintro ⟨⟨a, ha, -⟩, hleast⟩
        rcases List.mem_cons.mp ha with rfl | ha
        · rfl
        · exact absurd (hleast r.1 r.2 List.mem_cons_self hp) (Nat.not_le.mpr (hlt ha))
    · have hne {j : TypeId} {a : NamedType} (hj : p (j, a) = true) : (j, a) ≠ r := by
        rintro rfl
        exact hp hj
      rw [List.find?_cons_of_neg hp, ih hrows.2]
      constructor
      · rintro ⟨⟨a, ha, hpa⟩, hleast⟩
        exact ⟨⟨a, List.mem_cons_of_mem _ ha, hpa⟩, fun j b hj hpb =>
          hleast j b ((List.mem_cons.mp hj).resolve_left (hne hpb)) hpb⟩
      · rintro ⟨⟨a, ha, hpa⟩, hleast⟩
        exact ⟨⟨a, (List.mem_cons.mp ha).resolve_left (hne hpa), hpa⟩, fun j b hj hpb =>
          hleast j b (List.mem_cons_of_mem _ hj) hpb⟩

theorem enumerates_filter {rows : List (TypeId × NamedType)}
    (hrows : (rows.map (·.1)).Pairwise fun i j => i.value < j.value) {p : TypeId × NamedType → Bool}
    {q : TypeId → Prop} (hq : ∀ i, q i ↔ ∃ a, (i, a) ∈ rows ∧ p (i, a)) : Enumerates ((rows.filter p).map (·.1)) q := by
  constructor
  · exact hrows.sublist (List.filter_sublist.map _)
  · intro i
    rw [hq, List.mem_map]
    constructor
    · rintro ⟨⟨j, a⟩, ha, rfl⟩
      exact ⟨a, List.mem_filter.mp ha⟩
    · rintro ⟨a, ha, hp⟩
      exact ⟨(i, a), List.mem_filter.mpr ⟨ha, hp⟩, rfl⟩

theorem awaited_rows {α : Type} {e : Entity} {id : α → RowId e} {stored new all shown : List α}
    (hall : Counted (all.map id)) (hnew : all = stored ++ new)
    (hfind : ∀ a ∈ new, shown.find? (id · == id a) = some a) :
    (new.map id).Nodup ∧ ∀ i ∈ new.map id, ∃ a, shown.find? (id · == i) = some a := by
  constructor
  · have hn := hall.nodup
    rw [hnew, List.map_append] at hn
    exact (List.nodup_append.mp hn).2.1
  · intro i hi
    obtain ⟨a, ha, rfl⟩ := List.mem_map.mp hi
    exact ⟨a, hfind a ha⟩

theorem Orderly.awaited (h : s.Orderly c f) : s.Awaited := by
  obtain ⟨ns, hns, hnsp⟩ := h.pending.namespaces
  obtain ⟨fs, hfs, hfsp⟩ := h.pending.files
  obtain ⟨old, ts, hts, htsp, hold⟩ := h.pending.named
  obtain ⟨es, hes, hesp⟩ := h.pending.elements
  obtain ⟨rs, hrs, hrsp⟩ := h.pending.references
  obtain ⟨us, hus, husp⟩ := h.pending.usages
  have hnodup := h.regular.named.nodup
  rw [hts, List.map_append, List.nodup_append] at hnodup
  constructor
  case namespaces =>
    have hfind := Journal.find?_waiting h.regular.namespaces hns
    rw [← h.namespaces] at hfind
    exact hnsp ▸ awaited_rows h.regular.namespaces hns hfind
  case files =>
    have hfind := Journal.find?_waiting h.regular.files hfs
    rw [← h.files] at hfind
    exact hfsp ▸ awaited_rows h.regular.files hfs hfind
  case named =>
    rw [htsp]
    refine ⟨hnodup.2.1, ?_⟩
    intro i hi
    obtain ⟨r, hr, rfl⟩ := List.mem_map.mp hi
    exact ⟨r.2, h.named?_of_waiting (hts ▸ List.mem_append_right _ hr) (htsp ▸ hi)⟩
  case elements =>
    have hfind := Journal.find?_waiting h.regular.elements hes
    rw [← h.elements] at hfind
    exact hesp ▸ awaited_rows h.regular.elements hes hfind
  case references =>
    exact hrsp ▸ awaited_rows h.regular.references hrs (Journal.find?_resident h.regular.references hrs h.references)
  case usages =>
    exact husp ▸ awaited_rows h.regular.usages hus (Journal.find?_resident h.regular.usages hus h.usages)
  case external =>
    refine ⟨h.waiting, ?_⟩
    intro q hq
    obtain ⟨y, hy⟩ := h.pending.external q hq
    obtain ⟨b, hb, names, rfl, hnames⟩ := hold.mem hy
    constructor
    · rw [htsp]
      exact fun hmem => hnodup.2.2 q.1 (List.mem_map_of_mem (f := (·.1)) hb) q.1 hmem rfl
    · obtain ⟨b, hb', halike⟩ := h.rows.mem (hts ▸ List.mem_append_left _ hb)
      cases show b = _ from halike
      exact ⟨_, h.named?_eq.mpr hb', (hnames q.2).mpr (.inr hq)⟩

theorem Orderly.namespace?_iff (h : s.Orderly c f) {id : NamespaceId} {n : Namespace} :
    s.namespace? id = some n ↔ n ∈ f.namespaces ∧ n.id = id := by
  unfold namespace?
  rw [h.namespaces]
  constructor
  · intro hn
    exact ⟨List.mem_of_find?_eq_some hn, by simpa using List.find?_some hn⟩
  · rintro ⟨hn, rfl⟩
    exact find?_of_nodup h.regular.namespaces.nodup hn

theorem Orderly.integral (h : s.Orderly c f) (hroot : s.Rooted) : s.Integral := by
  have hnumbered := h.toJournal.numbered
  constructor
  case numbered => exact hnumbered
  case root => exact hroot
  case awaited => exact h.awaited
  case namespaces =>
    intro name id
    constructor
    · intro hfound
      obtain ⟨n, hn, rfl, rfl⟩ := mem_of_findNamespace hfound
      exact ⟨n, h.namespace?_iff.mpr ⟨h.namespaces ▸ hn, rfl⟩, rfl⟩
    · rintro ⟨n, hn, rfl⟩
      obtain ⟨hmem, rfl⟩ := h.namespace?_iff.mp hn
      have hnodup : (s.namespaces.map (·.name)).Nodup := h.namespaces ▸ h.arranged.names
      exact Option.map_eq_some_iff.mpr ⟨n, find?_of_nodup hnodup (h.namespaces ▸ hmem), rfl⟩
  case parent =>
    intro id n hn hne
    obtain ⟨hmem, rfl⟩ := h.namespace?_iff.mp hn
    obtain ⟨p, hp, hparent, hname, hlt⟩ := h.arranged.parent n hmem hne
    exact ⟨p.id, p, hparent, h.namespace?_iff.mpr ⟨hp, rfl⟩, hname, hlt⟩
  case documented =>
    intro fullName arity id
    refine (find?_fst_iff hnumbered.named.ascending).trans (and_congr ?_ ?_)
    · constructor
      · rintro ⟨a, ha, hp⟩
        cases a <;> simp [NamedType.documented?] at hp
        exact ⟨_, h.named?_eq.mpr ha, hp⟩
      · rintro ⟨d, hd, hp⟩
        exact ⟨_, h.named?_eq.mp hd, by simpa [NamedType.documented?] using hp⟩
    · constructor
      · intro hleast j d hd hname harity
        exact hleast j _ (h.named?_eq.mp hd) (by simp [NamedType.documented?, hname, harity])
      · intro hleast j a ha hp
        cases a <;> simp [NamedType.documented?] at hp
        exact hleast j _ (h.named?_eq.mpr ha) hp.1 hp.2
  case external =>
    intro name arity
    refine enumerates_filter hnumbered.named.ascending fun i => ?_
    constructor
    · rintro ⟨x, hx, hp⟩
      exact ⟨_, h.named?_eq.mp hx, by simpa [NamedType.external?] using hp⟩
    · rintro ⟨a, ha, hp⟩
      cases a <;> simp [NamedType.external?] at hp
      exact ⟨_, h.named?_eq.mpr ha, hp⟩
  case tuples =>
    intro count
    refine enumerates_filter hnumbered.named.ascending fun i => ?_
    constructor
    · rintro ⟨r, hr, hp⟩
      exact ⟨_, h.named?_eq.mp hr, by simpa [NamedType.tuple?] using hp⟩
    · rintro ⟨a, ha, hp⟩
      cases a <;> simp [NamedType.tuple?] at hp
      exact ⟨_, h.named?_eq.mpr ha, hp⟩
  case elements =>
    intro id r hr
    have hmem := h.tuple_mem hr
    refine ⟨_, h.tupleElements_ok hr, (h.regular.tuple id r hmem).symm, ?_, h.arranged.ordinals id r hmem⟩
    intro e he
    exact beq_iff_eq.mp (List.mem_filter.mp he).2

end Session

namespace Sample

def listed : Session := left ((opening {}).addExternal "List" 1 ⟨["A"]⟩)

/-- The database with `List` in it. -/
def shelved : Database := ((left listed.save).store.map (·.database)).getD {}

def spaced : Session := left ((opening shelved).ensureNamespace "A.B")

def widened : Session := left (spaced.extendExternal ⟨1⟩ ["A", "A.B"])

/-- The store was opened again, a namespace waits for `List`, and a tuple waits with its two elements. -/
def paired : Session := left (widened.addTuple "(List, List[])" [⟨"Item1", 0, ⟨1⟩⟩, ⟨"Item2", 1, ⟨1⟩⟩])

theorem arises_paired : paired.Arises := by
  have hopen : Session.openStore { database := {}, path := none, readOnly := false } = .ok (opening {}) := by
    decide +kernel
  have hlist : (opening {}).addExternal "List" 1 ⟨["A"]⟩ = .ok (⟨1⟩, listed) := by decide +kernel
  have hsave : listed.save = .ok (2, left listed.save) := by decide +kernel
  have hstore : (left listed.save).store = some { database := shelved, path := none } := by decide +kernel
  have hreopen : Session.openStore { database := shelved, path := none, readOnly := false } =
      .ok (opening shelved) := by
    decide +kernel
  have hspace : (opening shelved).ensureNamespace "A.B" = .ok (⟨3⟩, spaced) := by decide +kernel
  have hwiden : spaced.extendExternal ⟨1⟩ ["A", "A.B"] = .ok (1, widened) := by decide +kernel
  have hpair : widened.addTuple "(List, List[])" [⟨"Item1", 0, ⟨1⟩⟩, ⟨"Item2", 1, ⟨1⟩⟩] = .ok (⟨2⟩, paired) := by
    decide +kernel
  have hlisted := (Session.Arises.create hopen).mutate (.addExternal (List.pairwise_singleton _ _) hlist)
  have hreopened := (hlisted.mutate (.save hsave)).reopen hstore hreopen
  have hwidened := (hreopened.mutate (.ensureNamespace hspace)).mutate (.extendExternal hwiden)
  exact hwidened.mutate (.addTuple hpair)

end Sample

end TypeCatalog
