import Mathlib.Control.Monad.Basic
import TypeCatalog.Proofs.Opening

namespace TypeCatalog

/-- A stored declaration stays as it is. -/
theorem Pending.Completes.documented_mem {p : Pending} {c f : Contents} (h : p.Completes c f) {id : TypeId}
    {d : Documented} (hd : (id, .documented d) ∈ c.named) : (id, .documented d) ∈ f.named := by
  obtain ⟨old, new, hall, -, hold⟩ := h.named
  obtain ⟨b, hb, haw⟩ := hold.mem hd
  have haw : b = .documented d := haw
  rw [hall, ← haw]
  exact List.mem_append_left _ hb

namespace Session

/-- What the operations of a session do, other than the declaration of a type. Names in a set ascend and
numbers have 32 bits. -/
inductive Operates (s t : Session) : Prop where
  | ensureNamespace {name : String} {id : NamespaceId} (h : s.ensureNamespace name = .ok (id, t))
  | addSourceFile {path : Path} {usings : List NamespaceId} {id : FileId}
      (h : s.addSourceFile path usings = .ok (id, t))
  | addExternal {name : String} {arity : Nat} {names : NameSet} {id : TypeId}
      (hn : arity ≤ RowId.largest) (hnames : names.Ascending) (h : s.addExternal name arity names = .ok (id, t))
  | extendExternal {id : TypeId} {names : List String} {n : Nat} (h : s.extendExternal id names = .ok (n, t))
  | addParameter {declaring : TypeId} {index : Nat} {name : String} {id : TypeId}
      (hn : index ≤ RowId.largest) (h : s.addParameter declaring index name = .ok (id, t))
  | addTuple {name : String} {elements : List NewElement} {id : TypeId}
      (hn : ∀ e ∈ elements, e.rank ≤ RowId.largest) (h : s.addTuple name elements = .ok (id, t))
  | addReference {named : TypeId} {rank : Nat} {parent : Option ReferenceId} {id : ReferenceId}
      (hn : rank ≤ RowId.largest) (h : s.addReference named rank parent = .ok (id, t))
  | addUsage {owner : TypeId} {reference : ReferenceId} {role : Role} {member : Option String} {id : UsageId}
      (h : s.addUsage owner reference role member = .ok (id, t))
  | ensureParameters {id : TypeId} {ps : List TypeParameter} (h : s.ensureParameters id = .ok (ps, t))
  | save {n : Nat} (h : s.save = .ok (n, t))

/-- Sessions over a store, with the type parameters that each documented type was added with. What was
not saved is lost when the store is opened again. -/
inductive Reached : Session → List (TypeId × List TypeParameter) → Prop where
  | new {path : Option Path} {readOnly : Bool} {s : Session}
      (h : openStore { database := {}, path, readOnly } = .ok s) : Reached s []
  | declare {s t : Session} {declared : List (TypeId × List TypeParameter)} {d : Documented}
      {ps : List TypeParameter} {id : TypeId} (hs : Reached s declared) (hps : d.parameters = some ps)
      (hord : ps.map (·.ordinal) = List.range d.arity) (hn : d.arity ≤ RowId.largest)
      (h : s.addDocumented d = .ok (id, t)) : Reached t (declared ++ [(id, ps)])
  | operate {s t : Session} {declared : List (TypeId × List TypeParameter)} (hs : Reached s declared)
      (h : s.Operates t) : Reached t declared
  | reopen {s t : Session} {declared : List (TypeId × List TypeParameter)} {store : Store} {path : Option Path}
      {readOnly : Bool} (hs : Reached s declared) (hstore : s.store = some store)
      (h : openStore { store with path, readOnly } = .ok t) :
      Reached t (declared.filter fun r => t.isDocumented r.1)

/-- What holds of every session over a store. -/
structure Kept (s : Session) (declared : List (TypeId × List TypeParameter)) (stored all : Contents) : Prop
    extends Ledger s stored all where
  rooted : s.Rooted
  bounded : all.Bounded
  ranks : ∀ r ∈ all.references, r.rank ≤ RowId.largest
  declared : ∀ id ps, (id, ps) ∈ declared ↔ ∃ d, (id, .documented d) ∈ all.named ∧ d.parameters = some ps

namespace Kept

variable {s t : Session} {declared : List (TypeId × List TypeParameter)} {c f : Contents}

theorem bounded_concat {rows : List (TypeId × NamedType)} (h : ∀ r ∈ rows, r.2.number ≤ RowId.largest)
    {id : TypeId} {a : NamedType} (ha : a.number ≤ RowId.largest) :
    ∀ r ∈ rows ++ [(id, a)], r.2.number ≤ RowId.largest := by
  intro r hr
  rcases List.mem_append.mp hr with hr | hr
  · exact h r hr
  · cases List.mem_singleton.mp hr
    exact ha

/-- Other kinds of named types do not count as declarations. -/
theorem declared_concat {rows : List (TypeId × NamedType)} {id : TypeId} {a : NamedType}
    (ha : a.documented? = none)
    (h : ∀ i ps, (i, ps) ∈ declared ↔ ∃ d, (i, .documented d) ∈ rows ∧ d.parameters = some ps) :
    ∀ i ps, (i, ps) ∈ declared ↔
      ∃ d, (i, NamedType.documented d) ∈ rows ++ [(id, a)] ∧ d.parameters = some ps := by
  intro i ps
  rw [h]
  refine exists_congr fun d => and_congr_left fun _ => ?_
  rw [List.mem_append, List.mem_singleton]
  constructor
  · exact .inl
  · rintro (hd | hd)
    · exact hd
    · cases hd
      cases ha

theorem addNamed (h : s.Kept declared c f) {a : NamedType} {id : TypeId} (ha : s.addNamed a = .ok (id, t))
    (hw : a.WellFormed) (hn : a.number ≤ RowId.largest) (hd : a.documented? = none) :
    ∃ f, t.Kept declared c f :=
  ⟨_, { h.toLedger.addNamed hw ha with
    rooted := h.rooted.of_grows (grows_addNamed ha)
    bounded := { h.bounded with named := bounded_concat h.bounded.named hn }
    ranks := h.ranks
    declared := declared_concat hd h.declared }⟩

theorem addDocumented (h : s.Kept declared c f) {d : Documented} {ps : List TypeParameter} {id : TypeId}
    (hps : d.parameters = some ps) (hord : ps.map (·.ordinal) = List.range d.arity)
    (hn : d.arity ≤ RowId.largest) (ha : s.addDocumented d = .ok (id, t)) :
    ∃ f, t.Kept (declared ++ [(id, ps)]) c f := by
  have hid : id = ⟨f.named.length + 1⟩ := by
    rw [← h.namedIds]
    exact (addNamed_ok ha).2.1
  subst hid
  refine ⟨_, { h.toLedger.addNamed (a := .documented d) ⟨ps, hps, hord⟩ ha with
    rooted := h.rooted.of_grows (grows_addNamed ha)
    bounded := { h.bounded with named := bounded_concat h.bounded.named hn }
    ranks := h.ranks
    declared := ?_ }⟩
  intro i qs
  rw [List.mem_append, h.declared, List.mem_singleton]
  constructor
  · rintro (⟨e, he, heq⟩ | heq)
    · exact ⟨e, List.mem_append_left _ he, heq⟩
    · cases heq
      exact ⟨d, List.mem_append_right _ List.mem_cons_self, hps⟩
  · rintro ⟨e, he, heq⟩
    rcases List.mem_append.mp he with he | he
    · exact .inl ⟨e, he, heq⟩
    · cases List.mem_singleton.mp he
      rw [hps] at heq
      cases heq
      exact .inr rfl

theorem extendExternal (h : s.Kept declared c f) {id : TypeId} {names : List String} {n : Nat}
    (ha : s.extendExternal id names = .ok (n, t)) : ∃ f, t.Kept declared c f := by
  obtain ⟨x, hx, hl⟩ := h.toLedger.extendExternal ha
  have hmem := h.toLedger.external_mem hx
  refine ⟨_, { hl with
    rooted := h.rooted.of_grows (grows_extendExternal h.toLedger.numbered ha)
    bounded := { h.bounded with named := ?_ }
    ranks := h.ranks
    declared := ?_ }⟩
  · intro r hr
    rcases mem_replaceRow.mp hr with ⟨-, hr⟩ | ⟨rfl, -⟩
    · exact h.bounded.named r hr
    · have hx := h.bounded.named _ hmem
      exact hx
  · intro i ps
    rw [h.declared]
    refine exists_congr fun d => and_congr_left fun _ => ?_
    rw [mem_replaceRow]
    constructor
    · intro hd
      refine .inl ⟨?_, hd⟩
      rintro rfl
      cases h.sound.named.unique hd hmem
    · rintro (⟨-, hd⟩ | ⟨heq, -⟩)
      · exact hd
      · cases heq

theorem addTuple (h : s.Kept declared c f) {name : String} {es : List NewElement} {id : TypeId}
    (hn : ∀ e ∈ es, e.rank ≤ RowId.largest) (ha : s.addTuple name es = .ok (id, t)) : ∃ f, t.Kept declared c f := by
  have hl := h.toLedger.addTuple ha
  have hlen : ∀ n, (numberedElements ⟨f.named.length + 1⟩ n 0 es).length = es.length :=
    fun n => length_numberedElements
  have hroom := hl.sound.elements.room
  rw [List.length_map, List.length_append, hlen] at hroom
  refine ⟨_, { hl with
    rooted := h.rooted.of_grows (grows_addTuple ha)
    bounded := { named := bounded_concat h.bounded.named ?_, elements := ?_ }
    ranks := h.ranks
    declared := declared_concat rfl h.declared }⟩
  · show (List.map _ _).length ≤ _
    rw [List.length_map, hlen]
    omega
  · intro e he
    rcases List.mem_append.mp he with he | he
    · exact h.bounded.elements e he
    · obtain ⟨-, -, hlt, d, hd, hrank, -⟩ := mem_numberedElements he
      rw [hrank]
      exact ⟨by omega, hn d hd⟩

theorem addReference (h : s.Kept declared c f) {named : TypeId} {rank : Nat} {parent : Option ReferenceId}
    {id : ReferenceId} (hn : rank ≤ RowId.largest) (ha : s.addReference named rank parent = .ok (id, t)) :
    ∃ f, t.Kept declared c f := by
  refine ⟨_, { h.toLedger.addReference ha with
    rooted := h.rooted.of_grows (grows_addReference ha)
    bounded := { h.bounded with }
    ranks := ?_
    declared := h.declared }⟩
  intro r hr
  rcases List.mem_append.mp hr with hr | hr
  · exact h.ranks r hr
  · cases List.mem_singleton.mp hr
    exact hn

theorem operates (h : s.Kept declared c f) (ho : s.Operates t) : ∃ c f, t.Kept declared c f := by
  cases ho with
  | ensureNamespace ha =>
    obtain ⟨ns, hl⟩ := h.toLedger.ensureNamespace ha
    exact ⟨c, _, { hl with
      rooted := h.rooted.of_grows (grows_ensureNamespace ha)
      bounded := { h.bounded with }
      ranks := h.ranks
      declared := h.declared }⟩
  | addSourceFile ha =>
    exact ⟨c, _, { h.toLedger.addSourceFile ha with
      rooted := h.rooted.of_grows (grows_addSourceFile ha)
      bounded := { h.bounded with }
      ranks := h.ranks
      declared := h.declared }⟩
  | addExternal hn hnames ha => exact ⟨c, h.addNamed ha hnames hn rfl⟩
  | addParameter hn ha => exact ⟨c, h.addNamed ha trivial hn rfl⟩
  | extendExternal ha => exact ⟨c, h.extendExternal ha⟩
  | addTuple hn ha => exact ⟨c, h.addTuple hn ha⟩
  | addReference hn ha => exact ⟨c, h.addReference hn ha⟩
  | addUsage ha =>
    exact ⟨c, _, { h.toLedger.addUsage ha with
      rooted := h.rooted.of_grows (grows_addUsage ha)
      bounded := { h.bounded with }
      ranks := h.ranks
      declared := h.declared }⟩
  | ensureParameters ha =>
    obtain ⟨d, hd, -⟩ := ensureParameters_ok ha
    obtain ⟨qs, u, hu, hl, -⟩ := h.toLedger.ensureParameters hd
    rw [hu] at ha
    cases ha
    exact ⟨c, f, { hl with
      rooted := h.rooted.of_grows (grows_ensureParameters h.toLedger.numbered hu)
      bounded := h.bounded
      ranks := h.ranks
      declared := h.declared }⟩
  | save ha =>
    exact ⟨f, f, { h.toLedger.save ha with
      rooted := h.rooted.of_grows (grows_save ha)
      bounded := h.bounded
      ranks := h.ranks
      declared := h.declared }⟩

/-- A store that is opened again shows what was saved. -/
theorem reopen (h : s.Kept declared c f) {store : Store} (hstore : s.store = some store)
    {path : Option Path} {readOnly : Bool} (ho : openStore { store with path, readOnly } = .ok t) :
    ∃ f, t.Kept (declared.filter fun r => t.isDocumented r.1) c f := by
  obtain ⟨hb, hroot, ns, hl⟩ := h.toLedger.reopen hstore ho
  refine ⟨_, { hl with
    rooted := hroot
    bounded := { hb with }
    ranks := ?_
    declared := ?_ }⟩
  · intro r hr
    apply h.ranks
    obtain ⟨new, hall, -⟩ := h.pending.references
    rw [hall]
    exact List.mem_append_left _ hr
  · intro i ps
    rw [List.mem_filter, h.declared]
    constructor
    · rintro ⟨⟨d, hd, hps⟩, hdoc⟩
      obtain ⟨e, he⟩ := hl.isDocumented_iff.mp hdoc
      have heq := h.sound.named.unique hd (h.pending.documented_mem he)
      cases heq
      exact ⟨d, he, hps⟩
    · rintro ⟨d, hd, hps⟩
      exact ⟨⟨d, h.pending.documented_mem hd, hps⟩, hl.isDocumented_iff.mpr ⟨d, hd⟩⟩

end Kept

theorem Reached.kept {s : Session} {declared : List (TypeId × List TypeParameter)} (h : Reached s declared) :
    ∃ c f, s.Kept declared c f := by
  induction h with
  | @new path readOnly s h =>
    have hholds : ({ database := {}, path, readOnly } : Store).database.Holds {} := holds_empty.1
    obtain ⟨hb, hroot, ns, hl⟩ := ledger_openStore hholds holds_empty.2.1 holds_empty.2.2 h
    exact ⟨_, _, { hl with
      rooted := hroot
      bounded := { hb with }
      ranks := by simp
      declared := by simp }⟩
  | declare _ hps hord hn h ih =>
    obtain ⟨c, f, hk⟩ := ih
    exact ⟨c, hk.addDocumented hps hord hn h⟩
  | operate _ h ih =>
    obtain ⟨c, f, hk⟩ := ih
    exact hk.operates h
  | reopen _ hstore h ih =>
    obtain ⟨c, f, hk⟩ := ih
    exact ⟨c, hk.reopen hstore h⟩

/-- A session as it is when its store is opened after a save: type parameters are not loaded and no
references and usages are here. -/
def readBack (s : Session) : Session :=
  { s with
    named := s.named.map fun r => (r.1, r.2.unloaded)
    references := []
    usages := []
    pending := {} }

theorem unloaded_unloaded (a : NamedType) : a.unloaded.unloaded = a.unloaded := by cases a <;> rfl

/-- Rows are read back the same whether or not their type parameters were loaded. -/
theorem map_unloaded_of_shown {rows later : List (TypeId × NamedType)}
    (h : RowsBecome (fun _ => NamedType.Shown) (fun _ => False) rows later) :
    (later.map fun r => (r.1, r.2.unloaded)) = rows.map fun r => (r.1, r.2.unloaded) := by
  induction h with
  | nil hnew => exact congrArg _ (List.eq_nil_iff_forall_not_mem.mpr hnew)
  | cons hshown _ ih =>
    rw [List.map_cons, List.map_cons, ih]
    rcases hshown with rfl | ⟨rfl, -⟩
    · rfl
    · dsimp only
      rw [unloaded_unloaded]

theorem Ledger.opened_eq {s : Session} {f : Contents} (h : s.Ledger f f) (hp : s.pending = {})
    {store : Store} (hstore : s.store = some store) :
    { opened store f with globalNamespace := s.globalNamespace } = s.readBack := by
  obtain ⟨store', ns, g, fs, ts, es, rs, us, p, ⟨ni⟩, ⟨fi⟩, ⟨ti⟩, ⟨ei⟩, ⟨ri⟩, ⟨ui⟩⟩ := s
  cases hp
  cases hstore
  cases h.namespaces
  cases h.files
  cases h.elements
  cases h.namespaceIds
  cases h.fileIds
  cases h.namedIds
  cases h.elementIds
  cases h.referenceIds
  cases h.usageIds
  have hnamed := map_unloaded_of_shown h.named
  unfold opened readBack
  dsimp only at hnamed ⊢
  rw [hnamed]

/-- The children of a resident reference are resident: they are not older than their parent. -/
theorem Ledger.referenceChildren_eq {s : Session} {c f : Contents} (h : s.Ledger c f) (hl : f.Linked)
    {r : Reference} (hr : r ∈ s.references) :
    f.references.filter (·.parent == some r.id) = s.referenceChildren r.id := by
  obtain ⟨older, -, hall⟩ := h.references
  have holder : older.filter (·.parent == some r.id) = [] := by
    rw [List.filter_eq_nil_iff]
    intro q hq hparent
    have hle := ((hl.reference q (hall ▸ List.mem_append_left _ hq)).2 r.id (by simpa using hparent)).2
    have hlt := h.sound.references.ascending
    rw [hall, List.map_append, List.pairwise_append] at hlt
    have hlt := hlt.2.2 q.id (List.mem_map_of_mem hq) r.id (List.mem_map_of_mem hr)
    omega
  rw [hall, List.filter_append, holder]
  rfl

theorem pending_of_save {s t : Session} {n : Nat} (h : s.save = .ok (n, t)) : t.pending = {} := by
  obtain ⟨hp, rfl⟩ | ⟨-, rfl⟩ | ⟨store, changes, database, -, -, -, -, rfl⟩ := save_ok h
  · exact Pending.eq_empty hp
  · rfl
  · rfl

section

variable {rows : List (TypeId × NamedType)} {p : NamedType → Bool}

/-- A look-up that does not depend on type parameters finds the same before and after they are loaded. -/
theorem find?_unloaded (hp : ∀ a : NamedType, p a.unloaded = p a) :
    ((rows.map fun r => (r.1, r.2.unloaded)).find? fun r => p r.2).map (·.1) =
      (rows.find? fun r => p r.2).map (·.1) := by
  have hcomp : (fun r : TypeId × NamedType => p r.2) ∘ (fun r : TypeId × NamedType => (r.1, r.2.unloaded)) =
      fun r => p r.2 :=
    funext fun r => hp r.2
  rw [List.find?_map, hcomp, Option.map_map]
  rfl

theorem filter_unloaded (hp : ∀ a : NamedType, p a.unloaded = p a) :
    ((rows.map fun r => (r.1, r.2.unloaded)).filter fun r => p r.2).map (·.1) =
      (rows.filter fun r => p r.2).map (·.1) := by
  have hcomp : (fun r : TypeId × NamedType => p r.2) ∘ (fun r : TypeId × NamedType => (r.1, r.2.unloaded)) =
      fun r => p r.2 :=
    funext fun r => hp r.2
  rw [List.filter_map, hcomp, List.map_map]
  rfl

end

section

variable (s : Session)

theorem findDocumented_readBack : s.readBack.findDocumented = s.findDocumented := by
  funext name arity
  exact find?_unloaded (p := fun a => a.documented?.any fun d => d.fullName == name && d.arity == arity)
    fun a => by cases a <;> rfl

theorem externalCandidates_readBack : s.readBack.externalCandidates = s.externalCandidates := by
  funext name arity
  exact filter_unloaded (p := fun a => a.external?.any fun x => x.name == name && x.arity == arity)
    fun a => by cases a <;> rfl

theorem tupleCandidates_readBack : s.readBack.tupleCandidates = s.tupleCandidates := by
  funext count
  exact filter_unloaded (p := fun a => a.tuple?.any (·.elements.length == count)) fun a => by cases a <;> rfl

end

/-- Only a list of type parameters that is not empty has to be read again. -/
theorem Ledger.unloaded_eq {s : Session} {c f : Contents} (h : s.Ledger c f) {r : TypeId × NamedType}
    (hr : r ∈ s.named) (hne : r.2.unloaded ≠ r.2) : ∃ d, r.2 = .documented d ∧ 0 < d.arity := by
  obtain ⟨id, b⟩ := r
  obtain ⟨a, ha, rfl | ⟨rfl, -⟩⟩ := h.named.of_mem hr
  · cases b with
    | documented d =>
      refine ⟨d, rfl, Nat.pos_of_ne_zero fun hzero => hne ?_⟩
      obtain ⟨ps, hps, hord⟩ := h.sound.documented _ _ ha
      have hnil : ps = [] := by
        rw [hzero] at hord
        exact List.map_eq_nil_iff.mp hord
      show NamedType.documented { d with parameters := if d.arity = 0 then some [] else none } = _
      rw [if_pos hzero, ← hnil, ← hps]
    | external x => exact absurd rfl hne
    | parameter p => exact absurd rfl hne
    | tuple t => exact absurd rfl hne
  · exact absurd (unloaded_unloaded a) hne

/-- What was saved is there when the store is opened again, with the same look-ups and the same next ids.
Type parameters are those that each type was declared with, and the store lists the references below one
as the session does. -/
theorem openStore_save {s t : Session} {declared : List (TypeId × List TypeParameter)} {n : Nat}
    {store : Store} (hs : Reached s declared) (h : s.save = .ok (n, t)) (hstore : t.store = some store) :
    openStore store = .ok t.readBack ∧
      t.readBack.findNamespace = t.findNamespace ∧ t.readBack.findSourceFile = t.findSourceFile ∧
      t.readBack.findDocumented = t.findDocumented ∧
      t.readBack.externalCandidates = t.externalCandidates ∧
      t.readBack.tupleCandidates = t.tupleCandidates ∧
      (∀ r ∈ t.named, r.2.unloaded ≠ r.2 → ∃ d, r.2 = .documented d ∧ 0 < d.arity) ∧
      (∀ id, t.isDocumented id ↔ ∃ ps, (id, ps) ∈ declared) ∧
      (∀ id ps, (id, ps) ∈ declared → ∃ u, t.readBack.ensureParameters id = .ok (ps, u)) ∧
      ∀ r ∈ t.references, store.database.referenceChildren r.id = .ok (t.referenceChildren r.id) := by
  obtain ⟨c, f, hk⟩ := hs.kept
  have hl := hk.toLedger.save h
  obtain ⟨hholds, hlinked⟩ := hl.holds store hstore
  have hlf := hholds.linked hl.regular hlinked
  have hroot := hk.rooted.of_grows (grows_save h)
  have hback := hl.opened_eq (pending_of_save h) hstore
  have hlback : t.readBack.Ledger f f := by
    rw [← hback]
    exact { ledger_opened hholds hl.sound hlinked hk.bounded with }
  refine ⟨?_, rfl, rfl, findDocumented_readBack t, externalCandidates_readBack t,
    tupleCandidates_readBack t, fun r => hl.unloaded_eq, ?_, ?_, ?_⟩
  · rw [openStore_iff hholds hl.regular hlinked]
    refine ⟨hk.bounded, ?_⟩
    rw [← hback]
    apply withGlobal_eq
    rw [← hroot]
    unfold findNamespace
    rw [hl.namespaces]
    rfl
  · intro id
    rw [hl.isDocumented_iff]
    constructor
    · rintro ⟨d, hd⟩
      obtain ⟨ps, hps, -⟩ := hl.sound.documented id d hd
      exact ⟨ps, (hk.declared id ps).mpr ⟨d, hd, hps⟩⟩
    · rintro ⟨ps, hps⟩
      obtain ⟨d, hd, -⟩ := (hk.declared id ps).mp hps
      exact ⟨d, hd⟩
  · intro id ps hps
    obtain ⟨d, hd, hps⟩ := (hk.declared id ps).mp hps
    obtain ⟨e, he⟩ := Session.isDocumented_iff.mp (hlback.isDocumented_iff.mpr ⟨d, hd⟩)
    obtain ⟨qs, u, hu, -, hmem⟩ := hlback.ensureParameters he
    cases hl.sound.named.unique hd hmem
    cases hps
    exact ⟨u, hu⟩
  · intro r hr
    rw [Database.referenceChildren_eq hholds hl.regular hlf hk.ranks, hl.referenceChildren_eq hlf hr]

end Session

namespace Sample

def box : Documented where
  name := "Box"
  fullName := "Box"
  home := ⟨1⟩
  container := none
  declKind := .class
  access := .public
  file := ⟨1⟩
  arity := 1
  parameters := some [{ ordinal := 0, name := "T", variance := .covariant }]

/-- The session that an operation leaves. -/
def left {α : Type} (x : Except CatalogError (α × Session)) : Session :=
  (x.toOption.map (·.2)).getD { store := none }

/-- The session over a database. -/
def opening (database : Database) : Session :=
  (Session.openStore { database, path := none }).toOption.getD { store := none }

def filed : Session := left ((opening {}).addSourceFile ⟨"Box.cs"⟩ [⟨1⟩])

def boxed : Session := left (filed.addDocumented box)

/-- The database with `Box` in it. -/
def stored : Database := ((left boxed.save).store.map (·.database)).getD {}

def referring : Session := left ((opening stored).addReference ⟨1⟩ 0 none)

/-- The store was opened again and `Box<Box[]>` added. -/
def nested : Session := left (referring.addReference ⟨1⟩ 1 (some ⟨1⟩))

theorem reached_nested : nested.Reached [(⟨1⟩, [{ ordinal := 0, name := "T", variance := .covariant }])] := by
  have hopen : Session.openStore { database := {}, path := none, readOnly := false } = .ok (opening {}) := by
    decide +kernel
  have hfile : (opening {}).addSourceFile ⟨"Box.cs"⟩ [⟨1⟩] = .ok (⟨1⟩, filed) := by decide +kernel
  have hbox : filed.addDocumented box = .ok (⟨1⟩, boxed) := by decide +kernel
  have hsave : boxed.save = .ok (3, left boxed.save) := by decide +kernel
  have hstore : (left boxed.save).store = some { database := stored, path := none } := by decide +kernel
  have hreopen : Session.openStore { database := stored, path := none, readOnly := false } =
      .ok (opening stored) := by
    decide +kernel
  have hrefer : (opening stored).addReference ⟨1⟩ 0 none = .ok (⟨1⟩, referring) := by decide +kernel
  have hnest : referring.addReference ⟨1⟩ 1 (some ⟨1⟩) = .ok (⟨2⟩, nested) := by decide +kernel
  have hboxed := ((Session.Reached.new hopen).operate (.addSourceFile hfile)).declare rfl rfl (by decide) hbox
  have hreopened := (hboxed.operate (.save hsave)).reopen hstore hreopen
  have hnested := (hreopened.operate (.addReference (by decide) hrefer)).operate (.addReference (by decide) hnest)
  have hdoc : (opening stored).isDocumented ⟨1⟩ = true := by decide +kernel
  rw [List.nil_append, List.filter_singleton, hdoc] at hnested
  exact hnested

/-- The list of `Box` is read from the store, and `Box[]` stands below the outer `Box`. -/
theorem openStore_save_nested :
    ∃ t store u, nested.save = .ok (2, t) ∧ t.store = some store ∧
      Session.openStore store = .ok t.readBack ∧
      t.readBack.ensureParameters ⟨1⟩ = .ok ([{ ordinal := 0, name := "T", variance := .covariant }], u) ∧
      store.database.referenceChildren ⟨1⟩ = .ok [{ id := ⟨2⟩, named := ⟨1⟩, rank := 1, parent := some ⟨1⟩ }] := by
  have hsave : nested.save = .ok (2, left nested.save) := by decide +kernel
  have hstore : (left nested.save).store = some ((left nested.save).store.getD { database := {}, path := none }) := by
    decide +kernel
  obtain ⟨hopen, -, -, -, -, -, -, -, hps, hchildren⟩ := Session.openStore_save reached_nested hsave hstore
  obtain ⟨u, hu⟩ := hps ⟨1⟩ _ List.mem_cons_self
  have hroot : { id := ⟨1⟩, named := ⟨1⟩, rank := 0, parent := none } ∈ (left nested.save).references := by
    decide +kernel
  have hbelow : (left nested.save).referenceChildren ⟨1⟩ =
      [{ id := ⟨2⟩, named := ⟨1⟩, rank := 1, parent := some ⟨1⟩ }] := by
    decide +kernel
  refine ⟨_, _, u, hsave, hstore, hopen, hu, ?_⟩
  rw [← hbelow]
  exact hchildren _ hroot

end Sample

end TypeCatalog
