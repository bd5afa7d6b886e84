import TypeCatalog.Proofs.Accepting
import TypeCatalog.Proofs.Opening

namespace TypeCatalog

theorem mem_map_append_left {α β : Type} {g : α → β} {xs ys : List α} {b : β} (h : b ∈ xs.map g) :
    b ∈ (xs ++ ys).map g := by
  rw [List.map_append]
  exact List.mem_append_left _ h

theorem forall_mem_concat {α : Type} {p : α → Prop} {xs : List α} {x : α} (h : ∀ y ∈ xs, p y) (hx : p x) :
    ∀ y ∈ xs ++ [x], p y := by
  intro y hy
  rcases List.mem_append.mp hy with hy | hy
  · exact h y hy
  · rw [List.mem_singleton.mp hy]
    exact hx

theorem nodup_map_concat {α β : Type} {g : α → β} {xs : List α} {x : α} (h : (xs.map g).Nodup)
    (hx : g x ∉ xs.map g) : ((xs ++ [x]).map g).Nodup := by
  rw [List.map_append, List.nodup_append]
  refine ⟨h, List.nodup_singleton _, ?_⟩
  intro a ha b hb heq
  rw [heq, List.mem_singleton.mp hb] at ha
  exact hx ha

namespace Contents

variable {c : Contents}

theorem Coherent.addNamespace (h : c.Coherent) {n : Namespace} (hname : n.name ∉ c.namespaces.map (·.name))
    (hparent : ∀ p, n.parent = some p → p ∈ c.namespaces.map (·.id) ∧ p.value ≤ n.id.value)
    (houter : ∀ o ∈ Session.outerNamespaces n.name, o ∈ c.namespaces.map (·.name)) :
    Coherent { c with namespaces := c.namespaces ++ [n] } where
  linked := { h.linked with
    parent := forall_mem_concat
      (fun m hm p hp => ⟨mem_map_append_left (h.linked.parent m hm p hp).1, (h.linked.parent m hm p hp).2⟩)
      fun p hp => ⟨mem_map_append_left (hparent p hp).1, (hparent p hp).2⟩
    imported := fun f hf u hu => mem_map_append_left (h.linked.imported f hf u hu)
    named := fun r hr =>
      (h.linked.named r hr).mono (fun _ hi => mem_map_append_left hi) (fun _ hi => hi) fun _ hi => hi }
  names := nodup_map_concat h.names hname
  paths := h.paths
  outer := forall_mem_concat (fun m hm o ho => mem_map_append_left (h.outer m hm o ho))
    fun o ho => mem_map_append_left (houter o ho)
  container := h.container

theorem Coherent.addFile (h : c.Coherent) {f : SourceFile} (hpath : f.path.text ∉ c.files.map (·.path.text))
    (husings : ∀ u ∈ f.usings, u ∈ c.namespaces.map (·.id)) :
    Coherent { c with files := c.files ++ [f] } where
  linked := { h.linked with
    imported := forall_mem_concat h.linked.imported husings
    named := fun r hr =>
      (h.linked.named r hr).mono (fun _ hi => hi) (fun _ hi => mem_map_append_left hi) fun _ hi => hi }
  names := h.names
  paths := nodup_map_concat h.paths hpath
  outer := h.outer
  container := h.container

theorem Coherent.addNamed (h : c.Coherent) {i : TypeId} {a : NamedType}
    (hlinks : a.Links (· ∈ c.namespaces.map (·.id)) (· ∈ c.files.map (·.id))
      fun j => j ∈ c.named.map (·.1) ∧ j.value ≤ i.value)
    (hcontainer : ∀ d, a = .documented d → ∀ j, d.container = some j → ∃ e, (j, .documented e) ∈ c.named) :
    Coherent { c with named := c.named ++ [(i, a)] } where
  linked := { h.linked with
    named := forall_mem_concat
      (fun r hr => (h.linked.named r hr).mono (fun _ hi => hi) (fun _ hi => hi)
        fun _ hi => ⟨mem_map_append_left hi.1, hi.2⟩)
      (hlinks.mono (fun _ hi => hi) (fun _ hi => hi) fun _ hi => ⟨mem_map_append_left hi.1, hi.2⟩)
    element := fun e he =>
      ⟨mem_map_append_left (h.linked.element e he).1, mem_map_append_left (h.linked.element e he).2⟩
    reference := fun r hr => ⟨mem_map_append_left (h.linked.reference r hr).1, (h.linked.reference r hr).2⟩
    usage := fun u hu => ⟨mem_map_append_left (h.linked.usage u hu).1, (h.linked.usage u hu).2⟩ }
  names := h.names
  paths := h.paths
  outer := h.outer
  container := by
    intro j d hd k hk
    have hfound : ∃ e, (k, NamedType.documented e) ∈ c.named := by
      rcases List.mem_append.mp hd with hd | hd
      · exact h.container j d hd k hk
      · cases List.mem_singleton.mp hd
        exact hcontainer d rfl k hk
    obtain ⟨e, he⟩ := hfound
    exact ⟨e, List.mem_append_left _ he⟩

theorem Coherent.addElements (h : c.Coherent) {es : List TupleElement}
    (hes : ∀ e ∈ es, e.tuple ∈ c.named.map (·.1) ∧ e.elementType ∈ c.named.map (·.1)) :
    Coherent { c with elements := c.elements ++ es } :=
  { h with
    linked := { h.linked with
      element := by
        intro e he
        rcases List.mem_append.mp he with he | he
        · exact h.linked.element e he
        · exact hes e he } }

theorem Coherent.addReference (h : c.Coherent) {r : Reference} (hnamed : r.named ∈ c.named.map (·.1))
    (hparent : ∀ p, r.parent = some p → p ∈ c.references.map (·.id) ∧ p.value ≤ r.id.value) :
    Coherent { c with references := c.references ++ [r] } :=
  { h with
    linked := { h.linked with
      reference := forall_mem_concat
        (fun q hq => ⟨(h.linked.reference q hq).1, fun p hp =>
          ⟨mem_map_append_left ((h.linked.reference q hq).2 p hp).1, ((h.linked.reference q hq).2 p hp).2⟩⟩)
        ⟨hnamed, fun p hp => ⟨mem_map_append_left (hparent p hp).1, (hparent p hp).2⟩⟩
      usage := fun u hu => ⟨(h.linked.usage u hu).1, mem_map_append_left (h.linked.usage u hu).2⟩ } }

theorem Coherent.addUsage (h : c.Coherent) {u : Usage} (howner : u.owner ∈ c.named.map (·.1))
    (hreference : u.reference ∈ c.references.map (·.id)) : Coherent { c with usages := c.usages ++ [u] } :=
  { h with linked := { h.linked with usage := forall_mem_concat h.linked.usage ⟨howner, hreference⟩ } }

/-- An external type links to nothing and contains nothing, so it may be replaced by another one. -/
theorem Coherent.replaceExternal (h : c.Coherent) (hs : (c.named.map (·.1)).Nodup) {id : TypeId} {x y : External}
    (hx : (id, .external x) ∈ c.named) :
    Coherent { c with named := replaceRow id (.external y) c.named } := by
  have hkeep {r : TypeId × NamedType} (hr : r ∈ c.named) {d : Documented} (hd : r.2 = .documented d) :
      r ∈ replaceRow id (.external y) c.named := by
    refine mem_replaceRow.mpr (.inl ⟨?_, hr⟩)
    intro hid
    have heq := List.inj_on_of_nodup_map hs hr hx hid
    rw [heq] at hd
    cases hd
  refine { h with
    linked := { h.linked with
      named := ?_
      element := by rw [map_fst_replaceRow]; exact h.linked.element
      reference := by rw [map_fst_replaceRow]; exact h.linked.reference
      usage := by rw [map_fst_replaceRow]; exact h.linked.usage }
    container := ?_ }
  · rw [map_fst_replaceRow]
    intro r hr
    rcases mem_replaceRow.mp hr with ⟨-, hr⟩ | ⟨rfl, -⟩
    · exact h.linked.named r hr
    · trivial
  · intro i d hd j hj
    rcases mem_replaceRow.mp hd with ⟨-, hd⟩ | ⟨heq, -⟩
    · obtain ⟨e, he⟩ := h.container i d hd j hj
      exact ⟨e, hkeep he rfl⟩
    · cases heq

end Contents

namespace Session

variable {s t : Session} {c f : Contents}

theorem Ledger.mem_named (h : s.Ledger c f) {id : TypeId} :
    (∃ a, s.named? id = some a) ↔ id ∈ f.named.map (·.1) := by
  rw [← h.named.map_fst, List.mem_map]
  constructor
  · rintro ⟨a, ha⟩
    exact ⟨(id, a), h.named?_eq.mp ha, rfl⟩
  · rintro ⟨r, hr, rfl⟩
    exact ⟨r.2, h.named?_eq.mpr hr⟩

theorem Ledger.mem_references (h : s.Ledger c f) {id : ReferenceId} (hid : id ∈ s.references.map (·.id)) :
    id ∈ f.references.map (·.id) := by
  obtain ⟨older, -, hall⟩ := h.references
  rw [hall, List.map_append]
  exact List.mem_append_right _ hid

theorem le_next_of_mem {e : Entity} {α : Type} {rows : List α} {id : α → RowId e} (h : Counted (rows.map id))
    {i : RowId e} (hi : i ∈ rows.map id) : i.value ≤ rows.length + 1 :=
  Nat.le_succ_of_le (h.value_le_length hi)

/-- The rows that a session shows are coherent, and so are those in its store. -/
structure Coherent (s : Session) (stored all : Contents) : Prop extends Ledger s stored all where
  storedCoherent : stored.Coherent
  coherent : all.Coherent

namespace Coherent

theorem addNamespace (h : s.Coherent c f) {name : String} {parent : Option NamespaceId} {id : NamespaceId}
    (hname : name ∉ f.namespaces.map (·.name))
    (hparent : ∀ p, parent = some p → p ∈ f.namespaces.map (·.id))
    (houter : ∀ o ∈ outerNamespaces name, o ∈ f.namespaces.map (·.name))
    (ha : s.addNamespace name parent = .ok (id, t)) :
    t.Coherent c { f with namespaces := f.namespaces ++ [⟨⟨f.namespaces.length + 1⟩, name, parent⟩] } :=
  { h.toLedger.addNamespace ha with
    storedCoherent := h.storedCoherent
    coherent := h.coherent.addNamespace hname
      (fun p hp => ⟨hparent p hp, le_next_of_mem h.sound.namespaces (hparent p hp)⟩) houter }

theorem addSourceFile (h : s.Coherent c f) {path : Path} {usings : List NamespaceId} {id : FileId}
    (hpath : s.findSourceFile path = none) (husings : ∀ u ∈ usings, u ∈ f.namespaces.map (·.id))
    (ha : s.addSourceFile path usings = .ok (id, t)) :
    t.Coherent c { f with files := f.files ++ [⟨⟨f.files.length + 1⟩, path, usings⟩] } := by
  refine { h.toLedger.addSourceFile ha with
    storedCoherent := h.storedCoherent
    coherent := h.coherent.addFile ?_ husings }
  intro hmem
  obtain ⟨g, hg, htext⟩ := List.mem_map.mp hmem
  rw [← h.files] at hg
  have hnone := List.find?_eq_none.mp (Option.map_eq_none_iff.mp hpath) g (List.mem_reverse.mpr hg)
  have hsame : g.path = path := by
    rw [← h.files] at *
    cases hp : g.path
    cases path
    rw [hp] at htext
    exact congrArg Path.mk htext
  rw [hsame] at hnone
  exact hnone (by simp [Path.same])

theorem addNamed (h : s.Coherent c f) {a : NamedType} {id : TypeId} (ha : s.addNamed a = .ok (id, t))
    (hw : a.WellFormed)
    (hlinks : a.Links (· ∈ f.namespaces.map (·.id)) (· ∈ f.files.map (·.id)) (· ∈ f.named.map (·.1)))
    (hcontainer : ∀ d, a = .documented d → ∀ j, d.container = some j → ∃ e, (j, .documented e) ∈ f.named) :
    t.Coherent c { f with named := f.named ++ [(⟨f.named.length + 1⟩, a)] } :=
  { h.toLedger.addNamed hw ha with
    storedCoherent := h.storedCoherent
    coherent := h.coherent.addNamed
      (hlinks.mono (fun _ hi => hi) (fun _ hi => hi) fun _ hi => ⟨hi, le_next_of_mem h.sound.named hi⟩) hcontainer }

theorem addTuple (h : s.Coherent c f) {name : String} {es : List NewElement} {id : TypeId}
    (hes : ∀ e ∈ es, ∃ a, s.named? e.elementType = some a) (ha : s.addTuple name es = .ok (id, t)) :
    ∃ f, t.Coherent c f := by
  have hnamed (r : Tuple) := h.coherent.addNamed (i := ⟨f.named.length + 1⟩) (a := .tuple r) trivial (by simp)
  refine ⟨_, { h.toLedger.addTuple ha with
    storedCoherent := h.storedCoherent
    coherent := (hnamed _).addElements ?_ }⟩
  intro e he
  obtain ⟨htuple, -, -, d, hd, -, htype⟩ := mem_numberedElements he
  dsimp only
  rw [htuple, htype]
  constructor
  · rw [List.map_append]
    exact List.mem_append_right _ List.mem_cons_self
  · exact mem_map_append_left (h.mem_named.mp (hes d hd))

theorem extendExternal (h : s.Coherent c f) {id : TypeId} {names : List String} {n : Nat}
    (he : s.extendExternal id names = .ok (n, t)) : ∃ f, t.Coherent c f := by
  obtain ⟨x, hx, hl⟩ := h.toLedger.extendExternal he
  exact ⟨_, { hl with
    storedCoherent := h.storedCoherent
    coherent := h.coherent.replaceExternal h.sound.named.nodup (h.external_mem hx) }⟩

theorem addReference (h : s.Coherent c f) {named : TypeId} {rank : Nat} {parent : Option ReferenceId}
    {id : ReferenceId} (hn : ∃ a, s.named? named = some a)
    (hp : ∀ p, parent = some p → p ∈ s.references.map (·.id))
    (ha : s.addReference named rank parent = .ok (id, t)) : ∃ f, t.Coherent c f :=
  ⟨_, { h.toLedger.addReference ha with
    storedCoherent := h.storedCoherent
    coherent := h.coherent.addReference (h.mem_named.mp hn) fun p hparent =>
      ⟨h.mem_references (hp p hparent), le_next_of_mem h.sound.references (h.mem_references (hp p hparent))⟩ }⟩

theorem addUsage (h : s.Coherent c f) {owner : TypeId} {reference : ReferenceId} {role : Role}
    {member : Option String} {id : UsageId} (ho : ∃ a, s.named? owner = some a)
    (hr : reference ∈ s.references.map (·.id)) (ha : s.addUsage owner reference role member = .ok (id, t)) :
    ∃ f, t.Coherent c f :=
  ⟨_, { h.toLedger.addUsage ha with
    storedCoherent := h.storedCoherent
    coherent := h.coherent.addUsage (h.mem_named.mp ho) (h.mem_references hr) }⟩

theorem ensureParameters (h : s.Coherent c f) {id : TypeId} {ps : List TypeParameter}
    (ha : s.ensureParameters id = .ok (ps, t)) : t.Coherent c f := by
  obtain ⟨d, hd, -⟩ := ensureParameters_ok ha
  obtain ⟨qs, u, hu, hl, -⟩ := h.toLedger.ensureParameters hd
  rw [hu] at ha
  cases ha
  exact { hl with storedCoherent := h.storedCoherent, coherent := h.coherent }

theorem save (h : s.Coherent c f) {n : Nat} (hs : s.save = .ok (n, t)) : t.Coherent f f :=
  { h.toLedger.save hs with storedCoherent := h.coherent, coherent := h.coherent }

theorem save_error (h : s.Coherent c f) {e : CatalogError} (hs : s.save = .error e) :
    e = .database .readOnly ∧ ∃ store, s.store = some store ∧ store.readOnly = true := by
  unfold Session.save at hs
  split at hs
  · cases hs
  · cases hstore : s.store with
    | none =>
      rw [hstore] at hs
      cases hs
    | some store =>
      obtain ⟨changes, hchanges, hcompletes⟩ := h.changeSet_ok
      obtain ⟨db', hdb'⟩ := Database.write_succeeds (h.holds store hstore).1 hcompletes h.sound h.coherent
      simp only [hstore] at hs
      rw [hchanges, ok_bind] at hs
      cases hro : store.readOnly with
      | true =>
        rw [hro] at hs
        cases hs
        exact ⟨rfl, store, rfl, hro⟩
      | false =>
        simp only [hro, Bool.false_eq_true, if_false] at hs
        rw [hdb', ok_bind] at hs
        cases hs

end Coherent

end Session

end TypeCatalog
