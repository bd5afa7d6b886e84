import TypeCatalog.Proofs.Deduplication

namespace TypeCatalog

/-! The ids of a table -/

/-- The table that holds the rows of a kind. -/
def Entity.table : Entity → Table
  | .scope => .namespaces
  | .file => .sourceFiles
  | .named => .namedTypes
  | .element => .tupleElements
  | .reference => .typeReferences
  | .usage => .typeUsages

def Contents.ids (c : Contents) : (e : Entity) → List (RowId e)
  | .scope => c.namespaces.map (·.id)
  | .file => c.files.map (·.id)
  | .named => c.named.map (·.1)
  | .element => c.elements.map (·.id)
  | .reference => c.references.map (·.id)
  | .usage => c.usages.map (·.id)

/-- A row with this id is stored. -/
def Database.Has (db : Database) {e : Entity} (i : RowId e) : Prop :=
  ∃ row ∈ db.rows e.table, row.cell 0 = Encode.id i

namespace Session

def ids (s : Session) : (e : Entity) → List (RowId e)
  | .scope => s.namespaces.map (·.id)
  | .file => s.files.map (·.id)
  | .named => s.named.map (·.1)
  | .element => s.elements.map (·.id)
  | .reference => s.references.map (·.id)
  | .usage => s.usages.map (·.id)

def counter (s : Session) : (e : Entity) → Counter e
  | .scope => s.namespaceIds
  | .file => s.fileIds
  | .named => s.namedIds
  | .element => s.elementIds
  | .reference => s.referenceIds
  | .usage => s.usageIds

/-- The id belongs to a row that the session shows or has stored. -/
def Taken (s : Session) {e : Entity} (i : RowId e) : Prop :=
  i ∈ s.ids e ∨ ∃ store, s.store = some store ∧ store.database.Has i

end Session

theorem Contents.Regular.counted {c : Contents} (h : c.Regular) (e : Entity) : Counted (c.ids e) := by
  cases e with
  | scope => exact h.namespaces
  | file => exact h.files
  | named => exact h.named
  | element => exact h.elements
  | reference => exact h.references
  | usage => exact h.usages

theorem exists_cell_map {α : Type} {e : Entity} {id : α → RowId e} {encode : α → Row} {rows : List α}
    (hcell : ∀ a, (encode a).cell 0 = Encode.id (id a)) {i : RowId e} :
    (∃ row ∈ rows.map encode, row.cell 0 = Encode.id i) ↔ i ∈ rows.map id := by
  rw [List.mem_map]
  constructor
  · rintro ⟨row, hrow, hid⟩
    obtain ⟨a, ha, rfl⟩ := List.mem_map.mp hrow
    rw [hcell, Encode.id_inj] at hid
    exact ⟨a, ha, hid⟩
  · rintro ⟨a, ha, rfl⟩
    exact ⟨_, List.mem_map_of_mem ha, hcell a⟩

theorem Database.Holds.has_iff {db : Database} {c : Contents} (h : db.Holds c) {e : Entity} {i : RowId e} :
    db.Has i ↔ i ∈ c.ids e := by
  unfold Has
  cases e with
  | scope =>
    rw [show db.rows Entity.scope.table = _ from h.namespaces]
    exact exists_cell_map fun _ => rfl
  | file =>
    rw [show db.rows Entity.file.table = _ from h.files]
    exact exists_cell_map fun _ => rfl
  | named =>
    rw [show db.rows Entity.named.table = _ from h.named]
    exact exists_cell_map Encode.cell_zero_namedType
  | element =>
    rw [show db.rows Entity.element.table = _ from h.elements]
    exact exists_cell_map fun _ => rfl
  | reference =>
    rw [show db.rows Entity.reference.table = _ from h.references]
    exact exists_cell_map fun _ => rfl
  | usage =>
    rw [show db.rows Entity.usage.table = _ from h.usages]
    exact exists_cell_map fun _ => rfl

theorem map_stored {α β γ : Type} {id : α → β} {g : α → γ} {stored all : List α} {ids : List β}
    (h : ∃ new, all = stored ++ new ∧ ids = new.map id) : stored.map g <+: all.map g := by
  obtain ⟨new, rfl, -⟩ := h
  rw [List.map_append]
  exact List.prefix_append _ _

theorem Pending.Completes.ids {p : Pending} {c f : Contents} (h : p.Completes c f) (e : Entity) :
    c.ids e <+: f.ids e := by
  cases e with
  | scope => exact map_stored h.namespaces
  | file => exact map_stored h.files
  | named =>
    obtain ⟨old, new, hall, -, hold⟩ := h.named
    refine ⟨new.map (·.1), ?_⟩
    show c.named.map (·.1) ++ new.map (·.1) = f.named.map (·.1)
    rw [hall, List.map_append, hold.map_fst]
  | element => exact map_stored h.elements
  | reference => exact map_stored h.references
  | usage => exact map_stored h.usages

namespace Session

variable {s t u : Session} {c f : Contents} {e : Entity} {i : RowId e}

namespace Journal

theorem ids_suffix (h : s.Journal c f) (e : Entity) : s.ids e <:+ f.ids e := by
  have hsame {α β : Type} {g : α → β} {all shown : List α} (h : shown = all) : shown.map g <:+ all.map g := by
    rw [h]
  have hmap {α β : Type} {g : α → β} {stored all shown : List α}
      (h : ∃ older, older <+: stored ∧ all = older ++ shown) : shown.map g <:+ all.map g := by
    obtain ⟨older, -, rfl⟩ := h
    rw [List.map_append]
    exact List.suffix_append _ _
  cases e with
  | scope => exact hsame h.namespaces
  | file => exact hsame h.files
  | named => exact ⟨[], h.rows.map_fst⟩
  | element => exact hsame h.elements
  | reference => exact hmap h.references
  | usage => exact hmap h.usages

theorem counter_used (h : s.Journal c f) (e : Entity) : (s.counter e).used = (f.ids e).length := by
  cases e with
  | scope => exact h.namespaceIds.trans (List.length_map _).symm
  | file => exact h.fileIds.trans (List.length_map _).symm
  | named => exact h.namedIds.trans (List.length_map _).symm
  | element => exact h.elementIds.trans (List.length_map _).symm
  | reference => exact h.referenceIds.trans (List.length_map _).symm
  | usage => exact h.usageIds.trans (List.length_map _).symm

theorem mem_of_taken (h : s.Journal c f) (hi : s.Taken i) : i ∈ f.ids e := by
  rcases hi with hi | ⟨store, hstore, hi⟩
  · exact (h.ids_suffix e).mem hi
  · exact (h.pending.ids e).mem ((h.holds store hstore).1.has_iff.mp hi)

theorem taken_le (h : s.Journal c f) (hi : s.Taken i) : 0 < i.value ∧ i.value ≤ (s.counter e).used := by
  rw [h.counter_used]
  exact (h.regular.counted e).mem_iff.mp (h.mem_of_taken hi)

end Journal

/-! What an operation does to ids -/

/-- The ids that came after those of `s` are the next ones of the counter, in order. -/
def Issues (s t : Session) (e : Entity) : Prop :=
  ∃ n, (t.ids e).map (·.value) = (s.ids e).map (·.value) ++ List.range' ((s.counter e).used + 1) n ∧
    (t.counter e).used = (s.counter e).used + n

theorem Issues.of_eq (hids : t.ids e = s.ids e) (hcounter : t.counter e = s.counter e) : s.Issues t e :=
  ⟨0, by rw [hids, List.range'_zero, List.append_nil], by rw [hcounter, Nat.add_zero]⟩

theorem Issues.concat (hids : t.ids e = s.ids e ++ [⟨(s.counter e).used + 1⟩])
    (hcounter : t.counter e = ⟨(s.counter e).used + 1⟩) : s.Issues t e :=
  ⟨1, by rw [hids, List.map_append]; rfl, by rw [hcounter]⟩

theorem Issues.trans (h : s.Issues t e) (k : t.Issues u e) : s.Issues u e := by
  obtain ⟨m, hids, hused⟩ := h
  obtain ⟨n, hids', hused'⟩ := k
  refine ⟨m + n, ?_, by rw [hused', hused, Nat.add_assoc]⟩
  rw [hids', hids, hused, List.append_assoc, Nat.add_right_comm, List.range'_append_1]

/-- A later session has every row of an earlier one, at most grown, and the ids of new rows go on from the
counters. No id is free again. -/
structure Extends (s t : Session) : Prop extends Grows s t where
  issues : ∀ e, s.Issues t e
  taken : ∀ e (i : RowId e), s.Taken i → t.Taken i

theorem Extends.refl (s : Session) : s.Extends s :=
  { Grows.refl s with issues := fun _ => .of_eq rfl rfl, taken := fun _ _ h => h }

theorem Extends.trans (h : s.Extends t) (k : t.Extends u) : s.Extends u :=
  { h.toGrows.trans k.toGrows with
    issues := fun e => (h.issues e).trans (k.issues e)
    taken := fun e i hi => k.taken e i (h.taken e i hi) }

theorem issues_addNamespace {name : String} {parent : Option NamespaceId} {id : NamespaceId}
    (h : s.addNamespace name parent = .ok (id, t)) (e : Entity) : s.Issues t e := by
  obtain ⟨-, rfl, rfl⟩ := addNamespace_ok h
  cases e with
  | scope => exact .concat (List.map_append ..) rfl
  | _ => exact .of_eq rfl rfl

theorem issues_addNamed {a : NamedType} {id : TypeId} (h : s.addNamed a = .ok (id, t)) (e : Entity) :
    s.Issues t e := by
  obtain ⟨-, rfl, rfl⟩ := addNamed_ok h
  cases e with
  | named => exact .concat (List.map_append ..) rfl
  | _ => exact .of_eq rfl rfl

theorem issues_addTuple {name : String} {es : List NewElement} {id : TypeId}
    (h : s.addTuple name es = .ok (id, t)) (e : Entity) : s.Issues t e := by
  obtain ⟨-, -, rfl, rfl⟩ := addTuple_ok h
  cases e with
  | named => exact .concat (List.map_append ..) rfl
  | element =>
    refine ⟨es.length, ?_, rfl⟩
    simp only [ids, counter, List.map_append, map_id_numberedElements]
  | _ => exact .of_eq rfl rfl

theorem Mutates.issues (h : s.Mutates t) (e : Entity) : s.Issues t e := by
  cases h with
  | ensureNamespace h =>
    refine ensureWithin_induction (P := fun t => s.Issues t e) ?_ (.of_eq rfl rfl) h
    exact fun _ _ _ _ _ hs h => hs.trans (issues_addNamespace h e)
  | addSourceFile h =>
    obtain ⟨-, rfl, rfl⟩ := addSourceFile_ok h
    cases e with
    | file => exact .concat (List.map_append ..) rfl
    | _ => exact .of_eq rfl rfl
  | addDocumented h => exact issues_addNamed h e
  | addExternal _ h => exact issues_addNamed h e
  | addParameter h => exact issues_addNamed h e
  | addTuple h => exact issues_addTuple h e
  | extendExternal h =>
    obtain ⟨x, -, -, rfl⟩ := extendExternal_ok h
    cases e with
    | named => exact .of_eq map_fst_replaceNamed rfl
    | _ => exact .of_eq rfl rfl
  | addReference h =>
    obtain ⟨-, rfl, rfl⟩ := addReference_ok h
    cases e with
    | reference => exact .concat (List.map_append ..) rfl
    | _ => exact .of_eq rfl rfl
  | addUsage h =>
    obtain ⟨-, rfl, rfl⟩ := addUsage_ok h
    cases e with
    | usage => exact .concat (List.map_append ..) rfl
    | _ => exact .of_eq rfl rfl
  | ensureParameters h =>
    obtain ⟨d, -, ⟨-, rfl⟩ | ⟨-, -, -, rfl⟩⟩ := ensureParameters_ok h
    · exact .of_eq rfl rfl
    · cases e with
      | named => exact .of_eq map_fst_replaceNamed rfl
      | _ => exact .of_eq rfl rfl
  | save h => obtain ⟨-, rfl⟩ | ⟨-, rfl⟩ | ⟨store, changes, database, -, -, -, -, rfl⟩ := save_ok h <;>
      cases e <;> exact .of_eq rfl rfl

theorem store_ensureNamespace {name : String} {id : NamespaceId} (h : s.ensureNamespace name = .ok (id, t)) :
    t.store = s.store := by
  refine ensureWithin_induction (P := fun t => t.store = s.store) ?_ rfl h
  intro v name parent id w hv hw
  obtain ⟨-, rfl, rfl⟩ := addNamespace_ok hw
  exact hv

/-- Only saving changes the store. -/
theorem Mutates.store (h : s.Mutates t) : t.store = s.store ∨ ∃ n, s.save = .ok (n, t) := by
  cases h with
  | save h => exact .inr ⟨_, h⟩
  | ensureNamespace h => exact .inl (store_ensureNamespace h)
  | addSourceFile h =>
    obtain ⟨-, rfl, rfl⟩ := addSourceFile_ok h
    exact .inl rfl
  | addDocumented h =>
    obtain ⟨-, rfl, rfl⟩ := addNamed_ok h
    exact .inl rfl
  | addExternal _ h =>
    obtain ⟨-, rfl, rfl⟩ := addNamed_ok h
    exact .inl rfl
  | addParameter h =>
    obtain ⟨-, rfl, rfl⟩ := addNamed_ok h
    exact .inl rfl
  | addTuple h =>
    obtain ⟨-, -, rfl, rfl⟩ := addTuple_ok h
    exact .inl rfl
  | extendExternal h =>
    obtain ⟨x, -, -, rfl⟩ := extendExternal_ok h
    exact .inl rfl
  | addReference h =>
    obtain ⟨-, rfl, rfl⟩ := addReference_ok h
    exact .inl rfl
  | addUsage h =>
    obtain ⟨-, rfl, rfl⟩ := addUsage_ok h
    exact .inl rfl
  | ensureParameters h =>
    obtain ⟨d, -, ⟨-, rfl⟩ | ⟨-, -, -, rfl⟩⟩ := ensureParameters_ok h
    · exact .inl rfl
    · exact .inl rfl

theorem Issues.mem (h : s.Issues t e) (hi : i ∈ s.ids e) : i ∈ t.ids e := by
  obtain ⟨n, hids, -⟩ := h
  have hmem : i.value ∈ (t.ids e).map (·.value) := by
    rw [hids]
    exact List.mem_append_left _ (List.mem_map_of_mem hi)
  obtain ⟨j, hj, hvalue⟩ := List.mem_map.mp hmem
  rwa [← RowId.eq_of_value hvalue]

theorem store_save {n : Nat} (h : s.save = .ok (n, t)) {store : Store} (hstore : s.store = some store) :
    ∃ later, t.store = some later := by
  obtain ⟨-, rfl⟩ | ⟨hnone, rfl⟩ | ⟨file, changes, database, -, -, -, -, rfl⟩ := save_ok h
  · exact ⟨store, hstore⟩
  · rw [hstore] at hnone
    cases hnone
  · exact ⟨_, rfl⟩

/-- What is stored stays stored when more is written. -/
theorem Journal.has_save (h : s.Journal c f) {n : Nat} (hs : s.save = .ok (n, t)) {store : Store}
    (hstore : s.store = some store) (hi : store.database.Has i) :
    ∃ later, t.store = some later ∧ later.database.Has i := by
  obtain ⟨later, hlater⟩ := store_save hs hstore
  refine ⟨later, hlater, ((h.save hs).holds later hlater).1.has_iff.mpr ?_⟩
  exact (h.pending.ids e).mem ((h.holds store hstore).1.has_iff.mp hi)

theorem Mutates.extends (h : s.Mutates t) (hs : s.Journal c f) : s.Extends t :=
  { h.grows hs.numbered with
    issues := h.issues
    taken := by
      rintro e i (hi | ⟨store, hstore, hi⟩)
      · exact .inl ((h.issues e).mem hi)
      · refine .inr ?_
        obtain heq | ⟨n, hsave⟩ := h.store
        · exact ⟨store, heq.trans hstore, hi⟩
        · exact hs.has_save hsave hstore hi }

/-! Work is made of operations -/

abbrev Mutated : Session → Session → Prop := Relation.ReflTransGen Mutates

theorem Arises.mutated (hs : s.Arises) (h : s.Mutated t) : t.Arises ∧ s.Extends t := by
  induction h with
  | refl => exact ⟨hs, .refl s⟩
  | tail _ hstep ih =>
    obtain ⟨-, c, f, hj⟩ := ih.1.orderly
    exact ⟨ih.1.mutate hstep, ih.2.trans (hstep.extends hj.toJournal)⟩

theorem mutated_commit {r : Resolved} {id : TypeId} (h : r.commit s = .ok (id, t)) : s.Mutated t := by
  obtain ⟨-, -, rfl⟩ | ⟨-, -, n, he⟩ | ⟨declaring, index, name, -, ha⟩ := Resolved.commit_ok h
  · exact .refl
  · exact .single (.extendExternal he)
  · exact .single (.addParameter ha)

end Session

namespace Find

theorem Steps.mutated {allowCreate : Bool} {s t : Session} (h : Steps allowCreate s t) : s.Mutated t := by
  induction h with
  | refl => exact .refl
  | tail _ hstep ih =>
    cases hstep with
    | load h => exact ih.tail (.ensureParameters h)
    | external _ hn h => exact ih.tail (.addExternal hn h)
    | commit _ _ h => exact ih.trans (Session.mutated_commit h)
    | tuple _ _ h => exact ih.tail (.addTuple h)
    | save _ h => exact ih.tail (.save h)

end Find

theorem Chain.traced_find (chain : Chain) (scope : Scope) (s : Session) (r : Resolver) (d : Descriptor) :
    Find.Traced chain scope (chain.find scope r d) s fun _ _ => True := by
  unfold find
  split
  · apply Find.traced_bind (traced_resolveAll chain scope s d.arguments)
    intro rs t _ _ hrs
    exact (Find.traced_tuple hrs).mono fun _ _ _ _ => trivial
  · exact Find.traced_plain.mono fun _ _ _ _ => trivial

theorem Binding.Steps.mutated {s t : Session} (h : Steps s t) : s.Mutated t := by
  induction h with
  | refl => exact .refl
  | tail _ hstep ih =>
    cases hstep with
    | commit _ h => exact ih.trans (Session.mutated_commit h)
    | reference _ _ h => exact ih.tail (.addReference h)

namespace Act

variable {ε δ α β : Type} {P : Session → Prop}

theorem keeps_mapError {f : δ → ε} {a : Act δ α} (h : Keeps P a) : Keeps P (a.mapError f) :=
  fun s hs => leads_mapError (h s hs)

theorem keeps_attempt {a : Act δ α} (h : Keeps P a) : Keeps P (a.attempt : Act ε (Except δ α)) :=
  fun s hs => leads_attempt (h s hs)

theorem keeps_foldlM {f : β → α → Act ε β} {xs : List α} {b : β} (h : ∀ b x, Keeps P (f b x)) :
    Keeps P (xs.foldlM f b) :=
  fun _ hs => leads_foldlM (fun b t x _ ht => h b x t ht) hs

end Act

namespace Scan

open Act

variable {P : Session → Prop} {allowCreate : Bool}

theorem keeps_references (hanalyze : ∀ u container c, Keeps P (Analysis.ofNode u container allowCreate c))
    (hresolve : ∀ a : Analysis, Keeps P (a.resolve .standard))
    (huse : ∀ owner reference role member,
      Keeps P (perform ScanError.catalog (·.addUsage owner reference role member)))
    {m : Summary} {u : SourceUnit} : Keeps P (references allowCreate m u) := by
  have hrecord (owner : TypeId) (m : Summary) (site : Site) : Keeps P (record allowCreate u owner m site) := by
    refine keeps_bind (keeps_attempt ?_) fun x => ?_
    · refine keeps_bind (keeps_mapError (hanalyze u owner site.type)) fun a => ?_
      exact keeps_mapError (hresolve a)
    · cases x with
      | ok reference => exact keeps_bind (huse owner reference site.role site.member) fun _ => keeps_pure
      | error e =>
        dsimp only
        split
        · exact keeps_pure
        · exact keeps_throw
  refine keeps_foldlM fun m decl => keeps_bind keeps_get fun s => ?_
  split
  · exact keeps_pure
  · exact keeps_foldlM fun m site => hrecord _ m site

/-- What every request of a scan keeps, the scan keeps. -/
theorem keeps_units (hcatalog : ∀ u : SourceUnit, Keeps P (perform ScanError.catalog u.catalog))
    (hanalyze : ∀ u container c, Keeps P (Analysis.ofNode u container allowCreate c))
    (hresolve : ∀ a : Analysis, Keeps P (a.resolve .standard))
    (huse : ∀ owner reference role member,
      Keeps P (perform ScanError.catalog (·.addUsage owner reference role member)))
    {m : Summary} {us : List SourceUnit} : Keeps P (units allowCreate m us) := by
  have hdeclarations (m : Summary) (fresh : List SourceUnit) (u : SourceUnit) :
      Keeps P (declarations m fresh u) := by
    refine keeps_bind (hcatalog u) fun outcome => ?_
    cases outcome <;> exact keeps_pure
  refine keeps_bind (keeps_foldlM fun x u => hdeclarations x.1 x.2 u) fun x => ?_
  refine keeps_bind keeps_get fun s => ?_
  refine keeps_bind (keeps_foldlM fun m u => keeps_references hanalyze hresolve huse) fun m => ?_
  exact keeps_bind keeps_get fun _ => keeps_pure

end Scan

namespace Session

variable {s t u : Session} {c f : Contents}

/-- A piece of work of any layer, that leaves `t` whether it succeeds or fails. -/
inductive Acts (s : Session) : Session → Prop
  | mutate {t : Session} (h : s.Mutates t) : Acts s t
  | catalog (u : SourceUnit) : Acts s ((Act.perform id u.catalog).outcome s).2
  | analyze (u : SourceUnit) (container : TypeId) (allowCreate : Bool) (c : Cursor) :
      Acts s ((Analysis.ofNode u container allowCreate c).outcome s).2
  | find (chain : Chain) (scope : Scope) (r : Resolver) (d : Descriptor) :
      Acts s ((chain.find scope r d).outcome s).2
  | lookUp (chain : Chain) (scope : Scope) (d : Descriptor) : Acts s ((chain.resolve scope d).outcome s).2
  | resolve (chain : Chain) (a : Analysis) : Acts s ((a.resolve chain).outcome s).2
  | scan (allowCreate : Bool) (m : Summary) (us : List SourceUnit) :
      Acts s ((Scan.units allowCreate m us).outcome s).2
  | scanFiles (allowCreate : Bool) (inputs : List (Path × Except ScanError SourceUnit)) :
      Acts s ((Scan.files allowCreate inputs).outcome s).2

theorem preserves_mutated : Declarations.Preserves s.Mutated where
  space _ _ _ _ hs h := hs.tail (.ensureNamespace h)
  file _ _ _ _ _ hs h := hs.tail (.addSourceFile h)
  type _ _ _ _ hs _ h := hs.tail (.addDocumented h)

theorem keeps_catalog {ε : Type} {wrap : CatalogError → ε} (u : SourceUnit) :
    Act.Keeps s.Mutated (Act.perform wrap u.catalog) :=
  Act.keeps_perform fun _ _ _ ht h => preserves_mutated.catalog ht h

theorem keeps_ofNode (u : SourceUnit) (container : TypeId) (allowCreate : Bool) (c : Cursor) :
    Act.Keeps s.Mutated (Analysis.ofNode u container allowCreate c) :=
  Analysis.keeps_ofNode fun _ _ _ _ ht h => ht.tail (.ensureParameters h)

theorem keeps_resolve (hs : s.Arises) (chain : Chain) (a : Analysis) : Act.Keeps s.Mutated (a.resolve chain) := by
  intro t hst
  obtain ⟨-, c, f, hj⟩ := (hs.mutated hst).1.orderly
  refine (Analysis.leads_resolve hj.toJournal.numbered).mono ?_ ?_
  · rintro root v ⟨u, rows, htu, huv, -⟩
    exact (hst.trans htu.mutated).trans huv.steps.mutated
  · rintro e v (⟨rfl, -⟩ | ⟨htv, -⟩ | ⟨u, htu, huv, -⟩)
    · exact hst
    · exact hst.trans htv.mutated
    · exact (hst.trans htu.mutated).trans huv.mutated

theorem keeps_units (hs : s.Arises) (allowCreate : Bool) (m : Summary) (us : List SourceUnit) :
    Act.Keeps s.Mutated (Scan.units allowCreate m us) :=
  Scan.keeps_units keeps_catalog (fun u container c => keeps_ofNode u container allowCreate c)
    (keeps_resolve hs .standard) fun _ _ _ _ => Act.keeps_perform fun _ _ _ ht h => ht.tail (.addUsage h)

theorem Arises.mutated_of_traced (hs : s.Arises) {α : Type} {chain : Chain} {scope : Scope} {a : Act ResolveError α}
    {good : α → Session → Prop} (h : Find.Traced chain scope a s good) : s.Mutated (a.outcome s).2 := by
  obtain ⟨-, c, f, hj⟩ := hs.orderly
  exact ((h hj.toJournal.numbered).mono (fun _ _ h => h.1.mutated) fun _ _ h => h.1.mutated).left

theorem Arises.mutated_of_acts (hs : s.Arises) (h : s.Acts t) : s.Mutated t := by
  cases h with
  | mutate h => exact .single h
  | catalog u => exact (keeps_catalog u s .refl).left
  | analyze u container allowCreate c => exact (keeps_ofNode u container allowCreate c s .refl).left
  | find chain scope r d => exact hs.mutated_of_traced (Chain.traced_find chain scope s r d)
  | lookUp chain scope d => exact hs.mutated_of_traced (Chain.traced_resolve chain scope s d)
  | resolve chain a => exact (keeps_resolve hs chain a s .refl).left
  | scan allowCreate m us => exact (keeps_units hs allowCreate m us s .refl).left
  | scanFiles allowCreate inputs => exact (keeps_units hs allowCreate _ _ s .refl).left

/-! Opening again -/

/-- A store that holds everything is opened if its numbers have 32 bits. -/
theorem Journal.reopened_iff (h : s.Journal c f) (hroot : s.Rooted) (hp : s.pending.isEmpty = true) {store : Store}
    (hstore : s.store = some store) {path : Option Path} {readOnly : Bool} :
    openStore { store with path, readOnly } = .ok t ↔
      f.Bounded ∧ t = { opened { store with path, readOnly } f with globalNamespace := s.globalNamespace } := by
  have hcf := h.pending.eq_of_isEmpty hp h.storedRegular h.regular
  subst hcf
  obtain ⟨hholds, hlinked⟩ := h.holds store hstore
  have hholds : ({ store with path, readOnly } : Store).database.Holds f := hholds
  have hfound : (opened { store with path, readOnly } f).findNamespace "" = some s.globalNamespace := by
    have hsame : (opened { store with path, readOnly } f).namespaces = s.namespaces := h.namespaces.symm
    unfold findNamespace
    rw [hsame]
    exact hroot
  rw [openStore_iff hholds h.regular hlinked, withGlobal_eq hfound, Except.ok.injEq, eq_comm (a := t)]

/-- A store that holds everything is shown as it was, but for type parameters that are not loaded. -/
theorem Journal.reopened (h : s.Journal c f) (hroot : s.Rooted) (hp : s.pending.isEmpty = true) {store : Store}
    (hstore : s.store = some store) {path : Option Path} {readOnly : Bool}
    (ho : openStore { store with path, readOnly } = .ok t) :
    s.Alongside t ∧ ∀ e, t.counter e = s.counter e := by
  obtain ⟨hb, rfl⟩ := (h.reopened_iff hroot hp hstore).mp ho
  have hcf := h.pending.eq_of_isEmpty hp h.storedRegular h.regular
  subst hcf
  obtain ⟨hholds, hlinked⟩ := h.holds store hstore
  have hholds : ({ store with path, readOnly } : Store).database.Holds f := hholds
  have hopened := journal_opened hholds h.regular hlinked hb
  refine ⟨⟨h.namespaces.symm, rfl, h.files.symm, h.rows.alike hopened.rows, ?_⟩, ?_⟩
  · exact hopened.elements.trans h.elements.symm
  · intro e
    have hused := (hopened.counter_used e).trans (h.counter_used e).symm
    cases e <;> exact congrArg Counter.mk hused

/-- A session that is opened on a store has taken the ids that are stored. If nothing was pending, these are
all. -/
theorem Arises.taken_reopened (hs : s.Arises) {store : Store} (hstore : s.store = some store) {path : Option Path}
    {readOnly : Bool} (ho : openStore { store with path, readOnly } = .ok t) :
    (∀ e (i : RowId e), store.database.Has i → t.Taken i) ∧
      (s.pending.isEmpty = true → ∀ e (i : RowId e), s.Taken i → t.Taken i) := by
  obtain ⟨-, c, f, hj⟩ := hs.orderly
  obtain ⟨hholds, hlinked⟩ := hj.holds store hstore
  have hfile : ∀ e (i : RowId e), store.database.Has i → t.Taken i := by
    have hholds : ({ store with path, readOnly } : Store).database.Holds c := hholds
    obtain ⟨-, hglobal⟩ := (openStore_iff hholds hj.storedRegular hlinked).mp ho
    obtain ⟨-, id, u, hu, rfl⟩ := withGlobal_ok hglobal
    exact fun e i hi => .inr ⟨_, store_ensureNamespace hu, hi⟩
  refine ⟨hfile, fun hp e i hi => hfile e i (hholds.has_iff.mpr ?_)⟩
  rw [← hj.pending.eq_of_isEmpty hp hj.storedRegular hj.regular]
  exact hj.toJournal.mem_of_taken hi

/-- The session `t` comes from `s` by any work and by opening again what was saved. -/
inductive Lasts (s : Session) : Session → Prop
  | refl : Lasts s s
  | act {t u : Session} (h : Lasts s t) (ha : t.Acts u) : Lasts s u
  | reopen {t u : Session} {store : Store} {path : Option Path} {readOnly : Bool} (h : Lasts s t)
      (hp : t.pending.isEmpty = true) (hstore : t.store = some store)
      (ho : openStore { store with path, readOnly } = .ok u) : Lasts s u

theorem Arises.lasts (hs : s.Arises) (h : s.Lasts t) : t.Arises ∧ ∀ e (i : RowId e), s.Taken i → t.Taken i := by
  induction h with
  | refl => exact ⟨hs, fun _ _ hi => hi⟩
  | act _ ha ih =>
    obtain ⟨hu, hext⟩ := ih.1.mutated (ih.1.mutated_of_acts ha)
    exact ⟨hu, fun e i hi => hext.taken e i (ih.2 e i hi)⟩
  | reopen _ hp hstore ho ih =>
    have htaken := (ih.1.taken_reopened hstore ho).2 hp
    exact ⟨ih.1.reopen hstore ho, fun e i hi => htaken e i (ih.2 e i hi)⟩

/-- The catalog only grows. Whatever any layer does in any session that can arise, and whether it succeeds or
fails, every row is there afterwards under its id and as it was, except that an external type may be seen from
more namespaces and the type parameters of a declaration may be loaded; and new rows get the next ids of the
counters. An id that was taken stays below the counter of its table, through saves and openings, so it is
never handed out again. -/
theorem append_only (hs : s.Arises) :
    (∀ t, s.Acts t → t.Arises ∧ s.Extends t) ∧
    (∀ store path readOnly t, s.store = some store → openStore { store with path, readOnly } = .ok t →
      t.Arises ∧ (∀ e (i : RowId e), store.database.Has i → t.Taken i) ∧
        (s.pending.isEmpty = true → s.Alongside t ∧ ∀ e, t.counter e = s.counter e)) ∧
    ∀ t, s.Lasts t → ∀ e (i : RowId e), s.Taken i → t.Taken i ∧ 0 < i.value ∧ i.value ≤ (t.counter e).used := by
  refine ⟨?_, ?_, ?_⟩
  · intro t ht
    exact hs.mutated (hs.mutated_of_acts ht)
  · intro store path readOnly t hstore ho
    obtain ⟨hroot, c, f, hj⟩ := hs.orderly
    refine ⟨hs.reopen hstore ho, (hs.taken_reopened hstore ho).1, fun hp => ?_⟩
    exact hj.toJournal.reopened hroot hp hstore ho
  · intro t ht e i hi
    obtain ⟨harises, htaken⟩ := hs.lasts ht
    obtain ⟨-, c, f, hj⟩ := harises.orderly
    exact ⟨htaken e i hi, hj.toJournal.taken_le (htaken e i hi)⟩

end Session

namespace Sample

/-- A file was catalogued while a tuple and a namespace waited to be saved. -/
def overlaid : Session := ((Act.perform id unit.catalog).outcome paired).2

theorem append_only_paired :
    paired.Arises ∧ paired.Taken (⟨2⟩ : TypeId) ∧ paired.Extends overlaid ∧ overlaid.ids .named = [⟨1⟩, ⟨2⟩, ⟨3⟩] ∧
      overlaid.save = .ok (9, left overlaid.save) ∧ (left overlaid.save).Taken (⟨2⟩ : TypeId) := by
  have htaken : paired.Taken (⟨2⟩ : TypeId) := .inl (by decide +kernel)
  have hsave : overlaid.save = .ok (9, left overlaid.save) := by decide +kernel
  obtain ⟨hacts, -, hlasts⟩ := Session.append_only arises_paired
  have hsaved : paired.Lasts (left overlaid.save) := .act (.act .refl (.catalog unit)) (.mutate (.save hsave))
  refine ⟨arises_paired, htaken, (hacts overlaid (.catalog unit)).2, by decide +kernel, hsave, ?_⟩
  exact (hlasts (left overlaid.save) hsaved .named ⟨2⟩ htaken).1

end Sample

end TypeCatalog
