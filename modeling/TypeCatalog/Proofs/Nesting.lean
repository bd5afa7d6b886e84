import TypeCatalog.Proofs.Tiers

namespace TypeCatalog

/-- Documented types stand in older documented types, and in namespaces that are there. The global namespace stands in
none. -/
structure Contents.Nested (c : Contents) : Prop where
  container : ∀ i d, (i, .documented d) ∈ c.named → ∀ j, d.container = some j →
    j.value < i.value ∧ ∃ e, (j, .documented e) ∈ c.named
  home : ∀ i d, (i, .documented d) ∈ c.named → d.home ∈ c.namespaces.map (·.id)
  root : ∀ n ∈ c.namespaces, n.name = "" → n.parent = none

namespace Contents.Nested

variable {c c' : Contents}

theorem empty : ({} : Contents).Nested := ⟨by simp, by simp, by simp⟩

/-- Rows of other kinds make no difference. -/
theorem frame (h : c.Nested) (hspaces : c'.namespaces = c.namespaces)
    (hrows : ∀ i d, (i, .documented d) ∈ c'.named ↔ (i, .documented d) ∈ c.named) : c'.Nested where
  container i d hd j hj := by
    obtain ⟨hlt, e, he⟩ := h.container i d ((hrows i d).mp hd) j hj
    exact ⟨hlt, e, (hrows j e).mpr he⟩
  home i d hd := hspaces ▸ h.home i d ((hrows i d).mp hd)
  root := hspaces ▸ h.root

theorem addNamespace (h : c.Nested) {n : Namespace} (hn : n.name = "" → n.parent = none) :
    Nested { c with namespaces := c.namespaces ++ [n] } where
  container := h.container
  home i d hd := mem_map_append_left (h.home i d hd)
  root := forall_mem_concat h.root hn

theorem addOther (h : c.Nested) {i : TypeId} {a : NamedType} (ha : a.documented? = none) :
    Nested { c with named := c.named ++ [(i, a)] } := by
  refine h.frame rfl fun j d => ?_
  rw [List.mem_append, List.mem_singleton, or_iff_left]
  rintro ⟨⟩
  cases ha

theorem addDocumented (h : c.Nested) (hcount : Counted (c.named.map (·.1))) {d : Documented}
    (hhome : d.home ∈ c.namespaces.map (·.id))
    (hcontainer : ∀ j, d.container = some j → ∃ e, (j, .documented e) ∈ c.named) :
    Nested { c with named := c.named ++ [(⟨c.named.length + 1⟩, .documented d)] } where
  container i e he j hj := by
    have hfound : j.value < i.value ∧ ∃ e, (j, NamedType.documented e) ∈ c.named := by
      rcases List.mem_append.mp he with he | he
      · exact h.container i e he j hj
      · cases List.mem_singleton.mp he
        obtain ⟨o, ho⟩ := hcontainer j hj
        have hle := hcount.value_le_length (List.mem_map_of_mem ho)
        exact ⟨Nat.lt_succ_of_le hle, o, ho⟩
    obtain ⟨hlt, o, ho⟩ := hfound
    exact ⟨hlt, o, List.mem_append_left _ ho⟩
  home i e he := by
    rcases List.mem_append.mp he with he | he
    · exact h.home i e he
    · cases List.mem_singleton.mp he
      exact hhome
  root := h.root

theorem replaceExternal (h : c.Nested) (hn : (c.named.map (·.1)).Nodup) {id : TypeId} {x y : External}
    (hx : (id, .external x) ∈ c.named) : Nested { c with named := replaceRow id (.external y) c.named } := by
  refine h.frame rfl fun i d => ?_
  rw [mem_replaceRow]
  constructor
  · rintro (⟨-, hd⟩ | ⟨heq, -⟩)
    · exact hd
    · cases heq
  · intro hd
    refine .inl ⟨?_, hd⟩
    rintro rfl
    cases List.inj_on_of_nodup_map hn hd hx rfl

end Contents.Nested

namespace Session

/-- A session whose types, stored or not, have their type parameters and stand where they say. -/
structure Seated (s : Session) (stored all : Contents) : Prop extends Ledger s stored all where
  storedNested : stored.Nested
  nested : all.Nested

variable {s t : Session} {c f : Contents}

namespace Seated

theorem ensureNamespace (h : s.Seated c f) {name : String} {id : NamespaceId}
    (ha : s.ensureNamespace name = .ok (id, t)) : (∃ f, t.Seated c f) ∧ t.findNamespace name = some id := by
  have hstep : ∀ s m parent id t, (∃ f, Seated s c f) → m ∈ name :: outerNamespaces name → s.findNamespace m = none →
      s.Under m parent → s.addNamespace m parent = .ok (id, t) → ∃ f, t.Seated c f := by
    rintro u m parent i v ⟨g, hg⟩ - - hunder hv
    refine ⟨_, { hg.toLedger.addNamespace hv with
      storedNested := hg.storedNested
      nested := hg.nested.addNamespace fun hroot => ?_ }⟩
    unfold Under at hunder
    rwa [if_pos hroot] at hunder
  obtain ⟨ht, hfound, -⟩ := ensureWithin_nested hstep rfl ⟨f, h⟩ ha
  exact ⟨ht, hfound⟩

theorem ensureNamespaces {s : Session} {f : Contents} (h : s.Seated c f) {names : List String}
    {ids : List NamespaceId} (ha : s.ensureNamespaces names = .ok (ids, t)) : (∃ f, t.Seated c f) ∧ s.Grows t := by
  induction names generalizing s f ids with
  | nil =>
    cases ha
    exact ⟨⟨f, h⟩, .refl _⟩
  | cons name names ih =>
    unfold Session.ensureNamespaces at ha
    obtain ⟨⟨id, u⟩, hu, ha⟩ := bind_eq_ok.mp ha
    obtain ⟨⟨rest, v⟩, hv, ha⟩ := bind_eq_ok.mp ha
    cases ha
    obtain ⟨⟨g, hg⟩, -⟩ := h.ensureNamespace hu
    obtain ⟨ht, hgrows⟩ := ih hg hv
    exact ⟨ht, (grows_ensureNamespace hu).trans hgrows⟩

theorem withGlobal (h : s.Seated c f) (hg : s.withGlobal = .ok t) : ∃ f, t.Seated c f := by
  obtain ⟨-, id, u, hu, rfl⟩ := withGlobal_ok hg
  obtain ⟨⟨g, hg⟩, -⟩ := h.ensureNamespace hu
  exact ⟨g, { hg with }⟩

theorem addSourceFile (h : s.Seated c f) {path : Path} {usings : List NamespaceId} {id : FileId}
    (ha : s.addSourceFile path usings = .ok (id, t)) : ∃ f, t.Seated c f :=
  ⟨_, { h.toLedger.addSourceFile ha with
    storedNested := h.storedNested
    nested := h.nested.frame rfl fun _ _ => .rfl }⟩

theorem addOther (h : s.Seated c f) {a : NamedType} (hw : a.WellFormed) (ha : a.documented? = none) {id : TypeId}
    (hadd : s.addNamed a = .ok (id, t)) : ∃ f, t.Seated c f :=
  ⟨_, { h.toLedger.addNamed hw hadd with
    storedNested := h.storedNested
    nested := h.nested.addOther ha }⟩

/-- A type may be declared in a namespace and in a type that are there. -/
theorem addDocumented (h : s.Seated c f) {d : Documented} (hd : d.Declared)
    (hhome : ∃ name, s.findNamespace name = some d.home)
    (hcontainer : ∀ j, d.container = some j → s.isDocumented j = true) {id : TypeId}
    (ha : s.addDocumented d = .ok (id, t)) : ∃ f, t.Seated c f := by
  obtain ⟨name, hname⟩ := hhome
  obtain ⟨n, hn, -, hid⟩ := mem_of_findNamespace hname
  rw [h.namespaces] at hn
  exact ⟨_, { h.toLedger.addNamed (a := .documented d) hd ha with
    storedNested := h.storedNested
    nested := h.nested.addDocumented h.sound.named (hid ▸ List.mem_map_of_mem hn) fun j hj =>
      h.isDocumented_iff.mp (hcontainer j hj) }⟩

theorem isDocumented_addDocumented (h : s.Seated c f) {d : Documented} {id : TypeId}
    (ha : s.addDocumented d = .ok (id, t)) : t.isDocumented id = true ∧ s.isDocumented id = false := by
  obtain ⟨-, rfl, rfl⟩ := addNamed_ok ha
  have hnew : s.named? ⟨s.namedIds.used + 1⟩ = none := by
    cases hrow : s.named? ⟨s.namedIds.used + 1⟩ with
    | none => rfl
    | some a => exact absurd (named_le h.numbered.named hrow) (Nat.not_succ_le_self _)
  constructor
  · refine isDocumented_iff.mpr ⟨d, ?_⟩
    rw [named?_concat rfl, hnew, if_pos rfl]
    rfl
  · unfold isDocumented
    rw [hnew]
    rfl

/-- Every operation but the declaration of a type may be carried out on anything. -/
theorem mutate (h : s.Seated c f) (hm : s.Mutates t)
    (hnew : ∀ id, t.isDocumented id = true → s.isDocumented id = true) : ∃ c f, t.Seated c f := by
  cases hm with
  | ensureNamespace ha => exact ⟨c, (h.ensureNamespace ha).1⟩
  | addSourceFile ha => exact ⟨c, h.addSourceFile ha⟩
  | @addDocumented d id ha =>
    obtain ⟨ht, hs⟩ := h.isDocumented_addDocumented ha
    rw [hnew id ht] at hs
    cases hs
  | @addExternal name arity names id hn ha =>
    exact ⟨c, h.addOther (a := .external ⟨name, arity, .external, names⟩) hn rfl ha⟩
  | @addParameter declaring index name id ha =>
    exact ⟨c, h.addOther (a := .parameter ⟨name, declaring, index⟩) trivial rfl ha⟩
  | extendExternal ha =>
    obtain ⟨x, hx, hl⟩ := h.toLedger.extendExternal ha
    exact ⟨c, _, { hl with
      storedNested := h.storedNested
      nested := h.nested.replaceExternal h.sound.named.nodup (h.external_mem hx) }⟩
  | addTuple ha =>
    exact ⟨c, _, { h.toLedger.addTuple ha with
      storedNested := h.storedNested
      nested := (h.nested.addOther rfl).frame rfl fun _ _ => .rfl }⟩
  | addReference ha =>
    exact ⟨c, _, { h.toLedger.addReference ha with
      storedNested := h.storedNested
      nested := h.nested.frame rfl fun _ _ => .rfl }⟩
  | addUsage ha =>
    exact ⟨c, _, { h.toLedger.addUsage ha with
      storedNested := h.storedNested
      nested := h.nested.frame rfl fun _ _ => .rfl }⟩
  | ensureParameters ha =>
    obtain ⟨d, hd, -⟩ := ensureParameters_ok ha
    obtain ⟨ps, u, hu, hl, -⟩ := h.toLedger.ensureParameters hd
    rw [hu] at ha
    cases ha
    exact ⟨c, f, { hl with storedNested := h.storedNested, nested := h.nested }⟩
  | save ha => exact ⟨f, f, { h.toLedger.save ha with storedNested := h.nested, nested := h.nested }⟩

theorem findDocumented (h : s.Seated c f) {name : String} {arity : Nat} {id : TypeId}
    (hid : s.findDocumented name arity = some id) : s.isDocumented id = true := by
  obtain ⟨d, hd, -⟩ := mem_of_findDocumented hid
  exact isDocumented_iff.mpr ⟨d, h.named?_eq.mpr hd⟩

end Seated

/-- Opening a store shows the types that are stored there. -/
theorem seated_openStore {store : Store} (hh : store.database.Holds c) (hs : c.Sound) (hl : store.database.Linked)
    (hn : c.Nested) (h : openStore store = .ok t) : ∃ c f, t.Seated c f := by
  obtain ⟨hb, hglobal⟩ := (openStore_iff hh hs.toRegular hl).mp h
  have hopened : (opened store c).Seated c c :=
    { ledger_opened hh hs hl hb with storedNested := hn, nested := hn }
  exact ⟨c, hopened.withGlobal hglobal⟩

end Session

namespace Declarations

open Session

variable {s t : Session} {c f : Contents} {file : FileId} {container id? : Option TypeId} {x : Cursor}

theorem seated_enterType (h : s.Seated c f) (hcontainer : ∀ j, container = some j → s.isDocumented j = true)
    (he : enterType file container x s = .ok (id?, t)) :
    (∃ f, t.Seated c f) ∧ s.Grows t ∧ ∀ j, id? = some j → t.isDocumented j = true := by
  unfold enterType at he
  split at he
  · dsimp only at he
    split at he
    · next id hid =>
      cases he
      refine ⟨⟨f, h⟩, .refl s, ?_⟩
      rintro j ⟨⟩
      exact h.findDocumented hid
    · obtain ⟨⟨home, u⟩, hu, he⟩ := bind_eq_ok.mp he
      obtain ⟨⟨id, v⟩, hv, he⟩ := bind_eq_ok.mp he
      cases he
      obtain ⟨⟨g, hg⟩, hhome⟩ := h.ensureNamespace hu
      have hgrows := grows_ensureNamespace hu
      refine ⟨hg.addDocumented ⟨_, rfl, x.map_ordinal_typeParameters⟩ ⟨_, hhome⟩ ?_ hv,
        hgrows.trans (grows_addNamed hv), ?_⟩
      · exact fun j hj => isDocumented_of_grows (hcontainer j hj) hgrows
      · rintro j ⟨⟩
        exact (hg.isDocumented_addDocumented hv).1
  · cases he
    exact ⟨⟨f, h⟩, .refl s, by simp⟩

/-- The pass over a tree declares types in types that are there. -/
theorem walk_seated (c : Contents) (file : FileId) : Walk file (fun _ => True)
    (fun _ container s => (∃ f, s.Seated c f) ∧ ∀ j, container = some j → s.isDocumented j = true)
    (fun s _ t => (∃ f, t.Seated c f) ∧ s.Grows t) where
  stay hc := ⟨hc.1, .refl _⟩
  trans hst htv := ⟨htv.1, hst.2.trans htv.2⟩
  keep hc hst := ⟨hst.1, fun j hj => isDocumented_of_grows (hc.2 j hj) hst.2⟩
  space _ _ hc hown := by
    obtain ⟨⟨f, hf⟩, hcontainer⟩ := hc
    obtain ⟨⟨ids, v⟩, hnames, hown⟩ := bind_eq_ok.mp hown
    cases hown
    obtain ⟨ht, hgrows⟩ := hf.ensureNamespaces hnames
    exact ⟨⟨ht, hgrows⟩, ht, fun j hj => isDocumented_of_grows (hcontainer j hj) hgrows⟩
  type _ _ hc hown := by
    obtain ⟨⟨f, hf⟩, hcontainer⟩ := hc
    obtain ⟨ht, hgrows, hid⟩ := seated_enterType hf hcontainer hown
    refine ⟨⟨ht, hgrows⟩, ht, fun j hj => ?_⟩
    rcases Option.or_eq_some_iff.mp hj with hj | ⟨-, hj⟩
    · exact hid j hj
    · exact isDocumented_of_grows (hcontainer j hj) hgrows
  other _ _ _ hc := ⟨⟨hc.1, .refl _⟩, hc⟩

end Declarations

namespace Session

variable {s t : Session} {c f : Contents}

theorem Seated.catalog (h : s.Seated c f) {u : SourceUnit} {outcome : Outcome}
    (hc : u.catalog s = .ok (outcome, t)) : ∃ f, t.Seated c f := by
  unfold SourceUnit.catalog at hc
  split at hc
  · cases hc
    exact ⟨f, h⟩
  · obtain ⟨⟨usings, v⟩, hv, hc⟩ := bind_eq_ok.mp hc
    obtain ⟨⟨file, w⟩, hw, hc⟩ := bind_eq_ok.mp hc
    obtain ⟨⟨types, x⟩, hx, hc⟩ := bind_eq_ok.mp hc
    cases hc
    obtain ⟨⟨g, hg⟩, -⟩ := h.ensureNamespaces hv
    exact ((Declarations.walk_seated c file).visit u.root hx (fun _ _ => trivial) ⟨hg.addSourceFile hw, by simp⟩).1

/-- A session in memory or over a store, after any operations and after opening again what was stored. All types that
it documents were declared by files that were catalogued. -/
inductive Populated : Session → Prop
  | inMemory {s : Session} (h : inMemory = .ok s) : Populated s
  | create {s : Session} {path : Option Path} {readOnly : Bool}
      (h : openStore { database := {}, path, readOnly } = .ok s) : Populated s
  | mutate {s t : Session} (hs : Populated s) (h : s.Mutates t)
      (hnew : ∀ id, t.isDocumented id = true → s.isDocumented id = true) : Populated t
  | catalog {s t : Session} {u : SourceUnit} {outcome : Outcome} (hs : Populated s)
      (h : u.catalog s = .ok (outcome, t)) : Populated t
  | reopen {s t : Session} {store : Store} {path : Option Path} {readOnly : Bool} (hs : Populated s)
      (hstore : s.store = some store) (ho : openStore { store with path, readOnly } = .ok t) : Populated t

namespace Populated

theorem arises (h : s.Populated) : s.Arises := by
  induction h with
  | inMemory h => exact .inMemory h
  | create h => exact .create h
  | mutate _ h _ ih => exact ih.mutate h
  | catalog _ h ih => exact (ih.mutated (preserves_mutated.catalog .refl h)).1
  | reopen _ hstore ho ih => exact ih.reopen hstore ho

theorem seated (h : s.Populated) : ∃ c f, s.Seated c f := by
  induction h with
  | inMemory h =>
    have hempty : Seated { store := none } {} {} :=
      { ledger_empty with storedNested := Contents.Nested.empty, nested := Contents.Nested.empty }
    exact ⟨_, hempty.withGlobal h⟩
  | create h => exact seated_openStore holds_empty.1 holds_empty.2.1 holds_empty.2.2 Contents.Nested.empty h
  | mutate _ h hnew ih =>
    obtain ⟨c, f, hf⟩ := ih
    exact hf.mutate h hnew
  | catalog _ h ih =>
    obtain ⟨c, f, hf⟩ := ih
    exact ⟨c, hf.catalog h⟩
  | @reopen s t store path readOnly _ hstore ho ih =>
    obtain ⟨c, f, hf⟩ := ih
    obtain ⟨hholds, hlinked⟩ := hf.holds store hstore
    have hholds : ({ store with path, readOnly } : Store).database.Holds c := hholds
    exact seated_openStore hholds hf.storedSound hlinked hf.storedNested ho

/-- Any number of operations may be carried out, as long as they declare no type. -/
theorem mutated (h : s.Populated) (hm : s.Mutated t)
    (hnew : ∀ id, t.isDocumented id = true → s.isDocumented id = true) : t.Populated := by
  induction hm with
  | refl => exact h
  | @tail u t hrun hstep ih =>
    have harises := (h.arises.mutated hrun).1
    have hgrows := (harises.mutated (.single hstep)).2.toGrows
    have hsu := (h.arises.mutated hrun).2.toGrows
    refine .mutate (ih fun id hid => hnew id (isDocumented_of_grows hid hgrows)) hstep fun id hid => ?_
    exact isDocumented_of_grows (hnew id hid) hsu

/-- Requests declare types by cataloguing only. -/
theorem run (h : s.Populated) (hs : s.Sane) (r : Request) : (r.run s).2.Populated := by
  have hsame {t : Session} (hc : s.Continues t) : ∀ id, t.isDocumented id = true → s.isDocumented id = true :=
    fun id hid => hc.isDocumented hs.numbered ▸ hid
  obtain ⟨c, f, hl⟩ := hs.ledger
  cases r with
  | catalog u => exact Act.Leads.left (P := Populated) (Act.leads_perform (fun _ _ ht => h.catalog ht) fun _ _ => h)
  | analyze u container allowCreate x =>
    exact h.mutated (h.arises.mutated_of_acts (.analyze u container allowCreate x))
      (hsame (hs.continues_run (r := .analyze u container allowCreate x) trivial))
  | resolve chain a =>
    exact h.mutated (h.arises.mutated_of_acts (.resolve chain a)) (hsame (continues_resolve hs chain a))
  | use owner reference role member =>
    refine Act.Leads.left (P := Populated) (Act.leads_perform ?_ fun _ _ => h)
    exact fun _ _ ht => h.mutate (.addUsage ht) (hsame (continues_addUsage hl ht))
  | save =>
    refine Act.Leads.left (P := Populated) (Act.leads_perform ?_ fun _ _ => h)
    exact fun _ _ ht => h.mutate (.save ht) (hsame (continues_save hl ht))

end Populated

/-- Such are all sessions that the program comes to. -/
theorem Worked.populated (h : s.Worked) : s.Populated :=
  h.induction (fun _ => .inMemory) (fun _ _ _ => .create) (fun _ r hs _ ih => ih.run hs r)
    fun _ _ _ _ _ _ ih hstore ho => ih.reopen hstore ho

end Session

end TypeCatalog
