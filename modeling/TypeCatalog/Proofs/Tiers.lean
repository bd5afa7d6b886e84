import TypeCatalog.Proofs.FullNames
import TypeCatalog.Proofs.Visiting

namespace TypeCatalog

open Dotted

namespace Session

variable {s t : Session} {d : Documented} {id : TypeId} {name : String}

/-- A documented type stands in the type, or in the namespace, that its full name says. -/
inductive Stands (s : Session) (d : Documented) : Prop
  | type {j : TypeId} {e : Documented} (hcontainer : d.container = some j) (he : (j, .documented e) ∈ s.named)
      (hname : e.fullName = parent d.fullName)
  | space (hcontainer : d.container = none) (hhome : s.findNamespace (parent d.fullName) = some d.home)

/-- Namespaces stand in namespaces and types in types or namespaces as their names say, and no file imports the
global namespace. -/
structure Tiered (s : Session) : Prop where
  spaces : ∀ n ∈ s.namespaces, s.Under n.name n.parent
  types : ∀ id d, (id, .documented d) ∈ s.named → Proper d.fullName ∧ s.Stands d
  imports : ∀ f ∈ s.files, ∀ i ∈ f.usings, ∃ n ∈ s.namespaces, n.id = i ∧ n.name ≠ ""

/-! Cataloguing -/

theorem Under.mono {parent : Option NamespaceId} (h : s.Under name parent)
    (hfound : ∀ m i, s.findNamespace m = some i → t.findNamespace m = some i) : t.Under name parent := by
  unfold Under at h ⊢
  split
  · next hempty => rwa [if_pos hempty] at h
  · next hne =>
    rw [if_neg hne] at h
    obtain ⟨p, hp, hparent⟩ := h
    exact ⟨p, hp, hfound _ _ hparent⟩

theorem Stands.mono (h : s.Stands d) (hfound : ∀ m i, s.findNamespace m = some i → t.findNamespace m = some i)
    (hrows : s.named ⊆ t.named) : t.Stands d := by
  cases h with
  | type hcontainer he hname => exact .type hcontainer (hrows he) hname
  | space hcontainer hhome => exact .space hcontainer (hfound _ _ hhome)

namespace Tiered

theorem addUnder (h : s.Tiered) {parent : Option NamespaceId} {i : NamespaceId} (hunder : s.Under name parent)
    (ha : s.addNamespace name parent = .ok (i, t)) : t.Tiered := by
  have hfound (m : String) (j : NamespaceId) (hj : s.findNamespace m = some j) : t.findNamespace m = some j := by
    rw [findNamespace_addNamespace ha, hj, Option.some_or]
  obtain ⟨-, -, rfl⟩ := addNamespace_ok ha
  refine ⟨forall_mem_concat (fun n hn => (h.spaces n hn).mono hfound) (hunder.mono hfound), ?_, ?_⟩
  · intro id d hd
    obtain ⟨hproper, hstands⟩ := h.types id d hd
    exact ⟨hproper, hstands.mono hfound (List.Subset.refl _)⟩
  · intro f hf j hj
    obtain ⟨n, hn, hname⟩ := h.imports f hf j hj
    exact ⟨n, List.mem_append_left _ hn, hname⟩

theorem ensureNamespace (h : s.Tiered) {i : NamespaceId} (ha : s.ensureNamespace name = .ok (i, t)) :
    t.Tiered ∧ t.findNamespace name = some i := by
  obtain ⟨ht, hfound, -⟩ :=
    ensureWithin_nested (P := Tiered) (fun _ _ _ _ _ hs _ _ hunder hadd => hs.addUnder hunder hadd) rfl h ha
  exact ⟨ht, hfound⟩

theorem ensureNamespaces (h : s.Tiered) {names : List String} {ids : List NamespaceId}
    (ha : s.ensureNamespaces names = .ok (ids, t)) :
    t.Tiered ∧ s.namespaces ⊆ t.namespaces ∧ ∀ i ∈ ids, ∃ n ∈ t.namespaces, n.id = i ∧ n.name ∈ names := by
  induction names generalizing s ids with
  | nil =>
    cases ha
    exact ⟨h, List.Subset.refl _, by simp⟩
  | cons name names ih =>
    unfold Session.ensureNamespaces at ha
    obtain ⟨⟨i, u⟩, hu, ha⟩ := bind_eq_ok.mp ha
    obtain ⟨⟨rest, v⟩, hv, ha⟩ := bind_eq_ok.mp ha
    cases ha
    obtain ⟨hut, hfound⟩ := h.ensureNamespace hu
    obtain ⟨ht, hrows, hrest⟩ := ih hut hv
    have hspaces := List.Subset.trans (grows_ensureNamespace hu).namespaces.subset hrows
    refine ⟨ht, hspaces, List.forall_mem_cons.mpr ⟨?_, fun j hj => ?_⟩⟩
    · obtain ⟨n, hn, hname, hid⟩ := mem_of_findNamespace hfound
      exact ⟨n, hrows hn, hid, hname ▸ List.mem_cons_self⟩
    · obtain ⟨n, hn, hid, hname⟩ := hrest j hj
      exact ⟨n, hn, hid, List.mem_cons_of_mem _ hname⟩

theorem addDocumented (h : s.Tiered) (hproper : Proper d.fullName) (hstands : s.Stands d)
    (ha : s.addDocumented d = .ok (id, t)) : t.Tiered ∧ (id, .documented d) ∈ t.named := by
  obtain ⟨-, rfl, rfl⟩ := addNamed_ok ha
  refine ⟨⟨h.spaces, ?_, h.imports⟩, List.mem_append_right _ List.mem_cons_self⟩
  have hrows : s.named ⊆ s.named ++ [(⟨s.namedIds.used + 1⟩, NamedType.documented d)] := List.subset_append_left _ _
  intro i e he
  rcases List.mem_append.mp he with he | he
  · obtain ⟨hproper, hstands⟩ := h.types i e he
    exact ⟨hproper, hstands.mono (fun _ _ h => h) hrows⟩
  · cases List.mem_singleton.mp he
    exact ⟨hproper, hstands.mono (fun _ _ h => h) hrows⟩

end Tiered

theorem mem_of_findDocumented {arity : Nat} (h : s.findDocumented name arity = some id) :
    ∃ d, (id, .documented d) ∈ s.named ∧ d.fullName = name ∧ d.arity = arity := by
  obtain ⟨⟨i, a⟩, hr, rfl⟩ := Option.map_eq_some_iff.mp h
  have hmem := List.mem_of_find?_eq_some hr
  have hfound := List.find?_some hr
  cases a with
  | documented d => exact ⟨d, hmem, by simpa [NamedType.documented?] using hfound⟩
  | external _ | parameter _ | tuple _ => cases hfound

/-- The row of the type declaration around a place has its full name. -/
structure Contains (s : Session) (outer : Option Cursor) (container : Option TypeId) : Prop where
  none : outer = none → container = none
  type : ∀ o name, outer = some o → o.fullName? = some name →
    ∃ j e, container = some j ∧ (j, .documented e) ∈ s.named ∧ e.fullName = name

theorem Contains.mono {outer : Option Cursor} {container : Option TypeId} (h : s.Contains outer container)
    (hrows : s.named ⊆ t.named) : t.Contains outer container where
  none := h.none
  type o name ho hname := by
    obtain ⟨j, e, hj, he, hfull⟩ := h.type o name ho hname
    exact ⟨j, e, hj, hrows he, hfull⟩

end Session

namespace Declarations

open Session

variable {u : SourceUnit} {s t : Session} {c : Cursor} {file : FileId} {container : Option TypeId}

theorem tiered_enterType (hu : u.Tiered) (hs : s.Tiered) (hc : u.top.Within c) (htype : c.isTypeDeclaration = true)
    (hcontainer : s.Contains c.outerType? container) {id? : Option TypeId}
    (h : enterType file container c s = .ok (id?, t)) :
    t.Tiered ∧ s.named ⊆ t.named ∧ ∀ name, c.fullName? = some name →
      ∃ j e, id? = some j ∧ (j, .documented e) ∈ t.named ∧ e.fullName = name := by
  unfold enterType at h
  split at h
  · next declKind own fullName _ _ hfull =>
    dsimp only at h
    split at h
    · next id hid =>
      cases h
      refine ⟨hs, List.Subset.refl _, fun name hname => ?_⟩
      cases hfull.symm.trans hname
      obtain ⟨d, hd, hfullName, -⟩ := mem_of_findDocumented hid
      exact ⟨id, d, rfl, hd, hfullName⟩
    -- a new row stands in the row of the type around it, or else in the namespace of its name
    · obtain ⟨⟨home, v⟩, hv, h⟩ := bind_eq_ok.mp h
      obtain ⟨⟨id, w⟩, hw, h⟩ := bind_eq_ok.mp h
      cases h
      obtain ⟨hvt, hhome⟩ := hs.ensureNamespace hv
      obtain ⟨hnamed, -⟩ := frame_ensureNamespace hv
      have hsv : s.named ⊆ v.named := hnamed ▸ List.Subset.refl _
      obtain ⟨ht, hmem⟩ := hvt.addDocumented (hu.proper_fullName hc htype hfull) (by
        cases ho : c.outerType? with
        | none =>
          refine .space (hcontainer.none ho) ?_
          rw [hu.parent_fullName_outermost hc htype hfull ho]
          exact hhome
        | some o =>
          obtain ⟨j, e, hj, he, hname⟩ := hcontainer.type o _ ho (hu.parent_fullName_nested hc htype hfull ho)
          exact .type hj (hsv he) hname) hw
      refine ⟨ht, ?_, fun name hname => ?_⟩
      · obtain ⟨-, -, rfl⟩ := addNamed_ok hw
        exact List.Subset.trans hsv (List.subset_append_left _ _)
      · cases hfull.symm.trans hname
        exact ⟨id, _, rfl, hmem, rfl⟩
  · next hnone =>
    cases h
    refine ⟨hs, List.Subset.refl _, fun name hname => ?_⟩
    obtain ⟨kind, hkind⟩ := Option.isSome_iff_exists.mp (Cursor.declKind_isSome htype)
    obtain ⟨own, hown⟩ := Option.isSome_iff_exists.mp (Cursor.declaredName?_of_fullName? hname)
    exact (hnone kind own name hkind hown hname).elim

/-- The types of a tree are catalogued in the tiers that they are written in. -/
theorem walk_tiered (hu : u.Tiered) (file : FileId) : Walk file u.top.Within
    (fun above container s => s.Tiered ∧ s.Contains (Cursor.typeAlong? above) container)
    (fun s _ t => t.Tiered ∧ s.named ⊆ t.named) where
  stay hc := ⟨hc.1, List.Subset.refl _⟩
  trans hst htv := ⟨htv.1, List.Subset.trans hst.2 htv.2⟩
  keep hc hst := ⟨hst.1, hc.2.mono hst.2⟩
  space {s t c container} _ hns hc hown := by
    obtain ⟨⟨ids, v⟩, hnames, hown⟩ := bind_eq_ok.mp hown
    cases hown
    have ht := (hc.1.ensureNamespaces hnames).1
    obtain ⟨hnamed, -⟩ := frame_ensureNamespaces hnames
    have hrows : s.named ⊆ t.named := hnamed ▸ List.Subset.refl _
    rw [Cursor.typeAlong?_trail, if_neg (by simp [Cursor.not_typeDeclaration hns])]
    exact ⟨⟨ht, hrows⟩, ht, hc.2.mono hrows⟩
  type {s t c container id?} hself htype hc hown := by
    obtain ⟨ht, hrows, hfull⟩ := tiered_enterType hu hc.1 hself htype hc.2 hown
    rw [Cursor.typeAlong?_trail, if_pos htype]
    refine ⟨⟨ht, hrows⟩, ht, nofun, ?_⟩
    rintro o name ⟨⟩ hname
    obtain ⟨j, e, hj, he⟩ := hfull name hname
    exact ⟨j, e, by rw [hj, Option.some_or], he⟩
  other {s c container} _ _ htype hc := by
    rw [Cursor.typeAlong?_trail, if_neg (by simp [htype])]
    exact ⟨⟨hc.1, List.Subset.refl _⟩, hc⟩

end Declarations

theorem SourceUnit.tiered_catalog {u : SourceUnit} {s t : Session} {outcome : Outcome} (hu : u.Tiered) (hs : s.Tiered)
    (h : u.catalog s = .ok (outcome, t)) : t.Tiered := by
  unfold catalog at h
  split at h
  · cases h
    exact hs
  · obtain ⟨⟨usings, v⟩, hv, h⟩ := bind_eq_ok.mp h
    obtain ⟨⟨file, w⟩, hw, h⟩ := bind_eq_ok.mp h
    obtain ⟨⟨types, x⟩, hx, h⟩ := bind_eq_ok.mp h
    cases h
    obtain ⟨hvt, -, husings⟩ := hs.ensureNamespaces hv
    have hwt : w.Tiered := by
      obtain ⟨-, -, rfl⟩ := Session.addSourceFile_ok hw
      refine ⟨hvt.spaces, fun id d hd => ?_, forall_mem_concat hvt.imports fun i hi => ?_⟩
      · obtain ⟨hproper, hstands⟩ := hvt.types id d hd
        exact ⟨hproper, hstands.mono (fun _ _ h => h) (List.Subset.refl _)⟩
      obtain ⟨n, hn, hid, hname⟩ := husings i hi
      refine ⟨n, hn, hid, ?_⟩
      rintro hempty
      rw [hempty] at hname
      obtain ⟨directive, hdirective, himported⟩ := List.mem_filterMap.mp hname
      exact hu.imported directive (Cursor.Within.self.of_mem_children (List.mem_filter.mp hdirective).1) himported
    refine ((Declarations.walk_tiered hu file).visit u.root hx (fun x hx => (Node.preorder_within hx).1) ?_).1
    exact ⟨hwt, fun _ => rfl, nofun⟩

/-! Other requests and opening again -/

namespace Session.Tiered

variable {s t : Session} {c f : Contents}

theorem continues (h : s.Tiered) (hst : s.Continues t) : t.Tiered := by
  have hfound (m : String) : t.findNamespace m = s.findNamespace m := by
    unfold findNamespace
    rw [hst.namespaces]
  refine ⟨?_, ?_, ?_⟩
  · intro n hn
    rw [hst.namespaces] at hn
    exact (h.spaces n hn).mono fun m i hi => (hfound m).trans hi
  · intro id d hd
    -- only the type parameters of the row may have changed
    obtain ⟨a, ha, hdevelops⟩ | hnone := hst.rows.mem_or hd
    · cases a with
      | documented e =>
        obtain ⟨ps, heq⟩ := hdevelops.documented
        cases heq
        obtain ⟨hproper, hstands⟩ := h.types id e ha
        refine ⟨hproper, ?_⟩
        cases hstands with
        | type hcontainer he hname =>
          obtain ⟨b, hb, hdevelops⟩ := hst.rows.mem he
          obtain ⟨qs, rfl⟩ := hdevelops.documented
          exact .type hcontainer hb hname
        | space hcontainer hhome => exact .space hcontainer ((hfound _).trans hhome)
      | external _ => cases hdevelops.documented?_none rfl
      | parameter _ => cases hdevelops.documented?_none rfl
      | tuple _ => cases hdevelops.documented?_none rfl
    · cases hnone
  · intro file hfile i hi
    rw [hst.files] at hfile
    rw [hst.namespaces]
    exact h.imports file hfile i hi

theorem withGlobal (h : s.Tiered) (hg : s.withGlobal = .ok t) : t.Tiered := by
  obtain ⟨-, id, u, hu, rfl⟩ := withGlobal_ok hg
  obtain ⟨hut, -⟩ := h.ensureNamespace hu
  refine ⟨hut.spaces, fun id d hd => ?_, hut.imports⟩
  obtain ⟨hproper, hstands⟩ := hut.types id d hd
  exact ⟨hproper, hstands.mono (fun _ _ h => h) (List.Subset.refl _)⟩

theorem of_nil (hspaces : s.namespaces = []) (htypes : s.named = []) (hfiles : s.files = []) : s.Tiered :=
  ⟨by simp [hspaces], by simp [htypes], by simp [hfiles]⟩

section

variable {store : Store}

theorem stored_namespaces (hc : s.Coherent c f) : c.namespaces <+: s.namespaces := by
  obtain ⟨new, hnew, -⟩ := hc.pending.namespaces
  exact ⟨new, (hc.namespaces.trans hnew).symm⟩

theorem mem_stored_namespaces (hc : s.Coherent c f) {n : Namespace} (hi : n.id ∈ c.namespaces.map (·.id))
    (hn : n ∈ s.namespaces) : n ∈ c.namespaces := by
  obtain ⟨m, hm, hid⟩ := List.mem_map.mp hi
  rwa [← List.inj_on_of_nodup_map hc.numbered.namespaces.nodup ((stored_namespaces hc).subset hm) hn hid]

theorem findNamespace_opened (hc : s.Coherent c f) {m : String} {i : NamespaceId}
    (hm : m ∈ c.namespaces.map (·.name)) (hi : s.findNamespace m = some i) :
    (Session.opened store c).findNamespace m = some i := by
  obtain ⟨n, hn, hname⟩ := List.mem_map.mp hm
  obtain ⟨r, hr⟩ : ∃ r, c.namespaces.find? (·.name == m) = some r := by
    rw [← Option.isSome_iff_exists, List.find?_isSome]
    exact ⟨n, hn, by simpa using hname⟩
  unfold findNamespace at hi ⊢
  rw [(stored_namespaces hc).find?_eq_some hr] at hi
  exact (congrArg (Option.map (·.id)) hr).trans hi

theorem documented_stored (hc : s.Coherent c f) {i : TypeId} {d : Documented} (hd : (i, .documented d) ∈ c.named) :
    ∃ ps, (i, .documented { d with parameters := ps }) ∈ s.named := by
  obtain ⟨old, new, hall, -, hold⟩ := hc.pending.named
  obtain ⟨a, ha, hawaits⟩ := hold.mem hd
  obtain rfl : a = _ := hawaits
  obtain ⟨shown, hshown, ps, rfl⟩ := hc.rows.mem (hall ▸ List.mem_append_left new ha : (i, _) ∈ f.named)
  exact ⟨ps, hshown⟩

/-- What is stored of a tiered session is tiered, since all links of stored rows lead to stored rows. -/
theorem opened (h : s.Tiered) (hc : s.Coherent c f) : (opened store c).Tiered := by
  refine ⟨?_, ?_, ?_⟩
  · intro n hn
    have hunder := h.spaces n ((stored_namespaces hc).subset hn)
    unfold Under at hunder ⊢
    split
    · next hempty => rwa [if_pos hempty] at hunder
    · next hne =>
      rw [if_neg hne] at hunder
      obtain ⟨p, hp, hparent⟩ := hunder
      refine ⟨p, hp, findNamespace_opened hc (hc.storedCoherent.outer n hn _ ?_) hparent⟩
      rw [(outerNamespaces_of_ne hne).1]
      exact List.mem_cons_self
  · intro id d hd
    obtain ⟨⟨i, a⟩, ha, heq⟩ := List.mem_map.mp hd
    cases a with
    | documented e =>
      cases heq
      obtain ⟨ps, hshown⟩ := documented_stored hc ha
      obtain ⟨hproper, hstands⟩ := h.types i _ hshown
      refine ⟨hproper, ?_⟩
      cases hstands with
      | @type j x hcontainer he hname =>
        obtain ⟨y, hy⟩ := hc.storedCoherent.container i e ha j hcontainer
        obtain ⟨qs, hshown'⟩ := documented_stored hc hy
        cases List.inj_on_of_nodup_map hc.numbered.named.nodup he hshown' rfl
        exact .type hcontainer (List.mem_map_of_mem hy) hname
      | space hcontainer hhome =>
        obtain ⟨n, hn, hname, hid⟩ := mem_of_findNamespace hhome
        have hlinks := hc.storedCoherent.linked.named _ ha
        have hmem := mem_stored_namespaces hc (hid ▸ hlinks.1) hn
        exact .space hcontainer (findNamespace_opened hc (hname ▸ List.mem_map_of_mem hmem) hhome)
    | external _ => cases heq
    | parameter _ => cases heq
    | tuple _ => cases heq
  · intro file hfile i hi
    obtain ⟨new, hnew, -⟩ := hc.pending.files
    have hmem : file ∈ s.files := by
      rw [hc.files, hnew]
      exact List.mem_append_left _ hfile
    obtain ⟨n, hn, hid, hname⟩ := h.imports file hmem i hi
    exact ⟨n, mem_stored_namespaces hc (hid ▸ hc.storedCoherent.linked.imported file hfile i hi) hn, hid, hname⟩

end

theorem reopen (h : s.Tiered) (hs : s.Sane) {store : Store} (hstore : s.store = some store) {path : Option Path}
    {readOnly : Bool} (ho : openStore { store with path, readOnly } = .ok t) : t.Tiered := by
  obtain ⟨-, c, f, hc⟩ := hs
  obtain ⟨hholds, hlinked⟩ := hc.holds store hstore
  have hholds : ({ store with path, readOnly } : Store).database.Holds c := hholds
  obtain ⟨-, hg⟩ := (openStore_iff hholds hc.storedSound.toRegular hlinked).mp ho
  exact (h.opened hc).withGlobal hg

end Session.Tiered

/-! The sessions of the program -/

namespace Session

variable {s t : Session} {P : SourceUnit → Prop}

/-- A session that the program has come to as in `Worked`, where all files that were catalogued have the property
`P`. Scans are sequences of requests. -/
inductive WorkedOn (P : SourceUnit → Prop) : Session → Prop
  | inMemory {s : Session} (h : inMemory = .ok s) : WorkedOn P s
  | create {s : Session} {path : Option Path} {readOnly : Bool}
      (h : openStore { database := {}, path, readOnly } = .ok s) : WorkedOn P s
  | request {s : Session} {r : Request} (hs : WorkedOn P s) (hr : r.Grounded s) (hu : ∀ u, r = .catalog u → P u) :
      WorkedOn P (r.run s).2
  | reopen {s t : Session} {store : Store} {path : Option Path} {readOnly : Bool} (hs : WorkedOn P s)
      (hstore : s.store = some store) (ho : openStore { store with path, readOnly } = .ok t) : WorkedOn P t

namespace WorkedOn

theorem worked (h : s.WorkedOn P) : s.Worked := by
  induction h with
  | inMemory h => exact .inMemory h
  | create h => exact .create h
  | request _ hr _ ih => exact ih.request hr
  | reopen _ hstore ho ih => exact ih.reopen hstore ho

theorem quiet (hs : s.WorkedOn P) {r : Request} (hq : r.Quiet) (hr : r.Grounded s) : (r.run s).2.WorkedOn P := by
  refine hs.request hr ?_
  rintro u rfl
  exact hq.elim

theorem tiered (h : s.WorkedOn P) (hP : ∀ u, P u → u.Tiered) : s.Tiered := by
  induction h with
  | inMemory h => exact (Tiered.of_nil rfl rfl rfl).withGlobal h
  | create h =>
    have hopen := (openStore_iff holds_empty.1 holds_empty.2.1.toRegular holds_empty.2.2).mp h
    exact (Tiered.of_nil rfl rfl rfl).withGlobal hopen.2
  | @request s r hs hr hu ih =>
    by_cases hq : r.Quiet
    · exact ih.continues (hs.worked.sane.continues_run hq)
    · cases r with
      | catalog u =>
        refine Act.Leads.left (P := Tiered) (Act.leads_perform ?_ fun _ _ => ih)
        exact fun _ _ ht => SourceUnit.tiered_catalog (hP u (hu u rfl)) ih ht
      | analyze | resolve | use | save => exact (hq trivial).elim
  | reopen hs hstore ho ih => exact ih.reopen hs.worked.sane hstore ho

end WorkedOn

end Session

/-! Scans -/

namespace Scan

open Act Session

variable {P : SourceUnit → Prop} {allowCreate : Bool} {s : Session} {u : SourceUnit} {owner : TypeId} {m : Summary}

theorem leads_resolveSite_workedOn (hs : s.WorkedOn P) {c : Cursor} :
    (resolveSite allowCreate u owner c).Leads s (fun _ t => t.WorkedOn P) fun _ t => t.WorkedOn P := by
  have hrequest {ε α : Type} {a : Act ε α} {t v : Session} {x : Except ε α} {r : Request} (ht : t.WorkedOn P)
      (hq : r.Quiet) (hr : r.Grounded t) (hrun : (r.run t).2 = (a.outcome t).2) (h : a.outcome t = (x, v)) :
      v.WorkedOn P := by
    have hnext := ht.quiet hq hr
    rwa [hrun, h] at hnext
  unfold resolveSite
  apply leads_bind
  apply leads_mapError
  refine leads_outcome.mono (fun a t ha => ?_) fun e t ha => ?_
  · have ht := hrequest hs (r := .analyze u owner allowCreate c) trivial trivial rfl ha
    apply leads_mapError
    exact leads_outcome.mono (fun _ v hv => hrequest ht (r := .resolve .standard a) trivial trivial rfl hv)
      fun _ v hv => hrequest ht (r := .resolve .standard a) trivial trivial rfl hv
  · exact hrequest hs (r := .analyze u owner allowCreate c) trivial trivial rfl ha

theorem leads_record_workedOn (hs : s.WorkedOn P) (howner : s.isDocumented owner = true) {site : Site} :
    (record allowCreate u owner m site).Leads s (fun _ t => t.WorkedOn P ∧ t.isDocumented owner = true)
      fun _ t => t.WorkedOn P := by
  unfold record
  apply leads_bind
  apply leads_attempt
  refine ((leads_resolveSite_workedOn hs).and ((leads_resolveSite hs.worked.sane).and leads_outcome)).mono ?_ ?_
  · rintro root t ⟨ht, ⟨hst, hroot⟩, -⟩
    have hdoc := isDocumented_of_grows howner (hs.worked.sane.follows hst).2
    obtain ⟨d, hd⟩ := isDocumented_iff.mp hdoc
    apply leads_bind
    refine leads_perform (fun id v hv => ?_) fun _ _ => ht
    have hnext := ht.quiet (r := .use owner root site.role site.member) trivial ⟨⟨_, hd⟩, hroot⟩
    rw [Request.run, outcome_perform, hv] at hnext
    exact leads_pure ⟨hnext, isDocumented_of_grows hdoc (grows_addUsage hv)⟩
  · rintro e t ⟨ht, ⟨hst, -⟩, -⟩
    dsimp only
    split
    · exact leads_pure ⟨ht, isDocumented_of_grows howner (hs.worked.sane.follows hst).2⟩
    · exact leads_throw ht

theorem leads_references_workedOn (hs : s.WorkedOn P) :
    (references allowCreate m u).Leads s (fun _ t => t.WorkedOn P) fun _ t => t.WorkedOn P := by
  refine leads_foldlM (fun m' t decl _ ht => ?_) hs
  unfold declaration
  apply leads_get_bind
  split
  · exact leads_pure ht
  · next owner howner =>
    obtain ⟨name, -, hname⟩ := Option.bind_eq_some_iff.mp howner
    have hsites : (decl.sites.foldlM (record allowCreate u owner) m').Leads t
        (fun _ v => v.WorkedOn P ∧ v.isDocumented owner = true) fun _ v => v.WorkedOn P :=
      leads_foldlM (fun m'' v site _ hv => leads_record_workedOn hv.1 hv.2) ⟨ht, ht.worked.sane.findDocumented hname⟩
    exact hsites.mono (fun _ _ h => h.1) fun _ _ h => h

/-- A scan of files with a property leads to a session in which only files with it were catalogued. -/
theorem leads_units_workedOn (hs : s.WorkedOn P) {us : List SourceUnit} (hus : ∀ u ∈ us, P u) :
    (units allowCreate m us).Leads s (fun _ t => t.WorkedOn P) fun _ t => t.WorkedOn P := by
  have hfirst : (us.foldlM (fun r u => declarations r.1 r.2 u) (m, [])).Leads s
      (fun _ t => t.WorkedOn P) fun _ t => t.WorkedOn P := by
    refine leads_foldlM (fun x t u hu ht => ?_) hs
    have hcatalog : ∀ outcome v, u.catalog t = .ok (outcome, v) → v.WorkedOn P := by
      intro outcome v hv
      have hnext := ht.request (r := .catalog u) trivial (by rintro _ ⟨⟩; exact hus u hu)
      rwa [Request.run, outcome_perform, hv] at hnext
    unfold declarations
    apply leads_bind
    refine leads_perform (fun outcome v hv => ?_) fun _ _ => ht
    cases outcome <;> exact leads_pure (hcatalog _ v hv)
  have hsecond {t : Session} {m : Summary} {fresh : List SourceUnit} (ht : t.WorkedOn P) :
      (fresh.foldlM (references allowCreate) m).Leads t (fun _ v => v.WorkedOn P) fun _ v => v.WorkedOn P :=
    leads_foldlM (fun _ v u _ hv => leads_references_workedOn hv) ht
  unfold units
  apply leads_bind
  refine hfirst.mono ?_ fun _ _ h => h
  rintro ⟨m', fresh⟩ t ht
  apply leads_get_bind
  apply leads_bind
  refine (hsecond ht).mono ?_ fun _ _ h => h
  rintro m'' v hv
  apply leads_get_bind
  exact leads_pure hv

end Scan

end TypeCatalog
