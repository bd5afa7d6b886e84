import TypeCatalog.Proofs.Cataloguing
import TypeCatalog.Proofs.Resolvable
import TypeCatalog.Proofs.Sites

namespace TypeCatalog

theorem mapM_eq_error {ε α β : Type} {f : α → Except ε β} {xs : List α} {e : ε} (h : xs.mapM f = .error e) :
    ∃ x ∈ xs, f x = .error e := by
  induction xs with
  | nil => cases h
  | cons x xs ih =>
    rw [List.mapM_cons] at h
    obtain h | ⟨y, -, h⟩ := bind_eq_error.mp h
    · exact ⟨x, List.mem_cons_self, h⟩
    · obtain h | ⟨ys, -, h⟩ := bind_eq_error.mp h
      · obtain ⟨z, hz, h⟩ := ih h
        exact ⟨z, List.mem_cons_of_mem x hz, h⟩
      · cases h

theorem Dotted.intercalate_concat {names : List String} {name : String} (h : "" ∉ names) :
    ".".intercalate (names ++ [name]) = within (".".intercalate names) name := by
  unfold within
  cases names with
  | nil => simp
  | cons first rest =>
    have hfirst : first ≠ "" := by
      rintro rfl
      exact h List.mem_cons_self
    have hne : ".".intercalate (first :: rest) ≠ "" := by
      intro hempty
      cases rest with
      | nil =>
        rw [String.intercalate_singleton] at hempty
        exact hfirst hempty
      | cons second rest =>
        rw [String.intercalate_cons_cons, String.append_eq_empty_iff, String.append_eq_empty_iff] at hempty
        exact hfirst hempty.1.1
    rw [String.intercalate_append_of_ne_nil (by simp) (by simp), String.intercalate_singleton, if_neg (by simpa using hne)]

/-- An error that only the written type is to blame for. -/
def AnalyzeError.Syntactic (e : AnalyzeError) : Prop :=
  e.code ∈ ["UNSUPPORTED_NODE", "TYPE_TOO_DEEP", "NAME_RESOLUTION_FAILED"]

namespace Session

variable {s : Session}

theorem Sane.findNamespace_enclosing (hs : s.Sane) {name : String} (h : (s.findNamespace name).isSome = true)
    {outer : String} (ho : outer ∈ Dotted.enclosing name) : (s.findNamespace outer).isSome = true := by
  obtain ⟨-, c, f, hc⟩ := hs
  obtain ⟨id, hid⟩ := Option.isSome_iff_exists.mp h
  obtain ⟨n, hn, rfl, -⟩ := hc.findNamespace_iff.mp hid
  have houter : outer ∈ outerNamespaces n.name := by
    unfold outerNamespaces
    dsimp only
    split
    · exact ho
    · exact List.mem_append_left _ ho
  obtain ⟨m, hm, hname⟩ := List.mem_map.mp (hc.coherent.outer n hn outer houter)
  rw [hc.findNamespace_iff.mpr ⟨m, hm, hname, rfl⟩]
  rfl

end Session

namespace Analysis

open Cursor

/-- The full names that are worked out for nested blocks are those that the blocks are catalogued
under. -/
theorem blockNames_eq {blocks : List Cursor} (hn : Nested blocks) (hne : ∀ b ∈ blocks, b.namespaceName? ≠ some "") :
    blockNames (blocks.map namespaceName?) =
      blocks.map fun b => b.namespaceName?.map (Dotted.within b.namespaceOf) := by
  induction blocks with
  | nil => rfl
  | cons b blocks ih =>
    obtain ⟨hb, hn⟩ := hn
    obtain ⟨-, hne⟩ := List.forall_mem_cons.mp hne
    rw [List.map_cons, List.map_cons, blockNames, ih hn hne]
    congr 2
    funext name
    have hempty : "" ∉ (blocks.filterMap namespaceName?).reverse := by
      rw [List.mem_reverse, List.mem_filterMap]
      rintro ⟨a, ha, hname⟩
      exact hne a ha hname
    rw [List.filterMap_map, Function.id_comp, Dotted.intercalate_concat hempty, namespaceOf, hb]

/-- Of nested blocks the innermost one with a name has the full name of them all. -/
theorem exists_innermost_block {blocks : List Cursor} (hn : Nested blocks)
    (hne : ∀ b ∈ blocks, b.namespaceName? ≠ some "") (h : blocks.filterMap namespaceName? ≠ []) :
    ∃ b ∈ blocks, b.namespaceName?.map (Dotted.within b.namespaceOf) =
      some (".".intercalate (blocks.filterMap namespaceName?).reverse) := by
  induction blocks with
  | nil => exact (h rfl).elim
  | cons b blocks ih =>
    obtain ⟨hb, hn⟩ := hn
    obtain ⟨-, hne⟩ := List.forall_mem_cons.mp hne
    cases hown : b.namespaceName? with
    | none =>
      rw [List.filterMap_cons_none hown] at h ⊢
      obtain ⟨a, ha, hfull⟩ := ih hn hne h
      exact ⟨a, List.mem_cons_of_mem b ha, hfull⟩
    | some own =>
      refine ⟨b, List.mem_cons_self, ?_⟩
      have hempty : "" ∉ (blocks.filterMap namespaceName?).reverse := by
        rw [List.mem_reverse, List.mem_filterMap]
        rintro ⟨a, ha, hname⟩
        exact hne a ha hname
      rw [hown, List.filterMap_cons_some hown, List.reverse_cons, Dotted.intercalate_concat hempty, Option.map_some,
        namespaceOf, hb]

section

variable {u : SourceUnit} {s : Session} {c : Cursor} {e : AnalyzeError}

/-- A place stands in the global namespace, or in one that is declared around it. -/
theorem namespaceOf_eq_or (hu : u.Shaped) (hc : u.top.Within c) (hsolid : c.start < c.stop) :
    c.namespaceOf = "" ∨
      ∃ b ∈ c.enclosingNamespaces, b.namespaceName?.map (Dotted.within b.namespaceOf) = some c.namespaceOf := by
  have hne (b : Cursor) (hb : b ∈ c.enclosingNamespaces) : b.namespaceName? ≠ some "" := by
    obtain ⟨hmem, hns⟩ := hu.mem_enclosingNamespaces hc hb
    exact hu.name b (Node.preorder_within hmem).1 hns
  by_cases h : c.enclosingNamespaces.filterMap namespaceName? = []
  · unfold namespaceOf
    rw [h]
    exact .inl rfl
  · exact .inr (exists_innermost_block (hu.nested_enclosingNamespaces hc hsolid) hne h)

theorem isTypeDeclaration_of_isScopeDeclaration (h : c.isScopeDeclaration = true) : c.isTypeDeclaration = true := by
  unfold isScopeDeclaration at h
  unfold isTypeDeclaration
  simp only [List.contains_eq_mem, decide_eq_true_eq, List.mem_cons, List.not_mem_nil, or_false] at h ⊢
  rcases h with h | h | h | h | h <;> simp [h]

/-- The scope of a place and the types around that scope are types around the place. -/
theorem mem_enclosingTypes_of_scope {d : Cursor} (hplain : c.isTypeDeclaration = false)
    (h : c.innermostScope? = some d) : ∀ a ∈ d :: d.enclosingTypes, a ∈ c.enclosingTypes := by
  have htype : d.isTypeDeclaration = true := isTypeDeclaration_of_isScopeDeclaration (List.find?_some h)
  have hd : d ∈ c.enclosing := by
    rcases List.mem_cons.mp (List.mem_of_find?_eq_some h) with rfl | hd
    · rw [hplain] at htype
      cases htype
    · exact hd
  refine List.forall_mem_cons.mpr ⟨List.mem_filter.mpr ⟨hd, htype⟩, fun a ha => ?_⟩
  obtain ⟨ha, htype⟩ := List.mem_filter.mp ha
  have hsuffix := (mem_enclosing.mp ha).trans (List.suffix_cons d.node d.ancestors)
  exact List.mem_filter.mpr ⟨mem_enclosing.mpr (hsuffix.trans (mem_enclosing.mp hd)), htype⟩

theorem typeContext_error (hl : s.Lists c) (hc : c.isTypeDeclaration = true) (h : typeContext s c = .error e) :
    e.Syntactic := by
  unfold typeContext at h
  split at h
  · cases h
    exact List.mem_cons_self
  · next name hname =>
    obtain ⟨id, hid⟩ := Option.isSome_iff_exists.mp (hl.type hc name hname)
    rw [hid] at h
    cases h

theorem namespaceContext_ok {name : String} (h : (s.findNamespace name).isSome = true) :
    namespaceContext s name ≠ .error e := by
  obtain ⟨id, hid⟩ := Option.isSome_iff_exists.mp h
  unfold namespaceContext
  rw [hid]
  nofun

theorem findNamespace_blockLabels (hu : u.Shaped) (hs : s.Sane) (hr : s.Ready u) (hc : u.top.Within c)
    (hsolid : c.start < c.stop) :
    ∀ name ∈ (c.enclosingNamespaces.zip (blockNames (c.enclosingNamespaces.map namespaceName?))).flatMap
      (fun (block, name) => (name.map (blockLabels block)).getD []), (s.findNamespace name).isSome = true := by
  have hblock {b : Cursor} (hb : b ∈ c.enclosingNamespaces) := hu.mem_enclosingNamespaces hc hb
  have hne : ∀ b ∈ c.enclosingNamespaces, b.namespaceName? ≠ some "" :=
    fun b hb => hu.name b (Node.preorder_within (hblock hb).1).1 (hblock hb).2
  intro name hname
  have hzip (g : Cursor → Option String) :
      c.enclosingNamespaces.zip (c.enclosingNamespaces.map g) = c.enclosingNamespaces.map fun b => (b, g b) := by
    rw [← List.zip_map' (f := fun b => b), List.map_id']
  rw [blockNames_eq (hu.nested_enclosingNamespaces hc hsolid) hne, hzip] at hname
  obtain ⟨p, hp, hname⟩ := List.mem_flatMap.mp hname
  obtain ⟨b, hb, rfl⟩ := List.mem_map.mp hp
  obtain ⟨hmem, hns⟩ := hblock hb
  have hspace := (hr.lists b hmem).space hns
  dsimp only [id] at hname
  cases hown : b.namespaceName? with
  | none =>
    rw [hown] at hname
    cases hname
  | some own =>
    rw [hown] at hname hspace
    -- with the block its full name and its imports were entered, and with a name all those around it
    have hfull := hspace (Dotted.within b.namespaceOf own) List.mem_cons_self
    rcases List.mem_append.mp hname with hname | hname
    · rcases List.mem_cons.mp hname with rfl | hname
      · exact hfull
      · exact hspace name (List.mem_append_right _ hname)
    · exact hs.findNamespace_enclosing hfull hname

/-- Around a clear place everything is catalogued, so that its scopes fail only for a declaration around it. -/
theorem scopeContexts_fails (hu : u.Shaped) (hs : s.Sane) (hr : s.Ready u) (hc : u.Clear c)
    (hplain : c.isTypeDeclaration = false) (hsolid : c.start < c.stop) (h : scopeContexts s c = .error e) :
    ∃ a ∈ c.enclosing, a ∈ u.top.preorder ∧ a.isTypeDeclaration = true ∧ typeContext s a = .error e := by
  -- what namespace blocks bring in is always there, around the place itself and around its scope
  have hblocks {b : Cursor} (hb : b.trail <:+ c.trail) {f : List Context → List Context} {labels : List String}
      (hlabels : labels = (b.enclosingNamespaces.zip (blockNames (b.enclosingNamespaces.map namespaceName?))).flatMap
        fun (block, name) => (name.map (blockLabels block)).getD []) :
      (labels.mapM (namespaceContext s) >>= fun cs => pure (f cs)) ≠ .error e := by
    have hbw := hc.within.of_suffix rfl hb
    have hspan := hu.laid.span_above hc.within hb
    intro h
    obtain h | ⟨cs, -, h⟩ := bind_eq_error.mp h
    · obtain ⟨name, hname, h⟩ := mapM_eq_error h
      rw [hlabels] at hname
      exact namespaceContext_ok (findNamespace_blockLabels hu hs hr hbw (by omega) name hname) h
    · cases h
  unfold scopeContexts at h
  cases hanchor : c.innermostScope? with
  | none =>
    rw [hanchor] at h
    exact (hblocks List.suffix_rfl rfl h).elim
  | some d =>
    rw [hanchor] at h
    have hmem := mem_enclosingTypes_of_scope hplain hanchor
    obtain h | ⟨types, -, h⟩ := bind_eq_error.mp h
    · obtain ⟨a, ha, h⟩ := mapM_eq_error h
      obtain ⟨ha, htype⟩ := List.mem_filter.mp (hmem a ha)
      exact ⟨a, ha, hc.types a ha htype, htype, h⟩
    · obtain ⟨hd, -⟩ := List.mem_filter.mp (hmem d List.mem_cons_self)
      exact (hblocks ((mem_enclosing.mp hd).trans (List.suffix_cons _ _)) rfl h).elim

/-- Then the declaration has no full name. -/
theorem scopeContexts_error (hu : u.Shaped) (hs : s.Sane) (hr : s.Ready u) (hc : u.Clear c)
    (hplain : c.isTypeDeclaration = false) (hsolid : c.start < c.stop) (h : scopeContexts s c = .error e) :
    e.Syntactic := by
  obtain ⟨a, -, hmem, htype, h⟩ := scopeContexts_fails hu hs hr hc hplain hsolid h
  exact typeContext_error (hr.lists a hmem) htype h

end

/-- A computation that fails only because of the written type. -/
def Tame {α : Type} (m : Build α) : Prop := ∀ known e, m.run known = .error e → e.Syntactic

section

variable {α β : Type}

theorem tame_pure {a : α} : Tame (pure a : Build α) := by
  intro known e h
  cases h

theorem tame_throw {e : AnalyzeError} (he : e.Syntactic) : Tame (throw e : Build α) := by
  intro known d h
  cases h
  exact he

theorem tame_bind {m : Build α} {f : α → Build β} (hm : Tame m) (hf : ∀ a, Tame (f a)) : Tame (m >>= f) := by
  intro known e h
  rw [StateT.run_bind] at h
  obtain h | ⟨r, -, h⟩ := bind_eq_error.mp h
  · exact hm known e h
  · exact hf r.1 r.2 e h

theorem tame_lift {x : Except AnalyzeError α} (hx : ∀ e, x = .error e → e.Syntactic) : Tame (liftM x : Build α) := by
  intro known e h
  obtain h | ⟨a, -, h⟩ := bind_eq_error.mp h
  · exact hx e h
  · cases h

theorem tame_mapM {f : α → Build β} {xs : List α} (hf : ∀ x ∈ xs, Tame (f x)) : Tame (xs.mapM f) := by
  induction xs with
  | nil => exact tame_pure
  | cons x xs ih =>
    obtain ⟨hx, hxs⟩ := List.forall_mem_cons.mp hf
    rw [List.mapM_cons]
    exact tame_bind hx fun _ => tame_bind (ih hxs) fun _ => tame_pure

end

section

variable {u : SourceUnit} {s : Session} {fileContexts : List Context} {c d : Cursor}

theorem typeForm?_eq_none (h : c.isTypeDeclaration = true) : c.typeForm? = none := by
  unfold isTypeDeclaration at h
  unfold typeForm?
  generalize c.kind = kind at h
  simp only [List.contains_eq_mem, decide_eq_true_eq, List.mem_cons, List.not_mem_nil, or_false] at h
  rcases h with rfl | rfl | rfl | rfl | rfl | rfl | rfl <;> rfl

theorem not_typeDeclaration_of_typeForm? (h : c.typeForm?.isSome = true) : c.isTypeDeclaration = false := by
  rw [Bool.eq_false_iff]
  intro htype
  rw [typeForm?_eq_none htype] at h
  cases h

theorem clear_below (hc : u.Clear c) (hform : c.typeForm?.isSome = true) (hd : d ∈ c.children) : u.Clear d := by
  refine hc.child ?_ hd
  intro htype
  rw [not_typeDeclaration_of_typeForm? hform] at htype
  cases htype

theorem tame_contextsAt (h : ∀ e, scopeContexts s c = .error e → e.Syntactic) :
    Tame (contextsAt s fileContexts c) := by
  unfold contextsAt
  refine tame_bind (fun _ _ h => nomatch h) fun known => ?_
  cases known with
  | some contexts => exact tame_pure
  | none =>
    refine tame_bind (tame_lift ?_) fun _ => tame_bind (fun _ _ h => nomatch h) fun _ => tame_pure
    intro e he
    unfold lexicalContexts at he
    obtain he | ⟨cs, -, he⟩ := bind_eq_error.mp he
    · exact h e he
    · cases he

theorem not_broken_of_qualify {name : String} (h : c.qualify = .partially name) : c.node.isBroken = false := by
  unfold qualify at h
  split at h
  · cases h
  · next hbroken => exact Bool.eq_false_iff.mpr hbroken

theorem tame_nameOf (hu : u.Shaped) (hs : s.Sane) (hr : s.Ready u) (hc : u.Clear c)
    (hform : c.typeForm?.isSome = true) : Tame (nameOf s fileContexts c) := by
  unfold nameOf
  split
  · exact tame_throw (by simp [AnalyzeError.Syntactic, AnalyzeError.code])
  · exact tame_pure
  · next name hname =>
    split
    · exact tame_pure
    · refine tame_bind (tame_contextsAt ?_) fun _ => tame_pure
      intro e he
      have hsolid := hu.solid c hc.within hform (not_broken_of_qualify hname)
      exact scopeContexts_error hu hs hr hc (not_typeDeclaration_of_typeForm? hform) hsolid he

theorem not_typeDeclaration_of_kind {kind : String} (h : (c.kind == kind) = true)
    (hkind : (TypeForm.ofKind? kind).isSome = true) : c.isTypeDeclaration = false := by
  apply not_typeDeclaration_of_typeForm?
  unfold typeForm?
  rw [beq_iff_eq.mp h]
  exact hkind

/-- The generic name that holds the type arguments of a name. -/
def genericName? (c : Cursor) : Option Cursor :=
  match c.typeForm? with
  | some .generic => some c
  | some .qualified | some .aliasQualified => (c.field? "name").filter (·.kind == "generic_name")
  | _ => none

def argumentsIn (list : Option Cursor) : List Cursor :=
  match list with
  | some list => list.namedChildren
  | none => []

theorem argumentNodes_eq (c : Cursor) : argumentNodes c =
    argumentsIn ((genericName? c).bind fun g => g.namedChildren.find? (·.kind == "type_argument_list")) := rfl

theorem genericName?_eq_some (h : genericName? c = some d) :
    d = c ∨ d ∈ c.children ∧ d.kind = "generic_name" := by
  unfold genericName? at h
  split at h
  · exact .inl (Option.some.inj h).symm
  · obtain ⟨h, hkind⟩ := Option.filter_eq_some_iff.mp h
    exact .inr ⟨mem_children_of_field? h, beq_iff_eq.mp hkind⟩
  · obtain ⟨h, hkind⟩ := Option.filter_eq_some_iff.mp h
    exact .inr ⟨mem_children_of_field? h, beq_iff_eq.mp hkind⟩
  · cases h

theorem mem_argumentNodes (h : d ∈ argumentNodes c) :
    ∃ g list, genericName? c = some g ∧ list ∈ g.children ∧ list.kind = "type_argument_list" ∧ d ∈ list.namedChildren := by
  rw [argumentNodes_eq] at h
  unfold argumentsIn at h
  split at h
  · next list hlist =>
    obtain ⟨g, hg, hlist⟩ := Option.bind_eq_some_iff.mp hlist
    have hkind := List.find?_some hlist
    exact ⟨g, list, hg, (mem_namedChildren.mp (List.mem_of_find?_eq_some hlist)).1, beq_iff_eq.mp hkind, h⟩
  · cases h

theorem clear_argumentNodes (hc : u.Clear c) (hform : c.typeForm?.isSome = true) (hd : d ∈ argumentNodes c) :
    u.Clear d := by
  obtain ⟨g, list, hg, hlist, hkind, hd⟩ := mem_argumentNodes hd
  have hgeneric : u.Clear g ∧ g.isTypeDeclaration = false := by
    rcases genericName?_eq_some hg with rfl | ⟨hg, hkind⟩
    · exact ⟨hc, not_typeDeclaration_of_typeForm? hform⟩
    · exact ⟨clear_below hc hform hg, not_typeDeclaration_of_kind (beq_iff_eq.mpr hkind) rfl⟩
  have hplain : list.isTypeDeclaration = false := not_typeDeclaration_of_kind (beq_iff_eq.mpr hkind) rfl
  refine (hgeneric.1.child ?_ hlist).child ?_ (mem_namedChildren.mp hd).1
  · simp [hgeneric.2]
  · simp [hplain]

theorem mem_children_of_wrappedType? (h : c.wrappedType? = some d) : d ∈ c.children := by
  rcases Option.or_eq_some_iff.mp h with h | ⟨-, h⟩
  · exact mem_children_of_field? h
  · exact (mem_namedChildren.mp (List.mem_of_find?_eq_some h)).1

theorem mem_children_of_elementNodes (h : d ∈ elementNodes c) : d ∈ c.children :=
  (mem_namedChildren.mp (List.mem_filter.mp h).1).1

theorem clear_wrappedType? (hc : u.Clear c) (hform : c.typeForm?.isSome = true) (hd : c.wrappedType? = some d) :
    u.Clear d := clear_below hc hform (mem_children_of_wrappedType? hd)

theorem clear_elementNodes (hc : u.Clear c) (hform : c.typeForm?.isSome = true) (hd : d ∈ elementNodes c) :
    u.Clear d ∧ d.typeForm?.isSome = true := by
  refine ⟨clear_below hc hform (mem_children_of_elementNodes hd), ?_⟩
  unfold typeForm?
  rw [beq_iff_eq.mp (List.mem_filter.mp hd).2]
  rfl

theorem tame_build (hu : u.Shaped) (hs : s.Sane) (hr : s.Ready u) {levels : Nat} (hc : u.Clear c) :
    Tame (build s fileContexts levels c) := by
  induction levels generalizing c with
  | zero => exact tame_throw (by simp [AnalyzeError.Syntactic, AnalyzeError.code])
  | succ n ih =>
    have hunsupported {α : Type} (d : Cursor) : Tame (throw (unsupported d) : Build α) :=
      tame_throw List.mem_cons_self
    unfold build
    cases hform : c.typeForm? with
    | none => exact hunsupported c
    | some form =>
      have hsome : c.typeForm?.isSome = true := by rw [hform]; rfl
      have hname : Tame (nameOf s fileContexts c) := tame_nameOf hu hs hr hc hsome
      cases form with
      | baseWithArguments | constraint | nullable =>
        dsimp only
        split
        · next inner hinner => exact ih (clear_wrappedType? hc hsome hinner)
        · exact hunsupported c
      | array =>
        dsimp only
        split
        · next inner hinner =>
          exact tame_bind (ih (clear_wrappedType? hc hsome hinner)) fun _ => tame_pure
        · exact hunsupported c
      | predefined | identifier | generic | qualified | aliasQualified =>
        refine tame_bind hname fun _ => tame_bind (tame_mapM ?_) fun _ => tame_pure
        exact fun d hd => ih (clear_argumentNodes hc hsome hd)
      | tuple =>
        refine tame_bind hname fun _ => tame_bind (tame_mapM ?_) fun _ => tame_pure
        intro d hd
        obtain ⟨hd, hdform⟩ := clear_elementNodes hc hsome hd
        split
        · next type htype => exact tame_bind (ih (clear_wrappedType? hd hdform htype)) fun _ => tame_pure
        · exact hunsupported d
      | tupleElement | argumentList => exact hunsupported c

end

section

variable {u : SourceUnit} {s : Session} {container : TypeId} {allowCreate : Bool} {c : Cursor}

theorem leads_containerParameters (hs : s.Sane) :
    (containerParameters container).Leads s
      (fun _ t => t.Sane ∧ s.Grows t ∧ s.isDocumented container = true)
      fun _ t => t = s ∧ s.isDocumented container = false := by
  unfold containerParameters
  apply Act.leads_get_bind
  split
  · next d hd =>
    have hdoc : s.isDocumented container = true := Session.isDocumented_iff.mpr ⟨d, hd⟩
    split
    · apply Act.leads_perform
      · intro ps t ht
        have hgrows := Session.grows_ensureParameters hs.numbered ht
        refine ⟨⟨hs.1.of_grows hgrows, ?_⟩, hgrows, hdoc⟩
        obtain ⟨-, k, f, hk⟩ := hs
        exact ⟨k, f, hk.ensureParameters ht⟩
      · intro e he
        obtain ⟨-, k, f, hk⟩ := hs
        obtain ⟨ps, t, ht, -⟩ := hk.toLedger.ensureParameters hd
        rw [ht] at he
        cases he
    · exact Act.leads_pure ⟨hs, .refl s, hdoc⟩
  · next a hnot ha =>
    refine Act.leads_throw ⟨rfl, Bool.eq_false_iff.mpr fun hdoc => ?_⟩
    obtain ⟨d, hd⟩ := Session.isDocumented_iff.mp hdoc
    rw [ha] at hd
    cases hd
    exact hnot d rfl
  · next hnone =>
    refine Act.leads_throw ⟨rfl, Bool.eq_false_iff.mpr fun hdoc => ?_⟩
    obtain ⟨d, hd⟩ := Session.isDocumented_iff.mp hdoc
    rw [hnone] at hd
    cases hd

theorem contextsOfFile_ok (hs : s.Sane) {file : FileId} {f : SourceFile} (hf : s.sourceFile? file = some f) :
    ∃ cs, contextsOfFile s file = .ok cs := by
  obtain ⟨-, k, g, hk⟩ := hs
  have hmem : f ∈ g.files := hk.files ▸ List.mem_of_find?_eq_some hf
  cases hcs : contextsOfFile s file with
  | ok cs => exact ⟨cs, rfl⟩
  | error e =>
    unfold contextsOfFile at hcs
    rw [hf] at hcs
    obtain ⟨id, hid, he⟩ := mapM_eq_error hcs
    obtain ⟨n, -, hn⟩ := hk.namespace?_of_mem (hk.coherent.linked.imported f hmem id hid)
    rw [hn] at he
    cases he

theorem sourceFile?_of_found {path : Path} {file : FileId} (h : s.findSourceFile path = some file) :
    ∃ f, s.sourceFile? file = some f := by
  obtain ⟨f, hf, rfl⟩ := Option.map_eq_some_iff.mp h
  rw [← Option.isSome_iff_exists]
  unfold Session.sourceFile?
  rw [List.find?_isSome]
  exact ⟨f, List.mem_reverse.mp (List.mem_of_find?_eq_some hf), by simp⟩

/-- A type in a clear place of a catalogued unit is described, or its syntax is to blame. -/
theorem leads_ofNode (hs : s.Sane) :
    (ofNode u container allowCreate c).Leads s
      (fun a t => t.Sane ∧ s.Grows t ∧ a.container = container ∧ a.allowCreate = allowCreate ∧
        t.isDocumented container = true ∧ ∃ f, t.sourceFile? a.file = some f)
      fun e t => t.Sane ∧ s.Grows t ∧
        (u.Shaped → s.Ready u → s.isDocumented container = true → u.Clear c → e.Syntactic) := by
  unfold ofNode
  apply Act.leads_get_bind
  split
  · next hnone =>
    refine Act.leads_throw ⟨hs, .refl s, fun _ hr => ?_⟩
    have hfile := hr.file
    rw [hnone] at hfile
    cases hfile
  · next file hfile =>
    apply Act.leads_bind
    refine (leads_containerParameters hs).mono ?_ ?_
    · rintro ps t ⟨ht, hst, hdoc⟩
      obtain ⟨f, hf⟩ := sourceFile?_of_found hfile
      have hf : t.sourceFile? file = some f := hst.sourceFile? hf
      apply Act.leads_get_bind
      obtain ⟨fileContexts, hcs⟩ := contextsOfFile_ok ht hf
      rw [hcs]
      dsimp only [liftCatalog, Except.mapError]
      split
      · next e he =>
        refine Act.leads_throw ⟨ht, hst, fun hu hr _ hc => ?_⟩
        exact tame_build hu ht (hr.of_grows hst) hc none e he
      · exact Act.leads_pure ⟨ht, hst, rfl, rfl, Session.isDocumented_of_grows hdoc hst, f, hf⟩
    · rintro e t ⟨rfl, hnot⟩
      refine ⟨hs, .refl t, fun _ _ hdoc => ?_⟩
      rw [hnot] at hdoc
      cases hdoc

end

end Analysis

end TypeCatalog
