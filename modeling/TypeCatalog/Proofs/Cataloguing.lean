import TypeCatalog.Proofs.Namespaces
import TypeCatalog.Proofs.Shape
import TypeCatalog.Scan.Declarations

namespace TypeCatalog

namespace Session

/-- An operation comes to `done` unless ids run out. -/
def Yields {α : Type} (x : Except CatalogError α) (done : α → Prop) : Prop :=
  match x with
  | .ok a => done a
  | .error e => e = .exhausted .counter

theorem yields_iff {α : Type} {x : Except CatalogError α} {done : α → Prop} :
    Yields x done ↔ (∀ a, x = .ok a → done a) ∧ ∀ e, x = .error e → e = .exhausted .counter := by
  cases x with
  | ok a => simp [Yields]
  | error e => simp [Yields]

theorem Yields.mono {α : Type} {x : Except CatalogError α} {done done' : α → Prop} (h : Yields x done)
    (hd : ∀ a, done a → done' a) : Yields x done' := by
  rw [yields_iff] at h ⊢
  exact ⟨fun a ha => hd a (h.1 a ha), h.2⟩

theorem Yields.bind {α β : Type} {x : Except CatalogError α} {f : α → Except CatalogError β} {P : α → Prop}
    {Q : β → Prop} (h : Yields x P) (hf : ∀ a, P a → Yields (f a) Q) : Yields (x >>= f) Q := by
  cases x with
  | ok a => exact hf a h
  | error e => exact h

variable {s t : Session}

theorem yields_ensureWithin {name : String} {outer : List String} :
    Yields (s.ensureWithin name outer) fun r => s.ensureWithin name outer = .ok r := by
  refine yields_iff.mpr ⟨fun _ h => h, ?_⟩
  intro e h
  induction outer generalizing s name with
  | nil =>
    unfold ensureWithin at h
    split at h
    · cases h
    · exact addNamespace_error h
  | cons o os ih =>
    unfold ensureWithin at h
    split at h
    · cases h
    · obtain h | ⟨r, -, h⟩ := bind_eq_error.mp h
      · exact ih h
      · exact addNamespace_error h

theorem files_ensureNamespace {name : String} {id : NamespaceId} (h : s.ensureNamespace name = .ok (id, t)) :
    t.files = s.files := by
  refine ensureWithin_induction (P := fun u => u.files = s.files) ?_ rfl h
  intro r name parent id t hr ha
  obtain ⟨-, rfl, rfl⟩ := addNamespace_ok ha
  exact hr

theorem yields_ensureNamespace (hs : s.Sane) {name : String} :
    Yields (s.ensureNamespace name) fun r =>
      r.2.Sane ∧ s.Grows r.2 ∧ r.2.findNamespace name = some r.1 ∧ r.2.files = s.files := by
  refine yields_ensureWithin.mono ?_
  rintro ⟨id, t⟩ h
  obtain ⟨ht, hfound⟩ := hs.ensureNamespace h
  exact ⟨ht, grows_ensureNamespace h, hfound, files_ensureNamespace h⟩

theorem yields_ensureNamespaces (hs : s.Sane) {names : List String} :
    Yields (s.ensureNamespaces names) fun r =>
      r.2.Sane ∧ s.Grows r.2 ∧ r.1.map some = names.map r.2.findNamespace ∧ r.2.files = s.files := by
  induction names generalizing s with
  | nil => exact ⟨hs, .refl s, rfl, rfl⟩
  | cons name names ih =>
    unfold ensureNamespaces
    apply (yields_ensureNamespace hs).bind
    rintro ⟨id, t⟩ ⟨ht, hst, hfound, hfiles⟩
    apply (ih ht).bind
    rintro ⟨ids, u⟩ ⟨hu, htu, hids, hfiles'⟩
    refine ⟨hu, hst.trans htu, ?_, hfiles'.trans hfiles⟩
    dsimp only at *
    rw [List.map_cons, List.map_cons, hids, htu.findNamespace hfound]

/-- A declaration that the first pass has catalogued. -/
structure Lists (s : Session) (c : Cursor) : Prop where
  space : c.isNamespaceDeclaration = true →
    ∀ name ∈ (c.namespaceName?.map (Dotted.within c.namespaceOf)).toList ++ c.blockUsings,
      (s.findNamespace name).isSome = true
  type : c.isTypeDeclaration = true →
    ∀ name, c.fullName? = some name → (s.findDocumented name c.typeParameterCount).isSome = true

theorem Lists.of_grows {c : Cursor} (h : s.Lists c) (hg : s.Grows t) : t.Lists c where
  space hc name hname := by
    obtain ⟨id, hid⟩ := Option.isSome_iff_exists.mp (h.space hc name hname)
    rw [hg.findNamespace hid]
    rfl
  type hc name hname := by
    obtain ⟨id, hid⟩ := Option.isSome_iff_exists.mp (h.type hc name hname)
    rw [hg.findDocumented hid]
    rfl

theorem isDocumented_of_grows {id : TypeId} (h : s.isDocumented id = true) (hg : s.Grows t) :
    t.isDocumented id = true := by
  obtain ⟨d, hd⟩ := isDocumented_iff.mp h
  obtain ⟨ps, hps⟩ := hg.documented? hd
  exact isDocumented_iff.mpr ⟨_, hps⟩

theorem findSourceFile_of_grows {path : Path} (h : (s.findSourceFile path).isSome = true) (hg : s.Grows t) :
    (t.findSourceFile path).isSome = true := by
  unfold findSourceFile at h ⊢
  rw [Option.isSome_map, List.find?_isSome] at h ⊢
  obtain ⟨f, hf, hsame⟩ := h
  exact ⟨f, List.mem_reverse.mpr (hg.files.subset (List.mem_reverse.mp hf)), hsame⟩

theorem Sane.findDocumented (hs : s.Sane) {name : String} {arity : Nat} {id : TypeId}
    (h : s.findDocumented name arity = some id) : s.isDocumented id = true := by
  obtain ⟨-, c, f, hc⟩ := hs
  obtain ⟨⟨i, a⟩, hr, rfl⟩ := Option.map_eq_some_iff.mp h
  have hfound := List.find?_some hr
  cases a with
  | documented d => exact isDocumented_iff.mpr ⟨d, hc.named?_eq.mpr (List.mem_of_find?_eq_some hr)⟩
  | external x => cases hfound
  | parameter p => cases hfound
  | tuple r => cases hfound

theorem yields_addSourceFile (hs : s.Sane) {path : Path} {usings : List NamespaceId}
    (hpath : s.findSourceFile path = none) (husings : ∀ id ∈ usings, ∃ name, s.findNamespace name = some id) :
    Yields (s.addSourceFile path usings) fun r => r.2.Sane ∧ s.Grows r.2 ∧ r.1 ∈ r.2.files.map (·.id) ∧
      (r.2.findSourceFile path).isSome = true := by
  refine yields_iff.mpr ⟨?_, fun _ h => addSourceFile_error h⟩
  rintro ⟨id, t⟩ h
  obtain ⟨hroot, c, f, hc⟩ := hs
  have hids : ∀ i ∈ usings, i ∈ f.namespaces.map (·.id) := by
    intro i hi
    obtain ⟨name, hname⟩ := husings i hi
    obtain ⟨n, hn, -, rfl⟩ := hc.findNamespace_iff.mp hname
    exact List.mem_map_of_mem hn
  have hgrows := grows_addSourceFile h
  refine ⟨⟨hroot.of_grows hgrows, c, _, hc.addSourceFile hpath hids h⟩, hgrows, ?_⟩
  obtain ⟨-, rfl, rfl⟩ := addSourceFile_ok h
  constructor
  · exact List.mem_map.mpr ⟨_, List.mem_append_right _ List.mem_cons_self, rfl⟩
  · unfold findSourceFile
    rw [Option.isSome_map, List.find?_isSome]
    exact ⟨_, List.mem_reverse.mpr (List.mem_append_right _ List.mem_cons_self), by simp [Path.same]⟩

theorem yields_addDocumented (hs : s.Sane) {d : Documented} (hd : d.Declared)
    (hhome : ∃ name, s.findNamespace name = some d.home) (hfile : d.file ∈ s.files.map (·.id))
    (hcontainer : ∀ j, d.container = some j → s.isDocumented j = true) :
    Yields (s.addDocumented d) fun r => r.2.Sane ∧ s.Grows r.2 ∧ r.2.isDocumented r.1 = true ∧
      (r.2.findDocumented d.fullName d.arity).isSome = true := by
  refine yields_iff.mpr ⟨?_, fun _ h => addNamed_error h⟩
  rintro ⟨id, t⟩ h
  obtain ⟨hroot, c, f, hc⟩ := hs
  obtain ⟨name, hname⟩ := hhome
  obtain ⟨n, hn, -, hid⟩ := hc.findNamespace_iff.mp hname
  have hhome : d.home ∈ f.namespaces.map (·.id) := hid ▸ List.mem_map_of_mem hn
  have hlisted : ∀ j, d.container = some j → ∃ e, (j, .documented e) ∈ f.named :=
    fun j hj => hc.isDocumented_iff.mp (hcontainer j hj)
  have ht : t.Coherent c { f with named := f.named ++ [(⟨f.named.length + 1⟩, .documented d)] } := by
    refine hc.addNamed h hd ⟨hhome, hc.files ▸ hfile, ?_⟩ ?_
    · intro j hj
      obtain ⟨e, he⟩ := hlisted j hj
      exact List.mem_map_of_mem he
    · rintro e ⟨⟩ j hj
      exact hlisted j hj
  have hgrows := grows_addNamed h
  refine ⟨⟨hroot.of_grows hgrows, c, _, ht⟩, hgrows, ?_, ?_⟩
  · obtain ⟨-, rfl, -⟩ := addNamed_ok h
    rw [hc.namedIds]
    exact ht.isDocumented_iff.mpr ⟨d, List.mem_append_right _ List.mem_cons_self⟩
  · obtain ⟨-, rfl, rfl⟩ := addNamed_ok h
    unfold findDocumented
    rw [Option.isSome_map, List.find?_isSome]
    exact ⟨_, List.mem_append_right _ List.mem_cons_self, by simp [NamedType.documented?]⟩

end Session

namespace Cursor

variable {c : Cursor}

theorem not_typeDeclaration (h : c.isNamespaceDeclaration = true) : c.isTypeDeclaration = false := by
  unfold isNamespaceDeclaration isFileScopedNamespace at h
  unfold isTypeDeclaration
  rw [Bool.or_eq_true, beq_iff_eq, beq_iff_eq] at h
  rcases h with h | h
  · rw [h]
    decide
  · rw [h]
    decide

theorem declKind_isSome (h : c.isTypeDeclaration = true) : (DeclKind.ofNodeKind? c.kind).isSome = true := by
  unfold isTypeDeclaration at h
  generalize c.kind = kind at h
  simp only [List.contains_eq_mem, decide_eq_true_eq, List.mem_cons, List.not_mem_nil, or_false] at h
  rcases h with rfl | rfl | rfl | rfl | rfl | rfl | rfl <;> rfl

theorem declaredName?_of_fullName? {name : String} (h : c.fullName? = some name) : c.declaredName?.isSome = true := by
  unfold fullName? at h
  cases hname : c.declaredName? with
  | none =>
    rw [hname] at h
    cases h
  | some _ => rfl

theorem map_ordinal_typeParameters (c : Cursor) : c.typeParameters.map (·.ordinal) = List.range c.typeParameters.length := by
  unfold typeParameters
  rw [List.length_map, List.length_zipIdx, List.map_map]
  apply List.ext_getElem
  · simp
  · intro i hi hj
    simp

end Cursor

namespace Declarations

open Session

variable {s : Session} {c : Cursor}

theorem yields_enterNamespace (hs : s.Sane) (hc : c.isNamespaceDeclaration = true) :
    Yields (enterNamespace c s) fun t => t.Sane ∧ s.Grows t ∧ t.Lists c := by
  unfold enterNamespace
  apply (yields_ensureNamespaces hs).bind
  rintro ⟨ids, t⟩ ⟨ht, hst, hids, -⟩
  refine ⟨ht, hst, ?_, ?_⟩
  · intro _ name hname
    have hmem : t.findNamespace name ∈ ids.map some := by
      rw [hids]
      exact List.mem_map_of_mem hname
    obtain ⟨id, -, hid⟩ := List.mem_map.mp hmem
    rw [← hid]
    rfl
  · intro htype
    rw [Cursor.not_typeDeclaration hc] at htype
    cases htype

/-- A type declaration is listed afterwards, as a new type or as a part of one that is known, if all its
type parameters have names. -/
theorem yields_enterType (hs : s.Sane) (hc : c.isTypeDeclaration = true) {file : FileId}
    (hfile : file ∈ s.files.map (·.id)) {container : Option TypeId}
    (hcontainer : ∀ j, container = some j → s.isDocumented j = true) :
    Yields (enterType file container c s) fun r =>
      r.2.Sane ∧ s.Grows r.2 ∧ (c.typeParameters.length = c.typeParameterCount → r.2.Lists c) ∧
        ∀ id, r.1 = some id → r.2.isDocumented id = true := by
  have hspace : c.isNamespaceDeclaration = false := by
    rw [Bool.eq_false_iff]
    intro hns
    rw [Cursor.not_typeDeclaration hns] at hc
    cases hc
  have hlists {t : Session} (h : ∀ name, c.fullName? = some name →
      (t.findDocumented name c.typeParameters.length).isSome = true)
      (hcount : c.typeParameters.length = c.typeParameterCount) : t.Lists c := by
    refine ⟨fun hns => ?_, fun _ name hname => hcount ▸ h name hname⟩
    rw [hspace] at hns
    cases hns
  unfold enterType
  split
  · next declKind name fullName _ _ hfull =>
    dsimp only
    split
    · next id hid =>
      refine ⟨hs, .refl s, hlists ?_, ?_⟩
      · rintro _ hname
        rw [hfull] at hname
        cases hname
        rw [hid]
        rfl
      · rintro _ ⟨⟩
        exact hs.findDocumented hid
    · apply (yields_ensureNamespace hs).bind
      rintro ⟨home, t⟩ ⟨ht, hst, hhome, -⟩
      have hdeclared := c.map_ordinal_typeParameters
      apply (yields_addDocumented ht ⟨c.typeParameters, rfl, hdeclared⟩ ⟨_, hhome⟩ ?_ ?_).bind
      · rintro ⟨id, u⟩ ⟨hu, htu, hid, hfound⟩
        refine ⟨hu, hst.trans htu, hlists ?_, ?_⟩
        · intro _ hname
          rw [hfull] at hname
          cases hname
          exact hfound
        · rintro _ ⟨⟩
          exact hid
      · exact (hst.files.map _).subset hfile
      · exact fun j hj => isDocumented_of_grows (hcontainer j hj) hst
  · next hnone =>
    refine ⟨hs, .refl s, hlists ?_, by simp⟩
    intro name hname
    obtain ⟨kind, hkind⟩ := Option.isSome_iff_exists.mp (Cursor.declKind_isSome hc)
    obtain ⟨own, hown⟩ := Option.isSome_iff_exists.mp (Cursor.declaredName?_of_fullName? hname)
    exact (hnone kind own name hkind hown hname).elim

mutual

/-- After the declarations of a tree are catalogued, every one of them is listed. -/
theorem yields_visit (n : Node) {above : List Node} {s : Session} (hs : s.Sane) {file : FileId}
    (hfile : file ∈ s.files.map (·.id)) {container : Option TypeId}
    (hcontainer : ∀ j, container = some j → s.isDocumented j = true) :
    Yields (visit file above container s n) fun r => r.2.Sane ∧ s.Grows r.2 ∧
      ∀ x ∈ n.preorder above, x.typeParameters.length = x.typeParameterCount → r.2.Lists x := by
  match n with
  | .mk i cs =>
    unfold Node.preorder
    -- whatever the node is, its children come next, and what is listed by then stays listed
    have hrest {t : Session} (ht : t.Sane) (hst : s.Grows t) {c : Cursor}
        (hc : c.typeParameters.length = c.typeParameterCount → t.Lists c)
        {inner : Option TypeId} (hinner : ∀ j, inner = some j → t.isDocumented j = true) :
        Yields (visitAll file (.mk i cs :: above) inner t cs) fun r => r.2.Sane ∧ s.Grows r.2 ∧
          ∀ x ∈ c :: Node.preorderAll (.mk i cs :: above) cs,
            x.typeParameters.length = x.typeParameterCount → r.2.Lists x := by
      refine (yields_visitAll cs ht ((hst.files.map _).subset hfile) hinner).mono ?_
      rintro ⟨k, u⟩ ⟨hu, htu, hall⟩
      exact ⟨hu, hst.trans htu, List.forall_mem_cons.mpr ⟨fun hcount => (hc hcount).of_grows htu, hall⟩⟩
    unfold visit
    dsimp only
    split
    · next hns =>
      apply (yields_enterNamespace hs hns).bind
      rintro t ⟨ht, hst, hc⟩
      exact hrest ht hst (fun _ => hc) fun j hj => isDocumented_of_grows (hcontainer j hj) hst
    · next hns =>
      split
      · next htype =>
        apply (yields_enterType hs htype hfile hcontainer).bind
        rintro ⟨id?, t⟩ ⟨ht, hst, hc, hid⟩
        cases id? with
        | none => exact hrest ht hst hc fun j hj => isDocumented_of_grows (hcontainer j hj) hst
        | some id => exact (hrest ht hst hc hid).bind fun _ hr => hr
      · next htype =>
        exact hrest hs (.refl s) (fun _ => ⟨fun h => absurd h hns, fun h => absurd h htype⟩) hcontainer

theorem yields_visitAll (ns : List Node) {above : List Node} {s : Session} (hs : s.Sane) {file : FileId}
    (hfile : file ∈ s.files.map (·.id)) {container : Option TypeId}
    (hcontainer : ∀ j, container = some j → s.isDocumented j = true) :
    Yields (visitAll file above container s ns) fun r => r.2.Sane ∧ s.Grows r.2 ∧
      ∀ x ∈ Node.preorderAll above ns, x.typeParameters.length = x.typeParameterCount → r.2.Lists x := by
  match ns with
  | [] =>
    unfold Node.preorderAll visitAll
    exact ⟨hs, .refl s, by simp⟩
  | n :: ns =>
    unfold Node.preorderAll visitAll
    have hrest {k : Nat} {t : Session} (ht : t.Sane) (hst : s.Grows t) {listed : List Cursor}
        (hn : ∀ x ∈ listed, x.typeParameters.length = x.typeParameterCount → t.Lists x) :
        Yields (visitAll file above container t ns >>= fun r => pure (k + r.1, r.2)) fun r =>
          r.2.Sane ∧ s.Grows r.2 ∧ ∀ x ∈ listed ++ Node.preorderAll above ns,
            x.typeParameters.length = x.typeParameterCount → r.2.Lists x := by
      apply (yields_visitAll ns ht ((hst.files.map _).subset hfile)
        fun j hj => isDocumented_of_grows (hcontainer j hj) hst).bind
      rintro ⟨m, u⟩ ⟨hu, htu, hns⟩
      refine ⟨hu, hst.trans htu, List.forall_mem_append.mpr ⟨?_, hns⟩⟩
      exact fun x hx hcount => (hn x hx hcount).of_grows htu
    dsimp only
    by_cases hnamed : n.info.named = true
    · simp only [if_pos hnamed]
      apply (yields_visit n hs hfile hcontainer).bind
      rintro ⟨k, t⟩ ⟨ht, hst, hn⟩
      exact hrest ht hst hn
    · simp only [if_neg hnamed]
      exact hrest hs (.refl s) (by simp)

end

end Declarations

namespace Session

/-- The first pass has been over a unit: the file and all that it declares are catalogued. -/
structure Ready (s : Session) (u : SourceUnit) : Prop where
  file : (s.findSourceFile u.path).isSome = true
  lists : ∀ c ∈ u.top.preorder, s.Lists c

theorem Ready.of_grows {s t : Session} {u : SourceUnit} (h : s.Ready u) (hg : s.Grows t) : t.Ready u where
  file := findSourceFile_of_grows h.file hg
  lists c hc := (h.lists c hc).of_grows hg

end Session

namespace SourceUnit

open Session

variable {u : SourceUnit} {s : Session}

theorem Shaped.length_typeParameters (h : u.Shaped) {c : Cursor} (hc : u.top.Within c) :
    c.typeParameters.length = c.typeParameterCount := by
  unfold Cursor.typeParameters Cursor.typeParameterCount
  rw [List.length_map, List.length_zipIdx, List.length_filterMap_eq_countP, List.countP_eq_length]
  intro p hp
  rw [Option.isSome_map]
  unfold Cursor.parameterNodes at hp
  split at hp
  · next list hlist =>
    obtain ⟨hp, hkind⟩ := List.mem_filter.mp hp
    have hp := (hc.of_mem_children (Cursor.mem_children_of_or hlist)).of_mem_children (List.mem_filter.mp hp).1
    exact h.parameter p hp (by simpa using hkind)
  · cases hp

theorem yields_catalog (u : SourceUnit) (hs : s.Sane) :
    Yields (u.catalog s) fun r => r.2.Sane ∧ s.Grows r.2 ∧
      ((∃ file types, r.1 = .catalogued file types) ∧ (u.Shaped → r.2.Ready u) ∨
        (∃ file, r.1 = .known file) ∧ r.2 = s) := by
  unfold catalog
  split
  · next file hfile => exact ⟨hs, .refl s, .inr ⟨⟨file, rfl⟩, rfl⟩⟩
  · next hfile =>
    apply (yields_ensureNamespaces hs).bind
    rintro ⟨usings, t⟩ ⟨ht, hst, husings, hfiles⟩
    have hnew : t.findSourceFile u.path = none := by
      unfold findSourceFile at hfile ⊢
      rw [hfiles, hfile]
    have hids : ∀ id ∈ usings, ∃ name, t.findNamespace name = some id := by
      intro id hid
      have hmem : some id ∈ usings.map some := List.mem_map_of_mem hid
      rw [husings] at hmem
      obtain ⟨name, -, hname⟩ := List.mem_map.mp hmem
      exact ⟨name, hname⟩
    apply (yields_addSourceFile ht hnew hids).bind
    rintro ⟨file, v⟩ ⟨hv, htv, hmem, hfound⟩
    apply (Declarations.yields_visit u.root hv hmem (by simp)).bind
    rintro ⟨types, w⟩ ⟨hw, hvw, hlists⟩
    refine ⟨hw, hst.trans (htv.trans hvw), .inl ⟨⟨file, types, rfl⟩, fun h => ⟨?_, ?_⟩⟩⟩
    · exact findSourceFile_of_grows hfound hvw
    · exact fun x hx => hlists x hx (h.length_typeParameters (Node.preorder_within hx).1)

end SourceUnit

end TypeCatalog
