import TypeCatalog.Proofs.Scopes

namespace TypeCatalog

/-! The declaration that a type is used in -/

namespace Cursor

variable {c d : Cursor}

theorem outerType?_of_children (hd : d ∈ c.children) (hplain : c.isTypeDeclaration = false) :
    d.outerType? = c.outerType? := by
  have htrail : d.outerType? = typeAlong? c.trail := congrArg typeAlong? (ancestors_of_mem_children hd)
  rw [htrail, typeAlong?_trail, if_neg (by simp [hplain])]

theorem outerType?_of_declaration (hd : d ∈ c.children) (htype : c.isTypeDeclaration = true) :
    d.outerType? = some c := by
  have htrail : d.outerType? = typeAlong? c.trail := congrArg typeAlong? (ancestors_of_mem_children hd)
  rw [htrail, typeAlong?_trail, if_pos htype]

/-- The innermost scope around a place is that of the declaration around it. -/
theorem innermostScope?_of_outerType? (hc : c.isScopeDeclaration = false) (ho : c.outerType? = some d) :
    c.innermostScope? = d.innermostScope? := by
  obtain ⟨-, before, after, heq, hbefore⟩ := List.find?_eq_some_iff_append.mp ho
  have hnone : before.find? isScopeDeclaration = none := by
    rw [List.find?_eq_none]
    intro x hx
    rw [not_scope_of_plain (by simpa using hbefore x hx)]
    decide
  have hpath : c.enclosing = before ++ d :: d.enclosing := by
    rw [← along_split heq]
    exact heq
  unfold innermostScope?
  rw [List.find?_cons_of_neg (by simp [hc]), hpath, List.find?_append, hnone, Option.none_or]

theorem innermostScope?_self (h : c.isScopeDeclaration = true) : c.innermostScope? = some c :=
  List.find?_cons_of_pos h

theorem innermostScope?_outermost (hc : c.isScopeDeclaration = false) (ho : c.outerType? = none) :
    c.innermostScope? = none := by
  unfold innermostScope?
  rw [List.find?_cons_of_neg (by simp [hc]), List.find?_eq_none]
  intro x hx
  have hx : x.isTypeDeclaration = false := by simpa using List.find?_eq_none.mp ho x hx
  rw [not_scope_of_plain hx]
  decide

end Cursor

namespace SourceUnit

open Cursor

variable {u : SourceUnit} {c d : Cursor}

/-- Type declarations stand in lists of declarations, not in a field of another node, and none stands in an enum or a
delegate. -/
structure Framed (u : SourceUnit) : Prop where
  listed : ∀ c, u.top.Within c → c.isTypeDeclaration = true → c.node.info.field = none
  nested : ∀ c, u.top.Within c → c.isTypeDeclaration = true → ∀ o, c.outerType? = some o → o.isScopeDeclaration = true

def isFramed (u : SourceUnit) : Bool :=
  (u.root.cursors []).all fun c =>
    !c.isTypeDeclaration || c.node.info.field.isNone && c.outerType?.all (·.isScopeDeclaration)

theorem framed_of_isFramed (h : u.isFramed = true) : u.Framed := by
  unfold isFramed at h
  rw [List.all_eq_true] at h
  have hframed (c : Cursor) (hc : u.top.Within c) (htype : c.isTypeDeclaration = true) :
      c.node.info.field.isNone = true ∧ c.outerType?.all (·.isScopeDeclaration) = true := by
    have hcheck := h c (Node.mem_cursors hc)
    rwa [htype, Bool.not_true, Bool.false_or, Bool.and_eq_true] at hcheck
  refine ⟨fun c hc htype => Option.isNone_iff_eq_none.mp (hframed c hc htype).1, fun c hc htype o ho => ?_⟩
  have hnested := (hframed c hc htype).2
  rwa [ho] at hnested

namespace Framed

theorem plain_field (h : u.Framed) (hc : u.top.Within c) {f : String} (hd : c.field? f = some d) :
    d.isTypeDeclaration = false := by
  rw [Bool.eq_false_iff]
  intro htype
  have hfield := List.find?_some hd
  rw [h.listed d (hc.of_mem_children (mem_children_of_field? hd)) htype] at hfield
  cases hfield

theorem plain_or (h : u.Framed) (hc : u.top.Within c) {f kind : String}
    (hkind : ∀ x : Cursor, x.kind = kind → x.isTypeDeclaration = false)
    (hd : (c.field? f).or (c.childOf? [kind]) = some d) : d.isTypeDeclaration = false := by
  rcases Option.or_eq_some_iff.mp hd with hd | ⟨-, hd⟩
  · exact h.plain_field hc hd
  · exact hkind d (kind_of_childOf? hd)

/-- The types in the signature of a member stand in the declaration that the member stands in. -/
theorem outerType?_signs (h : u.Framed) (hc : u.top.Within c) (hplain : c.isTypeDeclaration = false)
    (hd : c.Signs d) : d.outerType? = c.outerType? := by
  cases hd with
  | own hd => exact outerType?_of_children hd hplain
  | declared hdeclaration hother hd =>
    rw [outerType?_of_children hd hother, outerType?_of_children hdeclaration hplain]
  | @parameter list p hlist hp hother hd =>
    have hlistPlain : list.isTypeDeclaration = false := by
      refine h.plain_or hc (fun x hx => ?_) hlist
      unfold isTypeDeclaration
      rw [hx]
      decide
    rw [outerType?_of_children hd hother, outerType?_of_children (mem_namedChildren.mp hp).1 hlistPlain,
      outerType?_of_children (mem_children_of_or hlist) hplain]

/-- All types that a declaration uses stand in it, and in no other declaration inside it. -/
theorem outerType?_sites (h : u.Framed) (hc : u.top.Within c) (htype : c.isTypeDeclaration = true) {site : Site}
    (hsite : site ∈ c.sites) : site.type.outerType? = some c := by
  cases uses_sites hsite with
  | base hlist hplain hd =>
    rw [outerType?_of_children (mem_namedChildren.mp hd).1 hplain, outerType?_of_declaration hlist htype]
  | constraint hclause hplain hd =>
    rw [outerType?_of_children hd hplain, outerType?_of_declaration hclause htype]
  | @member body m hbody hm hplain hd =>
    have hbodyPlain : body.isTypeDeclaration = false := by
      refine h.plain_or hc (fun x hx => ?_) hbody
      unfold isTypeDeclaration
      rw [hx]
      decide
    have hchild := mem_children_of_or hbody
    have hm := (mem_namedChildren.mp hm).1
    rw [h.outerType?_signs ((hc.of_mem_children hchild).of_mem_children hm) hplain hd,
      outerType?_of_children hm hbodyPlain, outerType?_of_declaration hchild htype]

end Framed

end SourceUnit

/-! The global namespace among the contexts -/

namespace Analysis

open Cursor Context Dotted

variable {s : Session} {u : SourceUnit} {b x : Cursor} {fileContexts own : List Context} {label full : String}

theorem mem_blockNames {blocks : List Cursor} (h : some full ∈ blockNames (blocks.map namespaceName?)) :
    ∃ names, names ≠ [] ∧ (∀ n ∈ names, ∃ b ∈ blocks, b.namespaceName? = some n) ∧ full = ".".intercalate names := by
  induction blocks with
  | nil => cases h
  | cons b blocks ih =>
    rw [List.map_cons, blockNames] at h
    rcases List.mem_cons.mp h with h | h
    · obtain ⟨own, hown, rfl⟩ := Option.map_eq_some_iff.mp h.symm
      refine ⟨_, by simp, forall_mem_concat (fun n hn => ?_) ⟨b, List.mem_cons_self, hown⟩, rfl⟩
      rw [List.mem_reverse, List.filterMap_map, List.mem_filterMap] at hn
      obtain ⟨a, ha, hname⟩ := hn
      exact ⟨a, List.mem_cons_of_mem b ha, hname⟩
    · obtain ⟨names, hne, hall, rfl⟩ := ih h
      refine ⟨names, hne, fun n hn => ?_, rfl⟩
      obtain ⟨a, ha, hname⟩ := hall n hn
      exact ⟨a, List.mem_cons_of_mem b ha, hname⟩

/-- The namespaces around a place bring in names that are not empty. -/
theorem empty_not_mem_namespaceLabels (hu : u.Tiered) (hb : u.top.Within b) : "" ∉ namespaceLabels b := by
  have hblock (a : Cursor) (ha : a ∈ b.enclosingNamespaces) : u.top.Within a ∧ a.isNamespaceDeclaration = true := by
    obtain ⟨hmem, hns⟩ := hu.mem_enclosingNamespaces hb ha
    exact ⟨(Node.preorder_within hmem).1, hns⟩
  unfold namespaceLabels
  rw [List.mem_flatMap]
  rintro ⟨⟨a, name⟩, hzip, hempty⟩
  obtain ⟨ha, hname⟩ := List.of_mem_zip hzip
  cases name with
  | none => cases hempty
  | some full =>
    obtain ⟨names, hne, hnames, rfl⟩ := mem_blockNames hname
    have hproper : Proper (".".intercalate names) := .intercalate hne fun n hn => by
      obtain ⟨a', ha', hown⟩ := hnames n hn
      exact hu.spelled a' (hblock a' ha').1 (hblock a' ha').2 n hown
    change "" ∈ (_ :: a.blockUsings) ++ Dotted.enclosing _ at hempty
    rcases List.mem_append.mp hempty with hempty | hempty
    · rcases List.mem_cons.mp hempty with hempty | hempty
      · exact hproper.ne_empty hempty.symm
      · obtain ⟨directive, hdirective, himported⟩ := List.mem_filterMap.mp hempty
        refine hu.imported directive ?_ himported
        refine Within.of_mem_children ?_ (List.mem_filter.mp hdirective).1
        cases hbody : a.body? with
        | none => exact (hblock a ha).1
        | some body => exact (hblock a ha).1.of_mem_children (mem_children_of_or hbody)
    · exact Session.empty_not_mem_enclosing hproper hempty

/-- The contexts around a place end with the global namespace, and no other one has its label. -/
theorem lexicalContexts_closed (hu : u.Tiered) (hx : u.top.Within x) (hfiles : "" ∉ labels fileContexts)
    (h : lexicalContexts s fileContexts x = .ok own) :
    (labels own).Nodup ∧ ∃ nearer, own = nearer ++ [s.globalContext] := by
  obtain ⟨types, blocks, rfl, htypes, hblocks⟩ := lexicalContexts_ok h
  -- the types around give the start of the ascent of a full name, whose end alone is the global namespace
  have hscope : (labels types).Nodup ∧ "" ∉ labels types ∧ u.top.Within (x.innermostScope?.getD x) := by
    cases hanchor : x.innermostScope? with
    | none =>
      unfold scopeTypes at htypes
      rw [hanchor] at htypes
      rw [List.map_eq_nil_iff.mp htypes.symm]
      exact ⟨List.nodup_nil, List.not_mem_nil, hx⟩
    | some decl =>
      have hdecl : u.top.Within decl := by
        rcases List.mem_cons.mp (List.mem_of_find?_eq_some hanchor) with rfl | hmem
        · exact hx
        · exact hx.of_mem_enclosing rfl hmem
      obtain ⟨name, -, hascent⟩ := labels_scopeTypes hu hdecl hanchor htypes
      have hnodup := hascent ▸ Session.nodup_ascent name
      refine ⟨hnodup.of_append_left, fun hempty => ?_, hdecl⟩
      exact List.disjoint_of_nodup_append hnodup hempty (Session.empty_mem_ascent _)
  obtain ⟨hnodup, htypes, hanchor⟩ := hscope
  have hnodup : (labels (merge (merge types blocks) fileContexts)).Nodup := nodup_merge (nodup_merge hnodup)
  have hglobal : s.globalContext.label ∉ labels (merge (merge types blocks) fileContexts) := by
    rw [mem_labels_merge, mem_labels_merge, hblocks]
    rintro ((hempty | hempty) | hempty)
    · exact htypes hempty
    · exact empty_not_mem_namespaceLabels hu hanchor hempty
    · exact hfiles hempty
  rw [merge_cons_new hglobal]
  exact ⟨nodup_map_concat hnodup hglobal, _, rfl⟩

end Analysis

/-! What is searched for a type that a declaration uses -/

namespace Session

open Context

variable {s t : Session} {u : SourceUnit} {decl : Cursor} {site : Site} {name : String} {id : TypeId}

theorem Tiered.empty_not_mem_imports (h : s.Tiered) (hs : s.Sane) {file : FileId} {cs : List Context}
    (hcs : Analysis.contextsOfFile s file = .ok cs) : "" ∉ labels cs := by
  unfold Analysis.contextsOfFile at hcs
  split at hcs
  · cases hcs
  · next f hf =>
    have hnames : f.usings.map (fun i => (s.namespace? i).map (·.name)) = cs.map fun c => some c.label := by
      refine Analysis.map_of_mapM_ok (fun i c hc => ?_) hcs
      split at hc
      · next row hrow =>
        cases hc
        rw [hrow]
        rfl
      · cases hc
    intro hempty
    obtain ⟨c, hc, hlabel⟩ := List.mem_map.mp hempty
    have hmem : some "" ∈ cs.map fun c => some c.label := List.mem_map.mpr ⟨c, hc, congrArg some hlabel⟩
    rw [← hnames] at hmem
    obtain ⟨i, hi, hname⟩ := List.mem_map.mp hmem
    obtain ⟨n, hn, rfl, hne⟩ := h.imports f (List.mem_of_find?_eq_some hf) i hi
    have hrow : s.namespace? n.id = some n := find?_of_nodup hs.numbered.namespaces.nodup hn
    rw [hrow] at hname
    exact hne (Option.some.inj hname)

end Session

namespace Analysis

open Context

variable {s : Session} {u : SourceUnit} {decl x : Cursor} {fileContexts own : List Context} {name : String}

/-- All that is around a declaration is around the types that stand in it, and so is the declaration itself if it is a
scope. -/
theorem labels_around (hu : u.Tiered) (hframed : u.Framed) (hdecl : u.top.Within decl)
    (htype : decl.isTypeDeclaration = true) (hname : decl.fullName? = some name) (hx : u.top.Within x)
    (hpartial : x.qualify.state = .partially) (houter : x.outerType? = some decl)
    (h : lexicalContexts s fileContexts x = .ok own) :
    (∀ label ∈ Session.ascent (Dotted.parent name), label ∈ labels own) ∧
      (decl.isScopeDeclaration = true → name ∈ labels own) := by
  have hform := Cursor.form_of_partially hpartial
  have hscope := Cursor.innermostScope?_of_outerType? (Cursor.not_scope_of_typeForm? hform) houter
  have hascent := Session.ascent_of_ne (hu.proper_fullName hdecl htype hname).ne_empty
  -- an enum or a delegate is no scope: the search starts at the type around it, or else at its namespace
  cases hself : decl.isScopeDeclaration with
  | true =>
    rw [Cursor.innermostScope?_self hself] at hscope
    have hall := (labels_lexicalContexts hu hdecl hscope hname h).2
    rw [hascent] at hall
    exact ⟨fun label hlabel => hall label (List.mem_cons_of_mem _ hlabel), fun _ => hall name List.mem_cons_self⟩
  | false =>
    refine ⟨?_, nofun⟩
    cases ho : decl.outerType? with
    | some o =>
      have hoscope := hframed.nested decl hdecl htype o ho
      rw [Cursor.innermostScope?_of_outerType? hself ho, Cursor.innermostScope?_self hoscope] at hscope
      have hwithin : u.top.Within o := hdecl.of_mem_enclosing rfl (List.mem_of_find?_eq_some ho)
      exact (labels_lexicalContexts hu hwithin hscope (hu.parent_fullName_nested hdecl htype hname ho) h).2
    | none =>
      rw [Cursor.innermostScope?_outermost hself ho] at hscope
      have hsolid := hu.solid x hx hform (Cursor.sound_of_partially hpartial)
      have hspace : x.namespaceOf = decl.namespaceOf := by
        unfold Cursor.namespaceOf
        rw [hu.enclosingNamespaces_outer hx hsolid houter]
      rw [hu.parent_fullName_outermost hdecl htype hname ho, ← hspace]
      intro label hlabel
      rcases ascent_namespaceOf hu hx hsolid hlabel with rfl | hlabel
      · exact global_lexicalContexts h
      · refine namespaces_lexicalContexts h label ?_
        rwa [hscope]

end Analysis

namespace Session

open Context

variable {s t : Session} {u : SourceUnit} {decl : Cursor} {site : Site} {name : String} {id : TypeId}

/-- The contexts in which the types that a declaration uses are searched have different labels. First come those around
the type, innermost first, and then the global namespace. In a class, an interface, a struct or a record it is the last
one. In an enum or a delegate what is around a type is what is around the declaration, and the declaration itself may
follow after the global namespace. -/
theorem contexts_closed (hs : s.WorkedOn SourceUnit.Tiered) (hu : u.Tiered) (hframed : u.Framed)
    (hdecl : decl ∈ u.top.typeDeclarations) (hname : decl.fullName? = some name) (hid : s.documentedOf decl = some id)
    (hsite : site ∈ decl.sites) (allowCreate : Bool) : (Analysis.ofNode u id allowCreate site.type).Leads s
      (fun a t => ∀ path d own, a.root.at? path = some d → d.contexts? = some own → ∀ v, t.Continues v → v.Sane →
        ∃ nearer found, a.scope.contexts v d = .ok (some found) ∧ (found.map (·.label)).Nodup ∧
          (found = nearer ++ [v.globalContext] ∨
            decl.isScopeDeclaration = false ∧ found = nearer ++ [v.globalContext, .ofType name id]))
      fun _ _ => True := by
  obtain ⟨hmem, htype⟩ := SourceUnit.mem_typeDeclarations hdecl
  have hwithin : u.top.Within decl := (Node.preorder_within hmem).1
  refine (leads_ofNode_searched hs hname hid).mono ?_ fun _ _ _ => trivial
  rintro a t ⟨hst, ht, hfile, above, habove, hall⟩ path d own hd hown v htv hv
  obtain ⟨⟨k, x, hx, hpartial, hlexical⟩, hcontexts⟩ := hall path d own hd hown
  have himports : "" ∉ labels a.fileContexts :=
    ((hs.tiered fun _ h => h).continues hst).empty_not_mem_imports ht hfile
  have hxu : u.top.Within x := (hu.clear_sites hmem hsite).within.trans (Analysis.within_visits hx)
  have houter : x.outerType? = some decl := by
    have houter := hframed.outerType?_sites hwithin htype hsite
    have htypes := Analysis.enclosingTypes_visits hx (Cursor.form_of_partially hpartial)
    exact Cursor.outerType?_of_enclosingTypes (htypes.trans (Cursor.enclosingTypes_of_outerType? houter))
  obtain ⟨hnodup, nearer, hclosed⟩ := Analysis.lexicalContexts_closed hu hxu himports hlexical
  obtain ⟨hrest, hscope⟩ := Analysis.labels_around hu hframed hwithin htype hname hxu hpartial houter hlexical
  have hparent : labels above = ascent (Dotted.parent name) := by
    rw [ascent_of_ne (hu.proper_fullName hwithin htype hname).ne_empty] at habove
    exact (List.cons.inj habove).2
  rw [← hparent] at hrest
  refine ⟨nearer, _, hcontexts v htv hv, nodup_merge hnodup, ?_⟩
  by_cases hself : name ∈ labels own
  · rw [merge_cons_known hself, merge_eq_self hrest, hclosed, htv.globalContext]
    exact .inl rfl
  · have hnew : merge own (.ofType name id :: above) = own ++ [.ofType name id] := by
      rw [merge_cons_new hself, merge_eq_self]
      intro label hlabel
      rw [labels_append]
      exact List.mem_append_left _ (hrest label hlabel)
    rw [hnew, hclosed, htv.globalContext, List.append_assoc]
    exact .inr ⟨Bool.eq_false_iff.mpr fun h => hself (hscope h), rfl⟩

end Session

namespace Sample

def crossedField : Site := ⟨.field, some "x", crossed partitioned⟩

/-- In the class the global namespace comes last. -/
theorem contexts_closed_partitioned :
    Session.inMemory = .ok memory ∧ innermost partitioned ∈ partitioned.top.typeDeclarations ∧
      crossedField ∈ (innermost partitioned).sites ∧
      ∃ nearer, crossing.scope.contexts (parted partitioned) crossing.root =
        .ok (some (nearer ++ [(parted partitioned).globalContext])) := by
  have hdecl : innermost partitioned ∈ partitioned.top.typeDeclarations := by
    obtain ⟨c, hc⟩ : ∃ c, (partitioned.top.preorder.filter (·.isTypeDeclaration)).getLast? = some c := ⟨_, rfl⟩
    rw [Cursor.typeDeclarations_eq]
    unfold innermost
    rw [hc]
    exact List.mem_of_getLast? hc
  have hsite : crossedField ∈ (innermost partitioned).sites := List.mem_singleton.mpr rfl
  have hscope : (innermost partitioned).isScopeDeclaration = true := rfl
  have hclosed := Session.contexts_closed workedOn_partitioned tiered_partitioned (SourceUnit.framed_of_isFramed rfl)
    hdecl fullName_innermost values_partitioned.1 hsite false
  obtain ⟨nearer, found, hfound, -, hend⟩ := (Act.leads_iff.mp hclosed).1 _ _ ofNode_crossed [] _ surrounding rfl rfl _
    (.refl _) workedOn_partitioned.worked.sane
  rcases hend with rfl | ⟨hother, -⟩
  · exact ⟨inMemory_eq, hdecl, hsite, nearer, hfound⟩
  · rw [hscope] at hother
    cases hother

/-- The file `delegate void D<T>() where T : I;`. -/
def delegated : SourceUnit where
  path := ⟨"D.cs"⟩
  source := "delegate void D<T>() where T : I;"
  root := node 0 "compilation_unit" none 0 "delegate void D<T>() where T : I;"
    [node 1 "delegate_declaration" none 0 "delegate void D<T>() where T : I;"
      [node 2 "predefined_type" (some "type") 9 "void" [],
       node 3 "identifier" (some "name") 14 "D" [],
       node 4 "type_parameter_list" (some "type_parameters") 15 "<T>"
        [node 5 "type_parameter" none 16 "T" [node 6 "identifier" (some "name") 16 "T" []]],
       node 7 "parameter_list" (some "parameters") 18 "()" [],
       node 8 "type_parameter_constraints_clause" none 21 "where T : I"
        [node 9 "identifier" none 27 "T" [],
         node 10 "type_parameter_constraint" none 31 "I" [node 11 "identifier" (some "type") 31 "I" []]]]]

/-- In the delegate it does not: the type `I` is searched there before it is searched in `D`. -/
example : (innermost delegated).sites.map (·.role) = [.constraint] ∧
    Analysis.lexicalContexts (parted delegated) [] (crossed delegated) = .ok [.ofNamespace "" ⟨1⟩] ∧
    ({ crossing with root := .mk "I" (.searched [.ofNamespace "" ⟨1⟩]) 0 none [] } : Analysis).scope.contexts
      (parted delegated) (.mk "I" (.searched [.ofNamespace "" ⟨1⟩]) 0 none []) =
        .ok (some [.ofNamespace "" ⟨1⟩, .ofType "D" ⟨1⟩]) := by
  decide +kernel

end Sample

end TypeCatalog
