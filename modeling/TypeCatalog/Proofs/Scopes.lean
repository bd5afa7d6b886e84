import TypeCatalog.Proofs.Stability
import TypeCatalog.Proofs.Visibility

namespace TypeCatalog

/-! The contexts that a descriptor carries -/

/-- All lists of contexts in a descriptor are `good`. -/
def Descriptor.Searches (good : List Context → Prop) (d : Descriptor) : Prop :=
  ∀ path e own, d.at? path = some e → e.contexts? = some own → good own

namespace Descriptor.Searches

variable {good : List Context → Prop} {d : Descriptor} {name : String} {form : NameForm} {rank : Nat}
  {element : Option String} {as : List Descriptor}

theorem mk (hform : ∀ own, form = .searched own → good own) (has : ∀ a ∈ as, a.Searches good) :
    (Descriptor.mk name form rank element as).Searches good := by
  intro path e own he hown
  cases path with
  | nil =>
    cases he
    refine hform own ?_
    cases form <;> cases hown
    rfl
  | cons i path =>
    obtain ⟨a, ha, he⟩ := Option.bind_eq_some_iff.mp he
    exact has a (List.mem_of_getElem? ha) path e own he hown

theorem addRank (h : d.Searches good) (n : Nat) : (d.addRank n).Searches good := by
  cases d
  intro path e own he hown
  cases path with
  | nil =>
    cases he
    exact h [] _ own rfl hown
  | cons i path => exact h (i :: path) e own he hown

theorem withElementName (h : d.Searches good) : (d.withElementName element).Searches good := by
  cases d
  intro path e own he hown
  cases path with
  | nil =>
    cases he
    exact h [] _ own rfl hown
  | cons i path => exact h (i :: path) e own he hown

end Descriptor.Searches

namespace Analysis

open Cursor Context

/-- A computation whose result is as wanted, where the contexts that are known beforehand and afterwards are good. -/
def Supplies {α : Type} (good : List Context → Prop) (m : Build α) (wanted : α → Prop) : Prop :=
  ∀ known, (∀ cs, known = some cs → good cs) → ∀ a later, m.run known = .ok (a, later) →
    wanted a ∧ ∀ cs, later = some cs → good cs

section

variable {α β : Type} {good : List Context → Prop} {wanted : α → Prop} {wanted' : β → Prop}

theorem supplies_pure {a : α} (h : wanted a) : Supplies good (pure a : Build α) wanted := by
  rintro known hknown _ _ ⟨⟩
  exact ⟨h, hknown⟩

theorem supplies_throw {e : AnalyzeError} : Supplies good (throw e : Build α) wanted := by
  rintro known hknown a later ⟨⟩

theorem supplies_bind {m : Build α} {f : α → Build β} (hm : Supplies good m wanted)
    (hf : ∀ a, wanted a → Supplies good (f a) wanted') : Supplies good (m >>= f) wanted' := by
  intro known hknown b later h
  rw [StateT.run_bind] at h
  obtain ⟨⟨a, next⟩, ha, h⟩ := bind_eq_ok.mp h
  obtain ⟨hwanted, hnext⟩ := hm known hknown a next ha
  exact hf a hwanted next hnext b later h

theorem supplies_map {m : Build α} {f : α → β} (hm : Supplies good m wanted) (hf : ∀ a, wanted a → wanted' (f a)) :
    Supplies good (m >>= fun a => pure (f a)) wanted' :=
  supplies_bind hm fun a ha => supplies_pure (hf a ha)

theorem supplies_mapM {f : α → Build β} {xs : List α} (h : ∀ x ∈ xs, Supplies good (f x) wanted') :
    Supplies good (xs.mapM f) fun ys => ∀ y ∈ ys, wanted' y := by
  induction xs with
  | nil => exact supplies_pure (by simp)
  | cons x xs ih =>
    obtain ⟨hx, hxs⟩ := List.forall_mem_cons.mp h
    rw [List.mapM_cons]
    refine supplies_bind hx fun y hy => supplies_map (ih hxs) fun ys hys => ?_
    exact List.forall_mem_cons.mpr ⟨hy, hys⟩

end

section

variable {s : Session} {fileContexts : List Context} {c : Cursor} {good : List Context → Prop} {steps levels : Nat}

theorem supplies_contextsAt (h : ∀ own, lexicalContexts s fileContexts c = .ok own → good own) :
    Supplies good (contextsAt s fileContexts c) good := by
  intro known hknown own later hrun
  cases known with
  | some contexts =>
    cases hrun
    exact ⟨hknown _ rfl, hknown⟩
  | none =>
    have hcontexts : (contextsAt s fileContexts c).run none =
        (lexicalContexts s fileContexts c >>= fun cs => pure (cs, some cs)) := by
      unfold contextsAt
      cases lexicalContexts s fileContexts c <;> rfl
    rw [hcontexts] at hrun
    obtain ⟨cs, hcs, hrun⟩ := bind_eq_ok.mp hrun
    cases hrun
    refine ⟨h own hcs, ?_⟩
    rintro _ ⟨⟩
    exact h own hcs

theorem supplies_nameOf
    (h : ∀ own, c.qualify.state = .partially → lexicalContexts s fileContexts c = .ok own → good own) :
    Supplies good (nameOf s fileContexts c) fun r => ∀ own, r.2 = .searched own → good own := by
  unfold nameOf
  cases hqualify : c.qualify with
  | failed text reason => exact supplies_throw
  | full name =>
    apply supplies_pure
    dsimp only
    split <;> nofun
  | partially name =>
    dsimp only
    split
    · exact supplies_pure nofun
    · refine supplies_map (supplies_contextsAt fun own => h own (by rw [hqualify]; rfl)) fun own hown _ heq => ?_
      cases heq
      exact hown

/-- The contexts in a descriptor are those around a type on the way that is named in part. -/
theorem supplies_build (hgood : ∀ k x own, .type k x ∈ visits steps c → x.qualify.state = .partially →
      lexicalContexts s fileContexts x = .ok own → good own) :
    Supplies good (build s fileContexts levels c) (Descriptor.Searches good) := by
  induction levels generalizing steps c with
  | zero => exact supplies_throw
  | succ n ih =>
    have hself (own : List Context) := hgood steps c own (by rw [visits_eq]; exact List.mem_cons_self)
    -- what is visited below a part of the type is visited below the type itself, one step further down
    have hbelow {d : Cursor} (hd : ∀ v ∈ visits (steps + 1) d, v ∈ visits steps c) :
        Supplies good (build s fileContexts n d) (Descriptor.Searches good) :=
      ih fun k x own hx => hgood k x own (hd _ hx)
    rw [visits_eq] at hbelow
    unfold build
    cases hform : c.typeForm? with
    | none => exact supplies_throw
    | some form =>
      rw [hform] at hbelow
      cases form with
      | baseWithArguments | constraint | nullable =>
        dsimp only at hbelow ⊢
        cases hinner : c.wrappedType? with
        | none => exact supplies_throw
        | some inner =>
          rw [hinner, Option.toList_some, List.flatMap_singleton] at hbelow
          exact hbelow fun v hv => List.mem_cons_of_mem _ hv
      | array =>
        dsimp only at hbelow ⊢
        cases hinner : c.wrappedType? with
        | none => exact supplies_throw
        | some inner =>
          rw [hinner, Option.toList_some, List.flatMap_singleton] at hbelow
          exact supplies_map (hbelow fun v hv => List.mem_cons_of_mem _ hv) fun d hd => hd.addRank _
      | predefined | identifier | generic | qualified | aliasQualified =>
        dsimp only at hbelow ⊢
        refine supplies_bind (supplies_nameOf hself) fun r hr => ?_
        refine supplies_map (supplies_mapM fun d hd => hbelow fun v hv => ?_) fun as has => .mk hr has
        exact List.mem_cons_of_mem _ (List.mem_flatMap.mpr ⟨d, hd, hv⟩)
      | tuple =>
        dsimp only at hbelow ⊢
        refine supplies_bind (supplies_nameOf hself) fun r hr => ?_
        refine supplies_map (supplies_mapM fun e he => ?_) fun as has => .mk hr has
        cases htype : e.wrappedType? with
        | none => exact supplies_throw
        | some type =>
          refine supplies_map (hbelow fun v hv => List.mem_cons_of_mem _ ?_) fun d hd => hd.withElementName
          refine List.mem_flatMap.mpr ⟨e, he, List.mem_cons_of_mem _ ?_⟩
          rwa [htype, Option.toList_some, List.flatMap_singleton]
      | tupleElement | argumentList => exact supplies_throw

variable {u : SourceUnit} {container : TypeId} {allowCreate : Bool}

/-- The contexts around a type inside `c` that is named in part. -/
def Around (s : Session) (fileContexts : List Context) (c : Cursor) (own : List Context) : Prop :=
  ∃ k x, .type k x ∈ visits 0 c ∧ x.qualify.state = .partially ∧ lexicalContexts s fileContexts x = .ok own

/-- A description is what is built with the imports of the file, in the session that is left. -/
theorem leads_ofNode_built :
    (ofNode u container allowCreate c).Leads s
      (fun a t => a.container = container ∧ contextsOfFile t a.file = .ok a.fileContexts ∧
        ∃ known, (build t a.fileContexts (maxDepth + 1) c).run none = .ok (a.root, known))
      fun _ _ => True := by
  unfold ofNode
  apply Act.leads_get_bind
  split
  · exact Act.leads_throw trivial
  · next file hfile =>
    apply Act.leads_bind
    refine Act.leads_outcome.mono (fun ps t _ => ?_) fun _ _ _ => trivial
    apply Act.leads_get_bind
    cases hcs : contextsOfFile t file with
    | error e => exact Act.leads_throw trivial
    | ok fileContexts =>
      dsimp only [liftCatalog, Except.mapError]
      split
      · exact Act.leads_throw trivial
      · next root known hroot => exact Act.leads_pure ⟨rfl, hcs, known, hroot⟩

/-- The contexts in the description of a node are those around types in it, in the session that is left. -/
theorem leads_ofNode_lexical (hs : s.Sane) :
    (ofNode u container allowCreate c).Leads s
      (fun a t => a.container = container ∧ s.Continues t ∧ t.Sane ∧ contextsOfFile t a.file = .ok a.fileContexts ∧
        a.root.Searches (Around t a.fileContexts c))
      fun _ _ => True := by
  refine (leads_ofNode_built.and Act.leads_outcome).mono ?_ fun _ _ _ => trivial
  rintro a t ⟨⟨hcontainer, hfile, known, hroot⟩, hrun⟩
  have hsupplies : Supplies (Around t a.fileContexts c) (build t a.fileContexts (maxDepth + 1) c)
      (Descriptor.Searches (Around t a.fileContexts c)) :=
    supplies_build fun k x own hx hname hown => ⟨k, x, hx, hname, hown⟩
  have hleft : ((Request.analyze u container allowCreate c).run s).2 = t := congrArg Prod.snd hrun
  have hst := hs.continues_run (r := .analyze u container allowCreate c) trivial
  have ht := (hs.run (r := .analyze u container allowCreate c) trivial).1
  rw [hleft] at hst ht
  exact ⟨hcontainer, hst, ht, hfile, (hsupplies none nofun a.root known hroot).1⟩

end

/-! The labels of the contexts around a place -/

section

variable {s : Session} {u : SourceUnit} {c x b decl : Cursor} {fileContexts own : List Context} {name label : String}

/-- The innermost scope around a place with the types around it. -/
def scopeTypes (c : Cursor) : List Cursor :=
  match c.innermostScope? with
  | some decl => decl :: decl.enclosingTypes
  | none => []

/-- What the namespaces around a declaration bring into scope. -/
def namespaceLabels (b : Cursor) : List String :=
  (b.enclosingNamespaces.zip (blockNames (b.enclosingNamespaces.map namespaceName?))).flatMap fun (block, name) =>
    (name.map (blockLabels block)).getD []

theorem map_of_mapM_ok {ε α β γ : Type} {f : α → Except ε β} {g : α → γ} {k : β → γ} {xs : List α} {ys : List β}
    (hf : ∀ x y, f x = .ok y → g x = k y) (h : xs.mapM f = .ok ys) : xs.map g = ys.map k := by
  induction xs generalizing ys with
  | nil =>
    cases h
    rfl
  | cons x xs ih =>
    rw [List.mapM_cons] at h
    obtain ⟨y, hy, h⟩ := bind_eq_ok.mp h
    obtain ⟨rest, hrest, h⟩ := bind_eq_ok.mp h
    cases h
    rw [List.map_cons, List.map_cons, hf x y hy, ih hrest]

theorem fullNames_typeContexts {ds : List Cursor} {cs : List Context} (h : ds.mapM (typeContext s) = .ok cs) :
    ds.map fullName? = (labels cs).map some := by
  refine (map_of_mapM_ok (k := fun c => some c.label) (fun d c hc => ?_) h).trans List.map_map.symm
  unfold typeContext at hc
  split at hc
  · cases hc
  · next name hname =>
    split at hc
    · cases hc
      exact hname
    · cases hc

theorem labels_namespaceContexts {names : List String} {cs : List Context}
    (h : names.mapM (namespaceContext s) = .ok cs) : labels cs = names := by
  refine (map_of_mapM_ok (g := id) (k := Context.label) (fun name c hc => ?_) h).symm.trans (List.map_id names)
  unfold namespaceContext at hc
  split at hc <;> cases hc
  rfl

/-- The contexts around a place are those of the types around it, of the namespaces around these, of the imports of the
file, and the global one, each label once. -/
theorem lexicalContexts_ok (h : lexicalContexts s fileContexts c = .ok own) :
    ∃ types blocks, own = merge (merge (merge types blocks) fileContexts) [s.globalContext] ∧
      (scopeTypes c).map fullName? = (labels types).map some ∧
      labels blocks = namespaceLabels (c.innermostScope?.getD c) := by
  obtain ⟨scope, hscope, h⟩ := bind_eq_ok.mp h
  cases h
  unfold scopeContexts at hscope
  unfold scopeTypes
  cases hanchor : c.innermostScope? with
  | none =>
    rw [hanchor] at hscope
    obtain ⟨_, ⟨⟩, hscope⟩ := bind_eq_ok.mp hscope
    obtain ⟨blocks, hblocks, hscope⟩ := bind_eq_ok.mp hscope
    cases hscope
    exact ⟨[], blocks, rfl, rfl, labels_namespaceContexts hblocks⟩
  | some decl =>
    rw [hanchor] at hscope
    obtain ⟨types, htypes, hscope⟩ := bind_eq_ok.mp hscope
    obtain ⟨blocks, hblocks, hscope⟩ := bind_eq_ok.mp hscope
    cases hscope
    exact ⟨types, blocks, rfl, fullNames_typeContexts htypes, labels_namespaceContexts hblocks⟩

/-- The namespace of a declaration and the namespaces around it are in its scope. -/
theorem ascent_namespaceOf (hu : u.Tiered) (hb : u.top.Within b) (hsolid : b.start < b.stop)
    (hlabel : label ∈ Session.ascent b.namespaceOf) : label = "" ∨ label ∈ namespaceLabels b := by
  have hblock (a : Cursor) (ha : a ∈ b.enclosingNamespaces) := hu.mem_enclosingNamespaces hb ha
  have hne (a : Cursor) (ha : a ∈ b.enclosingNamespaces) : a.namespaceName? ≠ some "" :=
    hu.name a (Node.preorder_within (hblock a ha).1).1 (hblock a ha).2
  have hnested := hu.nested_enclosingNamespaces hb hsolid
  rcases hu.proper_namespaceOf hb with hempty | hproper
  · rw [hempty, Session.ascent_empty, List.mem_singleton] at hlabel
    exact .inl hlabel
  · obtain ⟨a, ha, hfull⟩ := (namespaceOf_eq_or hu.toShaped hb hsolid).resolve_left hproper.ne_empty
    rw [Session.ascent_eq hproper, List.mem_append, List.mem_singleton] at hlabel
    refine hlabel.symm.imp id fun hlabel => ?_
    have hzip (g : Cursor → Option String) :
        b.enclosingNamespaces.zip (b.enclosingNamespaces.map g) = b.enclosingNamespaces.map fun a => (a, g a) := by
      rw [← List.zip_map' (f := fun a => a), List.map_id']
    unfold namespaceLabels
    rw [blockNames_eq hnested hne, hzip, List.flatMap_map]
    refine List.mem_flatMap.mpr ⟨a, ha, ?_⟩
    rw [hfull]
    change label ∈ b.namespaceOf :: a.blockUsings ++ Dotted.enclosing b.namespaceOf
    rcases List.mem_cons.mp hlabel with rfl | hlabel
    · exact List.mem_append_left _ List.mem_cons_self
    · exact List.mem_append_right _ hlabel

/-- The types around a place, and then the namespaces around the innermost of them, are those of its full name. -/
theorem labels_scopeTypes (hu : u.Tiered) (hdecl : u.top.Within decl) (hscope : x.innermostScope? = some decl)
    {types : List String} (htypes : (scopeTypes x).map fullName? = types.map some) :
    ∃ name, decl.fullName? = some name ∧ types ++ Session.ascent decl.namespaceOf = Session.ascent name := by
  have htype : decl.isTypeDeclaration = true := isTypeDeclaration_of_isScopeDeclaration (List.find?_some hscope)
  unfold scopeTypes at htypes
  rw [hscope] at htypes
  have hfilter : (decl :: decl.enclosingTypes).filterMap fullName? = types := by
    have hnames := congrArg (List.filterMap id) htypes
    rw [List.filterMap_map, List.filterMap_map] at hnames
    exact hnames.trans List.filterMap_some
  cases types with
  | nil => cases htypes
  | cons name types =>
    obtain ⟨hname, -⟩ := List.cons.inj htypes
    exact ⟨name, hname, hfilter ▸ hu.ascent_fullName hdecl htype hname⟩

theorem namespaces_lexicalContexts (h : lexicalContexts s fileContexts x = .ok own) :
    ∀ label ∈ namespaceLabels (x.innermostScope?.getD x), label ∈ labels own := by
  obtain ⟨types, blocks, rfl, -, hblocks⟩ := lexicalContexts_ok h
  rw [← hblocks]
  exact fun label hlabel =>
    mem_labels_merge.mpr (.inl (mem_labels_merge.mpr (.inl (mem_labels_merge.mpr (.inr hlabel)))))

theorem files_lexicalContexts (h : lexicalContexts s fileContexts x = .ok own) :
    ∀ label ∈ labels fileContexts, label ∈ labels own := by
  obtain ⟨types, blocks, rfl, -, -⟩ := lexicalContexts_ok h
  exact fun label hlabel => mem_labels_merge.mpr (.inl (mem_labels_merge.mpr (.inr hlabel)))

theorem global_lexicalContexts (h : lexicalContexts s fileContexts x = .ok own) : "" ∈ labels own := by
  obtain ⟨types, blocks, rfl, -, -⟩ := lexicalContexts_ok h
  exact mem_labels_merge.mpr (.inr (List.mem_singleton_self _))

/-- Around a place in a declaration all labels are different, and those of the declaration and of what is around it are
among them. -/
theorem labels_lexicalContexts (hu : u.Tiered) (hdecl : u.top.Within decl) (hscope : x.innermostScope? = some decl)
    (hname : decl.fullName? = some name) (h : lexicalContexts s fileContexts x = .ok own) :
    (labels own).Nodup ∧ ∀ label ∈ Session.ascent name, label ∈ labels own := by
  obtain ⟨types, blocks, hown, htypes, -⟩ := lexicalContexts_ok h
  obtain ⟨_, hname', hascent⟩ := labels_scopeTypes hu hdecl hscope htypes
  cases hname.symm.trans hname'
  have htype : decl.isTypeDeclaration = true := isTypeDeclaration_of_isScopeDeclaration (List.find?_some hscope)
  obtain ⟨simple, -, hsimple, -⟩ := fullName?_eq_some.mp hname
  refine ⟨?_, fun label hlabel => ?_⟩
  · rw [hown]
    exact nodup_merge (nodup_merge (nodup_merge (hascent ▸ Session.nodup_ascent name).of_append_left))
  · rw [← hascent, List.mem_append] at hlabel
    rcases hlabel with hlabel | hlabel
    · rw [hown]
      exact mem_labels_merge.mpr (.inl (mem_labels_merge.mpr (.inl (mem_labels_merge.mpr (.inl hlabel)))))
    · rcases ascent_namespaceOf hu hdecl (hu.solid_declaration hdecl htype hsimple) hlabel with rfl | hlabel
      · exact global_lexicalContexts h
      · refine namespaces_lexicalContexts h label ?_
        rwa [hscope]

end

end Analysis

/-! What is searched for a descriptor -/

theorem Scope.contexts_documented {scope : Scope} {s : Session} {d : Descriptor} {own visible : List Context}
    (hown : d.contexts? = some own) (hdoc : s.isDocumented scope.container = true)
    (hvisible : s.visibleFrom scope.container = .ok visible) :
    scope.contexts s d = .ok (some
      (Context.merge (Context.merge (Context.merge own visible) scope.fileContexts) [s.globalContext])) := by
  unfold Scope.contexts
  rw [hown, hdoc]
  dsimp only
  rw [if_pos rfl, hvisible]
  rfl

namespace Session

open Context Dotted

variable {s t v : Session} {u : SourceUnit} {decl : Cursor} {name : String} {id : TypeId}

/-- From the row of a declaration is visible what the full name of the declaration says. -/
theorem WorkedOn.visibleFrom (hs : s.WorkedOn SourceUnit.Tiered) (hname : decl.fullName? = some name)
    (hid : s.documentedOf decl = some id) :
    ∃ cs, s.visibleFrom id = .ok (.ofType name id :: cs) ∧ labels (.ofType name id :: cs) = ascent name := by
  unfold documentedOf at hid
  rw [hname] at hid
  obtain ⟨d, hd, rfl, -⟩ := mem_of_findDocumented hid
  exact (hs.tiered fun _ h => h).visibleFrom hs.worked.sane hs.worked.nested hd

/-- For a type that is described in a declaration, the look-up goes through the contexts around the type and then
through those visible from the declaration that are not among them. -/
theorem leads_ofNode_searched (hs : s.WorkedOn SourceUnit.Tiered) (hname : decl.fullName? = some name)
    (hid : s.documentedOf decl = some id) {c : Cursor} {allowCreate : Bool} :
    (Analysis.ofNode u id allowCreate c).Leads s
      (fun a t => s.Continues t ∧ t.Sane ∧ Analysis.contextsOfFile t a.file = .ok a.fileContexts ∧
        ∃ above, labels (.ofType name id :: above) = ascent name ∧
          ∀ path d own, a.root.at? path = some d → d.contexts? = some own → Analysis.Around t a.fileContexts c own ∧
            ∀ v, t.Continues v → v.Sane → a.scope.contexts v d = .ok (some (merge own (.ofType name id :: above))))
      fun _ _ => True := by
  obtain ⟨above, hvisible, hlabels⟩ := hs.visibleFrom hname hid
  have hdoc : s.isDocumented id = true := by
    obtain ⟨_, -, hfound⟩ := Option.bind_eq_some_iff.mp hid
    exact hs.worked.sane.findDocumented hfound
  refine (Analysis.leads_ofNode_lexical hs.worked.sane).mono ?_ fun _ _ _ => trivial
  rintro a t ⟨rfl, hst, ht, hfile, hsearches⟩
  refine ⟨hst, ht, hfile, above, hlabels, fun path d own hd hown => ⟨hsearches path d own hd hown, fun v htv hv => ?_⟩⟩
  obtain ⟨-, x, -, -, hlexical⟩ := hsearches path d own hd hown
  have hsv := hst.trans htv
  have hvdoc : v.isDocumented a.scope.container = true := by
    rw [hsv.isDocumented hs.worked.sane.numbered]
    exact hdoc
  have hvvisible : v.visibleFrom a.scope.container = .ok (.ofType name a.container :: above) :=
    (hsv.visibleFrom hs.worked.sane hv hs.worked.nested hdoc).trans hvisible
  -- the imports of the file and the global namespace are there already
  have hglobal : "" ∈ labels (merge own (.ofType name a.container :: above)) :=
    mem_labels_merge.mpr (.inl (Analysis.global_lexicalContexts hlexical))
  have hfiles : ∀ label ∈ labels a.scope.fileContexts, label ∈ labels (merge own (.ofType name a.container :: above)) :=
    fun label hlabel => mem_labels_merge.mpr (.inl (Analysis.files_lexicalContexts hlexical label hlabel))
  rw [Scope.contexts_documented hown hvdoc hvvisible, merge_eq_self hfiles, merge_eq_self]
  exact fun label hlabel => List.mem_singleton.mp hlabel ▸ hglobal

/-- The scopes that are read off the syntax tree and those that are read off the rows of the catalog agree. What is
visible from the row of a declaration are the dot-prefixes of its full name and the global namespace, whichever file,
part or namesake the row was made from; and they are all among the contexts that a type in the declaration is described
with, so that nothing is added to these when the name is looked up. -/
theorem scopes_agree (hs : s.WorkedOn SourceUnit.Tiered) (hu : u.Tiered) (hdecl : u.top.Within decl)
    (hscope : decl.isScopeDeclaration = true) (hname : decl.fullName? = some name) (hid : s.documentedOf decl = some id) :
    (∃ visible, s.visibleFrom id = .ok visible ∧ visible.map (·.label) = name :: enclosing name ++ [""]) ∧
    ∀ c, c.innermostScope? = some decl → ∀ allowCreate, (Analysis.ofNode u id allowCreate c).Leads s
      (fun a t => ∀ path d own, a.root.at? path = some d → d.contexts? = some own →
        (own.map (·.label)).Nodup ∧ (∀ label ∈ name :: enclosing name ++ [""], label ∈ own.map (·.label)) ∧
          ∀ v, t.Continues v → v.Sane → a.scope.contexts v d = .ok (some own))
      fun _ _ => True := by
  have hascent : ascent name = name :: enclosing name ++ [""] :=
    ascent_eq (hu.proper_fullName hdecl (Analysis.isTypeDeclaration_of_isScopeDeclaration hscope) hname)
  obtain ⟨visible, hvisible, hlabels⟩ := hs.visibleFrom hname hid
  rw [← hascent]
  refine ⟨⟨_, hvisible, hlabels⟩, fun c hc allowCreate => ?_⟩
  refine (leads_ofNode_searched hs hname hid).mono ?_ fun _ _ h => h
  rintro a t ⟨-, -, -, above, habove, hall⟩ path d own hd hown
  obtain ⟨⟨k, x, hx, hpartial, hlexical⟩, hcontexts⟩ := hall path d own hd hown
  have hform := Cursor.form_of_partially hpartial
  obtain ⟨hnodup, hmem⟩ :=
    Analysis.labels_lexicalContexts hu hdecl ((Analysis.innermostScope?_visits hx hform).trans hc) hname hlexical
  refine ⟨hnodup, hmem, fun v htv hv => ?_⟩
  rw [hcontexts v htv hv, merge_eq_self]
  rwa [habove]

end Session

namespace Sample

/-- The file `namespace N.A{class B{}}namespace N{class A{class B{X x;}}}`. -/
def partitioned : SourceUnit where
  path := ⟨"Parts.cs"⟩
  source := "namespace N.A{class B{}}namespace N{class A{class B{X x;}}}"
  root := node 0 "compilation_unit" none 0 "namespace N.A{class B{}}namespace N{class A{class B{X x;}}}"
    [node 1 "namespace_declaration" none 0 "namespace N.A{class B{}}"
      [node 2 "qualified_name" (some "name") 10 "N.A"
        [node 3 "identifier" (some "qualifier") 10 "N" [], node 4 "identifier" (some "name") 12 "A" []],
       node 5 "declaration_list" (some "body") 13 "{class B{}}"
        [node 6 "class_declaration" none 14 "class B{}"
          [node 7 "identifier" (some "name") 20 "B" [],
           node 8 "declaration_list" (some "body") 21 "{}" []]]],
     node 9 "namespace_declaration" none 24 "namespace N{class A{class B{X x;}}}"
      [node 10 "identifier" (some "name") 34 "N" [],
       node 11 "declaration_list" (some "body") 35 "{class A{class B{X x;}}}"
        [node 12 "class_declaration" none 36 "class A{class B{X x;}}"
          [node 13 "identifier" (some "name") 42 "A" [],
           node 14 "declaration_list" (some "body") 43 "{class B{X x;}}"
            [node 15 "class_declaration" none 44 "class B{X x;}"
              [node 16 "identifier" (some "name") 50 "B" [],
               node 17 "declaration_list" (some "body") 51 "{X x;}"
                [node 18 "field_declaration" none 52 "X x;"
                  [node 19 "variable_declaration" none 52 "X x"
                    [node 20 "identifier" (some "type") 52 "X" [],
                     node 21 "variable_declarator" none 54 "x" [node 22 "identifier" (some "name") 54 "x" []]]]]]]]]]]

/-- The file `class A{namespace N{class B{}}}namespace N{class A{class B{X x;}}}`. -/
def inverted : SourceUnit where
  path := ⟨"Parts.cs"⟩
  source := "class A{namespace N{class B{}}}namespace N{class A{class B{X x;}}}"
  root := node 0 "compilation_unit" none 0 "class A{namespace N{class B{}}}namespace N{class A{class B{X x;}}}"
    [node 1 "class_declaration" none 0 "class A{namespace N{class B{}}}"
      [node 2 "identifier" (some "name") 6 "A" [],
       node 3 "declaration_list" (some "body") 7 "{namespace N{class B{}}}"
        [node 4 "namespace_declaration" none 8 "namespace N{class B{}}"
          [node 5 "identifier" (some "name") 18 "N" [],
           node 6 "declaration_list" (some "body") 19 "{class B{}}"
            [node 7 "class_declaration" none 20 "class B{}"
              [node 8 "identifier" (some "name") 26 "B" [],
               node 9 "declaration_list" (some "body") 27 "{}" []]]]]],
     node 10 "namespace_declaration" none 31 "namespace N{class A{class B{X x;}}}"
      [node 11 "identifier" (some "name") 41 "N" [],
       node 12 "declaration_list" (some "body") 42 "{class A{class B{X x;}}}"
        [node 13 "class_declaration" none 43 "class A{class B{X x;}}"
          [node 14 "identifier" (some "name") 49 "A" [],
           node 15 "declaration_list" (some "body") 50 "{class B{X x;}}"
            [node 16 "class_declaration" none 51 "class B{X x;}"
              [node 17 "identifier" (some "name") 57 "B" [],
               node 18 "declaration_list" (some "body") 58 "{X x;}"
                [node 19 "field_declaration" none 59 "X x;"
                  [node 20 "variable_declaration" none 59 "X x"
                    [node 21 "identifier" (some "type") 59 "X" [],
                     node 22 "variable_declarator" none 61 "x" [node 23 "identifier" (some "name") 61 "x" []]]]]]]]]]]

/-- The last declaration in a file. -/
def innermost (u : SourceUnit) : Cursor := ((u.top.preorder.filter (·.isTypeDeclaration)).getLast?).getD u.top

def crossed (u : SourceUnit) : Cursor := (((innermost u).sites[0]?).map (·.type)).getD u.top

def parted (u : SourceUnit) : Session := ((Request.catalog u).run memory).2

/-- The contexts of the type in the first of the files, where `N.A` is a class as well as a namespace. -/
def surrounding : List Context :=
  [.ofType "N.A.B" ⟨1⟩, .ofType "N.A" ⟨2⟩, .ofNamespace "N" ⟨2⟩, .ofNamespace "" ⟨1⟩]

theorem within_innermost {u : SourceUnit} : u.top.Within (innermost u) := by
  unfold innermost
  cases hlast : (u.top.preorder.filter (·.isTypeDeclaration)).getLast? with
  | none => exact .self
  | some c => exact (Node.preorder_within (List.mem_filter.mp (List.mem_of_getLast? hlast)).1).1

def crossing : Analysis where
  root := .mk "X" (.searched surrounding) 0 none []
  container := ⟨1⟩
  file := ⟨1⟩
  fileContexts := []
  parameters := []
  allowCreate := false

theorem tiered_partitioned : partitioned.Tiered := SourceUnit.tiered_of_isTiered rfl

theorem workedOn_partitioned : (parted partitioned).WorkedOn SourceUnit.Tiered :=
  (Session.WorkedOn.inMemory inMemory_eq).request (r := .catalog partitioned) trivial
    (by rintro _ ⟨⟩; exact tiered_partitioned)

/-- The names that the full name of `B` says are around it. -/
theorem prefixes_innermost : "N.A.B" :: Dotted.enclosing "N.A.B" ++ [""] = ["N.A.B", "N.A", "N", ""] := by
  decide +kernel

theorem fullName_innermost : (innermost partitioned).fullName? = some "N.A.B" := rfl

/-- What is there after the first of the files was catalogued. -/
theorem values_partitioned :
    (parted partitioned).documentedOf (innermost partitioned) = some ⟨1⟩ ∧
      (parted partitioned).files = [⟨⟨1⟩, partitioned.path, []⟩] ∧
      ((Analysis.containerParameters ⟨1⟩).outcome (parted partitioned)).1 = .ok [] ∧
      ((Analysis.containerParameters ⟨1⟩).outcome (parted partitioned)).2 = parted partitioned ∧
      Analysis.contextsOfFile (parted partitioned) ⟨1⟩ = .ok [] ∧
      Analysis.lexicalContexts (parted partitioned) [] (crossed partitioned) = .ok surrounding := by
  decide +kernel

theorem ofNode_crossed : (Analysis.ofNode partitioned ⟨1⟩ false (crossed partitioned)).outcome (parted partitioned) =
    (.ok crossing, parted partitioned) := by
  obtain ⟨-, hfiles, hps, hleft, himports, hcontexts⟩ := values_partitioned
  have hfile : (parted partitioned).findSourceFile partitioned.path = some ⟨1⟩ := by
    simp [Session.findSourceFile, hfiles, Path.same]
  exact Analysis.ofNode_ok hfile (Prod.ext hps hleft) himports
    (Analysis.build_plain ⟨rfl, rfl, rfl, by decide⟩ hcontexts)

/-- The row of `B` was made where `N.A` is a namespace, and what is visible from it are the same names as are around
the field in the other part, where `N.A` is a class. -/
theorem scopes_agree_partitioned :
    Session.inMemory = .ok memory ∧ (innermost partitioned).fullName? = some "N.A.B" ∧
      (parted partitioned).documentedOf (innermost partitioned) = some ⟨1⟩ ∧
      (∃ visible, (parted partitioned).visibleFrom ⟨1⟩ = .ok visible ∧
        visible.map (·.label) = ["N.A.B", "N.A", "N", ""]) ∧
      (Analysis.ofNode partitioned ⟨1⟩ false (crossed partitioned)).outcome (parted partitioned) =
          (.ok crossing, parted partitioned) ∧
        crossing.root.contexts? = some surrounding ∧
          crossing.scope.contexts (parted partitioned) crossing.root = .ok (some surrounding) := by
  have hid := values_partitioned.1
  obtain ⟨hvisible, hdescribed⟩ := Session.scopes_agree workedOn_partitioned tiered_partitioned within_innermost rfl
    fullName_innermost hid
  obtain ⟨-, -, hsearched⟩ :=
    (Act.leads_iff.mp (hdescribed (crossed partitioned) rfl false)).1 _ _ ofNode_crossed [] _ surrounding rfl rfl
  exact ⟨inMemory_eq, fullName_innermost, hid, prefixes_innermost ▸ hvisible, ofNode_crossed, rfl,
    hsearched _ (.refl _) workedOn_partitioned.worked.sane⟩

/-- In the second of the files the row of `B` was made in a namespace that stands in the class `A`. What is visible
from the row is this class, and not the class and the namespace that the full name says. -/
theorem scopes_differ_inverted :
    Session.inMemory = .ok memory ∧ inverted.Shaped ∧ (innermost inverted).isScopeDeclaration = true ∧
      (innermost inverted).fullName? = some "N.A.B" ∧
      (parted inverted).documentedOf (innermost inverted) = some ⟨2⟩ ∧
      (∃ visible, (parted inverted).visibleFrom ⟨2⟩ = .ok visible ∧ visible.map (·.label) = ["N.A.B", "A", ""]) ∧
      "N.A.B" :: Dotted.enclosing "N.A.B" ++ [""] = ["N.A.B", "N.A", "N", ""] := by
  refine ⟨inMemory_eq, SourceUnit.shaped_of_isShaped rfl, rfl, rfl, by decide +kernel,
    ⟨[.ofType "N.A.B" ⟨2⟩, .ofType "A" ⟨1⟩, .ofNamespace "" ⟨1⟩], by decide +kernel, rfl⟩, prefixes_innermost⟩

end Sample

end TypeCatalog
