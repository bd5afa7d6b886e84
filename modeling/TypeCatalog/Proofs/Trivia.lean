import TypeCatalog.Proofs.Comments
import TypeCatalog.Proofs.Scanning

namespace TypeCatalog

namespace SourceUnit.Plain

open Cursor

variable {u : SourceUnit} {c d : Cursor}

/-! Types as they are described -/

section

open Analysis

variable {s : Session} {fileContexts : List Context}

theorem typeContext_bare (hu : u.Plain) (hc : u.top.Within c) : typeContext s c.bare = typeContext s c := by
  unfold typeContext unsupported
  rw [hu.fullName?_bare hc, hu.typeParameterCount_bare hc, kind_bare, span_bare]

theorem blockNames_bare (hu : u.Plain) (hc : u.top.Within c) :
    c.bare.enclosingNamespaces.map namespaceName? = c.enclosingNamespaces.map namespaceName? := by
  rw [enclosingNamespaces_bare, List.map_map]
  apply List.map_congr_left
  exact fun b hb => hu.namespaceName?_bare (hc.enclosingNamespaces rfl hb)

theorem blockLabels_bare (hu : u.Plain) (hc : u.top.Within c) {names : List (Option String)} :
    (c.bare.enclosingNamespaces.zip names).flatMap (fun (block, name) => (name.map (blockLabels block)).getD []) =
      (c.enclosingNamespaces.zip names).flatMap fun (block, name) => (name.map (blockLabels block)).getD [] := by
  rw [enclosingNamespaces_bare, List.zip_map_left, List.flatMap_map]
  apply List.flatMap_congr
  rintro ⟨b, name⟩ hb
  have hblock : b.bare.blockUsings = b.blockUsings :=
    hu.blockUsings_bare (hc.enclosingNamespaces rfl (List.of_mem_zip hb).1)
  have hlabels : blockLabels b.bare = blockLabels b := by
    funext full
    unfold blockLabels
    rw [hblock]
  simp [hlabels]

theorem scopeContexts_bare (hu : u.Plain) (hc : u.top.Within c) : scopeContexts s c.bare = scopeContexts s c := by
  unfold scopeContexts
  rw [innermostScope?_bare]
  cases hanchor : c.innermostScope? with
  | none =>
    dsimp only [Option.map_none, Option.getD_none]
    rw [hu.blockNames_bare hc, hu.blockLabels_bare hc]
  | some d =>
    have hd : u.top.Within d := by
      rcases List.mem_cons.mp (List.mem_of_find?_eq_some hanchor) with rfl | hd
      · exact hc
      · exact hc.of_mem_enclosing rfl hd
    have htypes : (d.bare :: d.bare.enclosingTypes).mapM (typeContext s) =
        (d :: d.enclosingTypes).mapM (typeContext s) := by
      rw [enclosingTypes_bare, ← List.map_cons]
      apply mapM_map_congr
      refine List.forall_mem_cons.mpr ⟨hu.typeContext_bare hd, fun x hx => ?_⟩
      exact hu.typeContext_bare (hd.enclosingTypes rfl hx)
    dsimp only [Option.map_some, Option.getD_some]
    rw [htypes, hu.blockNames_bare hd, hu.blockLabels_bare hd]

theorem nameOf_bare (hu : u.Plain) (hc : u.top.Within c) : nameOf s fileContexts c.bare = nameOf s fileContexts c := by
  unfold nameOf contextsAt lexicalContexts
  rw [hu.qualify_bare hc, hu.scopeContexts_bare hc, kind_bare, span_bare]

theorem genericName?_bare (hu : u.Plain) (hc : u.top.Within c) : genericName? c.bare = (genericName? c).map bare := by
  unfold genericName?
  rw [typeForm?_bare, hu.field?_bare hc, Option.filter_map]
  split <;> simp [Function.comp_def]

theorem within_genericName? (hc : u.top.Within c) (hd : genericName? c = some d) : u.top.Within d := by
  rcases genericName?_eq_some hd with rfl | ⟨hd, -⟩
  · exact hc
  · exact hc.of_mem_children hd

theorem argumentNodes_bare (hu : u.Plain) (hc : u.top.Within c) :
    argumentNodes c.bare = (argumentNodes c).map bare := by
  have hfind (g : Cursor) : g.bare.namedChildren.find? (·.kind == "type_argument_list") =
      (g.namedChildren.find? (·.kind == "type_argument_list")).map bare := by
    rw [Cursor.namedChildren_bare, find?_bare (by simp)]
    intro x _ hx
    simp [kind_of_isComment hx]
  rw [argumentNodes_eq, argumentNodes_eq, hu.genericName?_bare hc]
  cases hg : genericName? c with
  | none => rfl
  | some g =>
    dsimp only [Option.map_some, Option.bind_some]
    rw [hfind]
    cases hlist : g.namedChildren.find? (·.kind == "type_argument_list") with
    | none => rfl
    | some list =>
      have hkind : list.kind = "type_argument_list" := by simpa using List.find?_some hlist
      have hmem := (mem_namedChildren.mp (List.mem_of_find?_eq_some hlist)).1
      exact hu.namedChildren_bare ((within_genericName? hc hg).of_mem_children hmem) (.inr hkind)

theorem arrayRank_bare (c : Cursor) : c.bare.arrayRank = c.arrayRank := by
  have hcount (x : Cursor) : x.bare.children.countP (·.kind == ",") = x.children.countP (·.kind == ",") := by
    rw [List.countP_eq_length_filter, filter_kind_bare (by decide), List.length_map, List.countP_eq_length_filter]
  unfold arrayRank
  rw [filter_kind_bare (by decide), List.foldr_map]
  simp only [hcount]

theorem elementNameOf_bare (hu : u.Plain) (hc : u.top.Within c) : elementNameOf c.bare d.bare = elementNameOf c d := by
  unfold elementNameOf
  dsimp only
  rw [hu.field?_bare hc, Cursor.namedChildren_bare, filter_bare (by simp), List.getLast?_map, ← Option.map_or,
    Option.map_map]
  · simp [Function.comp_def]
  · intro x _ hx
    simp [kind_of_isComment hx]

theorem elementNodes_bare (c : Cursor) : elementNodes c.bare = (elementNodes c).map bare :=
  filter_named_kind_bare (by decide)

theorem within_wrappedType? (hc : u.top.Within c) (hd : c.wrappedType? = some d) : u.top.Within d :=
  hc.of_mem_children (mem_children_of_wrappedType? hd)

theorem within_argumentNodes (hc : u.top.Within c) (hd : d ∈ argumentNodes c) : u.top.Within d := by
  obtain ⟨g, list, hg, hlist, -, hd⟩ := mem_argumentNodes hd
  exact ((within_genericName? hc hg).of_mem_children hlist).of_mem_children (mem_namedChildren.mp hd).1

/-- A type is described as if there were no comments in it. -/
theorem build_bare (hu : u.Plain) (hc : u.top.Within c) {levels : Nat} :
    build s fileContexts levels c.bare = build s fileContexts levels c := by
  induction levels generalizing c with
  | zero =>
    unfold build
    rw [span_bare]
  | succ n ih =>
    have hunsupported (d : Cursor) : unsupported d.bare = unsupported d := by
      unfold unsupported
      rw [kind_bare, span_bare]
    unfold build
    rw [typeForm?_bare, hunsupported]
    cases c.typeForm? with
    | none => rfl
    | some form =>
      cases form with
      | baseWithArguments | constraint | nullable =>
        dsimp only
        rw [hu.wrappedType?_bare hc]
        cases hinner : c.wrappedType? with
        | none => rfl
        | some inner => exact ih (within_wrappedType? hc hinner)
      | array =>
        dsimp only
        rw [hu.wrappedType?_bare hc, arrayRank_bare]
        cases hinner : c.wrappedType? with
        | none => rfl
        | some inner =>
          dsimp only [Option.map_some]
          rw [ih (within_wrappedType? hc hinner)]
      | predefined | identifier | generic | qualified | aliasQualified =>
        have harguments : (argumentNodes c.bare).mapM (build s fileContexts n) =
            (argumentNodes c).mapM (build s fileContexts n) := by
          rw [hu.argumentNodes_bare hc]
          exact mapM_map_congr fun x hx => ih (within_argumentNodes hc hx)
        dsimp only
        rw [hu.nameOf_bare hc, harguments]
      | tuple =>
        dsimp only
        rw [hu.nameOf_bare hc, elementNodes_bare]
        congr 1
        funext name
        congr 1
        apply mapM_map_congr
        intro x hx
        have hx := hc.of_mem_children (mem_children_of_elementNodes hx)
        rw [hu.wrappedType?_bare hx, hunsupported]
        cases htype : x.wrappedType? with
        | none => rfl
        | some type =>
          dsimp only [Option.map_some]
          rw [ih (within_wrappedType? hx htype), hu.elementNameOf_bare hx]
      | tupleElement | argumentList => rfl

end

/-! The uses of types in a declaration -/

theorem signatureParameters_bare (hu : u.Plain) (hc : u.top.Within c) {member : String} :
    c.bare.signatureParameters member = (c.signatureParameters member).map MemberType.bare := by
  unfold signatureParameters
  rw [hu.or_bare hc rfl]
  cases hlist : (c.field? "parameters").or (c.childOf? ["parameter_list"]) with
  | none => rfl
  | some list =>
    dsimp only [Option.map_some]
    rw [filter_named_kind_bare (by decide), List.filterMap_map, List.map_filterMap]
    apply List.filterMap_congr
    intro x hx
    have hx := (within_or hc hlist).of_mem_children (mem_namedChildren.mp (List.mem_filter.mp hx).1).1
    dsimp only [Function.comp_apply]
    rw [hu.field?_bare hx, hu.declaredName?_bare hx]
    cases x.field? "type" with
    | none => rfl
    | some type => cases x.declaredName? <;> rfl

theorem fieldType_bare (hu : u.Plain) (hc : u.top.Within c) : c.bare.fieldType = c.fieldType.map MemberType.bare := by
  unfold fieldType
  rw [childOf?_bare rfl]
  cases hdeclaration : c.childOf? ["variable_declaration"] with
  | none => rfl
  | some declaration =>
    have hdeclaration := hc.of_mem_children (mem_children_of_childOf? hdeclaration)
    have hnames : (declaration.bare.namedChildren.filter (·.kind == "variable_declarator")).filterMap declaredName? =
        (declaration.namedChildren.filter (·.kind == "variable_declarator")).filterMap declaredName? := by
      rw [filter_named_kind_bare (by decide), filterMap_bare]
      intro x hx
      exact hu.declaredName?_bare (hdeclaration.of_mem_children (mem_namedChildren.mp (List.mem_filter.mp hx).1).1)
    simp only [Option.map_some, Option.bind_eq_bind, Option.bind_some]
    rw [hu.field?_bare hdeclaration, hnames]
    cases declaration.field? "type" <;> rfl

theorem propertyType_bare (hu : u.Plain) (hc : u.top.Within c) :
    c.bare.propertyType = c.propertyType.map MemberType.bare := by
  unfold propertyType
  rw [hu.field?_bare hc, hu.declaredName?_bare hc]
  cases c.field? "type" with
  | none => rfl
  | some type => cases c.declaredName? <;> rfl

theorem methodTypes_bare (hu : u.Plain) (hc : u.top.Within c) {name : String} :
    c.bare.methodTypes name = (c.methodTypes name).map MemberType.bare := by
  unfold methodTypes
  rw [hu.field?_bare hc, hu.field?_bare hc, ← Option.map_or, hu.signatureParameters_bare hc, List.map_append]
  cases (c.field? "returns").or (c.field? "type") with
  | none => rfl
  | some type =>
    dsimp only [Option.map_some]
    rw [text_bare]
    split <;> rfl

theorem signatureTypes_bare (hu : u.Plain) (hc : u.top.Within c) :
    c.bare.signatureTypes = c.signatureTypes.map MemberType.bare := by
  have hparameters : c.bare.parameterList?.isSome = c.parameterList?.isSome := by
    unfold parameterList?
    rw [hu.or_bare hc rfl, Option.isSome_map]
  unfold signatureTypes
  rw [kind_bare, hu.fieldType_bare hc, hu.propertyType_bare hc, hu.declaredName?_bare hc, hparameters]
  split
  · cases c.fieldType <;> rfl
  · cases c.propertyType <;> rfl
  · cases c.declaredName? with
    | none => rfl
    | some name =>
      dsimp only
      split
      · rfl
      · exact hu.methodTypes_bare hc
  · cases c.declaredName? with
    | none => rfl
    | some name => exact hu.signatureParameters_bare hc
  · rfl

theorem memberTypes_bare (hu : u.Plain) (hc : u.top.Within c) :
    c.bare.memberTypes = c.memberTypes.map MemberType.bare := by
  unfold memberTypes members
  rw [hu.body?_bare hc]
  cases hbody : c.body? with
  | none => rfl
  | some body =>
    dsimp only [Option.map_some]
    rw [Cursor.namedChildren_bare]
    apply flatMap_bare
    · intro x hx
      exact hu.signatureTypes_bare ((within_or hc hbody).of_mem_children (mem_namedChildren.mp hx).1)
    · intro x _ hx
      unfold signatureTypes
      rw [kind_of_isComment hx]
      rfl

theorem sites_bare (hu : u.Plain) (hc : u.top.Within c) : c.bare.sites = c.sites.map Site.bare := by
  unfold sites
  rw [hu.baseTypes_bare hc, hu.constraintClauses_bare hc, hu.memberTypes_bare hc]
  simp [List.flatMap_map, List.map_flatMap, Site.bare, MemberType.bare, Function.comp_def]

theorem within_baseTypes (hc : u.top.Within c) (hd : d ∈ c.baseTypes) : u.top.Within d := by
  unfold baseTypes at hd
  split at hd
  · next list hlist =>
    have hlist := hc.of_mem_children (mem_children_of_childOf? hlist)
    exact hlist.of_mem_children (mem_namedChildren.mp (List.mem_filter.mp hd).1).1
  · cases hd

theorem within_constraintClauses (hc : u.top.Within c) {name : String} {types : List Cursor}
    (hclause : (name, types) ∈ c.constraintClauses) (hd : d ∈ types) : u.top.Within d := by
  obtain ⟨clause, hmem, hclause⟩ := List.mem_filterMap.mp hclause
  obtain ⟨target, -, hclause⟩ := Option.bind_eq_some_iff.mp hclause
  cases hclause
  exact (hc.of_mem_children (List.mem_filter.mp hmem).1).of_mem_children (List.mem_filter.mp hd).1

theorem within_signatureParameters (hc : u.top.Within c) {member : String} {m : MemberType}
    (hm : m ∈ c.signatureParameters member) : u.top.Within m.type := by
  unfold signatureParameters at hm
  split at hm
  · next list hlist =>
    obtain ⟨x, hx, hm⟩ := List.mem_filterMap.mp hm
    obtain ⟨type, htype, hm⟩ := Option.bind_eq_some_iff.mp hm
    obtain ⟨name, -, hm⟩ := Option.bind_eq_some_iff.mp hm
    cases hm
    have hx := (within_or hc hlist).of_mem_children (mem_namedChildren.mp (List.mem_filter.mp hx).1).1
    exact hx.of_mem_children (mem_children_of_field? htype)
  · cases hm

theorem within_signatureTypes (hc : u.top.Within c) {m : MemberType} (hm : m ∈ c.signatureTypes) :
    u.top.Within m.type := by
  unfold signatureTypes at hm
  split at hm
  · obtain ⟨declaration, hdeclaration, hm⟩ := Option.bind_eq_some_iff.mp (Option.mem_toList.mp hm)
    obtain ⟨type, htype, hm⟩ := Option.bind_eq_some_iff.mp hm
    cases hm
    exact (hc.of_mem_children (mem_children_of_childOf? hdeclaration)).of_mem_children (mem_children_of_field? htype)
  · obtain ⟨type, htype, hm⟩ := Option.bind_eq_some_iff.mp (Option.mem_toList.mp hm)
    obtain ⟨name, -, hm⟩ := Option.bind_eq_some_iff.mp hm
    cases hm
    exact hc.of_mem_children (mem_children_of_field? htype)
  · split at hm
    · split at hm
      · cases hm
      · rcases List.mem_append.mp hm with hm | hm
        · split at hm
          · next type htype =>
            have htype : type ∈ c.children := by
              rcases Option.or_eq_some_iff.mp htype with htype | ⟨-, htype⟩
              · exact mem_children_of_field? htype
              · exact mem_children_of_field? htype
            split at hm
            · cases hm
            · cases List.mem_singleton.mp hm
              exact hc.of_mem_children htype
          · cases hm
        · exact within_signatureParameters hc hm
    · cases hm
  · split at hm
    · exact within_signatureParameters hc hm
    · cases hm
  · cases hm

theorem within_sites (hc : u.top.Within c) {site : Site} (hsite : site ∈ c.sites) : u.top.Within site.type := by
  unfold sites at hsite
  rcases List.mem_append.mp hsite with hsite | hsite
  · rcases List.mem_append.mp hsite with hsite | hsite
    · obtain ⟨d, hd, rfl⟩ := List.mem_map.mp hsite
      exact within_baseTypes hc hd
    · obtain ⟨⟨name, types⟩, hclause, hsite⟩ := List.mem_flatMap.mp hsite
      obtain ⟨d, hd, rfl⟩ := List.mem_map.mp hsite
      exact within_constraintClauses hc hclause hd
  · obtain ⟨m, hm, rfl⟩ := List.mem_map.mp hsite
    obtain ⟨member, hmember, hm⟩ := List.mem_flatMap.mp hm
    unfold members at hmember
    split at hmember
    · next body hbody =>
      exact within_signatureTypes ((within_or hc hbody).of_mem_children (mem_namedChildren.mp hmember).1) hm
    · cases hmember

theorem namedChildren_of_isComment (hu : u.Plain) (hc : u.top.Within c) (h : c.isComment = true) :
    c.namedChildren = [] := by
  unfold namedChildren
  rw [hu.leaf c hc h]
  rfl

theorem preorder_bare (hu : u.Plain) {c : Cursor} (hc : u.top.Within c) :
    c.bare.preorder.filter (·.isTypeDeclaration) = (c.preorder.filter (·.isTypeDeclaration)).map bare := by
  have hbelow : (c.bare.namedChildren.flatMap preorder).filter (·.isTypeDeclaration) =
      ((c.namedChildren.flatMap preorder).filter (·.isTypeDeclaration)).map bare := by
    rw [List.filter_flatMap, List.filter_flatMap, Cursor.namedChildren_bare]
    apply flatMap_bare
    · intro x hx
      have hx := (mem_namedChildren.mp hx).1
      have := sizeOf_node_of_mem_children hx
      exact hu.preorder_bare (hc.of_mem_children hx)
    · intro x hx hcomment
      rw [preorder_eq, hu.namedChildren_of_isComment (hc.of_mem_children (mem_namedChildren.mp hx).1) hcomment]
      simp [isTypeDeclaration, kind_of_isComment hcomment]
  rw [preorder_eq, preorder_eq c, List.filter_cons, List.filter_cons, isTypeDeclaration_bare, hbelow]
  split <;> rfl
termination_by sizeOf c.node

theorem typeDeclarations_bare (hu : u.Plain) (hc : u.top.Within c) :
    c.bare.typeDeclarations = c.typeDeclarations.map bare := by
  rw [typeDeclarations_eq, typeDeclarations_eq, hu.preorder_bare hc]

/-! Cataloguing -/

section

variable {s : Session} {file : FileId} {container : Option TypeId}

theorem enterNamespace_bare (hu : u.Plain) (hc : u.top.Within c) :
    Declarations.enterNamespace c.bare s = Declarations.enterNamespace c s := by
  unfold Declarations.enterNamespace
  rw [hu.namespaceName?_bare hc, hu.namespaceOf_bare hc, hu.blockUsings_bare hc]

theorem enterType_bare (hu : u.Plain) (hc : u.top.Within c) :
    Declarations.enterType file container c.bare s = Declarations.enterType file container c s := by
  unfold Declarations.enterType
  rw [kind_bare, hu.declaredName?_bare hc, hu.fullName?_bare hc, hu.typeParameters_bare hc, hu.namespaceOf_bare hc,
    accessibility_bare]

theorem visit_comment (hu : u.Plain) {n : Node} {above : List Node} (hc : u.top.Within ⟨n, above⟩)
    (h : n.isComment = true) : Declarations.visit file above container s n = .ok (0, s) := by
  obtain ⟨i, ns⟩ := n
  have hleaf : ns = [] := List.map_eq_nil_iff.mp (hu.leaf _ hc h)
  have hkind := kind_of_isComment (c := ⟨.mk i ns, above⟩) h
  unfold Declarations.visit
  dsimp only
  rw [if_neg (by simp [isNamespaceDeclaration, isFileScopedNamespace, hkind]),
    if_neg (by simp [isTypeDeclaration, hkind]), hleaf]
  rfl

mutual

theorem visit_bare (hu : u.Plain) (n : Node) {above : List Node} {s : Session} {container : Option TypeId}
    (hc : u.top.Within ⟨n, above⟩) :
    Declarations.visit file (above.map Node.bare) container s n.bare = Declarations.visit file above container s n := by
  match n with
  | .mk i ns =>
    have hself : (Node.mk i ns).bare = .mk i (Node.bareAll ns) := by
      unfold Node.bare
      rfl
    have hcursor : (⟨.mk i (Node.bareAll ns), above.map Node.bare⟩ : Cursor) = bare ⟨.mk i ns, above⟩ := by
      unfold Cursor.bare
      rw [hself]
    have hwithin : ∀ n ∈ ns, u.top.Within ⟨n, .mk i ns :: above⟩ := fun n hn => hc.child hn
    have hbelow (s : Session) (container : Option TypeId) :
        Declarations.visitAll file (.mk i (Node.bareAll ns) :: above.map Node.bare) container s (Node.bareAll ns) =
          Declarations.visitAll file (.mk i ns :: above) container s ns := by
      rw [← hself]
      exact hu.visitAll_bare ns hwithin
    rw [hself]
    unfold Declarations.visit
    dsimp only
    rw [hcursor, isNamespaceDeclaration_bare, isTypeDeclaration_bare, hu.enterNamespace_bare hc, hu.enterType_bare hc]
    simp only [hbelow]

theorem visitAll_bare (hu : u.Plain) (ns : List Node) {above : List Node} {s : Session} {container : Option TypeId}
    (hc : ∀ n ∈ ns, u.top.Within ⟨n, above⟩) :
    Declarations.visitAll file (above.map Node.bare) container s (Node.bareAll ns) =
      Declarations.visitAll file above container s ns := by
  match ns with
  | [] => rfl
  | n :: ns =>
    obtain ⟨hn, hns⟩ := List.forall_mem_cons.mp hc
    unfold Node.bareAll
    by_cases hcomment : n.isComment = true
    · rw [if_pos hcomment]
      conv_rhs => unfold Declarations.visitAll
      rw [hu.visit_comment hn hcomment, ite_self, ok_bind, hu.visitAll_bare ns hns]
      simp only [Nat.zero_add]
      exact (bind_pure _).symm
    · rw [if_neg hcomment]
      unfold Declarations.visitAll
      rw [Node.info_bare, hu.visit_bare n hn]
      simp only [hu.visitAll_bare ns hns]

end

end

end SourceUnit.Plain

namespace SourceUnit

def bare (u : SourceUnit) : SourceUnit := { u with root := u.root.bare }

variable {u : SourceUnit} {s : Session}

theorem Plain.catalog_bare (hu : u.Plain) : u.bare.catalog s = u.catalog s := by
  have husings : u.bare.top.usings = u.top.usings := Plain.usings_bare u.top
  have hvisit (file : FileId) (s : Session) :
      Declarations.visit file [] none s u.bare.root = Declarations.visit file [] none s u.root :=
    hu.visit_bare u.root .self
  unfold catalog
  rw [husings]
  simp only [hvisit]
  rfl

end SourceUnit

namespace Scan

variable {α : Type} {allowCreate : Bool} {u : SourceUnit} {c : Cursor} {owner : TypeId} {m : Summary}
  {us : List SourceUnit}

theorem resolveSite_bare (hu : u.Plain) (hc : u.top.Within c) :
    resolveSite allowCreate u.bare owner c.bare = resolveSite allowCreate u owner c := by
  have hnode : Analysis.ofNode u.bare owner allowCreate c.bare = Analysis.ofNode u owner allowCreate c := by
    unfold Analysis.ofNode
    simp only [hu.build_bare hc]
    rfl
  unfold resolveSite
  rw [hnode]

theorem record_bare (hu : u.Plain) {site : Site} (hc : u.top.Within site.type) :
    record allowCreate u.bare owner m site.bare = record allowCreate u owner m site := by
  have hsite : resolveSite allowCreate u.bare owner site.bare.type = resolveSite allowCreate u owner site.type :=
    resolveSite_bare hu hc
  have hspan : site.bare.type.span = site.type.span := Cursor.span_bare site.type
  unfold record
  rw [hsite, hspan]
  rfl

theorem declaration_bare (hu : u.Plain) {decl : Cursor} (hc : u.top.Within decl) :
    declaration allowCreate u.bare m decl.bare = declaration allowCreate u m decl := by
  have howner (s : Session) : s.documentedOf decl.bare = s.documentedOf decl := by
    unfold Session.documentedOf
    rw [hu.fullName?_bare hc, hu.typeParameterCount_bare hc]
  have hsites (owner : TypeId) : decl.bare.sites.foldlM (record allowCreate u.bare owner) m =
      decl.sites.foldlM (record allowCreate u owner) m := by
    rw [hu.sites_bare hc]
    apply foldlM_map_congr
    exact fun site hsite m => record_bare hu (SourceUnit.Plain.within_sites hc hsite)
  unfold declaration
  simp only [howner, hsites]

theorem references_bare (hu : u.Plain) : references allowCreate m u.bare = references allowCreate m u := by
  have hdeclarations : u.bare.top.typeDeclarations = u.top.typeDeclarations.map Cursor.bare :=
    hu.typeDeclarations_bare .self
  unfold references
  rw [hdeclarations]
  apply foldlM_map_congr
  intro decl hdecl m
  exact declaration_bare hu (Node.preorder_within (SourceUnit.mem_typeDeclarations hdecl).1).1

theorem declarations_bare (hu : u.Plain) {fresh : List SourceUnit}
    {rest rest' : Summary × List SourceUnit → Act ScanError α}
    (hrest : ∀ m fresh, (∀ v ∈ fresh, v.Plain) → rest' (m, fresh.map SourceUnit.bare) = rest (m, fresh))
    (hfresh : ∀ v ∈ fresh, v.Plain) :
    (declarations m (fresh.map SourceUnit.bare) u.bare >>= rest') = (declarations m fresh u >>= rest) := by
  have hcatalog : u.bare.catalog = u.catalog := funext fun s => hu.catalog_bare
  unfold declarations
  rw [hcatalog, bind_assoc, bind_assoc]
  congr 1
  funext outcome
  cases outcome with
  | catalogued file types =>
    have hadded : fresh.map SourceUnit.bare ++ [u.bare] = (fresh ++ [u]).map SourceUnit.bare := by simp
    simp only [pure_bind, hadded]
    refine hrest _ _ fun v hv => ?_
    rcases List.mem_append.mp hv with hv | hv
    · exact hfresh v hv
    · exact List.mem_singleton.mp hv ▸ hu
  | known file =>
    simp only [pure_bind]
    exact hrest _ _ hfresh

theorem units_bare (hus : ∀ u ∈ us, u.Plain) :
    units allowCreate m (us.map SourceUnit.bare) = units allowCreate m us := by
  -- The second pass agrees on plain files only, so the first has to hand that on with the files that are new.
  have hfirst {rest rest' : Summary × List SourceUnit → Act ScanError Summary}
      (hrest : ∀ m fresh, (∀ v ∈ fresh, v.Plain) → rest' (m, fresh.map SourceUnit.bare) = rest (m, fresh)) :
      ∀ m fresh, (∀ v ∈ fresh, v.Plain) →
        ((us.map SourceUnit.bare).foldlM (fun r u => declarations r.1 r.2 u) (m, fresh.map SourceUnit.bare) >>= rest') =
          (us.foldlM (fun r u => declarations r.1 r.2 u) (m, fresh) >>= rest) := by
    induction us with
    | nil => exact fun m fresh hfresh => by simpa using hrest m fresh hfresh
    | cons u us ih =>
      obtain ⟨hu, hus⟩ := List.forall_mem_cons.mp hus
      intro m fresh hfresh
      rw [List.map_cons, List.foldlM_cons, List.foldlM_cons, bind_assoc, bind_assoc]
      exact declarations_bare hu (ih hus) hfresh
  unfold units
  refine hfirst (fun m fresh hfresh => ?_) m [] (by simp)
  have hreferences (m : Summary) : (fresh.map SourceUnit.bare).foldlM (references allowCreate) m =
      fresh.foldlM (references allowCreate) m :=
    foldlM_map_congr fun u hu m => references_bare (hfresh u hu)
  simp only [hreferences]

end Scan

/-- Comments are trivia where they are no entries of a list: without them, all that is read off the tree is the same,
and a scan does the same. -/
theorem comments_are_trivia {allowCreate : Bool} {m : Summary} {us : List SourceUnit} (hus : ∀ u ∈ us, u.Plain) :
    (∀ u ∈ us, ∀ c, u.top.Within c →
      c.bare.baseTypes = c.baseTypes.map Cursor.bare ∧
      c.bare.constraintClauses = c.constraintClauses.map (fun clause => (clause.1, clause.2.map Cursor.bare)) ∧
      c.bare.memberTypes = c.memberTypes.map MemberType.bare ∧
      c.bare.typeParameters = c.typeParameters ∧
      c.bare.usings = c.usings ∧
      c.bare.namespaceName? = c.namespaceName? ∧
      ∀ s fileContexts levels,
        Analysis.build s fileContexts levels c.bare = Analysis.build s fileContexts levels c) ∧
      Scan.units allowCreate m (us.map SourceUnit.bare) = Scan.units allowCreate m us := by
  refine ⟨fun u hmem c hc => ?_, Scan.units_bare hus⟩
  have hu := hus u hmem
  exact ⟨hu.baseTypes_bare hc, hu.constraintClauses_bare hc, hu.memberTypes_bare hc, hu.typeParameters_bare hc,
    SourceUnit.Plain.usings_bare c, hu.namespaceName?_bare hc, fun s fileContexts levels => hu.build_bare hc⟩

namespace Sample

/-- The file `class Box{/*a*/int a;}`. -/
def noted : SourceUnit where
  path := ⟨"Box.cs"⟩
  source := "class Box{/*a*/int a;}"
  root := node 0 "compilation_unit" none 0 "class Box{/*a*/int a;}"
    [node 1 "class_declaration" none 0 "class Box{/*a*/int a;}"
      [node 2 "identifier" (some "name") 6 "Box" [],
       node 3 "declaration_list" (some "body") 9 "{/*a*/int a;}"
        [node 4 "comment" none 10 "/*a*/" [],
         node 5 "field_declaration" none 15 "int a;"
          [node 6 "variable_declaration" none 15 "int a"
            [node 7 "predefined_type" (some "type") 15 "int" [],
             node 8 "variable_declarator" none 19 "a" [node 9 "identifier" (some "name") 19 "a" []]]]]]]

theorem comments_are_trivia_noted : noted.Plain ∧ noted.bare.root.cursors [] ≠ noted.root.cursors [] ∧
    Scan.units true {} [noted.bare] = Scan.units true {} [noted] := by
  have hplain : noted.Plain := SourceUnit.plain_of_isPlain (by decide +kernel)
  have hlength : (noted.bare.root.cursors []).length ≠ (noted.root.cursors []).length := by decide +kernel
  have hunits : Scan.units true {} ([noted].map SourceUnit.bare) = Scan.units true {} [noted] :=
    (comments_are_trivia (by simpa using hplain)).2
  exact ⟨hplain, fun h => hlength (congrArg List.length h), hunits⟩

/-- The file `class Box:/*b*/Base{}`. -/
def marked : SourceUnit where
  path := ⟨"Box.cs"⟩
  source := "class Box:/*b*/Base{}"
  root := node 0 "compilation_unit" none 0 "class Box:/*b*/Base{}"
    [node 1 "class_declaration" none 0 "class Box:/*b*/Base{}"
      [node 2 "identifier" (some "name") 6 "Box" [],
       node 3 "base_list" none 9 ":/*b*/Base"
        [node 4 "comment" none 10 "/*b*/" [], node 5 "identifier" none 15 "Base" []],
       node 6 "declaration_list" (some "body") 19 "{}" []]]

/-- A comment in a base list counts as one of its entries. -/
theorem baseTypes_marked : marked.top.typeDeclarations.map (·.baseTypes.map (·.kind)) = [["comment", "identifier"]] ∧
    marked.bare.top.typeDeclarations.map (·.baseTypes.map (·.kind)) = [["identifier"]] := by
  rw [Cursor.typeDeclarations_eq, Cursor.typeDeclarations_eq]
  decide +kernel

end Sample

end TypeCatalog
