import TypeCatalog.Proofs.Sites

namespace TypeCatalog

variable {α β : Type}

theorem mapM_map_congr {m : Type → Type} [Monad m] [LawfulMonad m] {φ : α → α} {f : α → m β} {xs : List α}
    (h : ∀ x ∈ xs, f (φ x) = f x) : (xs.map φ).mapM f = xs.mapM f := by
  induction xs with
  | nil => rfl
  | cons x xs ih =>
    obtain ⟨hx, hxs⟩ := List.forall_mem_cons.mp h
    rw [List.map_cons, List.mapM_cons, List.mapM_cons, hx, ih hxs]

theorem foldlM_map_congr {m : Type → Type} [Monad m] {φ : α → α} {f g : β → α → m β} {xs : List α} {b : β}
    (h : ∀ x ∈ xs, ∀ b, f b (φ x) = g b x) : (xs.map φ).foldlM f b = xs.foldlM g b := by
  induction xs generalizing b with
  | nil => rfl
  | cons x xs ih =>
    obtain ⟨hx, hxs⟩ := List.forall_mem_cons.mp h
    rw [List.map_cons, List.foldlM_cons, List.foldlM_cons, hx]
    congr 1
    funext b
    exact ih hxs

/-! The tree without its comments -/

namespace Node

def isComment (n : Node) : Bool := n.kind == "comment"

mutual

def bare : Node → Node
  | .mk i ns => .mk i (bareAll ns)

def bareAll : List Node → List Node
  | [] => []
  | n :: ns => if n.isComment then bareAll ns else bare n :: bareAll ns

end

theorem bareAll_eq (ns : List Node) : bareAll ns = (ns.filter (!·.isComment)).map bare := by
  induction ns with
  | nil =>
    unfold bareAll
    rfl
  | cons n ns ih =>
    unfold bareAll
    rw [List.filter_cons, ih]
    by_cases hn : n.isComment = true <;> simp [hn]

@[simp] theorem info_bare (n : Node) : n.bare.info = n.info := by
  cases n
  unfold bare
  rfl

theorem children_bare (n : Node) : n.bare.children = (n.children.filter (!·.isComment)).map bare := by
  cases n
  unfold bare
  exact bareAll_eq _

@[simp] theorem isBroken_bare (n : Node) : n.bare.isBroken = n.isBroken := by simp [isBroken, kind]

end Node

namespace Cursor

def isComment (c : Cursor) : Bool := c.node.isComment

def bare (c : Cursor) : Cursor := ⟨c.node.bare, c.ancestors.map Node.bare⟩

variable {c d : Cursor} {xs : List Cursor} {p : Cursor → Bool}

@[simp] theorem info_bare (c : Cursor) : c.bare.node.info = c.node.info := Node.info_bare c.node

@[simp] theorem isBroken_bare (c : Cursor) : c.bare.node.isBroken = c.node.isBroken := Node.isBroken_bare c.node

@[simp] theorem kind_bare (c : Cursor) : c.bare.kind = c.kind := by simp [kind, Node.kind]

@[simp] theorem text_bare (c : Cursor) : c.bare.text = c.text := by simp [text, Node.text]

@[simp] theorem span_bare (c : Cursor) : c.bare.span = c.span := by simp [span, Node.span]

@[simp] theorem index_bare (c : Cursor) : c.bare.index = c.index := by simp [index]

@[simp] theorem isTypeDeclaration_bare (c : Cursor) : c.bare.isTypeDeclaration = c.isTypeDeclaration := by
  simp [isTypeDeclaration]

@[simp] theorem isScopeDeclaration_bare (c : Cursor) : c.bare.isScopeDeclaration = c.isScopeDeclaration := by
  simp [isScopeDeclaration]

@[simp] theorem isFileScopedNamespace_bare (c : Cursor) : c.bare.isFileScopedNamespace = c.isFileScopedNamespace := by
  simp [isFileScopedNamespace]

@[simp] theorem isNamespaceDeclaration_bare (c : Cursor) :
    c.bare.isNamespaceDeclaration = c.isNamespaceDeclaration := by
  simp [isNamespaceDeclaration]

@[simp] theorem typeForm?_bare (c : Cursor) : c.bare.typeForm? = c.typeForm? := by simp [typeForm?]

theorem kind_of_isComment (h : c.isComment = true) : c.kind = "comment" := by
  simpa [isComment, Node.isComment, kind] using h

theorem children_bare (c : Cursor) : c.bare.children = (c.children.filter (!·.isComment)).map bare := by
  unfold children
  rw [show c.bare.node.children = _ from Node.children_bare c.node, List.filter_map, List.map_map, List.map_map]
  rfl

theorem namedChildren_bare (c : Cursor) :
    c.bare.namedChildren = (c.namedChildren.filter (!·.isComment)).map bare := by
  unfold namedChildren
  rw [children_bare, List.filter_map, List.filter_filter, List.filter_filter]
  simp [Bool.and_comm]

theorem along_bare (path : List Node) : along (path.map Node.bare) = (along path).map bare := by
  induction path with
  | nil => rfl
  | cons n path ih => simp [along, ih, bare]

theorem enclosing_bare (c : Cursor) : c.bare.enclosing = c.enclosing.map bare := along_bare c.ancestors

theorem enclosingTypes_bare (c : Cursor) : c.bare.enclosingTypes = c.enclosingTypes.map bare := by
  simp [enclosingTypes, enclosing_bare, List.filter_map, Function.comp_def]

theorem innermostScope?_bare (c : Cursor) : c.bare.innermostScope? = c.innermostScope?.map bare := by
  unfold innermostScope?
  rw [enclosing_bare, ← List.map_cons, List.find?_map]
  simp only [Function.comp_def, isScopeDeclaration_bare]

/-! A search that looks for no comments -/

theorem filter_bare (hp : ∀ x ∈ xs, p x.bare = p x) (hcomment : ∀ x ∈ xs, x.isComment = true → p x = false) :
    ((xs.filter (!·.isComment)).map bare).filter p = (xs.filter p).map bare := by
  rw [List.filter_map, List.filter_filter]
  congr 1
  apply List.filter_congr
  intro x hx
  by_cases hc : x.isComment = true
  · simp [hc, hcomment x hx hc]
  · simp [hc, hp x hx]

theorem find?_bare (hp : ∀ x ∈ xs, p x.bare = p x) (hcomment : ∀ x ∈ xs, x.isComment = true → p x = false) :
    ((xs.filter (!·.isComment)).map bare).find? p = (xs.find? p).map bare := by
  rw [← List.head?_filter, filter_bare hp hcomment, List.head?_map, List.head?_filter]

theorem filterMap_bare {f : Cursor → Option α} (h : ∀ x ∈ xs, f x.bare = f x) :
    (xs.map bare).filterMap f = xs.filterMap f := by
  rw [List.filterMap_map]
  exact List.filterMap_congr h

theorem flatMap_bare {φ : α → α} {f : Cursor → List α} {xs : List Cursor} (hf : ∀ x ∈ xs, f x.bare = (f x).map φ)
    (hcomment : ∀ x ∈ xs, x.isComment = true → f x = []) :
    ((xs.filter (!·.isComment)).map bare).flatMap f = (xs.flatMap f).map φ := by
  induction xs with
  | nil => rfl
  | cons x xs ih =>
    obtain ⟨hx, hxs⟩ := List.forall_mem_cons.mp hf
    obtain ⟨hnone, hcomment⟩ := List.forall_mem_cons.mp hcomment
    rw [List.flatMap_cons, List.map_append, ← ih hxs hcomment, List.filter_cons]
    by_cases h : x.isComment = true
    · simp [h, hnone h]
    · simp [h, hx]

theorem childOf?_bare {kinds : List String} (h : kinds.contains "comment" = false) :
    c.bare.childOf? kinds = (c.childOf? kinds).map bare := by
  unfold childOf?
  rw [children_bare, find?_bare (by simp)]
  intro x _ hx
  rw [kind_of_isComment hx, h]

theorem filter_kind_bare {kind : String} (h : kind ≠ "comment") :
    c.bare.children.filter (·.kind == kind) = (c.children.filter (·.kind == kind)).map bare := by
  rw [children_bare, filter_bare (by simp)]
  intro x _ hx
  rw [kind_of_isComment hx]
  simpa using h.symm

theorem filter_named_kind_bare {kind : String} (h : kind ≠ "comment") :
    c.bare.namedChildren.filter (·.kind == kind) = (c.namedChildren.filter (·.kind == kind)).map bare := by
  rw [namedChildren_bare, filter_bare (by simp)]
  intro x _ hx
  rw [kind_of_isComment hx]
  simpa using h.symm

theorem hasChildOf_bare {kind : String} (h : kind ≠ "comment") : c.bare.hasChildOf kind = c.hasChildOf kind := by
  unfold hasChildOf
  rw [children_bare, List.any_map, List.any_filter]
  congr 1
  funext x
  by_cases hx : x.isComment = true
  · simp [hx, kind_of_isComment hx, h.symm]
  · simp [hx]

theorem governing?_bare (c a : Cursor) : governing? c.bare a.bare = (governing? c a).map bare := by
  unfold governing?
  rw [children_bare, find?_bare (by simp)]
  · simp
  · intro x _ hx
    simp [isFileScopedNamespace, kind_of_isComment hx]

theorem namespacesAlong_bare (c : Cursor) (seen : Bool) (xs : List Cursor) :
    namespacesAlong c.bare seen (xs.map bare) = (namespacesAlong c seen xs).map bare := by
  induction xs generalizing seen with
  | nil => rfl
  | cons x xs ih =>
    unfold namespacesAlong
    simp only [List.map_cons, List.map_append, ih, kind_bare, isFileScopedNamespace_bare, isNamespaceDeclaration_bare,
      governing?_bare]
    congr 2
    · split <;> rfl
    · split
      · cases governing? c x <;> rfl
      · rfl

theorem enclosingNamespaces_bare (c : Cursor) : c.bare.enclosingNamespaces = c.enclosingNamespaces.map bare := by
  unfold enclosingNamespaces
  rw [enclosing_bare, namespacesAlong_bare]

theorem Within.enclosingNamespaces {top : Cursor} (hc : top.Within c) (htop : top.ancestors = [])
    (hd : d ∈ c.enclosingNamespaces) : top.Within d := by
  rcases mem_namespacesAlong hd with ⟨hd, -⟩ | ⟨a, ha, hd, -⟩
  · exact hc.of_mem_enclosing htop hd
  · exact (hc.of_mem_enclosing htop ha).of_mem_children hd

theorem Within.enclosingTypes {top : Cursor} (hc : top.Within c) (htop : top.ancestors = [])
    (hd : d ∈ c.enclosingTypes) : top.Within d :=
  hc.of_mem_enclosing htop (List.mem_filter.mp hd).1

theorem qualifyDotted_eq {qualifier name : Cursor} (hqualifier : c.field? "qualifier" = some qualifier)
    (hname : c.field? "name" = some name) :
    c.qualifyDotted = match name.segment? with
      | some last =>
        match qualifier.kind with
        | "identifier" => (QualifiedName.partially qualifier.text).append last
        | "qualified_name" => (qualifyDotted qualifier).append last
        | "alias_qualified_name" => qualifier.qualifyAlias.append last
        | "generic_name" => .failed c.text "type arguments on a qualifier are not supported"
        | other => .failed c.text ("unsupported qualifier '" ++ other ++ "'")
      | none => .failed c.text "unsupported name segment" := by
  rw [qualifyDotted]
  split
  · next q n hq hn =>
    cases hqualifier.symm.trans hq
    cases hname.symm.trans hn
    rfl
  · next hnone => exact (hnone _ _ hqualifier hname).elim

theorem qualifyDotted_none (h : c.field? "qualifier" = none ∨ c.field? "name" = none) :
    c.qualifyDotted = .failed c.text "qualified name without qualifier" := by
  rw [qualifyDotted]
  split
  · next hq hn => simp [hq, hn] at h
  · rfl

end Cursor

/-- Comments are leaves that are no field of their parent, and none of them is an entry of a base list or of a list of
type arguments. -/
structure SourceUnit.Plain (u : SourceUnit) : Prop where
  field : ∀ c, u.top.Within c → c.isComment = true → c.node.info.field = none
  leaf : ∀ c, u.top.Within c → c.isComment = true → c.children = []
  entry : ∀ c, u.top.Within c → ∀ d ∈ c.children, d.isComment = true →
    c.kind ≠ "base_list" ∧ c.kind ≠ "type_argument_list"

/-- Checks where the comments of a tree stand. -/
def SourceUnit.isPlain (u : SourceUnit) : Bool :=
  (u.root.cursors []).all fun c =>
    (!c.isComment || c.node.info.field.isNone && c.children.isEmpty) &&
      c.children.all fun d => !d.isComment || c.kind != "base_list" && c.kind != "type_argument_list"

theorem SourceUnit.plain_of_isPlain {u : SourceUnit} (h : u.isPlain = true) : u.Plain := by
  have hall (c : Cursor) (hc : u.top.Within c) := List.all_eq_true.mp h c (Node.mem_cursors hc)
  simp only [Bool.and_eq_true, List.all_eq_true] at hall
  have hleaf (c : Cursor) (hc : u.top.Within c) (hcomment : c.isComment = true) :
      c.node.info.field = none ∧ c.children = [] := by
    simpa [hcomment] using (hall c hc).1
  refine {
    field := fun c hc hcomment => (hleaf c hc hcomment).1
    leaf := fun c hc hcomment => (hleaf c hc hcomment).2
    entry := fun c hc d hd hcomment => ?_ }
  simpa [hcomment] using (hall c hc).2 d hd

def MemberType.bare (m : MemberType) : MemberType := { m with type := m.type.bare }

def Site.bare (site : Site) : Site := { site with type := site.type.bare }

namespace SourceUnit.Plain

open Cursor

variable {u : SourceUnit} {c d : Cursor} {f : String} {kinds : List String}

theorem field?_bare (hu : u.Plain) (hc : u.top.Within c) : c.bare.field? f = (c.field? f).map bare := by
  unfold field?
  rw [Cursor.children_bare, find?_bare (by simp)]
  intro x hx hcomment
  rw [hu.field x (hc.of_mem_children hx) hcomment]
  rfl

theorem or_bare (hu : u.Plain) (hc : u.top.Within c) (h : kinds.contains "comment" = false) :
    (c.bare.field? f).or (c.bare.childOf? kinds) = ((c.field? f).or (c.childOf? kinds)).map bare := by
  rw [hu.field?_bare hc, childOf?_bare h, Option.map_or]

/-- A query of one child by field or kind. -/
theorem within_or (hc : u.top.Within c) (hd : (c.field? f).or (c.childOf? kinds) = some d) : u.top.Within d :=
  hc.of_mem_children (mem_children_of_or hd)

theorem declaredName?_bare (hu : u.Plain) (hc : u.top.Within c) : c.bare.declaredName? = c.declaredName? := by
  unfold declaredName?
  rw [hu.or_bare hc rfl, Option.map_map]
  simp [Function.comp_def]

theorem namespaceName?_bare (hu : u.Plain) (hc : u.top.Within c) : c.bare.namespaceName? = c.namespaceName? := by
  unfold namespaceName?
  rw [hu.or_bare hc rfl, Option.map_map]
  simp [Function.comp_def]

theorem namespaceOf_bare (hu : u.Plain) (hc : u.top.Within c) : c.bare.namespaceOf = c.namespaceOf := by
  unfold namespaceOf
  rw [enclosingNamespaces_bare, filterMap_bare]
  exact fun x hx => hu.namespaceName?_bare (hc.enclosingNamespaces rfl hx)

theorem fullName?_bare (hu : u.Plain) (hc : u.top.Within c) : c.bare.fullName? = c.fullName? := by
  have houter : c.bare.enclosingTypes.reverse.mapM declaredName? = c.enclosingTypes.reverse.mapM declaredName? := by
    rw [enclosingTypes_bare, ← List.map_reverse]
    apply mapM_map_congr
    exact fun x hx => hu.declaredName?_bare (hc.enclosingTypes rfl (List.mem_reverse.mp hx))
  unfold fullName?
  rw [hu.declaredName?_bare hc, houter, hu.namespaceOf_bare hc]

theorem importedNamespace?_bare (c : Cursor) : c.bare.importedNamespace? = c.importedNamespace? := by
  unfold importedNamespace?
  rw [hasChildOf_bare (by decide), hasChildOf_bare (by decide), hasChildOf_bare (by decide), namedChildren_bare,
    filter_bare (by simp), List.getLast?_map, Option.map_map]
  · simp [Function.comp_def]
  · intro x _ hx
    simp [kind_of_isComment hx]

theorem usings_bare (c : Cursor) : c.bare.usings = c.usings := by
  unfold usings
  rw [filter_kind_bare (by decide), filterMap_bare]
  exact fun x _ => importedNamespace?_bare x

theorem body?_bare (hu : u.Plain) (hc : u.top.Within c) : c.bare.body? = c.body?.map bare := hu.or_bare hc rfl

theorem blockUsings_bare (hu : u.Plain) (hc : u.top.Within c) : c.bare.blockUsings = c.blockUsings := by
  unfold blockUsings
  rw [hu.body?_bare hc]
  cases c.body? with
  | none => exact usings_bare c
  | some body => exact usings_bare body

/-! What a declaration declares -/

theorem parameterNodes_bare (hu : u.Plain) (hc : u.top.Within c) :
    c.bare.parameterNodes = c.parameterNodes.map bare := by
  unfold parameterNodes parameterList?
  rw [hu.or_bare hc rfl]
  cases (c.field? "type_parameters").or (c.childOf? ["type_parameter_list"]) with
  | none => rfl
  | some list => exact filter_named_kind_bare (by decide)

theorem within_parameterNodes (hc : u.top.Within c) (hd : d ∈ c.parameterNodes) : u.top.Within d := by
  unfold parameterNodes at hd
  split at hd
  · next list hlist =>
    exact (within_or hc hlist).of_mem_children (mem_namedChildren.mp (List.mem_filter.mp hd).1).1
  · cases hd

theorem variance_bare (c : Cursor) : c.bare.variance = c.variance := by
  unfold variance
  rw [hasChildOf_bare (by decide), hasChildOf_bare (by decide)]

theorem typeParameters_bare (hu : u.Plain) (hc : u.top.Within c) : c.bare.typeParameters = c.typeParameters := by
  unfold typeParameters
  rw [hu.parameterNodes_bare hc, filterMap_bare]
  intro x hx
  rw [hu.declaredName?_bare (within_parameterNodes hc hx), variance_bare]

theorem typeParameterCount_bare (hu : u.Plain) (hc : u.top.Within c) :
    c.bare.typeParameterCount = c.typeParameterCount := by
  unfold typeParameterCount
  rw [hu.parameterNodes_bare hc, List.length_map]

theorem accessibility_bare (c : Cursor) : c.bare.accessibility = c.accessibility := by
  have hmodifiers : (c.bare.children.filter (·.kind == "modifier")).map (·.text) =
      (c.children.filter (·.kind == "modifier")).map (·.text) := by
    rw [filter_kind_bare (by decide), List.map_map]
    simp [Function.comp_def]
  unfold accessibility
  rw [hmodifiers, enclosingTypes_bare, List.isEmpty_map]

theorem wrappedType?_bare (hu : u.Plain) (hc : u.top.Within c) : c.bare.wrappedType? = c.wrappedType?.map bare := by
  unfold wrappedType?
  rw [hu.field?_bare hc, namedChildren_bare, find?_bare (by simp), Option.map_or]
  intro x _ hx
  simp [typeForm?, kind_of_isComment hx, TypeForm.ofKind?]

/-- In such a place no named child is a comment. -/
theorem namedChildren_bare (hu : u.Plain) (hc : u.top.Within c)
    (hkind : c.kind = "base_list" ∨ c.kind = "type_argument_list") :
    c.bare.namedChildren = c.namedChildren.map bare := by
  rw [Cursor.namedChildren_bare, List.filter_eq_self.mpr]
  intro x hx
  by_contra hcomment
  obtain ⟨hbase, hlist⟩ := hu.entry c hc x (mem_namedChildren.mp hx).1 (by simpa using hcomment)
  exact hkind.elim hbase hlist

theorem baseTypes_bare (hu : u.Plain) (hc : u.top.Within c) : c.bare.baseTypes = c.baseTypes.map bare := by
  unfold baseTypes
  rw [childOf?_bare rfl]
  cases hlist : c.childOf? ["base_list"] with
  | none => rfl
  | some list =>
    have hkind : list.kind = "base_list" := by simpa using List.find?_some hlist
    dsimp only [Option.map_some]
    rw [hu.namedChildren_bare (hc.of_mem_children (mem_children_of_childOf? hlist)) (.inl hkind), List.filter_map]
    simp [Function.comp_def]

theorem constraintClauses_bare (hu : u.Plain) (hc : u.top.Within c) :
    c.bare.constraintClauses = c.constraintClauses.map fun clause => (clause.1, clause.2.map bare) := by
  unfold constraintClauses
  rw [filter_kind_bare (by decide), List.filterMap_map, List.map_filterMap]
  apply List.filterMap_congr
  intro clause hclause
  have hclause := hc.of_mem_children (List.mem_filter.mp hclause).1
  have htypes : (clause.bare.children.filter fun x => x.kind == "type_parameter_constraint" && x.wrappedType?.isSome) =
      (clause.children.filter fun x => x.kind == "type_parameter_constraint" && x.wrappedType?.isSome).map bare := by
    rw [children_bare, filter_bare]
    · intro x hx
      rw [kind_bare, hu.wrappedType?_bare (hclause.of_mem_children hx), Option.isSome_map]
    · intro x _ hx
      simp [kind_of_isComment hx]
  dsimp only [Function.comp_apply]
  rw [hu.or_bare hclause rfl, htypes]
  cases (clause.field? "target").or (clause.childOf? ["identifier"]) with
  | none => rfl
  | some target => simp

/-! The names that types are written by -/

theorem genericIdentifier?_bare (c : Cursor) : c.bare.genericIdentifier? = c.genericIdentifier? := by
  unfold genericIdentifier?
  rw [Cursor.namedChildren_bare, find?_bare (by simp), Option.map_map]
  · simp [Function.comp_def]
  · intro x _ hx
    simp [kind_of_isComment hx]

theorem segment?_bare (c : Cursor) : c.bare.segment? = c.segment? := by
  unfold segment?
  rw [kind_bare, text_bare, genericIdentifier?_bare]

theorem qualifyAlias_bare (hu : u.Plain) (hc : u.top.Within c) : c.bare.qualifyAlias = c.qualifyAlias := by
  have hname : (c.bare.field? "name").bind segment? = (c.field? "name").bind segment? := by
    rw [hu.field?_bare hc, Option.bind_map]
    congr 1
    funext name
    exact segment?_bare name
  unfold qualifyAlias
  rw [hname, hu.field?_bare hc, Option.map_map, text_bare]
  simp [Function.comp_def]

theorem qualifyDotted_bare (hu : u.Plain) {c : Cursor} (hc : u.top.Within c) :
    c.bare.qualifyDotted = c.qualifyDotted := by
  cases hqualifier : c.field? "qualifier" with
  | none =>
    rw [qualifyDotted_none (.inl hqualifier), qualifyDotted_none (.inl (by rw [hu.field?_bare hc, hqualifier]; rfl)),
      text_bare]
  | some qualifier =>
    cases hname : c.field? "name" with
    | none =>
      rw [qualifyDotted_none (.inr hname), qualifyDotted_none (.inr (by rw [hu.field?_bare hc, hname]; rfl)), text_bare]
    | some name =>
      have hwithin := hc.of_mem_children (mem_children_of_field? hqualifier)
      have := sizeOf_node_of_field? hqualifier
      have hqualifier' : c.bare.field? "qualifier" = some qualifier.bare := by rw [hu.field?_bare hc, hqualifier]; rfl
      have hname' : c.bare.field? "name" = some name.bare := by rw [hu.field?_bare hc, hname]; rfl
      rw [qualifyDotted_eq hqualifier hname, qualifyDotted_eq hqualifier' hname']
      simp only [segment?_bare, kind_bare, text_bare, hu.qualifyAlias_bare hwithin, qualifyDotted_bare hu hwithin]
termination_by sizeOf c.node

theorem qualify_bare (hu : u.Plain) (hc : u.top.Within c) : c.bare.qualify = c.qualify := by
  unfold qualify
  simp only [isBroken_bare, kind_bare, text_bare, genericIdentifier?_bare, hu.qualifyDotted_bare hc,
    hu.qualifyAlias_bare hc]

end SourceUnit.Plain

end TypeCatalog
