import TypeCatalog.Proofs.Shape
import TypeCatalog.Scan.References

namespace TypeCatalog

namespace Cursor

theorem preorder_eq (c : Cursor) : c.preorder = c :: c.namedChildren.flatMap preorder := by
  obtain ⟨⟨i, ns⟩, above⟩ := c
  have hall (ms : List Node) : Node.preorderAll (.mk i ns :: above) ms =
      ((ms.map (child ⟨.mk i ns, above⟩)).filter (·.node.info.named)).flatMap preorder := by
    induction ms with
    | nil => rfl
    | cons m ms ih =>
      have hnamed : (child ⟨.mk i ns, above⟩ m).node.info.named = m.info.named := rfl
      unfold Node.preorderAll
      rw [ih, List.map_cons, List.filter_cons, hnamed]
      split
      · rfl
      · rfl
  exact congrArg (_ :: ·) (hall ns)

/-- The worklist goes through the named nodes in document order. -/
theorem typeDeclarationsFrom_eq (work : List Cursor) :
    typeDeclarationsFrom work = (work.flatMap preorder).filter (·.isTypeDeclaration) := by
  induction work using typeDeclarationsFrom.induct with
  | case1 =>
    unfold typeDeclarationsFrom
    rfl
  | case2 c rest htype ih =>
    unfold typeDeclarationsFrom
    rw [if_pos htype, ih, List.flatMap_cons, preorder_eq, List.cons_append, List.filter_cons_of_pos htype,
      List.flatMap_append]
  | case3 c rest htype ih =>
    unfold typeDeclarationsFrom
    rw [if_neg htype, ih, List.flatMap_cons, preorder_eq, List.cons_append, List.filter_cons_of_neg htype,
      List.flatMap_append]

theorem typeDeclarations_eq (c : Cursor) : c.typeDeclarations = c.preorder.filter (·.isTypeDeclaration) := by
  unfold typeDeclarations
  rw [typeDeclarationsFrom_eq, List.flatMap_singleton]

variable {c d : Cursor}

theorem kind_of_childOf? {kind : String} (h : c.childOf? [kind] = some d) : d.kind = kind := by
  have hfound := List.find?_some h
  simpa using hfound

/-- Where a type stands in the signature of a member. -/
inductive Signs (c type : Cursor) : Prop
  | own (h : type ∈ c.children)
  | declared {declaration : Cursor} (hdeclaration : declaration ∈ c.children)
      (hplain : declaration.isTypeDeclaration = false) (h : type ∈ declaration.children)
  | parameter {list p : Cursor} (hlist : (c.field? "parameters").or (c.childOf? ["parameter_list"]) = some list)
      (hp : p ∈ list.namedChildren) (hplain : p.isTypeDeclaration = false) (h : type ∈ p.children)

/-- Where a type stands that a declaration uses. -/
inductive Uses (c type : Cursor) : Prop
  | base {list : Cursor} (hlist : list ∈ c.children) (hplain : list.isTypeDeclaration = false)
      (h : type ∈ list.namedChildren)
  | constraint {clause : Cursor} (hclause : clause ∈ c.children) (hplain : clause.isTypeDeclaration = false)
      (h : type ∈ clause.children)
  | member {body m : Cursor} (hbody : c.body? = some body) (hm : m ∈ body.namedChildren)
      (hplain : m.isTypeDeclaration = false) (h : m.Signs type)

theorem signs_signatureParameters {member : String} {m : MemberType} (hm : m ∈ c.signatureParameters member) :
    c.Signs m.type := by
  unfold signatureParameters at hm
  split at hm
  · next list hlist =>
    obtain ⟨p, hp, hm⟩ := List.mem_filterMap.mp hm
    obtain ⟨hp, hkind⟩ := List.mem_filter.mp hp
    obtain ⟨type, htype, hm⟩ := Option.bind_eq_some_iff.mp hm
    obtain ⟨name, -, hm⟩ := Option.bind_eq_some_iff.mp hm
    cases hm
    refine .parameter hlist hp ?_ (mem_children_of_field? htype)
    unfold isTypeDeclaration
    rw [beq_iff_eq.mp hkind]
    decide
  · cases hm

theorem signs_methodTypes {name : String} {m : MemberType} (hm : m ∈ c.methodTypes name) : c.Signs m.type := by
  unfold methodTypes at hm
  dsimp only at hm
  rcases List.mem_append.mp hm with hm | hm
  · split at hm
    · next type htype =>
      have hchild : type ∈ c.children := by
        rcases Option.or_eq_some_iff.mp htype with htype | ⟨-, htype⟩
        · exact mem_children_of_field? htype
        · exact mem_children_of_field? htype
      split at hm
      · cases hm
      · rw [List.mem_singleton.mp hm]
        exact .own hchild
    · cases hm
  · exact signs_signatureParameters hm

theorem signatureTypes_eq_nil (h : c.isTypeDeclaration = true) : c.signatureTypes = [] := by
  unfold isTypeDeclaration at h
  unfold signatureTypes
  generalize c.kind = kind at h
  simp only [List.contains_eq_mem, decide_eq_true_eq, List.mem_cons, List.not_mem_nil, or_false] at h
  rcases h with rfl | rfl | rfl | rfl | rfl | rfl | rfl <;> rfl

theorem signs_signatureTypes {m : MemberType} (hm : m ∈ c.signatureTypes) : c.Signs m.type := by
  unfold signatureTypes at hm
  split at hm
  · obtain ⟨declaration, hdeclaration, hm⟩ := Option.bind_eq_some_iff.mp (Option.mem_toList.mp hm)
    obtain ⟨type, htype, hm⟩ := Option.bind_eq_some_iff.mp hm
    cases hm
    refine .declared (mem_children_of_childOf? hdeclaration) ?_ (mem_children_of_field? htype)
    unfold isTypeDeclaration
    rw [kind_of_childOf? hdeclaration]
    decide
  · obtain ⟨type, htype, hm⟩ := Option.bind_eq_some_iff.mp (Option.mem_toList.mp hm)
    obtain ⟨name, -, hm⟩ := Option.bind_eq_some_iff.mp hm
    cases hm
    exact .own (mem_children_of_field? htype)
  · split at hm
    · split at hm
      · cases hm
      · exact signs_methodTypes hm
    · cases hm
  · split at hm
    · exact signs_signatureParameters hm
    · cases hm
  · cases hm

theorem uses_sites {site : Site} (hsite : site ∈ c.sites) : c.Uses site.type := by
  unfold sites at hsite
  -- the sites are the base types, the constraints and the types of members, in this order
  rcases List.mem_append.mp hsite with hsite | hsite
  · rcases List.mem_append.mp hsite with hsite | hsite
    · obtain ⟨d, hd, rfl⟩ := List.mem_map.mp hsite
      unfold baseTypes at hd
      split at hd
      · next list hlist =>
        refine .base (mem_children_of_childOf? hlist) ?_ (List.mem_filter.mp hd).1
        unfold isTypeDeclaration
        rw [kind_of_childOf? hlist]
        decide
      · cases hd
    · obtain ⟨⟨p, cs⟩, hp, hsite⟩ := List.mem_flatMap.mp hsite
      obtain ⟨d, hd, rfl⟩ := List.mem_map.mp hsite
      unfold constraintClauses at hp
      obtain ⟨clause, hclause, hp⟩ := List.mem_filterMap.mp hp
      obtain ⟨hclause, hkind⟩ := List.mem_filter.mp hclause
      obtain ⟨target, -, hp⟩ := Option.bind_eq_some_iff.mp hp
      cases hp
      refine .constraint hclause ?_ (List.mem_filter.mp hd).1
      unfold isTypeDeclaration
      rw [beq_iff_eq.mp hkind]
      decide
  · obtain ⟨m, hm, rfl⟩ := List.mem_map.mp hsite
    obtain ⟨member, hmember, hm⟩ := List.mem_flatMap.mp hm
    unfold members at hmember
    split at hmember
    · next body hbody =>
      refine .member hbody hmember ?_ (signs_signatureTypes hm)
      rw [Bool.eq_false_iff]
      intro htype
      rw [signatureTypes_eq_nil htype] at hm
      cases hm
    · cases hmember

end Cursor

namespace SourceUnit

open Cursor

variable {u : SourceUnit} {c d : Cursor}

theorem mem_typeDeclarations (hd : d ∈ u.top.typeDeclarations) :
    d ∈ u.top.preorder ∧ d.isTypeDeclaration = true := by
  rw [typeDeclarations_eq] at hd
  exact List.mem_filter.mp hd

/-- A place in the tree such that all type declarations around it are listed in document order. -/
structure Clear (u : SourceUnit) (c : Cursor) : Prop where
  within : u.top.Within c
  types : ∀ a ∈ c.enclosing, a.isTypeDeclaration = true → a ∈ u.top.preorder

theorem Clear.child (hc : u.Clear c) (hself : c.isTypeDeclaration = true → c ∈ u.top.preorder)
    (hd : d ∈ c.children) : u.Clear d where
  within := hc.within.of_mem_children hd
  types a ha htype := by
    rw [enclosing_of_mem_children hd] at ha
    rcases List.mem_cons.mp ha with rfl | ha
    · exact hself htype
    · exact hc.types a ha htype

namespace Shaped

theorem clear_of_mem (h : u.Shaped) (hc : c ∈ u.top.preorder) : u.Clear c where
  within := (Node.preorder_within hc).1
  types _ ha _ := h.mem_preorder_of_above hc ha

theorem clear_child (h : u.Shaped) (hc : c ∈ u.top.preorder) (hd : d ∈ c.children) : u.Clear d :=
  (h.clear_of_mem hc).child (fun _ => hc) hd

theorem mem_of_named (h : u.Shaped) (hc : u.top.Within c) (hd : d ∈ c.namedChildren) : d ∈ u.top.preorder := by
  obtain ⟨hd, hn⟩ := mem_namedChildren.mp hd
  exact h.mem_preorder (hc.of_mem_children hd) hn

theorem clear_signs (h : u.Shaped) (hc : c ∈ u.top.preorder) (hd : c.Signs d) : u.Clear d := by
  cases hd with
  | own hd => exact h.clear_child hc hd
  | declared hdeclaration hplain hd => exact (h.clear_child hc hdeclaration).child (by simp [hplain]) hd
  | parameter hlist hp hplain hd =>
    have hlist := (Node.preorder_within hc).1.of_mem_children (mem_children_of_or hlist)
    exact h.clear_child (h.mem_of_named hlist hp) hd

/-- The types that a listed declaration uses stand in clear places. -/
theorem clear_sites (h : u.Shaped) (hc : c ∈ u.top.preorder) {site : Site} (hsite : site ∈ c.sites) :
    u.Clear site.type := by
  cases uses_sites hsite with
  | base hlist hplain hd => exact (h.clear_child hc hlist).child (by simp [hplain]) (mem_namedChildren.mp hd).1
  | constraint hclause hplain hd => exact (h.clear_child hc hclause).child (by simp [hplain]) hd
  | member hbody hm hplain hd =>
    have hbody := (Node.preorder_within hc).1.of_mem_children (mem_children_of_or hbody)
    exact h.clear_signs (h.mem_of_named hbody hm) hd

end Shaped

end SourceUnit

end TypeCatalog
