import TypeCatalog.Proofs.Comments
import TypeCatalog.Proofs.Mirroring

namespace TypeCatalog

/-! Type syntax as the grammar has it -/

namespace TypeForm

/-- Which forms stand in which field of a node of type syntax. -/
def admits (parent : TypeForm) (field : Option String) (child : TypeForm) : Bool :=
  match parent, field with
  | .baseWithArguments, some "type" | .constraint, some "type" | .nullable, some "type" | .array, some "type"
  | .tupleElement, some "type" | .argumentList, none => child.isType
  | .tupleElement, some "name" | .aliasQualified, some "alias" => child == .identifier
  | .generic, none => child == .identifier || child == .argumentList
  | .qualified, some "qualifier" => [identifier, generic, qualified, aliasQualified].contains child
  | .qualified, some "name" | .aliasQualified, some "name" => child == .identifier || child == .generic
  | .tuple, none => child == .tupleElement
  | _, _ => false

theorem admits_segment {parent child : TypeForm} {field : Option String} (h : parent.admits field child = true)
    (hparent : parent = .qualified ∨ parent = .aliasQualified) :
    parent = .qualified ∧ field = some "qualifier" ∨ child = .identifier ∨ field = some "name" ∧ child = .generic := by
  unfold admits at h
  split at h <;> simp_all

end TypeForm

namespace Cursor

variable {c d x : Cursor} {form : TypeForm} {deep : Bool}

/-- A node of type syntax whose children are such as the grammar allows. -/
structure WellFormed (c : Cursor) : Prop where
  admits : ∀ x ∈ c.children, ∀ form ∈ c.typeForm?, ∀ form' ∈ x.typeForm?, form.admits x.node.info.field form' = true
  named : ∀ x ∈ c.children, x.typeForm?.isSome = true → x.node.info.named = true
  fields : ∀ f ∈ ["alias", "name", "qualifier", "type"], c.children.countP (·.node.info.field == some f) ≤ 1
  lists : c.children.countP (·.kind == "type_argument_list") ≤ 1
  element : c.typeForm? = some .tupleElement → (c.field? "type").isSome = true

/-- Whether the name is qualified by a qualified name with type arguments on its last segment. -/
def hasMiddleArguments (c : Cursor) : Bool :=
  c.typeForm? == some .qualified && ((c.field? "qualifier").bind (·.field? "name")).any (·.typeForm? == some .generic)

/-- Type syntax of the grammar, without type arguments in the middle of a name. -/
structure Spelled (c : Cursor) : Prop where
  grammar : ∀ x, c.Within x → x.typeForm?.isSome = true → x.WellFormed
  middle : ∀ x, c.Within x → x.hasMiddleArguments = false

theorem Spelled.of_within (h : c.Spelled) (hd : c.Within d) : d.Spelled where
  grammar x hx := h.grammar x (hd.trans hx)
  middle x hx := h.middle x (hd.trans hx)

theorem Spelled.of_mem_children (h : c.Spelled) (hd : d ∈ c.children) : d.Spelled :=
  h.of_within (Within.self.of_mem_children hd)

theorem Spelled.wellFormed (h : c.Spelled) (hform : c.typeForm? = some form) : c.WellFormed :=
  h.grammar c .self (by rw [hform]; rfl)

/-- The nodes that are written as type arguments, in their order: on all segments of names and in all elements of
tuples. Each is followed by those inside it, if these are wanted too. -/
def argumentsOf (deep : Bool) (c : Cursor) : List Cursor :=
  match c.typeForm? with
  | none => []
  | some .argumentList => c.namedChildren.attach.flatMap fun a => a.1 :: if deep then argumentsOf deep a.1 else []
  | some _ => c.children.attach.flatMap fun x => argumentsOf deep x.1
termination_by sizeOf c.node
decreasing_by
  · exact sizeOf_node_of_mem_children (mem_namedChildren.mp a.2).1
  · exact sizeOf_node_of_mem_children x.2

def withArguments (deep : Bool) (a : Cursor) : List Cursor := a :: if deep then a.argumentsOf deep else []

theorem argumentsOf_none (h : c.typeForm? = none) : c.argumentsOf deep = [] := by
  rw [argumentsOf, h]

theorem argumentsOf_list (h : c.typeForm? = some .argumentList) :
    c.argumentsOf deep = c.namedChildren.flatMap (withArguments deep) := by
  rw [argumentsOf, h]
  exact Analysis.flatMap_attach (f := withArguments deep)

theorem argumentsOf_some (h : c.typeForm? = some form) (hne : form ≠ .argumentList) :
    c.argumentsOf deep = c.children.flatMap (argumentsOf deep) := by
  rw [argumentsOf, h]
  cases form <;> first | exact (hne rfl).elim | exact Analysis.flatMap_attach

theorem flatMap_find? {α β : Type} {xs : List α} {p : α → Bool} {g : α → List β} (hcount : xs.countP p ≤ 1)
    (hg : ∀ x ∈ xs, p x = false → g x = []) : xs.flatMap g = (xs.find? p).toList.flatMap g := by
  induction xs with
  | nil => rfl
  | cons x xs ih =>
    obtain ⟨hx, hxs⟩ := List.forall_mem_cons.mp hg
    rw [List.countP_cons] at hcount
    cases hp : p x with
    | true =>
      have hzero : xs.countP p = 0 := by
        rw [if_pos hp] at hcount
        omega
      have hrest : xs.flatMap g = [] := List.flatMap_eq_nil_iff.mpr fun y hy =>
        hxs y hy (Bool.eq_false_iff.mpr (List.countP_eq_zero.mp hzero y hy))
      rw [List.flatMap_cons, hrest, List.find?_cons_of_pos hp]
      simp
    | false => rw [List.flatMap_cons, hx hp, List.nil_append, List.find?_cons_of_neg (by simp [hp]), ih (by omega) hxs]

theorem find?_unique {α : Type} {xs : List α} {p : α → Bool} {x : α} (hcount : xs.countP p ≤ 1) (hx : x ∈ xs)
    (hp : p x = true) : xs.find? p = some x := by
  rw [List.countP_eq_length_filter] at hcount
  have hmem : x ∈ xs.filter p := List.mem_filter.mpr ⟨hx, hp⟩
  obtain ⟨y, hy⟩ := List.length_eq_one_iff.mp (Nat.le_antisymm hcount (List.length_pos_of_mem hmem))
  rw [hy, List.mem_singleton] at hmem
  rw [← List.head?_filter, hy, hmem]
  rfl

theorem flatMap_filter_eq {α β : Type} {xs : List α} {p : α → Bool} {g : α → List β}
    (hg : ∀ x ∈ xs, p x = false → g x = []) : xs.flatMap g = (xs.filter p).flatMap g := by
  induction xs with
  | nil => rfl
  | cons x xs ih =>
    obtain ⟨hx, hxs⟩ := List.forall_mem_cons.mp hg
    cases hp : p x with
    | true => rw [List.filter_cons_of_pos hp, List.flatMap_cons, List.flatMap_cons, ih hxs]
    | false => rw [List.filter_cons_of_neg (by simp [hp]), List.flatMap_cons, hx hp, List.nil_append, ih hxs]

theorem WellFormed.admits_child {form' : TypeForm} (h : c.WellFormed) (hform : c.typeForm? = some form)
    (hx : x ∈ c.children) (hx' : x.typeForm? = some form') : form.admits x.node.info.field form' = true :=
  h.admits x hx form hform form' hx'

theorem Spelled.argumentsOf_leaf (h : c.Spelled) (hform : c.typeForm? = some form)
    (hleaf : form = .identifier ∨ form = .predefined) : c.argumentsOf deep = [] := by
  rw [argumentsOf_some hform (by rcases hleaf with rfl | rfl <;> decide), List.flatMap_eq_nil_iff]
  intro x hx
  cases hx' : x.typeForm? with
  | none => exact argumentsOf_none hx'
  | some form' =>
    have hadmits := (h.wellFormed hform).admits_child hform hx hx'
    rcases hleaf with rfl | rfl <;> simp [TypeForm.admits] at hadmits

theorem Spelled.argumentsOf_field (h : c.Spelled) (hform : c.typeForm? = some form) (hne : form ≠ .argumentList)
    {f : String} (hf : f ∈ ["alias", "name", "qualifier", "type"])
    (hother : ∀ x ∈ c.children, ∀ form', x.typeForm? = some form' → x.node.info.field ≠ some f → x.argumentsOf deep = []) :
    c.argumentsOf deep = (c.field? f).toList.flatMap (argumentsOf deep) := by
  rw [argumentsOf_some hform hne]
  apply flatMap_find? ((h.wellFormed hform).fields f hf)
  intro x hx hnot
  cases hx' : x.typeForm? with
  | none => exact argumentsOf_none hx'
  | some form' => exact hother x hx form' hx' (by simpa using hnot)

theorem Spelled.argumentsOf_type (h : c.Spelled) (hform : c.typeForm? = some form)
    (hwraps : form.wraps = true ∨ form = .tupleElement) :
    c.argumentsOf deep = (c.field? "type").toList.flatMap (argumentsOf deep) := by
  apply h.argumentsOf_field hform (by rintro rfl; simp [TypeForm.wraps] at hwraps) (by simp)
  intro x hx form' hx' hnot
  have hadmits := (h.wellFormed hform).admits_child hform hx hx'
  rcases hwraps with hwraps | rfl
  · cases form <;> simp [TypeForm.wraps] at hwraps <;> simp [TypeForm.admits, hnot] at hadmits
  · have hleaf : form' = .identifier := by
      unfold TypeForm.admits at hadmits
      split at hadmits <;> simp_all
    exact (h.of_mem_children hx).argumentsOf_leaf hx' (.inl hleaf)

theorem WellFormed.field?_of_mem (h : c.WellFormed) {f : String} (hf : f ∈ ["alias", "name", "qualifier", "type"])
    (hx : x ∈ c.children) (hfield : x.node.info.field = some f) : c.field? f = some x :=
  find?_unique (h.fields f hf) hx (by simpa using hfield)

theorem Spelled.field?_type (h : c.Spelled) (hinner : c.inner? = some d) :
    c.field? "type" = some d ∧ ∃ form, c.typeForm? = some form ∧ form.wraps = true := by
  unfold inner? at hinner
  split at hinner
  · next hany =>
    obtain ⟨form, hform, hwraps⟩ := (Option.any_eq_true ..).mp hany
    refine ⟨?_, form, hform, hwraps⟩
    rcases Option.or_eq_some_iff.mp hinner with htype | ⟨-, hfound⟩
    · exact htype
    · have hcomplete := List.find?_some hfound
      obtain ⟨form', hform', -⟩ := (Option.any_eq_true ..).mp hcomplete
      have hd := (mem_namedChildren.mp (List.mem_of_find?_eq_some hfound)).1
      have hadmits := (h.wellFormed hform).admits_child hform hd hform'
      apply (h.wellFormed hform).field?_of_mem (by simp) hd
      cases form <;> simp [TypeForm.wraps] at hwraps <;> unfold TypeForm.admits at hadmits <;> split at hadmits <;> simp_all
  · cases hinner

/-- The type arguments in a wrapped type are those in its core. -/
theorem Spelled.argumentsOf_core (deep : Bool) {c : Cursor} (h : c.Spelled) :
    c.Within c.core ∧ c.core.argumentsOf deep = c.argumentsOf deep := by
  cases hinner : c.inner? with
  | none => exact ⟨by rw [core_plain hinner]; exact .self, by rw [core_plain hinner]⟩
  | some d =>
    obtain ⟨htype, form, hform, hwraps⟩ := h.field?_type hinner
    have hd : c.Within d := Within.self.of_mem_children (mem_children_of_field? htype)
    have := sizeOf_node_of_field? htype
    obtain ⟨hwithin, hcore⟩ := argumentsOf_core deep (h.of_within hd)
    rw [core_inner hinner, h.argumentsOf_type hform (.inl hwraps), htype]
    exact ⟨hd.trans hwithin, by rw [hcore]; simp⟩
termination_by sizeOf c.node

theorem Spelled.argumentsOf_generic (h : c.Spelled) (hform : c.typeForm? = some .generic) :
    c.argumentsOf deep =
      (Analysis.argumentsIn (c.namedChildren.find? (·.kind == "type_argument_list"))).flatMap (withArguments deep) := by
  have hwf := h.wellFormed hform
  -- a generic name has an identifier and a list of arguments, and only the list has arguments in it
  have hother : ∀ x ∈ c.children, (x.kind == "type_argument_list") = false → x.argumentsOf deep = [] := by
    intro x hx hnot
    cases hx' : x.typeForm? with
    | none => exact argumentsOf_none hx'
    | some form' =>
      have hkind : form' ≠ .argumentList := by
        rintro rfl
        rw [typeForm?_eq_some.mp hx'] at hnot
        cases hnot
      have hadmits := hwf.admits_child hform hx hx'
      have hleaf : form' = .identifier := by
        unfold TypeForm.admits at hadmits
        split at hadmits <;> simp_all
      exact (h.of_mem_children hx).argumentsOf_leaf hx' (.inl hleaf)
  rw [argumentsOf_some hform (by decide), flatMap_find? hwf.lists hother]
  cases hlist : c.children.find? (·.kind == "type_argument_list") with
  | none =>
    have hnone : c.namedChildren.find? (·.kind == "type_argument_list") = none :=
      List.find?_eq_none.mpr fun x hx => List.find?_eq_none.mp hlist x (mem_namedChildren.mp hx).1
    rw [hnone]
    rfl
  | some list =>
    have hkind := List.find?_some hlist
    have hmem := List.mem_of_find?_eq_some hlist
    have hform' : list.typeForm? = some .argumentList := typeForm?_eq_some.mpr (beq_iff_eq.mp hkind)
    have hnamed := hwf.named list hmem (by rw [hform']; rfl)
    have hfound : c.namedChildren.find? (·.kind == "type_argument_list") = some list :=
      find?_unique (List.filter_sublist.countP_le.trans hwf.lists) (mem_namedChildren.mpr ⟨hmem, hnamed⟩) hkind
    rw [hfound, Option.toList_some, List.flatMap_singleton, argumentsOf_list hform']
    rfl

theorem state_append (segment : String) (q : QualifiedName) : (q.append segment).state = q.state := by
  cases q <;> rfl

/-- If the qualifier has no type arguments, they all stand on the last segment. -/
theorem Spelled.argumentsOf_last (h : c.Spelled) (hform : c.typeForm? = some form)
    (hdotted : form = .qualified ∨ form = .aliasQualified)
    (hqualifier : ∀ q, form = .qualified → c.field? "qualifier" = some q → q.argumentsOf deep = []) :
    c.argumentsOf deep = (c.field? "name").toList.flatMap (argumentsOf deep) := by
  apply h.argumentsOf_field hform (by rcases hdotted with rfl | rfl <;> decide) (by simp)
  intro x hx form' hx' hfield
  have hwf := h.wellFormed hform
  rcases TypeForm.admits_segment (hwf.admits_child hform hx hx') hdotted with ⟨hparent, hq⟩ | rfl | ⟨hname, -⟩
  · exact hqualifier x hparent (hwf.field?_of_mem (by simp) hx hq)
  · exact (h.of_mem_children hx).argumentsOf_leaf hx' (.inl rfl)
  · exact (hfield hname).elim

theorem Spelled.argumentsOf_segment {n : Cursor} (h : c.Spelled) (hform : c.typeForm? = some form)
    (hdotted : form = .qualified ∨ form = .aliasQualified) (hn : c.field? "name" = some n)
    (hplain : n.typeForm? ≠ some .generic) : n.argumentsOf deep = [] := by
  have hmem := mem_children_of_field? hn
  have hfield : n.node.info.field = some "name" := by simpa using List.find?_some hn
  cases hn' : n.typeForm? with
  | none => exact argumentsOf_none hn'
  | some form' =>
    rcases TypeForm.admits_segment ((h.wellFormed hform).admits_child hform hmem hn') hdotted with
      ⟨-, hq⟩ | rfl | ⟨-, rfl⟩
    · simp [hfield] at hq
    · exact (h.of_mem_children hmem).argumentsOf_leaf hn' (.inl rfl)
    · exact (hplain hn').elim

/-- A qualifier that is accepted has no type arguments. -/
theorem Spelled.argumentsOf_qualifier {c q : Cursor} (h : c.Spelled) (hform : c.typeForm? = some .qualified)
    (hq : c.field? "qualifier" = some q) (hok : c.qualifyDotted.state ≠ .failed) : q.argumentsOf deep = [] := by
  have hlt := sizeOf_node_of_field? hq
  have hspelled := h.of_mem_children (mem_children_of_field? hq)
  have hname {x : Cursor} (hx : q.field? "name" = some x) : x.typeForm? ≠ some .generic := by
    intro hx'
    have hmiddle := h.middle c .self
    simp [hasMiddleArguments, hform, hq, hx, hx'] at hmiddle
  -- a qualifier with a name of its own has arguments only on that name, where they are not accepted
  have hdotted {form : TypeForm} (hq' : q.typeForm? = some form) (hform' : form = .qualified ∨ form = .aliasQualified)
      (hqualifier : ∀ p, form = .qualified → q.field? "qualifier" = some p → p.argumentsOf deep = []) :
      q.argumentsOf deep = [] := by
    rw [hspelled.argumentsOf_last hq' hform' hqualifier, List.flatMap_eq_nil_iff]
    intro x hx
    have hx := Option.mem_toList.mp hx
    exact hspelled.argumentsOf_segment hq' hform' hx (hname hx)
  cases hn : c.field? "name" with
  | none =>
    rw [qualifyDotted_none (.inr hn)] at hok
    exact (hok rfl).elim
  | some n =>
    rw [qualifyDotted_eq hq hn] at hok
    cases hlast : n.segment? with
    | none =>
      rw [hlast] at hok
      exact (hok rfl).elim
    | some last =>
      rw [hlast] at hok
      dsimp only at hok
      split at hok
      · next hkind =>
        have hq' : q.typeForm? = some .identifier := typeForm?_eq_some.mpr hkind
        exact hspelled.argumentsOf_leaf hq' (.inl rfl)
      · next hkind =>
        have hq' : q.typeForm? = some .qualified := typeForm?_eq_some.mpr hkind
        rw [state_append] at hok
        exact hdotted hq' (.inl rfl) fun p _ hp => argumentsOf_qualifier hspelled hq' hp hok
      · next hkind =>
        have hq' : q.typeForm? = some .aliasQualified := typeForm?_eq_some.mpr hkind
        apply hdotted hq' (.inr rfl)
        rintro p ⟨⟩
      · exact (hok rfl).elim
      · exact (hok rfl).elim
termination_by sizeOf c.node

theorem qualifyDotted_ok (hform : c.typeForm? = some .qualified) (hok : c.qualify.state ≠ .failed) :
    c.qualifyDotted.state ≠ .failed := by
  unfold qualify at hok
  rw [typeForm?_eq_some.mp hform] at hok
  split at hok
  · exact (hok rfl).elim
  · exact hok

/-- The type arguments that are taken for a name are those written on it. -/
theorem Spelled.argumentsOf_name (h : c.Spelled) (hform : c.typeForm? = some form) (hplain : form.wraps = false)
    (hne : form ≠ .tuple) (hok : c.qualify.state ≠ .failed) :
    c.argumentsOf deep = (Analysis.argumentNodes c).flatMap (withArguments deep) := by
  have hlast (hdotted : form = .qualified ∨ form = .aliasQualified)
      (hqualifier : ∀ q, form = .qualified → c.field? "qualifier" = some q → q.argumentsOf deep = [])
      (hnode : Analysis.genericName? c = (c.field? "name").filter (·.kind == "generic_name")) :
      c.argumentsOf deep = (Analysis.argumentNodes c).flatMap (withArguments deep) := by
    rw [h.argumentsOf_last hform hdotted hqualifier, Analysis.argumentNodes_eq, hnode]
    cases hn : c.field? "name" with
    | none => rfl
    | some n =>
      rw [Option.toList_some, List.flatMap_singleton]
      by_cases hn' : n.typeForm? = some .generic
      · have hkind : n.kind = "generic_name" := typeForm?_eq_some.mp hn'
        rw [(h.of_mem_children (mem_children_of_field? hn)).argumentsOf_generic hn', Option.filter_some,
          if_pos (by simp [hkind]), Option.bind_some]
      · have hkind : n.kind ≠ "generic_name" := fun hkind => hn' (typeForm?_eq_some.mpr hkind)
        rw [h.argumentsOf_segment hform hdotted hn hn', Option.filter_some, if_neg (by simp [hkind])]
        rfl
  cases form with
  | identifier | predefined =>
    have hnone : Analysis.argumentNodes c = [] := by
      unfold Analysis.argumentNodes
      rw [hform]
      rfl
    rw [h.argumentsOf_leaf hform (by simp), hnone]
    rfl
  | generic =>
    have hself : Analysis.genericName? c = some c := by
      unfold Analysis.genericName?
      rw [hform]
    rw [h.argumentsOf_generic hform, Analysis.argumentNodes_eq, hself, Option.bind_some]
  | qualified =>
    refine hlast (.inl rfl) (fun q _ hq => h.argumentsOf_qualifier hform hq (qualifyDotted_ok hform hok)) ?_
    unfold Analysis.genericName?
    rw [hform]
  | aliasQualified =>
    refine hlast (.inr rfl) ?_ ?_
    · rintro q ⟨⟩
    · unfold Analysis.genericName?
      rw [hform]
  | tuple => exact (hne rfl).elim
  | tupleElement | argumentList => exact (hok (qualify_failed hform (by simp))).elim
  | baseWithArguments | constraint | nullable | array => cases hplain

theorem Spelled.argumentsOf_tuple (h : c.Spelled) (hform : c.typeForm? = some .tuple) :
    c.argumentsOf deep = (Analysis.elementNodes c).flatMap fun e => (elementPart e).1.argumentsOf deep := by
  have hwf := h.wellFormed hform
  have helements : Analysis.elementNodes c = c.children.filter fun x => x.kind == "tuple_element" && x.node.info.named :=
    List.filter_filter
  have hother : ∀ x ∈ c.children, (x.kind == "tuple_element" && x.node.info.named) = false → x.argumentsOf deep = [] := by
    intro x hx hnot
    cases hx' : x.typeForm? with
    | none => exact argumentsOf_none hx'
    | some form' =>
      have hadmits := hwf.admits_child hform hx hx'
      have helement : form' = .tupleElement := by
        unfold TypeForm.admits at hadmits
        split at hadmits <;> simp_all
      rw [helement] at hx'
      have hnamed := hwf.named x hx (by rw [hx']; rfl)
      rw [typeForm?_eq_some.mp hx', hnamed] at hnot
      cases hnot
  rw [argumentsOf_some hform (by decide), flatMap_filter_eq hother, ← helements]
  apply List.flatMap_congr
  intro e he
  have hmem := Analysis.mem_children_of_elementNodes he
  have he' : e.typeForm? = some .tupleElement := typeForm?_eq_some.mpr (beq_iff_eq.mp (List.mem_filter.mp he).2)
  have hspelled := h.of_mem_children hmem
  obtain ⟨type, htype⟩ := Option.isSome_iff_exists.mp ((hspelled.wellFormed he').element he')
  have hwrapped : e.wrappedType? = some type := by
    unfold wrappedType?
    rw [htype, Option.some_or]
  rw [hspelled.argumentsOf_type he' (.inr rfl), htype]
  simp [elementPart, hwrapped]

theorem within_elementPart {e : Cursor} (he : e ∈ Analysis.elementNodes c) : c.Within (elementPart e).1 := by
  have hwithin := Within.self.of_mem_children (Analysis.mem_children_of_elementNodes he)
  unfold elementPart
  cases htype : e.wrappedType? with
  | none => exact hwithin
  | some type => exact hwithin.of_mem_children (Analysis.mem_children_of_wrappedType? htype)

end Cursor

namespace Descriptor

mutual

/-- The descriptors of type arguments, each before those in it. The elements of a tuple are none themselves. -/
def typeArguments : Descriptor → List Descriptor
  | mk _ form _ _ as => typeArgumentsAll (form != .tuple) as

def typeArgumentsAll (own : Bool) : List Descriptor → List Descriptor
  | [] => []
  | d :: ds => (if own then [d] else []) ++ typeArguments d ++ typeArgumentsAll own ds

end

open Cursor

mutual

/-- The type arguments of a picture of type syntax are pictures of those that are written in it. -/
theorem Describes.typeArguments (d : Descriptor) {c : Cursor} {label : Option String} (h : d.Describes c label)
    (hc : c.Spelled) : List.Forall₂ (fun a x => a.Describes x none) d.typeArguments (c.argumentsOf true) := by
  match d with
  | .mk name form rank e as =>
    obtain ⟨-, hstate, -, htuple, -, -, harguments⟩ := h
    obtain ⟨hwithin, hcore⟩ := hc.argumentsOf_core true
    have hspelled := hc.of_within hwithin
    have hok : c.core.qualify.state ≠ .failed := hstate ▸ state_ne_failed _
    obtain ⟨written, hform, hplain⟩ := form_of_qualify hok
    rw [← hcore]
    unfold Descriptor.typeArguments
    by_cases hwritten : written = .tuple
    · rw [hwritten] at hform
      have hkind : c.core.kind = "tuple_type" := typeForm?_eq_some.mp hform
      have hown : (form != .tuple) = false := by
        rw [hkind] at htuple
        simpa [isTuple, Descriptor.form] using htuple
      have hparts : c.core.parts = (Analysis.elementNodes c.core).map elementPart := if_pos hform
      rw [hparts] at harguments
      have helements := typeArguments_all false as harguments ?_ (by simp)
      · rw [List.flatMap_map] at helements
        rw [hown, hspelled.argumentsOf_tuple hform]
        exact helements
      · intro part hpart
        obtain ⟨e, he, rfl⟩ := List.mem_map.mp hpart
        exact hspelled.of_within (within_elementPart he)
    · have hkind : c.core.kind ≠ "tuple_type" := fun hkind =>
        hwritten (Option.some.inj (hform.symm.trans (typeForm?_eq_some.mpr hkind)))
      have hown : (form != .tuple) = true := by
        rw [beq_eq_false_iff_ne.mpr hkind] at htuple
        simpa [isTuple, Descriptor.form] using htuple
      have hparts : c.core.parts = (Analysis.argumentNodes c.core).map (·, none) :=
        if_neg (by rw [hform]; simpa using hwritten)
      rw [hparts] at harguments
      have hall := typeArguments_all true as harguments ?_ (by simp)
      · rw [List.flatMap_map] at hall
        rw [hown, hspelled.argumentsOf_name hform hplain hwritten hok]
        exact hall
      · intro part hpart
        obtain ⟨x, hx, rfl⟩ := List.mem_map.mp hpart
        exact hspelled.of_within (Analysis.within_argumentNodes hx)

theorem typeArguments_all (own : Bool) (as : List Descriptor) {parts : List (Cursor × Option String)}
    (h : List.Forall₂ (fun a part => Describes a part.1 part.2) as parts) (hparts : ∀ part ∈ parts, part.1.Spelled)
    (hown : own = true → ∀ part ∈ parts, part.2 = none) :
    List.Forall₂ (fun a x => Describes a x none) (typeArgumentsAll own as)
      (parts.flatMap fun part => (if own then [part.1] else []) ++ part.1.argumentsOf true) := by
  match as, parts, h with
  | [], [], .nil => exact .nil
  | a :: as, part :: parts, .cons ha has =>
    obtain ⟨hpart, hparts⟩ := List.forall_mem_cons.mp hparts
    have hrest := typeArguments_all own as has hparts fun h p hp => hown h p (List.mem_cons_of_mem _ hp)
    have hfirst := Describes.typeArguments a ha hpart
    rw [List.flatMap_cons]
    unfold typeArgumentsAll
    refine List.rel_append (List.rel_append ?_ hfirst) hrest
    cases own with
    | false => exact .nil
    | true =>
      have hlabel := hown rfl part List.mem_cons_self
      rw [hlabel] at ha
      exact .cons ha .nil

end

end Descriptor

namespace Analysis

open Cursor

variable {u : SourceUnit} {s : Session} {c q : Cursor} {container : TypeId} {allowCreate : Bool}

theorem argumentNodes_written {steps : Nat} {x : Cursor} (hx : x.Spelled) (hsound : (Visit.type steps x).Sound)
    (hplain : x.inner? = none) (htuple : x.typeForm? ≠ some .tuple) : argumentNodes x = x.argumentsOf false := by
  have hok := hsound.2.2 hplain
  obtain ⟨form, hform, hwraps⟩ := form_of_qualify hok
  have hne : form ≠ .tuple := by
    rintro rfl
    exact htuple hform
  rw [hx.argumentsOf_name hform hwraps hne hok]
  exact (List.flatMap_singleton' _).symm

theorem qualify_rejected (hc : c.Spelled) (hform : c.typeForm? = some .qualified) (hq : c.field? "qualifier" = some q)
    (hwritten : q.argumentsOf false ≠ []) : c.qualify.state = .failed := by
  by_contra hok
  exact hwritten (hc.argumentsOf_qualifier hform hq (qualifyDotted_ok hform hok))

theorem build_rejected {fileContexts : List Context} {levels : Nat} {known : Option (List Context)}
    (hform : c.typeForm? = some .qualified) (h : c.qualify.state = .failed) :
    ∃ text reason, (build s fileContexts (levels + 1) c).run known = .error (.nameResolution text c.span reason) := by
  cases hqualify : c.qualify with
  | failed text reason =>
    have hname : (nameOf s fileContexts c).run known = .error (.nameResolution text c.span reason) := by
      unfold nameOf
      rw [hqualify]
      rfl
    refine ⟨text, reason, ?_⟩
    unfold build
    rw [hform]
    dsimp only
    rw [StateT.run_bind, hname]
    rfl
  | full name | partially name =>
    rw [hqualify] at h
    cases h

/-- In type syntax that has no type arguments in the middle of a name, each node that is written as a type argument has
one descriptor, in the same order, and each name is looked up with the arguments that are written on it. A name with
type arguments before its last segment is rejected. -/
theorem ofNode_keeps_arguments (hs : s.Sane) (hc : c.Spelled) :
    (ofNode u container allowCreate c).Leads s
        (fun a _ => List.Forall₂ (fun d x => d.Describes x none) a.root.typeArguments (c.argumentsOf true) ∧
          ∀ steps x, .type steps x ∈ visits 0 c → x.inner? = none → x.typeForm? ≠ some .tuple →
            argumentNodes x = x.argumentsOf false)
        (fun _ _ => True) ∧
      ∀ q, c.typeForm? = some .qualified → c.field? "qualifier" = some q → q.argumentsOf false ≠ [] →
        (ofNode u container allowCreate c).Leads s (fun _ _ => False) fun e _ =>
          (s.findSourceFile u.path).isSome = true → s.isDocumented container = true →
            ∃ text reason, e = .nameResolution text c.span reason := by
  constructor
  · refine (leads_ofNode_settles hs False.elim).mono ?_ fun _ _ _ => trivial
    rintro a - ⟨hsound, hroot⟩
    refine ⟨hroot.typeArguments a.root hc, fun steps x hx hplain htuple => ?_⟩
    exact argumentNodes_written (hc.of_within (within_visits hx)) (hsound _ hx) hplain htuple
  · intro q hform hq hwritten
    have hfailed := qualify_rejected hc hform hq hwritten
    refine leads_ofNode_build hs (fun _ => False) (fun e => ∃ text reason, e = .nameResolution text c.span reason) ?_
    intro t fileContexts _
    obtain ⟨text, reason, hrun⟩ := build_rejected (s := t) hform hfailed
    rw [hrun]
    exact ⟨text, reason, rfl⟩

end Analysis

namespace Sample

/-- The file `class A{N.List<B<int>> a;B<int>.C b;}`. -/
def dotted : SourceUnit where
  path := ⟨"A.cs"⟩
  source := "class A{N.List<B<int>> a;B<int>.C b;}"
  root := node 0 "compilation_unit" none 0 "class A{N.List<B<int>> a;B<int>.C b;}"
    [node 1 "class_declaration" none 0 "class A{N.List<B<int>> a;B<int>.C b;}"
      [node 2 "identifier" (some "name") 6 "A" [],
       node 3 "declaration_list" (some "body") 7 "{N.List<B<int>> a;B<int>.C b;}"
        [node 4 "field_declaration" none 8 "N.List<B<int>> a;"
          [node 5 "variable_declaration" none 8 "N.List<B<int>> a"
            [node 6 "qualified_name" (some "type") 8 "N.List<B<int>>"
              [node 7 "identifier" (some "qualifier") 8 "N" [],
               node 8 "generic_name" (some "name") 10 "List<B<int>>"
                [node 9 "identifier" none 10 "List" [],
                 node 10 "type_argument_list" none 14 "<B<int>>"
                  [node 11 "generic_name" none 15 "B<int>"
                    [node 12 "identifier" none 15 "B" [],
                     node 13 "type_argument_list" none 16 "<int>" [node 14 "predefined_type" none 17 "int" []]]]]],
             node 15 "variable_declarator" none 23 "a" [node 16 "identifier" (some "name") 23 "a" []]]],
         node 17 "field_declaration" none 25 "B<int>.C b;"
          [node 18 "variable_declaration" none 25 "B<int>.C b"
            [node 19 "qualified_name" (some "type") 25 "B<int>.C"
              [node 20 "generic_name" (some "qualifier") 25 "B<int>"
                [node 21 "identifier" none 25 "B" [],
                 node 22 "type_argument_list" none 26 "<int>" [node 23 "predefined_type" none 27 "int" []]],
               node 24 "identifier" (some "name") 32 "C" []],
             node 25 "variable_declarator" none 34 "b" [node 26 "identifier" (some "name") 34 "b" []]]]]]]

/-- The types of its fields. -/
def fieldType (i : Nat) : Cursor := ((dotted.top.preorder.filter (·.kind == "qualified_name"))[i]?).getD dotted.top

def segmented : Session := ((Request.catalog dotted).run memory).2

theorem spelled_fieldType {i : Nat} (h : i = 0 ∨ i = 1) : (fieldType i).Spelled := by
  have hcheck : ∀ x ∈ (fieldType i).node.cursors (fieldType i).ancestors, x.hasMiddleArguments = false ∧
      (∀ y ∈ x.children, ∀ form ∈ x.typeForm?, ∀ form' ∈ y.typeForm?, form.admits y.node.info.field form' = true) ∧
      (∀ y ∈ x.children, y.typeForm?.isSome = true → y.node.info.named = true) ∧
      (∀ f ∈ ["alias", "name", "qualifier", "type"], x.children.countP (·.node.info.field == some f) ≤ 1) ∧
      x.children.countP (·.kind == "type_argument_list") ≤ 1 ∧
      (x.typeForm? = some .tupleElement → (x.field? "type").isSome = true) := by
    rcases h with rfl | rfl <;> decide +kernel
  constructor
  · intro x hx _
    obtain ⟨-, hadmits, hnamed, hfields, hlists, helement⟩ := hcheck x (Node.mem_cursors hx)
    exact ⟨hadmits, hnamed, hfields, hlists, helement⟩
  · exact fun x hx => (hcheck x (Node.mem_cursors hx)).1

theorem ofNode_keeps_arguments_dotted :
    Session.inMemory = .ok memory ∧ (fieldType 0).text = "N.List<B<int>>" ∧ (fieldType 1).text = "B<int>.C" ∧
      (Analysis.ofNode dotted ⟨1⟩ true (fieldType 0)).Leads segmented
        (fun a _ => List.Forall₂ (fun d x => d.Describes x none) a.root.typeArguments ((fieldType 0).argumentsOf true) ∧
          ∀ steps x, .type steps x ∈ Analysis.visits 0 (fieldType 0) → x.inner? = none → x.typeForm? ≠ some .tuple →
            Analysis.argumentNodes x = x.argumentsOf false)
        (fun _ _ => True) ∧
      (Analysis.ofNode dotted ⟨1⟩ true (fieldType 1)).Leads segmented (fun _ _ => False) fun e _ =>
        ∃ text reason, e = .nameResolution text (fieldType 1).span reason := by
  have hworked : segmented.Worked := (Session.Worked.inMemory inMemory_eq).request (r := .catalog dotted) trivial
  have hfiles : segmented.files = [⟨⟨1⟩, dotted.path, []⟩] := by decide +kernel
  have hfile : (segmented.findSourceFile dotted.path).isSome = true := by
    simp [Session.findSourceFile, hfiles, Path.same]
  have hspelled : (fieldType 1).Spelled := spelled_fieldType (.inr rfl)
  obtain ⟨q, hq⟩ : ∃ q, (fieldType 1).field? "qualifier" = some q := Option.isSome_iff_exists.mp (by decide +kernel)
  have hwritten : q.argumentsOf false ≠ [] := by
    have hcheck : ((fieldType 1).field? "qualifier").map (fun q => (q.typeForm?, (Analysis.argumentsIn
        (q.namedChildren.find? (·.kind == "type_argument_list"))).length)) = some (some .generic, 1) := by
      decide +kernel
    rw [hq, Option.map_some, Option.some.injEq, Prod.mk.injEq] at hcheck
    rw [(hspelled.of_mem_children (Cursor.mem_children_of_field? hq)).argumentsOf_generic hcheck.1]
    obtain ⟨x, hx⟩ := List.length_eq_one_iff.mp hcheck.2
    rw [hx]
    exact List.cons_ne_nil _ _
  refine ⟨inMemory_eq, by decide +kernel, by decide +kernel,
    (Analysis.ofNode_keeps_arguments hworked.sane (spelled_fieldType (.inl rfl))).1, ?_⟩
  refine ((Analysis.ofNode_keeps_arguments hworked.sane hspelled).2 q (by decide +kernel) hq hwritten).mono
    (fun _ _ h => h) fun e _ h => h hfile (by decide +kernel)

end Sample

end TypeCatalog
