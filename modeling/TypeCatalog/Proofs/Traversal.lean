import TypeCatalog.Proofs.Describing

namespace TypeCatalog

namespace TypeForm

def kind : TypeForm → String
  | baseWithArguments => "primary_constructor_base_type"
  | constraint => "type_parameter_constraint"
  | identifier => "identifier"
  | predefined => "predefined_type"
  | array => "array_type"
  | generic => "generic_name"
  | tuple => "tuple_type"
  | tupleElement => "tuple_element"
  | argumentList => "type_argument_list"
  | qualified => "qualified_name"
  | aliasQualified => "alias_qualified_name"
  | nullable => "nullable_type"

theorem ofKind?_eq_some {kind : String} {form : TypeForm} : ofKind? kind = some form ↔ kind = form.kind := by
  constructor
  · intro h
    unfold ofKind? at h
    split at h <;> cases h <;> rfl
  · rintro rfl
    cases form <;> rfl

/-- A form that only holds another type. -/
def wraps : TypeForm → Bool
  | baseWithArguments | constraint | nullable | array => true
  | _ => false

end TypeForm

namespace Cursor

variable {c d : Cursor} {form : TypeForm}

theorem typeForm?_eq_some : c.typeForm? = some form ↔ c.kind = form.kind := TypeForm.ofKind?_eq_some

theorem qualify_failed (hform : c.typeForm? = some form)
    (h : form.wraps = true ∨ form = .tupleElement ∨ form = .argumentList) : c.qualify.state = .failed := by
  unfold qualify
  rw [typeForm?_eq_some.mp hform]
  split
  · rfl
  · cases form <;> simp [TypeForm.wraps] at h <;> rfl

theorem form_of_qualify (hok : c.qualify.state ≠ .failed) :
    ∃ form, c.typeForm? = some form ∧ form.wraps = false := by
  cases hform : c.typeForm? with
  | none =>
    unfold qualify at hok
    split at hok
    · exact (hok rfl).elim
    · unfold typeForm? at hform
      split at hok <;> simp_all [TypeForm.ofKind?, QualifiedName.state]
  | some form =>
    refine ⟨form, rfl, Bool.eq_false_iff.mpr fun hwraps => ?_⟩
    exact hok (qualify_failed hform (.inl hwraps))

def inner? (c : Cursor) : Option Cursor := if c.typeForm?.any (·.wraps) then c.wrappedType? else none

theorem sizeOf_wrappedType? (h : c.wrappedType? = some d) : sizeOf d.node < sizeOf c.node :=
  sizeOf_node_of_mem_children (Analysis.mem_children_of_wrappedType? h)

theorem inner?_wraps (hform : c.typeForm? = some form) (h : form.wraps = true) :
    c.inner? = c.wrappedType? := by
  unfold inner?
  rw [hform]
  exact if_pos h

theorem inner?_plain (hform : c.typeForm? = some form) (h : form.wraps = false) : c.inner? = none := by
  unfold inner?
  rw [hform]
  exact if_neg (by simp [h])

theorem wrappedType?_of_inner? (h : c.inner? = some d) : c.wrappedType? = some d := by
  unfold inner? at h
  split at h
  · exact h
  · cases h

end Cursor

namespace Analysis

open Cursor

section

variable {c d e : Cursor}

theorem sizeOf_argumentNodes (h : d ∈ argumentNodes c) : sizeOf d.node < sizeOf c.node := by
  obtain ⟨g, list, hg, hlist, -, hd⟩ := mem_argumentNodes h
  have hd := sizeOf_node_of_mem_children (mem_namedChildren.mp hd).1
  have hlist := sizeOf_node_of_mem_children hlist
  rcases genericName?_eq_some hg with rfl | ⟨hg, -⟩
  · omega
  · have hg := sizeOf_node_of_mem_children hg
    omega

/-- A node that the description of a type comes to: a type so many steps inside the first one, or an element of a
tuple. -/
inductive Visit where
  | type (steps : Nat) (c : Cursor)
  | element (e : Cursor)

def Visit.node : Visit → Cursor
  | type _ c => c
  | element e => e

/-- The nodes below a type, in the order in which they are come to. -/
def visits (steps : Nat) (c : Cursor) : List Visit :=
  .type steps c ::
    match c.typeForm? with
    | some .baseWithArguments | some .constraint | some .nullable | some .array =>
      c.wrappedType?.toList.attach.flatMap fun d => visits (steps + 1) d.1
    | some .predefined | some .identifier | some .generic | some .qualified | some .aliasQualified =>
      (argumentNodes c).attach.flatMap fun d => visits (steps + 1) d.1
    | some .tuple =>
      (elementNodes c).attach.flatMap fun e =>
        .element e.1 :: e.1.wrappedType?.toList.attach.flatMap fun d => visits (steps + 1) d.1
    | some .tupleElement | some .argumentList | none => []
termination_by sizeOf c.node
decreasing_by
  · exact sizeOf_wrappedType? (Option.mem_toList.mp d.2)
  · exact sizeOf_argumentNodes d.2
  · exact (sizeOf_wrappedType? (Option.mem_toList.mp d.2)).trans
      (sizeOf_node_of_mem_children (mem_children_of_elementNodes e.2))

theorem flatMap_attach {α β : Type} {xs : List α} {f : α → List β} :
    (xs.attach.flatMap fun x => f x.1) = xs.flatMap f := by
  rw [List.flatMap_subtype (fun _ _ => rfl), List.unattach_attach]

theorem visits_eq (steps : Nat) (c : Cursor) : visits steps c = .type steps c ::
    match c.typeForm? with
    | some .baseWithArguments | some .constraint | some .nullable | some .array =>
      c.wrappedType?.toList.flatMap (visits (steps + 1))
    | some .predefined | some .identifier | some .generic | some .qualified | some .aliasQualified =>
      (argumentNodes c).flatMap (visits (steps + 1))
    | some .tuple =>
      (elementNodes c).flatMap fun e => .element e :: e.wrappedType?.toList.flatMap (visits (steps + 1))
    | some .tupleElement | some .argumentList | none => [] := by
  rw [visits]
  simp only [flatMap_attach]
  cases c.typeForm? with
  | none => rfl
  | some form =>
    cases form with
    | tuple => exact congrArg _ (flatMap_attach (f := fun e : Cursor =>
        .element e :: e.wrappedType?.toList.flatMap (visits (steps + 1))))
    | _ => rfl

theorem within_argumentNodes (h : d ∈ argumentNodes c) : c.Within d := by
  obtain ⟨g, list, hg, hlist, -, hd⟩ := mem_argumentNodes h
  have hg : c.Within g := by
    rcases genericName?_eq_some hg with rfl | ⟨hg, -⟩
    · exact .self
    · exact Within.self.of_mem_children hg
  exact (hg.of_mem_children hlist).of_mem_children (mem_namedChildren.mp hd).1

/-- The types one step inside a type. -/
inductive Inside (c : Cursor) : Cursor → Prop
  | wrapped {d : Cursor} (h : c.wrappedType? = some d) : Inside c d
  | argument {d : Cursor} (h : d ∈ argumentNodes c) : Inside c d
  | element {e d : Cursor} (he : e ∈ elementNodes c) (h : e.wrappedType? = some d) : Inside c d

theorem Inside.within (h : Inside c d) : c.Within d := by
  cases h with
  | wrapped h => exact Within.self.of_mem_children (mem_children_of_wrappedType? h)
  | argument h => exact within_argumentNodes h
  | element he h =>
    exact (Within.self.of_mem_children (mem_children_of_elementNodes he)).of_mem_children (mem_children_of_wrappedType? h)

theorem Inside.sizeOf_lt (h : Inside c d) : sizeOf d.node < sizeOf c.node := by
  cases h with
  | wrapped h => exact sizeOf_wrappedType? h
  | argument h => exact sizeOf_argumentNodes h
  | element he h => exact (sizeOf_wrappedType? h).trans (sizeOf_node_of_mem_children (mem_children_of_elementNodes he))

theorem mem_visits {steps : Nat} {v : Visit} (h : v ∈ visits steps c) :
    v = .type steps c ∨ (∃ e ∈ elementNodes c, v = .element e) ∨ ∃ d, Inside c d ∧ v ∈ visits (steps + 1) d := by
  have hwrapped {e : Cursor} (h : v ∈ e.wrappedType?.toList.flatMap (visits (steps + 1))) :
      ∃ d, e.wrappedType? = some d ∧ v ∈ visits (steps + 1) d := by
    obtain ⟨d, hd, hv⟩ := List.mem_flatMap.mp h
    exact ⟨d, Option.mem_toList.mp hd, hv⟩
  rw [visits_eq] at h
  refine (List.mem_cons.mp h).imp id fun h => ?_
  cases hform : c.typeForm? with
  | none => simp [hform] at h
  | some form =>
    rw [hform] at h
    cases form with
    | baseWithArguments | constraint | nullable | array =>
      obtain ⟨d, hd, hv⟩ := hwrapped h
      exact .inr ⟨d, .wrapped hd, hv⟩
    | predefined | identifier | generic | qualified | aliasQualified =>
      obtain ⟨d, hd, hv⟩ := List.mem_flatMap.mp h
      exact .inr ⟨d, .argument hd, hv⟩
    | tuple =>
      obtain ⟨e, he, hv⟩ := List.mem_flatMap.mp h
      rcases List.mem_cons.mp hv with rfl | hv
      · exact .inl ⟨e, he, rfl⟩
      · obtain ⟨d, hd, hv⟩ := hwrapped hv
        exact .inr ⟨d, .element he hd, hv⟩
    | tupleElement | argumentList => cases h

theorem within_visits {steps : Nat} {v : Visit} {c : Cursor} (h : v ∈ visits steps c) : c.Within v.node := by
  obtain rfl | ⟨e, he, rfl⟩ | ⟨d, hd, hv⟩ := mem_visits h
  · exact .self
  · exact Within.self.of_mem_children (mem_children_of_elementNodes he)
  · have := hd.sizeOf_lt
    exact hd.within.trans (within_visits hv)
termination_by sizeOf c.node

/-- Between a type and one inside it stands type syntax only. -/
theorem Inside.enclosing (h : Inside c d) (hform : c.typeForm?.isSome = true) :
    ∃ between, d.enclosing = between ++ c.enclosing ∧ ∀ x ∈ between, x.typeForm?.isSome = true := by
  have hkind {x : Cursor} (form : TypeForm) (hx : x.kind = form.kind) : x.typeForm?.isSome = true := by
    rw [typeForm?_eq_some.mpr hx]
    rfl
  cases h with
  | wrapped h => exact ⟨[c], enclosing_of_mem_children (mem_children_of_wrappedType? h), by simpa using hform⟩
  | argument h =>
    obtain ⟨g, list, hg, hlist, hlistKind, hd⟩ := mem_argumentNodes h
    have hlistForm : list.typeForm?.isSome = true := hkind .argumentList hlistKind
    have henclosing : d.enclosing = list :: g :: g.enclosing := by
      rw [enclosing_of_mem_children (mem_namedChildren.mp hd).1, enclosing_of_mem_children hlist]
    rcases genericName?_eq_some hg with rfl | ⟨hg, hgKind⟩
    · exact ⟨[list, g], henclosing, by simp [hlistForm, hform]⟩
    · refine ⟨[list, g, c], ?_, by simp [hlistForm, hkind .generic hgKind, hform]⟩
      rw [henclosing, enclosing_of_mem_children hg]
      rfl
  | @element e _ he h =>
    have heForm : e.typeForm?.isSome = true := hkind .tupleElement (beq_iff_eq.mp (List.mem_filter.mp he).2)
    refine ⟨[e, c], ?_, by simp [heForm, hform]⟩
    rw [enclosing_of_mem_children (mem_children_of_wrappedType? h), enclosing_of_mem_children (mem_children_of_elementNodes he)]
    rfl

theorem enclosing_visits {k steps : Nat} {c : Cursor} (hd : .type k d ∈ visits steps c) (hform : d.typeForm?.isSome = true) :
    c.typeForm?.isSome = true ∧
      ∃ between, d.enclosing = between ++ c.enclosing ∧ ∀ x ∈ between, x.typeForm?.isSome = true := by
  cases hc : c.typeForm? with
  | none =>
    rw [visits_eq, hc] at hd
    cases List.mem_singleton.mp hd
    rw [hc] at hform
    cases hform
  | some form =>
    refine ⟨rfl, ?_⟩
    rcases mem_visits hd with h | ⟨e, -, h⟩ | ⟨b, hb, hd⟩
    · cases h
      exact ⟨[], rfl, by simp⟩
    · cases h
    · have := hb.sizeOf_lt
      obtain ⟨lower, hlower, hlowerForm⟩ := hb.enclosing (by rw [hc]; rfl)
      obtain ⟨-, upper, hupper, hupperForm⟩ := enclosing_visits hd hform
      refine ⟨upper ++ lower, by rw [hupper, hlower, List.append_assoc], ?_⟩
      exact fun x hx => (List.mem_append.mp hx).elim (hupperForm x) (hlowerForm x)
termination_by sizeOf c.node

/-- Whether a node is of a form that can be described, with the type that it needs inside. -/
def isSupported (c : Cursor) : Bool :=
  match c.typeForm? with
  | some .tupleElement | some .argumentList | none => false
  | some form => !form.wraps || c.wrappedType?.isSome

namespace Visit

/-- Not too deep, supported, and with a usable name unless it only holds another type. -/
def Sound : Visit → Prop
  | type steps c => steps ≤ maxDepth ∧ isSupported c = true ∧ (c.inner? = none → c.qualify.state ≠ .failed)
  | element e => e.wrappedType?.isSome = true

/-- What is reported of a node on its own. -/
def fault? : Visit → Option AnalyzeError
  | type steps c =>
    if maxDepth < steps then some (.tooDeep c.span maxDepth)
    else if isSupported c = false then some (unsupported c)
    else if c.inner?.isSome then none
    else c.qualify.failure?.map fun reason => .nameResolution c.qualify.name c.span reason
  | element e => if e.wrappedType?.isSome then none else some (unsupported e)

theorem fault?_eq_none {v : Visit} : v.fault? = none ↔ v.Sound := by
  cases v with
  | element e =>
    dsimp only [fault?, Sound]
    cases e.wrappedType? <;> simp
  | type steps c =>
    have hfailure : c.qualify.failure? = none ↔ c.qualify.state ≠ .failed := by
      cases c.qualify <;> simp [QualifiedName.failure?, QualifiedName.state]
    dsimp only [fault?, Sound]
    by_cases hsteps : maxDepth < steps
    · simp [hsteps, Nat.not_le.mpr hsteps]
    · rw [if_neg hsteps, and_iff_right (Nat.le_of_not_lt hsteps)]
      cases isSupported c
      · simp
      · cases c.inner? <;> simp [hfailure]

theorem fault?_deep {steps : Nat} (h : maxDepth < steps) : (type steps c).fault? = some (.tooDeep c.span maxDepth) :=
  if_pos h

variable {steps : Nat} {form : TypeForm}

theorem fault?_wrapper (hsteps : ¬ maxDepth < steps) (hform : c.typeForm? = some form) (hwraps : form.wraps = true) :
    (type steps c).fault? = if c.wrappedType?.isSome then none else some (unsupported c) := by
  have hsupported : isSupported c = c.wrappedType?.isSome := by
    unfold isSupported
    rw [hform]
    cases form <;> first | rfl | cases hwraps
  rw [fault?, if_neg hsteps, hsupported, inner?_wraps hform hwraps]
  cases c.wrappedType? <;> rfl

theorem fault?_core (hsteps : ¬ maxDepth < steps) (hform : c.typeForm? = some form) (hwraps : form.wraps = false) :
    (type steps c).fault? = if form = .tupleElement ∨ form = .argumentList then some (unsupported c)
      else c.qualify.failure?.map fun reason => .nameResolution c.qualify.name c.span reason := by
  have hsupported : isSupported c = !(form = .tupleElement ∨ form = .argumentList : Bool) := by
    unfold isSupported
    rw [hform]
    cases form <;> first | rfl | cases hwraps
  rw [fault?, if_neg hsteps, hsupported, inner?_plain hform hwraps]
  by_cases h : form = .tupleElement ∨ form = .argumentList <;> simp [h]

end Visit

end

/-! What a description comes to -/

section

variable {α β γ : Type}

theorem findSome?_cons_eq {f : α → Option β} {x : α} {xs : List α} :
    (x :: xs).findSome? f = (f x).or (xs.findSome? f) := by
  rw [List.findSome?_cons]
  cases f x <;> rfl

theorem findSome?_flatMap {f : α → List β} {g : β → Option γ} {xs : List α} :
    (xs.flatMap f).findSome? g = xs.findSome? fun x => (f x).findSome? g := by
  induction xs with
  | nil => rfl
  | cons x xs ih => rw [List.flatMap_cons, List.findSome?_append, ih, findSome?_cons_eq]

end

/-- A computation that succeeds if there is no fault and then yields what is wanted, and else reports the fault. Whether
it is sure to report that fault may depend on more. -/
def Settles {α : Type} (m : Build α) (fault : Option AnalyzeError) (wanted : α → Prop) (sure : Prop) : Prop :=
  ∀ known, match m.run known with
    | .ok (a, _) => fault = none ∧ wanted a
    | .error e => sure → fault = some e

section

variable {α β : Type} {fault fault' : Option AnalyzeError} {wanted : α → Prop} {wanted' : β → Prop} {sure : Prop}

theorem settles_pure {a : α} (h : wanted a) : Settles (pure a : Build α) none wanted sure := fun _ => ⟨rfl, h⟩

theorem settles_throw {e : AnalyzeError} : Settles (throw e : Build α) (some e) wanted sure := fun _ _ => rfl

theorem Settles.mono {m : Build α} {wanted' : α → Prop} (h : Settles m fault wanted sure) (ha : ∀ a, wanted a → wanted' a) :
    Settles m fault wanted' sure := by
  intro known
  have h := h known
  split at h
  · exact ⟨h.1, ha _ h.2⟩
  · exact h

theorem settles_bind {m : Build α} {f : α → Build β} (hm : Settles m fault wanted sure)
    (hf : ∀ a, wanted a → Settles (f a) fault' wanted' sure) : Settles (m >>= f) (fault.or fault') wanted' sure := by
  intro known
  have hm := hm known
  rw [StateT.run_bind]
  cases hrun : m.run known with
  | error e =>
    rw [hrun] at hm
    exact fun h => by rw [hm h, Option.some_or]
  | ok r =>
    rw [hrun] at hm
    rw [hm.1, Option.none_or]
    exact hf r.1 hm.2 r.2

theorem settles_map {m : Build α} {f : α → β} (hm : Settles m fault (fun a => wanted' (f a)) sure) :
    Settles (m >>= fun a => pure (f a)) fault wanted' sure := by
  rw [← Option.or_none (o := fault)]
  exact settles_bind hm fun _ h => settles_pure h

theorem settles_mapM {f : α → Build β} {fault : α → Option AnalyzeError} {wanted : β → α → Prop} {xs : List α}
    (h : ∀ x ∈ xs, Settles (f x) (fault x) (wanted · x) sure) :
    Settles (xs.mapM f) (xs.findSome? fault) (List.Forall₂ wanted · xs) sure := by
  induction xs with
  | nil => exact settles_pure .nil
  | cons x xs ih =>
    obtain ⟨hx, hxs⟩ := List.forall_mem_cons.mp h
    rw [List.mapM_cons, findSome?_cons_eq]
    refine settles_bind hx fun y hy => settles_map ((ih hxs).mono fun ys hys => ?_)
    exact .cons hy hys

end

/-- The labels of the namespaces that are searched from a place. -/
def scopeLabels (c : Cursor) : List String :=
  let blocks := (c.innermostScope?.getD c).enclosingNamespaces
  (blocks.zip (blockNames (blocks.map namespaceName?))).flatMap fun (block, name) =>
    (name.map (blockLabels block)).getD []

end Analysis

/-- The types and the namespaces around a place are catalogued. -/
structure Session.Surrounds (s : Session) (c : Cursor) : Prop where
  types : ∀ d ∈ c.enclosingTypes, ∃ name, d.fullName? = some name ∧
    (s.findDocumented name d.typeParameterCount).isSome = true
  namespaces : ∀ label ∈ Analysis.scopeLabels c, (s.findNamespace label).isSome = true

theorem Session.Surrounds.of_grows {s t : Session} {c : Cursor} (h : s.Surrounds c) (hg : s.Grows t) :
    t.Surrounds c where
  types d hd := by
    obtain ⟨name, hname, hfound⟩ := h.types d hd
    obtain ⟨id, hid⟩ := Option.isSome_iff_exists.mp hfound
    exact ⟨name, hname, Option.isSome_iff_exists.mpr ⟨id, hg.findDocumented hid⟩⟩
  namespaces label hlabel := by
    obtain ⟨id, hid⟩ := Option.isSome_iff_exists.mp (h.namespaces label hlabel)
    exact Option.isSome_iff_exists.mpr ⟨id, hg.findNamespace hid⟩

namespace Cursor

variable {c d : Cursor} {between above : List Cursor}

theorem not_namespace_of_typeForm? (h : c.typeForm?.isSome = true) :
    c.isNamespaceDeclaration = false ∧ c.isFileScopedNamespace = false ∧ (c.kind == "compilation_unit") = false := by
  obtain ⟨form, hform⟩ := Option.isSome_iff_exists.mp h
  unfold isNamespaceDeclaration isFileScopedNamespace
  rw [typeForm?_eq_some.mp hform]
  cases form <;> decide

theorem not_scope_of_plain (h : c.isTypeDeclaration = false) : c.isScopeDeclaration = false := by
  rw [Bool.eq_false_iff]
  intro hscope
  rw [Analysis.isTypeDeclaration_of_isScopeDeclaration hscope] at h
  cases h

theorem not_scope_of_typeForm? (h : c.typeForm?.isSome = true) : c.isScopeDeclaration = false :=
  not_scope_of_plain (Analysis.not_typeDeclaration_of_typeForm? h)

theorem form_of_partially (h : c.qualify.state = .partially) : c.typeForm?.isSome = true := by
  obtain ⟨form, hform, -⟩ := form_of_qualify (c := c) (by rw [h]; decide)
  rw [hform]
  rfl

theorem sound_of_partially (h : c.qualify.state = .partially) : c.node.isBroken = false := by
  cases hqualify : c.qualify with
  | partially name => exact Analysis.not_broken_of_qualify hqualify
  | full name | failed text reason =>
    rw [hqualify] at h
    cases h

theorem namespacesAlong_append {seen : Bool} (h : ∀ x ∈ between, x.typeForm?.isSome = true) :
    namespacesAlong d seen (between ++ above) = namespacesAlong d seen above := by
  induction between with
  | nil => rfl
  | cons x between ih =>
    obtain ⟨hx, hbetween⟩ := List.forall_mem_cons.mp h
    obtain ⟨hown, hscoped, hunit⟩ := not_namespace_of_typeForm? hx
    rw [List.cons_append, namespacesAlong, hown, hscoped, hunit, Bool.or_false, ih hbetween]
    rfl

end Cursor

namespace Analysis

open Cursor

section

variable {u : SourceUnit} {s : Session} {c d : Cursor} {k steps : Nat}

theorem enclosingTypes_visits (hd : .type k d ∈ visits steps c) (hform : d.typeForm?.isSome = true) :
    d.enclosingTypes = c.enclosingTypes := by
  obtain ⟨-, between, heq, hbetween⟩ := enclosing_visits hd hform
  unfold enclosingTypes
  rw [heq, List.filter_append, List.filter_eq_nil_iff.mpr, List.nil_append]
  intro x hx
  rw [not_typeDeclaration_of_typeForm? (hbetween x hx)]
  decide

theorem innermostScope?_visits (hd : .type k d ∈ visits steps c) (hform : d.typeForm?.isSome = true) :
    d.innermostScope? = c.innermostScope? := by
  obtain ⟨hc, between, heq, hbetween⟩ := enclosing_visits hd hform
  have hnone : between.find? isScopeDeclaration = none := by
    rw [List.find?_eq_none]
    intro x hx
    rw [not_scope_of_typeForm? (hbetween x hx)]
    decide
  unfold innermostScope?
  rw [List.find?_cons_of_neg (by simp [not_scope_of_typeForm? hform]),
    List.find?_cons_of_neg (by simp [not_scope_of_typeForm? hc]), heq, List.find?_append, hnone, Option.none_or]

theorem enclosingNamespaces_visits (hu : u.Laid) (hc : u.top.Within c) (hd : .type k d ∈ visits steps c)
    (hform : d.typeForm?.isSome = true) (hsound : d.node.isBroken = false) :
    d.enclosingNamespaces = c.enclosingNamespaces := by
  obtain ⟨hcForm, between, heq, hbetween⟩ := enclosing_visits hd hform
  have hwithin : c.Within d := within_visits hd
  have hdw := hc.trans hwithin
  unfold enclosingNamespaces
  rw [heq, namespacesAlong_append hbetween]
  apply namespacesAlong_congr
  intro before q after hq _
  have hmem : q ∈ c.enclosing := by
    rw [hq]
    exact List.mem_append_right _ List.mem_cons_self
  cases hany : before.any isFileScopedNamespace with
  | true => rfl
  | false =>
    refine hu.governing?_above hdw (hu.solid d hdw hform hsound) hwithin.suffix hmem fun x hx hs hxc => ?_
    rcases List.suffix_cons_iff.mp hxc with hself | habove
    · rw [eq_of_trail hself, (not_namespace_of_typeForm? hcForm).2.1] at hs
      cases hs
    · rw [any_before hq hx hs habove] at hany
      cases hany

/-- In a tree of the right shape the scopes around a type are those around all types in it. -/
theorem surrounds_visits (hu : u.Shaped) (hc : u.top.Within c) (h : s.Surrounds c) (hd : .type k d ∈ visits steps c)
    (hname : d.qualify.state = .partially) : s.Surrounds d := by
  have hform := form_of_partially hname
  have hsound := sound_of_partially hname
  have hlabels : scopeLabels d = scopeLabels c := by
    unfold scopeLabels
    rw [innermostScope?_visits hd hform]
    cases c.innermostScope? with
    | some decl => rfl
    | none =>
      dsimp only [Option.getD_none]
      rw [enclosingNamespaces_visits hu.laid hc hd hform hsound]
  exact ⟨by rw [enclosingTypes_visits hd hform]; exact h.types, by rw [hlabels]; exact h.namespaces⟩

end

section

variable {s : Session} {c d : Cursor} {fileContexts : List Context} {sure : Prop} {e : AnalyzeError}

theorem scopeContexts_ok (hplain : c.isTypeDeclaration = false) (h : s.Surrounds c) : scopeContexts s c ≠ .error e := by
  have htypes : ∀ d ∈ c.enclosingTypes, typeContext s d ≠ .error e := by
    intro d hd
    obtain ⟨name, hname, hfound⟩ := h.types d hd
    obtain ⟨id, hid⟩ := Option.isSome_iff_exists.mp hfound
    unfold typeContext
    rw [hname]
    dsimp only
    rw [hid]
    nofun
  have hblocks {f : List Context → List Context} :
      ((scopeLabels c).mapM (namespaceContext s) >>= fun cs => pure (f cs)) ≠ .error e := by
    intro he
    obtain he | ⟨cs, -, he⟩ := bind_eq_error.mp he
    · obtain ⟨label, hlabel, he⟩ := mapM_eq_error he
      exact namespaceContext_ok (h.namespaces label hlabel) he
    · cases he
  unfold scopeLabels at hblocks
  unfold scopeContexts
  cases hanchor : c.innermostScope? with
  | none =>
    rw [hanchor] at hblocks
    exact hblocks
  | some d =>
    rw [hanchor] at hblocks
    intro he
    obtain he | ⟨types, -, he⟩ := bind_eq_error.mp he
    · obtain ⟨a, ha, he⟩ := mapM_eq_error he
      exact htypes a (mem_enclosingTypes_of_scope hplain hanchor a ha) he
    · exact hblocks he

theorem settles_contextsAt (hform : c.typeForm?.isSome = true) (h : sure → s.Surrounds c) :
    Settles (contextsAt s fileContexts c) none (fun _ => True) sure := by
  intro known
  cases known with
  | some contexts => exact ⟨rfl, trivial⟩
  | none =>
    have hrun : (contextsAt s fileContexts c).run none =
        (lexicalContexts s fileContexts c >>= fun cs => pure (cs, some cs)) := by
      unfold contextsAt
      cases lexicalContexts s fileContexts c <;> rfl
    rw [hrun]
    unfold lexicalContexts
    cases hscope : scopeContexts s c with
    | ok cs => exact ⟨rfl, trivial⟩
    | error e => exact fun hsure => (scopeContexts_ok (not_typeDeclaration_of_typeForm? hform) (h hsure) hscope).elim

end

end Analysis

end TypeCatalog
