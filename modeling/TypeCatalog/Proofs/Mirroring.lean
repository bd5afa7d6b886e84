import TypeCatalog.Proofs.Scanning
import TypeCatalog.Proofs.Traversal

namespace TypeCatalog

namespace Cursor

variable {c d : Cursor} {form : TypeForm}

/-- The type inside all wrappers. -/
def core (c : Cursor) : Cursor :=
  match _ : c.inner? with
  | some d => core d
  | none => c
termination_by sizeOf c.node
decreasing_by exact sizeOf_wrappedType? (wrappedType?_of_inner? ‹_›)

/-- The wrappers around the core, from the outside. -/
def wrappers (c : Cursor) : List Cursor :=
  match _ : c.inner? with
  | some d => c :: wrappers d
  | none => []
termination_by sizeOf c.node
decreasing_by exact sizeOf_wrappedType? (wrappedType?_of_inner? ‹_›)

theorem core_inner (h : c.inner? = some d) : c.core = d.core := by
  rw [core]
  split
  · next hd => rw [Option.some.inj (h.symm.trans hd)]
  · next hd => simp [h] at hd

theorem core_plain (h : c.inner? = none) : c.core = c := by
  rw [core]
  split
  · next hd => simp [h] at hd
  · rfl

theorem wrappers_inner (h : c.inner? = some d) : c.wrappers = c :: d.wrappers := by
  rw [wrappers]
  split
  · next hd => rw [Option.some.inj (h.symm.trans hd)]
  · next hd => simp [h] at hd

theorem wrappers_plain (h : c.inner? = none) : c.wrappers = [] := by
  rw [wrappers]
  split
  · next hd => simp [h] at hd
  · rfl

def rankSpecifiers (c : Cursor) : List Cursor := c.children.filter (·.kind == "array_rank_specifier")

/-- The dimensions of all arrays around the core: for each rank specifier one more than it has commas. -/
def dimensions (c : Cursor) : Nat :=
  ((c.wrappers.filter (·.typeForm? == some .array)).flatMap rankSpecifiers).foldr
    (fun specifier rank => specifier.children.countP (·.kind == ",") + 1 + rank) 0

theorem dimensions_plain (h : c.inner? = none) : c.dimensions = 0 := by
  unfold dimensions
  rw [wrappers_plain h]
  rfl

theorem foldr_add {α : Type} {f : α → Nat} {xs : List α} (n : Nat) :
    xs.foldr (fun x sum => f x + sum) n = xs.foldr (fun x sum => f x + sum) 0 + n := by
  induction xs with
  | nil => exact (Nat.zero_add n).symm
  | cons x xs ih =>
    rw [List.foldr_cons, List.foldr_cons, ih]
    omega

theorem dimensions_inner (h : c.inner? = some d) :
    c.dimensions = (if c.typeForm? = some .array then c.arrayRank else 0) + d.dimensions := by
  unfold dimensions
  rw [wrappers_inner h, List.filter_cons]
  by_cases hform : c.typeForm? = some .array
  · rw [if_pos (by simp [hform]), if_pos hform, List.flatMap_cons, List.foldr_append]
    exact foldr_add _
  · rw [if_neg (by simp [hform]), if_neg hform, Nat.zero_add]

/-- The type of a tuple element and the name that it is given. -/
def elementPart (e : Cursor) : Cursor × Option String :=
  let type := e.wrappedType?.getD e
  (type, Analysis.elementNameOf e type)

/-- The elements of a tuple, or the type arguments of a name. -/
def parts (c : Cursor) : List (Cursor × Option String) :=
  if c.typeForm? = some .tuple then (Analysis.elementNodes c).map elementPart
  else (Analysis.argumentNodes c).map (·, none)

end Cursor

/-- The descriptor is a picture of the type syntax, which stands in a tuple under the name `label`, if it does. -/
inductive Descriptor.Describes : Descriptor → Cursor → Option String → Prop where
  | mk {d : Descriptor} {c : Cursor} {label : Option String}
    (name : d.name = c.core.qualify.name)
    (state : d.state = c.core.qualify.state)
    (predefined : d.isPredefined = (c.core.kind == "predefined_type"))
    (tuple : d.isTuple = (c.core.kind == "tuple_type"))
    (rank : d.rank = c.dimensions)
    (elementName : d.elementName = label)
    (arguments : List.Forall₂ (fun a part => Describes a part.1 part.2) d.arguments c.core.parts) :
    Describes d c label

namespace Descriptor.Describes

variable {d : Descriptor} {c inner : Cursor} {label : Option String}

theorem withElementName (h : d.Describes c none) : (d.withElementName label).Describes c label := by
  obtain ⟨hname, hstate, hpredefined, htuple, hrank, helement, harguments⟩ := h
  cases d with
  | mk name form rank e as =>
    obtain rfl : e = none := helement
    exact ⟨hname, hstate, hpredefined, htuple, hrank, by cases label <;> rfl, harguments⟩

theorem wrapped (hinner : c.inner? = some inner) (h : d.Describes inner label) :
    (d.addRank (if c.typeForm? = some .array then c.arrayRank else 0)).Describes c label := by
  obtain ⟨hname, hstate, hpredefined, htuple, hrank, helement, harguments⟩ := h
  cases d with
  | mk name form rank e as =>
    have hcore := Cursor.core_inner hinner
    have hdimensions := Cursor.dimensions_inner hinner
    rw [← hcore] at hname hstate hpredefined htuple harguments
    refine ⟨hname, hstate, hpredefined, htuple, ?_, helement, harguments⟩
    change rank + _ = _
    change rank = _ at hrank
    omega

end Descriptor.Describes

theorem Descriptor.state_ne_failed (d : Descriptor) : d.state ≠ .failed := by
  unfold state
  cases d.form <;> nofun

namespace Analysis

open Cursor

section

variable {s : Session} {c d e : Cursor} {form : TypeForm} {fileContexts : List Context} {sure : Prop} {steps levels : Nat}

/-- The name of a node and its form are those that it qualifies to. -/
structure Names (c : Cursor) (r : String × NameForm) : Prop where
  name : r.1 = c.qualify.name
  state : (Descriptor.mk r.1 r.2 0 none []).state = c.qualify.state
  keyword : (r.2 == .keyword) = (c.kind == "predefined_type")
  tuple : (r.2 == .tuple) = (c.kind == "tuple_type")

theorem qualify_tuple (h : c.kind = "tuple_type") (name : String) : c.qualify ≠ .full name := by
  unfold qualify
  rw [h]
  split <;> simp

theorem qualify_predefined (h : c.kind = "predefined_type") (name : String) : c.qualify ≠ .partially name := by
  unfold qualify
  rw [h]
  split <;> simp

theorem settles_nameOf (hform : c.typeForm?.isSome = true) (h : sure → c.qualify.state = .partially → s.Surrounds c) :
    Settles (nameOf s fileContexts c)
      (c.qualify.failure?.map fun reason => .nameResolution c.qualify.name c.span reason) (Names c) sure := by
  unfold nameOf
  cases hqualify : c.qualify with
  | failed text reason => exact settles_throw
  | full name =>
    have htuple : c.kind ≠ "tuple_type" := fun hkind => qualify_tuple hkind name hqualify
    apply settles_pure
    by_cases hkind : c.kind = "predefined_type"
    · rw [if_pos (beq_iff_eq.mpr hkind)]
      exact ⟨by rw [hqualify]; rfl, by rw [hqualify]; rfl, by rw [hkind]; rfl, by rw [hkind]; rfl⟩
    · rw [if_neg (by simpa using hkind)]
      exact ⟨by rw [hqualify]; rfl, by rw [hqualify]; rfl, (beq_eq_false_iff_ne.mpr hkind).symm,
        (beq_eq_false_iff_ne.mpr htuple).symm⟩
  | partially name =>
    have hpredefined : c.kind ≠ "predefined_type" := fun hkind => qualify_predefined hkind name hqualify
    dsimp only
    by_cases hkind : c.kind = "tuple_type"
    · rw [if_pos (beq_iff_eq.mpr hkind)]
      apply settles_pure
      exact ⟨by rw [hqualify]; rfl, by rw [hqualify]; rfl, by rw [hkind]; rfl, by rw [hkind]; rfl⟩
    · rw [if_neg (by simpa using hkind)]
      apply settles_map
      refine (settles_contextsAt hform fun hsure => h hsure (by rw [hqualify]; rfl)).mono fun contexts _ => ?_
      exact ⟨by rw [hqualify]; rfl, by rw [hqualify]; rfl, (beq_eq_false_iff_ne.mpr hpredefined).symm,
        (beq_eq_false_iff_ne.mpr hkind).symm⟩

theorem describes_core {r : String × NameForm} {as : List Descriptor} (hplain : c.inner? = none) (hr : Names c r)
    (has : List.Forall₂ (fun a part => Descriptor.Describes a part.1 part.2) as c.parts) :
    (Descriptor.mk r.1 r.2 0 none as).Describes c none := by
  have hcore := core_plain hplain
  refine ⟨?_, ?_, ?_, ?_, (dimensions_plain hplain).symm, rfl, ?_⟩
  · rw [hcore]
    exact hr.name
  · rw [hcore]
    exact hr.state
  · rw [hcore]
    exact hr.keyword
  · rw [hcore]
    exact hr.tuple
  · rw [hcore]
    exact has

theorem settles_element {n : Nat} (h : ∀ type, e.wrappedType? = some type →
      Settles (build s fileContexts n type) ((visits steps type).findSome? Visit.fault?) (·.Describes type none) sure) :
    Settles
      (match e.wrappedType? with
        | some type => do return (← build s fileContexts n type).withElementName (elementNameOf e type)
        | none => throw (unsupported e))
      ((.element e :: e.wrappedType?.toList.flatMap (visits steps)).findSome? Visit.fault?)
      (fun d => d.Describes (elementPart e).1 (elementPart e).2) sure := by
  rw [findSome?_cons_eq]
  unfold elementPart
  cases htype : e.wrappedType? with
  | none =>
    rw [Visit.fault?, if_neg (by rw [htype]; decide), Option.some_or]
    exact settles_throw
  | some type =>
    rw [Visit.fault?, if_pos (by rw [htype]; rfl), Option.none_or, Option.toList_some, List.flatMap_singleton]
    exact settles_map ((h type htype).mono fun d hd => hd.withElementName)

theorem settles_build (hlevels : steps + levels = maxDepth + 1)
    (hsure : sure → ∀ k d, .type k d ∈ visits steps c → d.qualify.state = .partially → s.Surrounds d) :
    Settles (build s fileContexts levels c) ((visits steps c).findSome? Visit.fault?) (·.Describes c none) sure := by
  -- The levels that are left and the steps that were made add up to the bound on both.
  induction levels generalizing steps c with
  | zero =>
    rw [visits_eq, findSome?_cons_eq, Visit.fault?_deep (by omega), Option.some_or]
    exact settles_throw
  | succ n ih =>
    have hsteps : ¬ maxDepth < steps := by omega
    have hself : sure → c.qualify.state = .partially → s.Surrounds c := fun h =>
      hsure h steps c (by rw [visits_eq]; exact List.mem_cons_self)
    have hbelow {d : Cursor} (hd : ∀ v ∈ visits (steps + 1) d, v ∈ visits steps c) :
        Settles (build s fileContexts n d) ((visits (steps + 1) d).findSome? Visit.fault?) (·.Describes d none) sure :=
      ih (by omega) fun h k x hx => hsure h k x (hd _ hx)
    rw [visits_eq] at hbelow ⊢
    rw [findSome?_cons_eq]
    unfold build
    cases hform : c.typeForm? with
    | none =>
      rw [Visit.fault?, if_neg hsteps, if_pos (by unfold isSupported; rw [hform]), Option.some_or]
      exact settles_throw
    | some form =>
      rw [hform] at hbelow
      cases form with
      | baseWithArguments | constraint | nullable =>
        dsimp only at hbelow ⊢
        rw [Visit.fault?_wrapper hsteps hform rfl]
        cases hinner : c.wrappedType? with
        | none => exact settles_throw
        | some inner =>
          rw [hinner, Option.toList_some, List.flatMap_singleton] at hbelow
          rw [Option.toList_some, List.flatMap_singleton]
          refine (hbelow fun v hv => List.mem_cons_of_mem _ hv).mono fun d hd => ?_
          have hd := hd.wrapped ((inner?_wraps hform rfl).trans hinner)
          rw [hform] at hd
          cases d
          exact hd
      | array =>
        dsimp only at hbelow ⊢
        rw [Visit.fault?_wrapper hsteps hform rfl]
        cases hinner : c.wrappedType? with
        | none => exact settles_throw
        | some inner =>
          rw [hinner, Option.toList_some, List.flatMap_singleton] at hbelow
          rw [Option.toList_some, List.flatMap_singleton]
          refine settles_map ((hbelow fun v hv => List.mem_cons_of_mem _ hv).mono fun d hd => ?_)
          have hd := hd.wrapped ((inner?_wraps hform rfl).trans hinner)
          rwa [if_pos hform] at hd
      | predefined | identifier | generic | qualified | aliasQualified =>
        dsimp only at hbelow ⊢
        have hname : Settles (nameOf s fileContexts c) _ (Names c) sure := settles_nameOf (by rw [hform]; rfl) hself
        have harguments : Settles ((argumentNodes c).mapM (build s fileContexts n)) _
            (List.Forall₂ (fun a d => a.Describes d none) · (argumentNodes c)) sure := settles_mapM fun d hd =>
          hbelow fun v hv => List.mem_cons_of_mem _ (List.mem_flatMap.mpr ⟨d, hd, hv⟩)
        rw [Visit.fault?_core hsteps hform rfl, if_neg (by decide), findSome?_flatMap]
        refine settles_bind hname fun r hr => settles_map (harguments.mono fun as has => ?_)
        apply describes_core (inner?_plain hform rfl) hr
        rw [parts, if_neg (by rw [hform]; decide), List.forall₂_map_right_iff]
        exact has
      | tuple =>
        dsimp only at hbelow ⊢
        have hname : Settles (nameOf s fileContexts c) _ (Names c) sure := settles_nameOf (by rw [hform]; rfl) hself
        rw [Visit.fault?_core hsteps hform rfl, if_neg (by decide), findSome?_flatMap]
        refine settles_bind hname fun r hr => settles_map ?_
        refine (settles_mapM fun e he => settles_element fun type htype => hbelow fun v hv => ?_).mono fun as has => ?_
        · refine List.mem_cons_of_mem _ (List.mem_flatMap.mpr ⟨e, he, List.mem_cons_of_mem _ ?_⟩)
          rwa [htype, Option.toList_some, List.flatMap_singleton]
        · apply describes_core (inner?_plain hform rfl) hr
          rw [parts, if_pos hform, List.forall₂_map_right_iff]
          exact has
      | tupleElement | argumentList =>
        rw [Visit.fault?_core hsteps hform rfl, if_pos (by decide), Option.some_or]
        exact settles_throw

end

section

variable {u : SourceUnit} {s : Session} {c : Cursor} {container : TypeId} {allowCreate : Bool}

theorem leads_ofNode_build (hs : s.Sane) (described : Descriptor → Prop) (fails : AnalyzeError → Prop)
    (h : ∀ t fileContexts, s.Grows t → match (build t fileContexts (maxDepth + 1) c).run none with
      | .ok (root, _) => described root
      | .error e => fails e) :
    (ofNode u container allowCreate c).Leads s (fun a _ => described a.root) fun e _ =>
      (s.findSourceFile u.path).isSome = true → s.isDocumented container = true → fails e := by
  unfold ofNode
  apply Act.leads_get_bind
  split
  · next hnone =>
    refine Act.leads_throw fun hfile => ?_
    rw [hnone] at hfile
    cases hfile
  · next file hfile =>
    apply Act.leads_bind
    refine (leads_containerParameters hs).mono ?_ ?_
    · rintro ps t ⟨ht, hst, -⟩
      obtain ⟨f, hf⟩ := sourceFile?_of_found hfile
      obtain ⟨fileContexts, hcs⟩ := contextsOfFile_ok ht (hst.sourceFile? hf)
      have hbuild := h t fileContexts hst
      apply Act.leads_get_bind
      rw [hcs]
      dsimp only [liftCatalog, Except.mapError]
      split
      · next e he =>
        rw [he] at hbuild
        exact Act.leads_throw fun _ _ => hbuild
      · next root known hroot =>
        rw [hroot] at hbuild
        exact Act.leads_pure hbuild
    · rintro e t ⟨rfl, hnot⟩
      refine fun _ hdoc => ?_
      rw [hnot] at hdoc
      cases hdoc

theorem leads_ofNode_settles (hs : s.Sane) {sure : Prop}
    (hsure : sure → ∀ k d, .type k d ∈ visits 0 c → d.qualify.state = .partially → s.Surrounds d) :
    (ofNode u container allowCreate c).Leads s
      (fun a _ => (∀ v ∈ visits 0 c, v.Sound) ∧ a.root.Describes c none)
      fun e _ => (s.findSourceFile u.path).isSome = true → s.isDocumented container = true → sure →
        (visits 0 c).findSome? Visit.fault? = some e := by
  refine leads_ofNode_build hs (fun root => (∀ v ∈ visits 0 c, v.Sound) ∧ root.Describes c none) _ ?_
  intro t fileContexts hst
  have hbuild : Settles (build t fileContexts (maxDepth + 1) c) ((visits 0 c).findSome? Visit.fault?)
      (·.Describes c none) sure := settles_build (Nat.zero_add _) fun h k d hd hname => (hsure h k d hd hname).of_grows hst
  have hbuild := hbuild none
  split at hbuild
  · next root known hroot =>
    rw [hroot]
    exact ⟨fun v hv => Visit.fault?_eq_none.mp (List.findSome?_eq_none_iff.mp hbuild.1 v hv), hbuild.2⟩
  · next e he =>
    rw [he]
    exact hbuild

/-- A type is described exactly if every node that the description comes to is sound, and else the first that is not is
to blame. The description is a picture of the type. Where names are looked up, the scopes around them are catalogued: by
`surrounds_visits` those around the type, if the tree has the right shape. -/
theorem ofNode_describes (hs : s.Sane) (hfile : (s.findSourceFile u.path).isSome = true)
    (hdoc : s.isDocumented container = true)
    (hscope : ∀ k d, .type k d ∈ visits 0 c → d.qualify.state = .partially → s.Surrounds d) :
    (ofNode u container allowCreate c).Leads s
      (fun a _ => (∀ v ∈ visits 0 c, v.Sound) ∧ a.root.Describes c none)
      fun e _ => ∃ before v after, visits 0 c = before ++ v :: after ∧ (∀ w ∈ before, w.Sound) ∧ ¬ v.Sound ∧
        v.fault? = some e := by
  refine (leads_ofNode_settles hs fun _ : True => hscope).mono (fun _ _ h => h) ?_
  intro e _ he
  obtain ⟨before, v, after, heq, hv, hbefore⟩ := List.findSome?_eq_some_iff.mp (he hfile hdoc trivial)
  refine ⟨before, v, after, heq, fun w hw => Visit.fault?_eq_none.mp (hbefore w hw), fun hsound => ?_, hv⟩
  rw [Visit.fault?_eq_none.mpr hsound] at hv
  cases hv

end

end Analysis

namespace Sample

/-- The file `class Box<T>{(int n, Box<T[,]>[]? rest) all;}`. -/
def stacked : SourceUnit where
  path := ⟨"Box.cs"⟩
  source := "class Box<T>{(int n, Box<T[,]>[]? rest) all;}"
  root := node 0 "compilation_unit" none 0 "class Box<T>{(int n, Box<T[,]>[]? rest) all;}"
    [node 1 "class_declaration" none 0 "class Box<T>{(int n, Box<T[,]>[]? rest) all;}"
      [node 2 "identifier" (some "name") 6 "Box" [],
       node 3 "type_parameter_list" (some "type_parameters") 9 "<T>"
        [node 4 "type_parameter" none 10 "T" [node 5 "identifier" (some "name") 10 "T" []]],
       node 6 "declaration_list" (some "body") 12 "{(int n, Box<T[,]>[]? rest) all;}"
        [node 7 "field_declaration" none 13 "(int n, Box<T[,]>[]? rest) all;"
          [node 8 "variable_declaration" none 13 "(int n, Box<T[,]>[]? rest) all"
            [node 9 "tuple_type" (some "type") 13 "(int n, Box<T[,]>[]? rest)"
              [node 10 "tuple_element" none 14 "int n"
                [node 11 "predefined_type" (some "type") 14 "int" [], node 12 "identifier" (some "name") 18 "n" []],
               node 13 "tuple_element" none 21 "Box<T[,]>[]? rest"
                [node 14 "nullable_type" (some "type") 21 "Box<T[,]>[]?"
                  [node 15 "array_type" (some "type") 21 "Box<T[,]>[]"
                    [node 16 "generic_name" (some "type") 21 "Box<T[,]>"
                      [node 17 "identifier" none 21 "Box" [],
                       node 18 "type_argument_list" none 24 "<T[,]>"
                        [node 19 "array_type" none 25 "T[,]"
                          [node 20 "identifier" (some "type") 25 "T" [],
                           node 21 "array_rank_specifier" (some "rank") 26 "[,]" [.mk { (node 22 "," none 27 "," []).info with named := false } []]]]],
                     node 23 "array_rank_specifier" (some "rank") 30 "[]" []]],
                 node 24 "identifier" (some "name") 34 "rest" []]],
             node 25 "variable_declarator" none 40 "all" [node 26 "identifier" (some "name") 40 "all" []]]]]]]

/-- The type of the field. -/
def layered : Cursor := ((stacked.top.preorder.filter (·.kind == "tuple_type"))[0]?).getD stacked.top

def stocked : Session := ((Request.catalog stacked).run memory).2

theorem within_layered : stacked.top.Within layered := by
  obtain ⟨c, hc⟩ : ∃ c, (stacked.top.preorder.filter (·.kind == "tuple_type"))[0]? = some c :=
    Option.isSome_iff_exists.mp (by decide +kernel)
  unfold layered
  rw [hc]
  exact (Node.preorder_within (List.mem_filter.mp (List.mem_of_getElem? hc)).1).1

theorem ofNode_describes_layered :
    Session.inMemory = .ok memory ∧ layered.text = "(int n, Box<T[,]>[]? rest)" ∧
      (Analysis.ofNode stacked ⟨1⟩ true layered).Leads stocked
        (fun a _ => (∀ v ∈ Analysis.visits 0 layered, v.Sound) ∧ a.root.Describes layered none)
        fun e _ => ∃ before v after, Analysis.visits 0 layered = before ++ v :: after ∧ (∀ w ∈ before, w.Sound) ∧
          ¬ v.Sound ∧ v.fault? = some e := by
  have hworked : stocked.Worked := (Session.Worked.inMemory inMemory_eq).request (r := .catalog stacked) trivial
  have hfiles : stocked.files = [⟨⟨1⟩, stacked.path, []⟩] := by decide +kernel
  have hfile : (stocked.findSourceFile stacked.path).isSome = true := by
    simp [Session.findSourceFile, hfiles, Path.same]
  have hshaped : stacked.Shaped := SourceUnit.shaped_of_isShaped (by decide +kernel)
  have hsurrounds : stocked.Surrounds layered := by
    have hcheck : (∀ x ∈ layered.enclosingTypes, (x.fullName?.any fun name =>
          (stocked.findDocumented name x.typeParameterCount).isSome) = true) ∧
        ∀ label ∈ Analysis.scopeLabels layered, (stocked.findNamespace label).isSome = true := by
      decide +kernel
    exact ⟨fun d hd => (Option.any_eq_true ..).mp (hcheck.1 d hd), hcheck.2⟩
  refine ⟨inMemory_eq, by decide +kernel, Analysis.ofNode_describes hworked.sane hfile (by decide +kernel) ?_⟩
  exact fun k d hd hname => Analysis.surrounds_visits hshaped within_layered hsurrounds hd hname

end Sample

end TypeCatalog
