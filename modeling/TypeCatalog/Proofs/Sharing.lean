import TypeCatalog.Proofs.Mirroring
import TypeCatalog.Proofs.Scopes

namespace TypeCatalog

/-- The name or tuple that writes a part of a type: from the core of the type, each number is the place of an
argument or element, which is followed to its own core. -/
def Cursor.partAt? : List Nat → Cursor → Option Cursor
  | [], c => some c.core
  | i :: path, c => c.core.parts[i]?.bind fun part => partAt? path part.1

theorem Descriptor.contexts?_eq_none (d : Descriptor) : d.contexts? = none ↔ d.state = .full ∨ d.isTuple = true := by
  unfold contexts? state isTuple
  cases d.form with
  | keyword | rooted | tuple => simp
  | searched contexts => exact iff_of_false nofun nofun

namespace Analysis

open Cursor

section

variable {c d : Cursor} {form : TypeForm}

/-- The visits of the core of a type are among those of the type. -/
theorem visits_core (steps : Nat) (c : Cursor) : ∃ k, visits k c.core ⊆ visits steps c := by
  cases hinner : c.inner? with
  | none => exact ⟨steps, by rw [core_plain hinner]; exact List.Subset.refl _⟩
  | some d =>
    have hwrapped := wrappedType?_of_inner? hinner
    have := sizeOf_wrappedType? hwrapped
    obtain ⟨k, hk⟩ := visits_core (steps + 1) d
    rw [core_inner hinner]
    refine ⟨k, fun v hv => ?_⟩
    have hv := hk hv
    rw [visits_eq]
    refine List.mem_cons_of_mem _ ?_
    unfold inner? at hinner
    cases hform : c.typeForm? with
    | none => simp [hform] at hinner
    | some form => cases form <;> simp_all [TypeForm.wraps]
termination_by sizeOf c.node

theorem visits_argument (steps : Nat) (hd : d ∈ argumentNodes c) : visits (steps + 1) d ⊆ visits steps c := by
  intro v hv
  rw [visits_eq steps c]
  refine List.mem_cons_of_mem _ ?_
  have hmem := List.mem_flatMap.mpr ⟨d, hd, hv⟩
  obtain ⟨g, -, hg, -⟩ := mem_argumentNodes hd
  unfold genericName? at hg
  split at hg
  · next hform => rwa [hform]
  · next hform => rwa [hform]
  · next hform => rwa [hform]
  · cases hg

theorem visits_element {e : Cursor} (steps : Nat) (hform : c.typeForm? = some .tuple) (he : e ∈ elementNodes c)
    (hd : e.wrappedType? = some d) : visits (steps + 1) d ⊆ visits steps c := by
  intro v hv
  rw [visits_eq steps c, hform]
  refine List.mem_cons_of_mem _ (List.mem_flatMap.mpr ⟨e, he, List.mem_cons_of_mem _ ?_⟩)
  rw [hd]
  simpa using hv

/-- A part that was described has its visits among those of the whole. -/
theorem visits_part (steps : Nat) {a : Descriptor} {part : Cursor × Option String} (hpart : part ∈ c.parts)
    (ha : a.Describes part.1 part.2) : visits (steps + 1) part.1 ⊆ visits steps c := by
  unfold parts at hpart
  split at hpart
  · next hform =>
    obtain ⟨e, he, rfl⟩ := List.mem_map.mp hpart
    unfold elementPart at ha ⊢
    cases htype : e.wrappedType? with
    | some d => exact visits_element steps hform he htype
    | none =>
      -- an element without a type is not described
      have hkind : e.typeForm? = some .tupleElement :=
        typeForm?_eq_some.mpr (beq_iff_eq.mp (List.mem_filter.mp he).2)
      rw [htype] at ha
      obtain ⟨-, hstate, -⟩ := ha
      rw [Option.getD_none, core_plain (inner?_plain hkind rfl), qualify_failed hkind (.inr (.inl rfl))] at hstate
      exact (a.state_ne_failed hstate).elim
  · obtain ⟨d, hd, rfl⟩ := List.mem_map.mp hpart
    exact visits_argument steps hd

end

end Analysis

/-- Each descriptor in a picture is that of the syntax at its place, which the description came to. -/
theorem Descriptor.Describes.at {d e : Descriptor} {c : Cursor} {label : Option String} {path : List Nat}
    (h : d.Describes c label) (he : d.at? path = some e) (steps : Nat) :
    ∃ n, c.partAt? path = some n ∧ e.name = n.qualify.name ∧ e.state = n.qualify.state ∧
      e.isTuple = (n.kind == "tuple_type") ∧ ∃ k, .type k n ∈ Analysis.visits steps c := by
  obtain ⟨k, hcore⟩ := Analysis.visits_core steps c
  induction path generalizing d c label steps k with
  | nil =>
    cases he
    obtain ⟨hname, hstate, -, htuple, -⟩ := h
    refine ⟨c.core, rfl, hname, hstate, htuple, k, hcore ?_⟩
    rw [Analysis.visits_eq]
    exact List.mem_cons_self
  | cons i path ih =>
    obtain ⟨a, ha, he⟩ := Option.bind_eq_some_iff.mp he
    obtain ⟨-, -, -, -, -, -, harguments⟩ := h
    obtain ⟨hlength, hall⟩ := List.forall₂_iff_get.mp harguments
    obtain ⟨hi, rfl⟩ := List.getElem?_eq_some_iff.mp ha
    have hi' : i < c.core.parts.length := hlength ▸ hi
    have hdescribes := hall i hi hi'
    have hpart := Analysis.visits_part k (List.get_mem _ ⟨i, hi'⟩) hdescribes
    obtain ⟨k', hcore'⟩ := Analysis.visits_core (k + 1) (c.core.parts.get ⟨i, hi'⟩).1
    obtain ⟨n, hn, hname, hstate, htuple, m, hm⟩ := ih hdescribes he (k + 1) k' hcore'
    refine ⟨n, ?_, hname, hstate, htuple, m, hcore (hpart hm)⟩
    rw [Cursor.partAt?, List.getElem?_eq_getElem hi']
    exact hn

namespace Analysis

open Cursor Context

variable {u : SourceUnit} {s : Session} {c d : Cursor} {fileContexts : List Context} {container : TypeId}
  {allowCreate : Bool} {k steps : Nat}

/-- The contexts are the same around all names in a type that are looked up. -/
theorem lexicalContexts_visits (hu : u.Laid) (hc : u.top.Within c) (hd : .type k d ∈ visits steps c)
    (hname : d.qualify.state = .partially) :
    lexicalContexts s fileContexts d = lexicalContexts s fileContexts c := by
  have hform := form_of_partially hname
  have hanchor := innermostScope?_visits hd hform
  have hspaces := enclosingNamespaces_visits hu hc hd hform (sound_of_partially hname)
  unfold lexicalContexts scopeContexts
  rw [hanchor]
  cases c.innermostScope? with
  | some decl => rfl
  | none =>
    dsimp only [Option.getD_none]
    rw [hspaces]

theorem contexts_at (hu : u.Laid) (hc : u.top.Within c) {root e : Descriptor} {known : Option (List Context)}
    {path : List Nat} (hroot : (build s fileContexts (maxDepth + 1) c).run none = .ok (root, known))
    (he : root.at? path = some e) :
    ∃ n, c.partAt? path = some n ∧ e.name = n.qualify.name ∧ e.state = n.qualify.state ∧
      e.isTuple = (n.kind == "tuple_type") ∧
        ∀ own, e.contexts? = some own → lexicalContexts s fileContexts n = .ok own := by
  have hsettles : Settles (build s fileContexts (maxDepth + 1) c) ((visits 0 c).findSome? Visit.fault?)
      (·.Describes c none) False := settles_build (Nat.zero_add _) False.elim
  have hsupplies : Supplies (lexicalContexts s fileContexts c = .ok ·) (build s fileContexts (maxDepth + 1) c)
      (Descriptor.Searches (lexicalContexts s fileContexts c = .ok ·)) :=
    supplies_build fun k x own (hx : .type k x ∈ visits 0 c) hx' hown =>
      (lexicalContexts_visits hu hc hx hx').symm.trans hown
  have hdescribes := hsettles none
  rw [hroot] at hdescribes
  obtain ⟨n, hn, hname, hstate, htuple, k, hk⟩ := hdescribes.2.at he 0
  refine ⟨n, hn, hname, hstate, htuple, fun own hown => ?_⟩
  have hpartial : n.qualify.state = .partially := by
    rw [← hstate]
    unfold Descriptor.contexts? at hown
    unfold Descriptor.state
    split at hown
    · next hform => rw [hform]
    · cases hown
  rw [lexicalContexts_visits hu hc hk hpartial]
  exact (hsupplies none nofun root known hroot).1 path e own he hown

/-- The contexts are computed once for a type and shared by all names in it. In a tree that is laid out along the text
each name that is looked up still has the contexts that are computed afresh where it stands, with the imports of the
file and the global namespace; full names and tuples have none, and only these. -/
theorem ofNode_contexts (hu : u.Laid) (hc : u.top.Within c) :
    (ofNode u container allowCreate c).Leads s
      (fun a t => contextsOfFile t a.file = .ok a.fileContexts ∧
        ∀ path d, a.root.at? path = some d → ∃ n, c.partAt? path = some n ∧ d.name = n.qualify.name ∧
          d.state = n.qualify.state ∧ d.isTuple = (n.kind == "tuple_type") ∧
          (d.state = .partially → d.isTuple = false → ∃ scope, scopeContexts t n = .ok scope ∧
            d.contexts? = some (merge (merge scope a.fileContexts) [t.globalContext])) ∧
          (d.contexts? = none ↔ d.state = .full ∨ d.isTuple = true))
      fun _ _ => True := by
  refine leads_ofNode_built.mono ?_ fun _ _ h => h
  rintro a t ⟨-, hfile, known, hroot⟩
  refine ⟨hfile, fun path d hd => ?_⟩
  obtain ⟨n, hn, hname, hstate, htuple, hlexical⟩ := contexts_at hu hc hroot hd
  refine ⟨n, hn, hname, hstate, htuple, fun hpartial hplain => ?_, d.contexts?_eq_none⟩
  cases hown : d.contexts? with
  | none =>
    rcases d.contexts?_eq_none.mp hown with hfull | htuple
    · rw [hpartial] at hfull
      cases hfull
    · rw [hplain] at htuple
      cases htuple
  | some own =>
    obtain ⟨scope, hscope, hmerge⟩ := bind_eq_ok.mp (hlexical own hown)
    cases hmerge
    exact ⟨scope, hscope, rfl⟩

end Analysis

namespace Sample

/-- The file `namespace N;delegate void D<T>() where T : P<Q[]>;`. -/
def governed : SourceUnit where
  path := ⟨"D.cs"⟩
  source := "namespace N;delegate void D<T>() where T : P<Q[]>;"
  root := node 0 "compilation_unit" none 0 "namespace N;delegate void D<T>() where T : P<Q[]>;"
    [node 1 "file_scoped_namespace_declaration" none 0 "namespace N;"
      [node 2 "identifier" (some "name") 10 "N" []],
     node 3 "delegate_declaration" none 12 "delegate void D<T>() where T : P<Q[]>;"
      [node 4 "predefined_type" (some "type") 21 "void" [],
       node 5 "identifier" (some "name") 26 "D" [],
       node 6 "type_parameter_list" (some "type_parameters") 27 "<T>"
        [node 7 "type_parameter" none 28 "T" [node 8 "identifier" (some "name") 28 "T" []]],
       node 9 "parameter_list" (some "parameters") 30 "()" [],
       node 10 "type_parameter_constraints_clause" none 33 "where T : P<Q[]>"
        [node 11 "identifier" none 39 "T" [],
         node 12 "type_parameter_constraint" none 43 "P<Q[]>"
          [node 13 "generic_name" (some "type") 43 "P<Q[]>"
            [node 14 "identifier" none 43 "P" [],
             node 15 "type_argument_list" none 44 "<Q[]>"
              [node 16 "array_type" none 45 "Q[]"
                [node 17 "identifier" (some "type") 45 "Q" [],
                 node 18 "array_rank_specifier" (some "rank") 46 "[]" []]]]]]]]

/-- What is searched for names beside the namespace `N`. -/
def beside : List Context := [.ofNamespace "N" ⟨2⟩, .ofNamespace "" ⟨1⟩]

theorem within_crossed {u : SourceUnit} (hu : u.Shaped) : u.top.Within (crossed u) := by
  have hmem : innermost u ∈ u.top.preorder := by
    unfold innermost
    cases hlast : (u.top.preorder.filter (·.isTypeDeclaration)).getLast? with
    | none => exact Node.mem_preorder_self _
    | some c => exact (List.mem_filter.mp (List.mem_of_getLast? hlast)).1
  unfold crossed
  cases hsite : (innermost u).sites[0]? with
  | none => exact .self
  | some site => exact (hu.clear_sites hmem (List.mem_of_getElem? hsite)).within

theorem shaped_governed : governed.Shaped := SourceUnit.shaped_of_isShaped rfl

theorem values_governed :
    (parted governed).files = [⟨⟨1⟩, governed.path, []⟩] ∧
      ((Analysis.containerParameters ⟨1⟩).outcome (parted governed)).1.map (fun ps => ps.map (·.name)) = .ok ["T"] ∧
      Analysis.contextsOfFile ((Analysis.containerParameters ⟨1⟩).outcome (parted governed)).2 ⟨1⟩ = .ok [] ∧
      (((Analysis.build ((Analysis.containerParameters ⟨1⟩).outcome (parted governed)).2 [] (Analysis.maxDepth + 1)
          (crossed governed)).run none).map fun r => (r.1.preorder 0).map fun x => (x.2.name, x.2.contexts?)) =
        .ok [("P", some beside), ("Q", some beside)] := by
  decide +kernel

/-- No declaration around the constraint holds its names together, only the namespace that stands beside it. Both names
in it have the contexts that are computed where they stand. -/
theorem ofNode_contexts_governed :
    Session.inMemory = .ok memory ∧ governed.Laid ∧ governed.top.Within (crossed governed) ∧
      ∃ a t, (Analysis.ofNode governed ⟨1⟩ true (crossed governed)).outcome (parted governed) = (.ok a, t) ∧
        ((a.root.preorder 0).map fun x => (x.2.name, x.2.contexts?)) = [("P", some beside), ("Q", some beside)] ∧
        ∀ path d, a.root.at? path = some d → d.state = .partially → d.isTuple = false →
          ∃ n scope, (crossed governed).partAt? path = some n ∧ Analysis.scopeContexts t n = .ok scope ∧
            d.contexts? = some (Context.merge (Context.merge scope a.fileContexts) [t.globalContext]) := by
  obtain ⟨hfiles, hps, himports, hroot⟩ := values_governed
  have hfile : (parted governed).findSourceFile governed.path = some ⟨1⟩ := by
    simp [Session.findSourceFile, hfiles, Path.same]
  obtain ⟨ps, hps, -⟩ := map_eq_ok.mp hps
  obtain ⟨⟨root, known⟩, hroot, hpicture⟩ := map_eq_ok.mp hroot
  have hrun : (Analysis.ofNode governed ⟨1⟩ true (crossed governed)).outcome (parted governed) = (.ok _, _) :=
    Analysis.ofNode_ok hfile (Prod.ext hps rfl) himports hroot
  have hwithin := within_crossed shaped_governed
  have hcontexts := (Act.leads_iff.mp (Analysis.ofNode_contexts shaped_governed.laid hwithin)).1 _ _ hrun
  refine ⟨inMemory_eq, shaped_governed.laid, hwithin, _, _, hrun, hpicture, fun path d hd hpartial hplain => ?_⟩
  obtain ⟨n, hn, -, -, -, hown, -⟩ := hcontexts.2 path d hd
  obtain ⟨scope, hscope, hmerge⟩ := hown hpartial hplain
  exact ⟨n, scope, hn, hscope, hmerge⟩

end Sample

end TypeCatalog
