import TypeCatalog.Proofs.Interruption
import TypeCatalog.Proofs.Permanence
import TypeCatalog.Proofs.Provenance

namespace TypeCatalog

open Act Session

/-! The declarations around a place -/

namespace Cursor

variable {c d x y : Cursor} {inner outer : List Cursor} {name : String}

/-- Of the declarations around a place, `decl` is the innermost with a type parameter of this name; `inner` are those
inside it. -/
structure Binds (c : Cursor) (name : String) (inner : List Cursor) (decl : Cursor) : Prop where
  around : ∃ outer, c.enclosingTypes = inner ++ decl :: outer
  declares : name ∈ decl.parameterNames
  hidden : ∀ x ∈ inner, name ∉ x.parameterNames

/-- A node that writes a plain name. -/
structure Writes (c : Cursor) (name : String) : Prop where
  kind : c.kind = "identifier"
  text : c.text = name
  sound : c.node.isBroken = false
  undotted : '.' ∉ name.toList

theorem enclosingTypes_of_outerType? (h : c.outerType? = some d) : c.enclosingTypes = d :: d.enclosingTypes := by
  obtain ⟨hd, before, after, heq, hnot⟩ := List.find?_eq_some_iff_append.mp h
  have hafter : after = d.enclosing := along_split heq
  have hbefore : before.filter isTypeDeclaration = [] := by
    rw [List.filter_eq_nil_iff]
    intro b hb
    simpa using hnot b hb
  unfold enclosingTypes enclosing
  rw [heq, List.filter_append, hbefore, List.filter_cons_of_pos hd, hafter]
  rfl

theorem outerType?_of_enclosingTypes (h : c.enclosingTypes = d :: outer) : c.outerType? = some d := by
  have hhead : c.outerType? = c.enclosingTypes.head? := by
    unfold enclosingTypes outerType? typeAlong?
    rw [List.head?_filter]
    rfl
  rw [hhead, h]
  rfl

theorem isSome_mapM {α β : Type} {f : α → Option β} {xs : List α} :
    (xs.mapM f).isSome = true ↔ ∀ x ∈ xs, (f x).isSome = true := by
  induction xs with
  | nil => simp
  | cons x xs ih =>
    rw [List.mapM_cons, List.forall_mem_cons, ← ih]
    cases f x with
    | none => simp
    | some y => cases xs.mapM f <;> simp

theorem isSome_fullName? :
    c.fullName?.isSome = true ↔ ∀ x ∈ c :: c.enclosingTypes, x.declaredName?.isSome = true := by
  have hmapM : (c.enclosingTypes.reverse.mapM declaredName?).isSome = true ↔
      ∀ x ∈ c.enclosingTypes, x.declaredName?.isSome = true := by
    rw [isSome_mapM]
    simp
  rw [List.forall_mem_cons, ← hmapM]
  unfold fullName?
  cases c.declaredName? with
  | none => simp
  | some name => cases c.enclosingTypes.reverse.mapM declaredName? <;> simp

/-- A declaration with a full name stands in declarations with full names only. -/
theorem isSome_fullName?_outer (h : c.fullName?.isSome = true) (hd : d ∈ c.enclosingTypes) :
    d.fullName?.isSome = true := by
  rw [isSome_fullName?] at h ⊢
  obtain ⟨hd', htype⟩ := List.mem_filter.mp hd
  intro x hx
  apply h
  rcases List.mem_cons.mp hx with rfl | hx
  · exact List.mem_cons_of_mem _ hd
  · obtain ⟨hx, hxtype⟩ := List.mem_filter.mp hx
    have hsuffix := (mem_enclosing.mp hx).trans (List.suffix_cons d.node d.ancestors)
    exact List.mem_cons_of_mem _ (List.mem_filter.mpr ⟨mem_enclosing.mpr (hsuffix.trans (mem_enclosing.mp hd')), hxtype⟩)

end Cursor

/-! What the first pass leaves of the declarations around a place -/

namespace Session

variable {s t : Session} {ds : List Cursor} {x y : Cursor} {names : List String} {outer : Option (String × Nat)}
  {id : TypeId} {ps : List TypeParameter} {name : String}

/-- The type of a declaration, as it was catalogued first: the names of its type parameters, and the key of the type
around it. It was catalogued before the declarations `ds`, or else from the first of them that has its key. -/
inductive Origin (s : Session) (ds : List Cursor) (x : Cursor) (names : List String) (outer : Option (String × Nat)) :
    Prop
  | stored {k : String × Nat} {id : TypeId} {e : Documented} {ps : List TypeParameter} (hkey : x.key? = some k)
      (hid : s.findKey k = some id) (he : s.named? id = some (.documented e)) (hps : s.Searches id e ps)
      (hnames : ps.map (·.name) = names) (hcontainer : s.Houses outer e.container)
  | declared {k : String × Nat} {c : Cursor} (hkey : x.key? = some k) (hnone : s.findKey k = none)
      (hc : ds.find? (·.key? == some k) = some c) (hnames : c.parameterNames = names)
      (hcontainer : c.outerType?.bind Cursor.key? = outer)

/-- The type of `x` was catalogued from a declaration that stands in the same type and has no parameter of this name. -/
def Lacks (s : Session) (ds : List Cursor) (name : String) (x : Cursor) : Prop :=
  ∃ names, s.Origin ds x names (x.outerType?.bind Cursor.key?) ∧ name ∉ names

/-- The type of `x` was catalogued from a declaration with a parameter of this name in the same position. -/
def Retains (s : Session) (ds : List Cursor) (name : String) (x : Cursor) : Prop :=
  ∃ names outer, s.Origin ds x names outer ∧ name ∈ names ∧ names.idxOf name = x.parameterNames.idxOf name

theorem Declares.appended (h : s.Declares id ps) (hp : s.named <+: t.named) (hstore : t.store = s.store) :
    t.Declares id ps := by
  obtain ⟨u, hu⟩ := h
  obtain ⟨d, hd, hps⟩ := ensureParameters_ok hu
  unfold Declares ensureParameters
  rw [documented_ok.mpr (named?_appended hp hd), ok_bind]
  obtain ⟨hps, -⟩ | ⟨hnone, ⟨store, hstored, hread⟩, hlength, -⟩ := hps
  · rw [hps]
    exact ⟨t, rfl⟩
  · rw [hnone, hstore, hstored]
    dsimp only
    rw [hread, ok_bind, if_pos hlength]
    exact ⟨_, rfl⟩

theorem Searches.appended {e : Documented} (h : s.Searches id e ps) (hp : s.named <+: t.named)
    (hstore : t.store = s.store) : t.Searches id e ps := by
  unfold Searches at h ⊢
  split
  · next ha =>
    rw [if_pos ha] at h
    exact h.appended hp hstore
  · next ha => rwa [if_neg ha] at h

theorem searches_parameters {e : Documented} (he : s.named? id = some (.documented e)) (hps : e.parameters = some ps)
    (hlength : e.arity = ps.length) : s.Searches id e ps := by
  unfold Searches
  split
  · unfold Declares ensureParameters
    rw [documented_ok.mpr he, ok_bind, hps]
    exact ⟨s, rfl⟩
  · exact List.eq_nil_of_length_eq_zero (by omega)

/-- Type parameters are numbered as they are listed. -/
theorem Searches.ordinals (hs : s.Sane) {e : Documented} (h : s.Searches id e ps) :
    ps.map (·.ordinal) = List.range' 0 ps.length := by
  unfold Searches at h
  split at h
  · obtain ⟨c, f, hl⟩ := hs.ledger
    obtain ⟨d, hmem, hps⟩ := hl.declares_iff.mp h
    obtain ⟨qs, hqs, hordinals⟩ := hl.sound.documented id d hmem
    cases hps.symm.trans hqs
    have hlength := congrArg List.length hordinals
    rw [List.length_map, List.length_range] at hlength
    rw [hordinals, hlength, List.range_eq_range']
  · rw [h]
    rfl

theorem find?_parameter {n : Nat} (hordinals : ps.map (·.ordinal) = List.range' n ps.length)
    (h : name ∈ ps.map (·.name)) :
    ∃ p, ps.find? (·.name == name) = some p ∧ p.ordinal = n + (ps.map (·.name)).idxOf name ∧ p.name = name := by
  induction ps generalizing n with
  | nil => cases h
  | cons q ps ih =>
    rw [List.map_cons, List.length_cons, List.range'_succ] at hordinals
    obtain ⟨hfirst, hrest⟩ := List.cons.inj hordinals
    rw [List.map_cons] at h ⊢
    by_cases hq : q.name = name
    · refine ⟨q, List.find?_cons_of_pos (by simpa using hq), ?_, hq⟩
      rw [hq, List.idxOf_cons_self, hfirst, Nat.add_zero]
    · obtain ⟨p, hp, hordinal, hname⟩ := ih hrest ((List.mem_cons.mp h).resolve_left (Ne.symm hq))
      refine ⟨p, by rwa [List.find?_cons_of_neg (by simpa using hq)], ?_, hname⟩
      rw [hordinal, List.idxOf_cons_ne _ hq]
      omega

/-- The row of a declaration after the first pass. -/
theorem Stems.row (h : s.Stems t ds) (ht : t.Sane) (hx : s.Origin ds x names outer) :
    ∃ id e ps, t.documentedOf x = some id ∧ t.named? id = some (.documented e) ∧ t.Searches id e ps ∧
      ps.map (·.name) = names ∧ t.Houses outer e.container := by
  cases hx with
  | stored hkey hid he hps hnames hcontainer =>
    refine ⟨_, _, _, ?_, named?_appended h.rows he, hps.appended h.rows h.store, hnames, hcontainer.appended h.rows⟩
    rw [documentedOf_eq, hkey]
    exact findKey_appended h.rows hid
  | @declared k c hkey hnone hc hnames hcontainer =>
    have hkey' : c.key? = some k := by simpa using List.find?_some hc
    obtain ⟨id, hid⟩ := h.listed c (List.mem_of_find?_eq_some hc) k hkey'
    obtain ⟨c', e, hc', hmem, hdepicts⟩ := h.first k id hnone hid
    cases hc.symm.trans hc'
    have he := find?_of_named?.mpr (find?_of_nodup ht.numbered.named.nodup hmem)
    refine ⟨id, e, _, ?_, he, searches_parameters he hdepicts.parameters hdepicts.arity, hnames, ?_⟩
    · rw [documentedOf_eq, hkey]
      exact hid
    · rw [← hcontainer]
      exact hdepicts.container

/-- The declarations up to the one that binds a name are found along the containers. -/
theorem Stems.offers (h : s.Stems t ds) (ht : t.Sane) {inner : List Cursor} {decl : Cursor} {around : List Cursor}
    (hx : x :: x.enclosingTypes = inner ++ decl :: around) (hinner : ∀ y ∈ inner, s.Lacks ds name y)
    (hdecl : s.Retains ds name decl) :
    ∃ owner declaring, t.documentedOf x = some owner ∧ t.documentedOf decl = some declaring ∧
      t.Offers name (some owner) (some (.parameter declaring (decl.parameterNames.idxOf name) name)) := by
  -- Each of the inner rows passes the name on to its container, which is the row of the next declaration.
  induction inner generalizing x with
  | nil =>
    obtain ⟨rfl, -⟩ := List.cons.inj hx
    obtain ⟨names, outer, hx, hname, hindex⟩ := hdecl
    obtain ⟨id, e, ps, hid, he, hps, rfl, -⟩ := h.row ht hx
    obtain ⟨p, hp, hordinal, hpname⟩ := find?_parameter (hps.ordinals ht) hname
    refine ⟨id, id, hid, hid, ?_⟩
    have hfound := Offers.found he hps hp
    rwa [hordinal, hpname, Nat.zero_add, hindex] at hfound
  | cons y inner ih =>
    obtain ⟨rfl, hrest⟩ := List.cons.inj hx
    obtain ⟨⟨names, hy, hnot⟩, hinner⟩ := List.forall_mem_cons.mp hinner
    obtain ⟨z, zs, hz⟩ := List.exists_cons_of_ne_nil (l := inner ++ decl :: around) (by simp)
    have houter := Cursor.outerType?_of_enclosingTypes (hrest.trans hz)
    rw [Cursor.enclosingTypes_of_outerType? houter] at hrest
    obtain ⟨owner, declaring, howner, hdeclaring, hoffers⟩ := ih hrest hinner
    obtain ⟨id, e, ps, hid, he, hps, rfl, hcontainer⟩ := h.row ht hy
    rw [documentedOf_eq] at howner
    obtain ⟨k, hkey, hk⟩ := Option.bind_eq_some_iff.mp howner
    obtain ⟨j, hj, hfound⟩ := hcontainer k (by rw [houter]; exact hkey)
    cases hk.symm.trans hfound
    refine ⟨id, declaring, hid, hdeclaring, .outer he hps ?_ (hj ▸ hoffers)⟩
    rw [List.find?_eq_none]
    intro p hp hpname
    refine hnot ?_
    rw [← beq_iff_eq.mp hpname]
    exact List.mem_map_of_mem hp

end Session

/-! A plain name is described and resolved -/

namespace Analysis

variable {u : SourceUnit} {s : Session} {c : Cursor} {name : String} {fileContexts : List Context}
  {container : TypeId} {allowCreate : Bool}

theorem typeContext_ok (hl : s.Lists c) (hc : c.isTypeDeclaration = true) (hname : c.fullName?.isSome = true)
    {e : AnalyzeError} : typeContext s c ≠ .error e := by
  obtain ⟨name, hname⟩ := Option.isSome_iff_exists.mp hname
  obtain ⟨id, hid⟩ := Option.isSome_iff_exists.mp (hl.type hc name hname)
  unfold typeContext
  rw [hname]
  dsimp only
  rw [hid]
  nofun

theorem build_plain (hw : c.Writes name) {contexts : List Context} (hc : lexicalContexts s fileContexts c = .ok contexts)
    {levels : Nat} : (build s fileContexts (levels + 1) c).run none =
      .ok (.mk name (.searched contexts) 0 none [], some contexts) := by
  have hform : c.typeForm? = some .identifier := by
    unfold Cursor.typeForm?
    rw [hw.kind]
    rfl
  have hqualify : c.qualify = .partially name := by
    unfold Cursor.qualify
    rw [if_neg (by simp [hw.sound]), hw.kind, hw.text]
    rfl
  have hname : (nameOf s fileContexts c).run none = .ok ((name, .searched contexts), some contexts) := by
    have hcontexts : (contextsAt s fileContexts c).run none =
        (lexicalContexts s fileContexts c >>= fun cs => pure (cs, some cs)) := by
      unfold contextsAt
      cases lexicalContexts s fileContexts c <;> rfl
    unfold nameOf
    rw [hqualify, hw.kind]
    dsimp only
    rw [if_neg (by decide), StateT.run_bind, hcontexts, hc]
    rfl
  have harguments : argumentNodes c = [] := by
    unfold argumentNodes
    rw [hform]
    rfl
  unfold build
  rw [hform, harguments]
  dsimp only
  rw [StateT.run_bind, hname]
  rfl

/-- In a catalogued place whose declarations all have names, a plain name is described as one to be searched. -/
theorem leads_ofNode_plain (hs : s.Sane) (hu : u.Shaped) (hr : s.Ready u) (hc : u.Clear c) (hw : c.Writes name)
    (hnames : ∀ a ∈ c.enclosingTypes, a.fullName?.isSome = true) (hdoc : s.isDocumented container = true) :
    (ofNode u container allowCreate c).Leads s
      (fun a t => a.container = container ∧ t.isDocumented container = true ∧ (∃ f, t.sourceFile? a.file = some f) ∧
        ∃ contexts, a.root = .mk name (.searched contexts) 0 none [])
      fun _ _ => False := by
  have hform : c.typeForm?.isSome = true := by
    unfold Cursor.typeForm?
    rw [hw.kind]
    rfl
  unfold ofNode
  apply Act.leads_get_bind
  split
  · next hnone =>
    have hfile := hr.file
    rw [hnone] at hfile
    cases hfile
  · next file hfile =>
    apply Act.leads_bind
    refine (leads_containerParameters hs).mono ?_ ?_
    · rintro ps t ⟨ht, hst, -⟩
      obtain ⟨f, hf⟩ := sourceFile?_of_found hfile
      have hf : t.sourceFile? file = some f := hst.sourceFile? hf
      apply Act.leads_get_bind
      obtain ⟨fileContexts, hcs⟩ := contextsOfFile_ok ht hf
      have hscopes (e : AnalyzeError) : scopeContexts t c ≠ .error e := by
        intro he
        have hsolid := hu.solid c hc.within hform hw.sound
        obtain ⟨a, ha, hmem, htype, he⟩ := scopeContexts_fails hu ht (hr.of_grows hst) hc
          (not_typeDeclaration_of_typeForm? hform) hsolid he
        have hname := hnames a (List.mem_filter.mpr ⟨ha, htype⟩)
        exact typeContext_ok ((hr.of_grows hst).lists a hmem) htype hname he
      obtain ⟨contexts, hcontexts⟩ : ∃ contexts, lexicalContexts t fileContexts c = .ok contexts := by
        unfold lexicalContexts
        cases hscope : scopeContexts t c with
        | error e => exact (hscopes e hscope).elim
        | ok cs => exact ⟨_, rfl⟩
      rw [hcs]
      dsimp only [liftCatalog, Except.mapError]
      rw [build_plain hw hcontexts]
      exact Act.leads_pure ⟨rfl, Session.isDocumented_of_grows hdoc hst, ⟨f, hf⟩, contexts, rfl⟩
    · rintro e t ⟨rfl, hnot⟩
      rw [hnot] at hdoc
      cases hdoc

/-- What is recognised is resolved as long as there are ids. -/
theorem leads_resolve_known {chain : Chain} {a : Analysis} (hs : s.Sane) (hn : s.Nested)
    (hdoc : s.isDocumented a.container = true) (hfile : ∃ f, s.sourceFile? a.file = some f)
    (hknows : chain.Knows a.scope s a.root) :
    (a.resolve chain).Leads s (fun _ _ => True) fun e _ => e = .catalog (.exhausted .counter) := by
  obtain ⟨r, u, hr, b, v, hb, -, hsv, hfits, -⟩ := Chain.found_again hs hn hknows a.allowCreate
  obtain ⟨f, hf⟩ := hfile
  unfold resolve
  apply leads_get_bind
  rw [hdoc, hf]
  apply leads_bind
  refine leads_iff.mpr ⟨fun r' u' hr' => ?_, fun e u' hr' => ?_⟩
  · cases hr.symm.trans hr'
    apply leads_bind
    refine leads_iff.mpr ⟨fun b' v' hb' => ?_, fun e v' hb' => ?_⟩
    · cases hb.symm.trans hb'
      exact (Binding.stages_stage b a.root v none hfits (by simp) hsv.after.numbered).mono (fun _ _ _ => trivial)
        fun _ _ h => h.2
    · cases hb.symm.trans hb'
  · cases hr.symm.trans hr'

end Analysis

namespace Session

variable {s t : Session} {scope : Scope} {name : String} {declaring : TypeId} {index : Nat}

/-- A plain name that is in scope as a type parameter is recognised as one. -/
theorem Offers.sees (h : s.Offers name (some scope.container) (some (.parameter declaring index name)))
    (hdoc : s.isDocumented scope.container = true) (hname : '.' ∉ name.toList) {contexts : List Context} {rank : Nat}
    {element : Option String} : Chain.standard.Sees scope s (.mk name (.searched contexts) rank element [])
      (.parameter declaring index name) := by
  refine ⟨fun hform => (by cases hform), fun _ => .here (.parameter hdoc ?_ h)⟩
  unfold Find.mayBeParameter
  simp [Descriptor.isFull, Descriptor.state, Descriptor.form, Descriptor.argumentCount, Descriptor.arguments,
    Descriptor.name, hname]

theorem reading_parameter {id : TypeId} (h : s.reading id = some (.parameter declaring index name)) :
    s.named? id = some (.parameter ⟨name, declaring, index⟩) := by
  obtain ⟨a, ha, hread⟩ := reading_eq_some.mp h
  cases a with
  | parameter p =>
    cases p
    cases hread
    exact ha
  | documented _ => cases hread
  | external _ => cases hread
  | tuple _ => cases hread

end Session

/-- Wherever a plain name stands in a type, its reference names the type parameter that is in scope. -/
theorem Analysis.resolve_parameter {a : Analysis} {s t : Session} {root : ReferenceId} (hs : s.Worked)
    (h : (a.resolve .standard).outcome s = (.ok root, t)) {name : String} {declaring : TypeId} {index : Nat}
    (hoffers : s.Offers name (some a.container) (some (.parameter declaring index name))) (hname : '.' ∉ name.toList) :
    ∃ first, t.reference? root = some first ∧ t.Mirrors a.root first ∧
      ∀ p contexts rank element, a.root.at? p = some (.mk name (.searched contexts) rank element []) →
        ∃ c, t.referenceAt? first p = some c ∧ t.named? c.named = some (.parameter ⟨name, declaring, index⟩) := by
  obtain ⟨hdoc, -⟩ := Analysis.resolve_iff.mp h
  obtain ⟨hst, first, hfirst, hmirrors, hmeans⟩ :=
    Analysis.resolve_settles hs.sane hs.tidy hs.nested (.inr (by decide)) h
  refine ⟨first, hfirst, hmirrors, fun p contexts rank element hp => ?_⟩
  obtain ⟨c, hc, hm⟩ := hmeans p _ hp
  obtain ⟨R, hR, hread⟩ := hm.reading
  have hdoc' : t.isDocumented a.container = true := by rwa [hst.continues.isDocumented hst.before.numbered]
  cases hR.unique _ ((hoffers.continues hst.continues).sees hdoc' hname)
  exact ⟨c, hc, reading_parameter hread⟩

/-! The second pass -/

namespace Session

variable {s t : Session}

theorem Worked.run_quiet (hs : s.Worked) {r : Request} (hq : r.Quiet) (hr : r.Grounded s) :
    (r.run s).2.Worked ∧ s.Advances (r.run s).2 := by
  obtain ⟨hsane, hgrows⟩ := hs.sane.run hr
  exact ⟨hs.request hr, hs.sane, hs.nested, hsane, hgrows, hs.sane.continues_run hq⟩

theorem Worked.addUsage (hs : s.Worked) {owner : TypeId} {reference : ReferenceId} {role : Role}
    {member : Option String} {usage : UsageId} (howner : ∃ a, s.named? owner = some a)
    (hreference : reference ∈ s.references.map (·.id)) (h : s.addUsage owner reference role member = .ok (usage, t)) :
    t.Worked ∧ s.Advances t := by
  have hnext := hs.run_quiet (r := .use owner reference role member) trivial ⟨howner, hreference⟩
  have hperform : (perform id (·.addUsage owner reference role member)).outcome s = (.ok usage, t) := by
    rw [outcome_perform, h]
  have hrun : ((Request.use owner reference role member).run s).2 = t := congrArg Prod.snd hperform
  rwa [hrun] at hnext

theorem Worked.follows (hs : s.Worked) (h : s.Follows t) : t.Worked := by
  induction h with
  | refl => exact hs
  | tail _ hstep ih =>
    obtain ⟨r, hr, rfl⟩ := hstep
    exact ih.request hr

theorem Advances.documentedOf (h : s.Advances t) (c : Cursor) : t.documentedOf c = s.documentedOf c := by
  unfold Session.documentedOf
  rw [h.continues.findDocumented]

/-- A usage in the declaration of `owner` is recorded as one of the type parameter. -/
def Records (s : Session) (owner : TypeId) (site : Site) (p : Parameter) : Prop :=
  ∃ usage ∈ s.usages, usage.owner = owner ∧ usage.role = site.role ∧ usage.member = site.member ∧
    ∃ r, s.reference? usage.reference = some r ∧ r.rank = 0 ∧ s.named? r.named = some (.parameter p)

theorem Advances.parameter {id : TypeId} {p : Parameter} (h : s.Advances t) (hp : s.named? id = some (.parameter p)) :
    t.named? id = some (.parameter p) := by
  have hread : s.reading id = some (.parameter p.declaring p.index p.name) := reading_eq_some.mpr ⟨_, hp, rfl⟩
  exact reading_parameter (h.continues.reading hread)

theorem Records.advances {owner : TypeId} {site : Site} {p : Parameter} (h : s.Records owner site p)
    (hst : s.Advances t) : t.Records owner site p := by
  obtain ⟨usage, husage, howner, hrole, hmember, r, hr, hrank, hp⟩ := h
  exact ⟨usage, hst.grows.usages.subset husage, howner, hrole, hmember, r, hst.grows.references.find?_eq_some hr, hrank,
    hst.parameter hp⟩

end Session

namespace Scan

variable {allowCreate : Bool} {u : SourceUnit} {s t : Session} {owner : TypeId} {c : Cursor} {m : Summary}
  {site : Site} {p : Parameter}

/-- At a catalogued place a plain name is written that is in scope as a type parameter. -/
structure Bound (s : Session) (u : SourceUnit) (owner : TypeId) (c : Cursor) (p : Parameter) : Prop where
  shaped : u.Shaped
  ready : s.Ready u
  clear : u.Clear c
  writes : c.Writes p.name
  named : ∀ a ∈ c.enclosingTypes, a.fullName?.isSome = true
  documented : s.isDocumented owner = true
  offers : s.Offers p.name (some owner) (some (.parameter p.declaring p.index p.name))

theorem Bound.advances (h : Bound s u owner c p) (hst : s.Advances t) : Bound t u owner c p :=
  { h with
    ready := h.ready.of_grows hst.grows
    documented := isDocumented_of_grows h.documented hst.grows
    offers := h.offers.continues hst.continues }

theorem leads_resolveSite_worked (hs : s.Worked) :
    (resolveSite allowCreate u owner c).Leads s (fun _ t => t.Worked ∧ s.Advances t)
      fun _ t => t.Worked ∧ s.Advances t := by
  have hrequest {ε α : Type} {a : Act ε α} {t v : Session} {x : Except ε α} {r : Request} (ht : t.Worked)
      (hq : r.Quiet) (hr : r.Grounded t) (hrun : (r.run t).2 = (a.outcome t).2) (h : a.outcome t = (x, v)) :
      v.Worked ∧ t.Advances v := by
    have hnext := ht.run_quiet hq hr
    rwa [hrun, h] at hnext
  unfold resolveSite
  apply leads_bind
  apply leads_mapError
  refine leads_outcome.mono (fun a t ha => ?_) fun e t ha => ?_
  · obtain ⟨ht, hst⟩ := hrequest hs (r := .analyze u owner allowCreate c) trivial trivial rfl ha
    apply leads_mapError
    refine leads_outcome.mono (fun root v hv => ?_) fun e v hv => ?_
    · obtain ⟨hv, htv⟩ := hrequest ht (r := .resolve .standard a) trivial trivial rfl hv
      exact ⟨hv, hst.trans htv⟩
    · obtain ⟨hv, htv⟩ := hrequest ht (r := .resolve .standard a) trivial trivial rfl hv
      exact ⟨hv, hst.trans htv⟩
  · exact hrequest hs (r := .analyze u owner allowCreate c) trivial trivial rfl ha

/-- Such a name is resolved to the type parameter, unless ids run out. -/
theorem leads_resolveSite_bound (hs : s.Worked) (h : Bound s u owner c p) :
    (resolveSite allowCreate u owner c).Leads s
      (fun root t => ∃ r, t.reference? root = some r ∧ r.rank = 0 ∧ t.named? r.named = some (.parameter p))
      fun e _ => e.Halts := by
  unfold resolveSite
  apply leads_bind
  apply leads_mapError
  refine ((Analysis.leads_ofNode_plain hs.sane h.shaped h.ready h.clear h.writes h.named h.documented).and
    leads_outcome).mono ?_ fun _ _ h => h.1.elim
  rintro a t ⟨⟨rfl, hdoc, hfile, contexts, hroot⟩, houtcome⟩
  have hrun : ((Request.analyze u a.container allowCreate c).run s).2 = t := congrArg Prod.snd houtcome
  obtain ⟨ht, hst⟩ := hs.run_quiet (r := .analyze u a.container allowCreate c) trivial trivial
  rw [hrun] at ht hst
  have hoffers := h.offers.continues hst.continues
  -- the descriptor is one node, and the chain knows it from what the container offers
  have hknows : Chain.standard.Knows a.scope t a.root := by
    refine Chain.knows_of_at a.root fun path d hd => ?_
    rw [hroot] at hd
    cases path with
    | nil =>
      cases hd
      have hsees : Chain.standard.Sees a.scope t (.mk p.name (.searched contexts) 0 none []) _ :=
        hoffers.sees hdoc h.writes.undotted
      exact ⟨_, hsees⟩
    | cons i path => cases hd
  apply leads_mapError
  refine ((Analysis.leads_resolve_known ht.sane ht.nested hdoc hfile hknows).and leads_outcome).mono ?_ ?_
  · rintro root v ⟨-, hv⟩
    obtain ⟨first, hfirst, hmirrors, hplaces⟩ := Analysis.resolve_parameter ht hv hoffers h.writes.undotted
    rw [hroot] at hmirrors hplaces
    obtain ⟨r, hr, hp⟩ := hplaces [] contexts 0 none rfl
    cases hr
    exact ⟨first, hfirst, hmirrors.1, hp⟩
  · rintro e v ⟨rfl, -⟩
    exact ⟨_, rfl, .inl rfl⟩

theorem leads_record (hs : s.Worked) (howner : s.isDocumented owner = true) :
    (record allowCreate u owner m site).Leads s
      (fun _ t => t.Worked ∧ s.Advances t ∧ ∀ p, Bound s u owner site.type p → t.Records owner site p)
      fun _ _ => True := by
  have hresolve : (resolveSite allowCreate u owner site.type).Leads s
      (fun root t => (t.Worked ∧ s.Advances t ∧ root ∈ t.references.map (·.id)) ∧ ∀ p, Bound s u owner site.type p →
        ∃ r, t.reference? root = some r ∧ r.rank = 0 ∧ t.named? r.named = some (.parameter p))
      fun e t => (t.Worked ∧ s.Advances t) ∧ ∀ p, Bound s u owner site.type p → e.Halts := by
    refine ((leads_resolveSite_worked hs).and ((leads_resolveSite hs.sane).and leads_outcome)).mono ?_ ?_
    · rintro root t ⟨⟨ht, hst⟩, ⟨-, hroot⟩, hrun⟩
      exact ⟨⟨ht, hst, hroot⟩, fun p hp => (leads_iff.mp (leads_resolveSite_bound hs hp)).1 root t hrun⟩
    · rintro e t ⟨hst, -, hrun⟩
      exact ⟨hst, fun p hp => (leads_iff.mp (leads_resolveSite_bound hs hp)).2 e t hrun⟩
  unfold record
  apply leads_bind
  apply leads_attempt
  refine hresolve.mono ?_ ?_
  · rintro root t ⟨⟨ht, hst, hroot⟩, hbound⟩
    obtain ⟨d, hd⟩ := isDocumented_iff.mp (isDocumented_of_grows howner hst.grows)
    apply leads_bind
    refine leads_perform ?_ fun _ _ => trivial
    intro usage v hv
    obtain ⟨hw, htv⟩ := ht.addUsage ⟨_, hd⟩ hroot hv
    refine leads_pure ⟨hw, hst.trans htv, fun p hp => ?_⟩
    obtain ⟨r, hr, hrank, hparameter⟩ := hbound p hp
    obtain ⟨-, -, rfl⟩ := addUsage_ok hv
    exact ⟨_, List.mem_append_right _ List.mem_cons_self, rfl, rfl, rfl, r, hr, hrank, hparameter⟩
  · rintro e t ⟨⟨ht, hst⟩, hbound⟩
    dsimp only
    split
    · next hrecoverable =>
      refine leads_pure ⟨ht, hst, fun p hp => ?_⟩
      rw [(hbound p hp).not_recoverable] at hrecoverable
      cases hrecoverable
    · exact leads_throw trivial

/-- What each step of a fold settles for its item is settled for all of them in the end. -/
theorem leads_each {α : Type} {f : Summary → α → Act ScanError Summary} {Q : α → Session → Prop} {xs : List α}
    (hs : s.Worked) (hQ : ∀ x t v, Q x t → t.Advances v → Q x v)
    (hf : ∀ x ∈ xs, ∀ t, t.Worked → s.Advances t → ∀ m,
      (f m x).Leads t (fun _ v => v.Worked ∧ t.Advances v ∧ Q x v) fun _ _ => True) :
    (xs.foldlM f m).Leads s (fun _ v => v.Worked ∧ s.Advances v ∧ ∀ x ∈ xs, Q x v) fun _ _ => True := by
  induction xs generalizing s m with
  | nil => exact leads_pure ⟨hs, .refl hs.sane hs.nested, by simp⟩
  | cons x xs ih =>
    obtain ⟨hx, hxs⟩ := List.forall_mem_cons.mp hf
    rw [List.foldlM_cons]
    apply leads_bind
    refine (hx s hs (.refl hs.sane hs.nested) m).mono ?_ fun _ _ h => h
    rintro m' t ⟨ht, hst, hfirst⟩
    refine (ih ht fun y hy v hv htv => hxs y hy v hv (hst.trans htv)).mono ?_ fun _ _ h => h
    rintro m'' v ⟨hv, htv, hrest⟩
    exact ⟨hv, hst.trans htv, List.forall_mem_cons.mpr ⟨hQ x t v hfirst htv, hrest⟩⟩

/-- What the second pass owes to a declaration that was catalogued in `o`. -/
def Paid (o : Session) (u : SourceUnit) (decl : Cursor) (s : Session) : Prop :=
  ∀ owner, o.documentedOf decl = some owner → ∀ site ∈ decl.sites, ∀ p, Bound o u owner site.type p →
    s.Records owner site p

theorem Paid.advances {o : Session} {decl : Cursor} (h : Paid o u decl s) (hst : s.Advances t) : Paid o u decl t :=
  fun owner howner site hsite p hp => (h owner howner site hsite p hp).advances hst

theorem leads_declaration_paid {o : Session} {decl : Cursor} (hs : s.Worked) (ho : o.Advances s) :
    (declaration allowCreate u m decl).Leads s (fun _ t => t.Worked ∧ s.Advances t ∧ Paid o u decl t)
      fun _ _ => True := by
  unfold declaration
  apply leads_get_bind
  rw [ho.documentedOf]
  split
  · next hnone =>
    refine leads_pure ⟨hs, .refl hs.sane hs.nested, fun owner howner => ?_⟩
    cases hnone.symm.trans howner
  · next owner howner =>
    have hdoc : s.isDocumented owner = true := by
      obtain ⟨name, -, hname⟩ := Option.bind_eq_some_iff.mp howner
      exact isDocumented_of_grows (ho.before.findDocumented hname) ho.grows
    have hsites : (decl.sites.foldlM (record allowCreate u owner) m).Leads s
        (fun _ t => t.Worked ∧ s.Advances t ∧ ∀ site ∈ decl.sites, ∀ p, Bound s u owner site.type p →
          t.Records owner site p) fun _ _ => True := by
      apply leads_each hs
      · exact fun site t v ht htv p hp => (ht p hp).advances htv
      · intro site hsite t ht hst m
        refine (leads_record ht (isDocumented_of_grows hdoc hst.grows)).mono ?_ fun _ _ h => h
        rintro m' v ⟨hv, htv, hrecords⟩
        exact ⟨hv, htv, fun p hp => hrecords p (hp.advances hst)⟩
    refine hsites.mono ?_ fun _ _ h => h
    rintro m' t ⟨ht, hst, hrecords⟩
    refine ⟨ht, hst, fun owner' howner' site hsite p hp => ?_⟩
    cases howner.symm.trans howner'
    exact hrecords site hsite p (hp.advances ho)

theorem leads_references_paid {us : List SourceUnit} (hs : s.Worked) :
    (us.foldlM (references allowCreate) m).Leads s
      (fun _ t => s.Advances t ∧ ∀ u ∈ us, ∀ decl ∈ u.top.typeDeclarations, Paid s u decl t) fun _ _ => True := by
  have hall : (us.foldlM (references allowCreate) m).Leads s
      (fun _ t => t.Worked ∧ s.Advances t ∧ ∀ u ∈ us, ∀ decl ∈ u.top.typeDeclarations, Paid s u decl t)
      fun _ _ => True := by
    apply leads_each hs
    · exact fun u t v ht htv decl hdecl => (ht decl hdecl).advances htv
    · intro u hu t ht hst m
      unfold references
      apply leads_each ht
      · exact fun decl t v ht htv => ht.advances htv
      · exact fun decl hdecl v hv htv m => leads_declaration_paid hv (hst.trans htv)
  exact hall.mono (fun _ _ h => h.2) fun _ _ h => h

/-- Type parameters are scoped lexically. Where a declaration uses a plain name that it or a declaration around it has
as a type parameter, the usage is recorded as one of that parameter of the innermost such declaration. The types of the
declarations up to that one have to be catalogued as they are written there: types of one full name and one number of
type parameters share a row, which is that of the first declaration. -/
theorem units_scoped (hs : s.Worked) {us : List SourceUnit} (hus : ∀ u ∈ us, u.Shaped) :
    (units allowCreate m us).Leads s
      (fun _ w => ∀ u ∈ fresh s us, ∀ decl ∈ u.top.typeDeclarations, ∀ site ∈ decl.sites, ∀ name inner binder,
        site.type.Writes name → site.type.outerType? = some decl → site.type.Binds name inner binder →
        (∀ x ∈ inner, s.Lacks (declared (fresh s us)) name x) → s.Retains (declared (fresh s us)) name binder →
        ∃ owner declaring, w.documentedOf decl = some owner ∧ w.documentedOf binder = some declaring ∧
          w.Records owner site ⟨name, declaring, binder.parameterNames.idxOf name⟩)
      fun e _ => e.Halts := by
  -- The first pass leaves the rows as they are declared; the second pays each declaration in that state `t`, and no
  -- later step takes back what was recorded.
  suffices h : (units allowCreate m us).Leads s
      (fun _ w => ∃ t, s.Stems t (declared (fresh s us)) ∧ t.Advances w ∧ ∀ u ∈ fresh s us, u.Shaped ∧ t.Ready u ∧
        ∀ decl ∈ u.top.typeDeclarations, Paid t u decl w) fun _ _ => True by
    refine (h.and (passes_units hs.sane)).mono ?_ fun _ _ h => h.2.2 hus
    rintro - w ⟨⟨t, hst, htw, hall⟩, -⟩ u hu decl hdecl site hsite name inner binder hwrites houter hbinds hinner hbinder
    obtain ⟨hshaped, hready, hpaid⟩ := hall u hu
    obtain ⟨around, haround⟩ := hbinds.around
    rw [Cursor.enclosingTypes_of_outerType? houter] at haround
    obtain ⟨owner, declaring, howner, hdeclaring, hoffers⟩ :=
      hst.offers htw.before haround hinner hbinder
    refine ⟨owner, declaring, (htw.documentedOf decl).trans howner, (htw.documentedOf binder).trans hdeclaring, ?_⟩
    refine hpaid decl hdecl owner howner site hsite _ ⟨hshaped, hready, ?_, hwrites, ?_, ?_, hoffers⟩
    · exact hshaped.clear_sites (SourceUnit.mem_typeDeclarations hdecl).1 hsite
    · rw [Cursor.enclosingTypes_of_outerType? houter]
      obtain ⟨name, hname, -⟩ := Option.bind_eq_some_iff.mp howner
      have hdecl : decl.fullName?.isSome = true := by rw [hname]; rfl
      exact List.forall_mem_cons.mpr ⟨hdecl, fun x hx => Cursor.isSome_fullName?_outer hdecl hx⟩
    · obtain ⟨name, -, hname⟩ := Option.bind_eq_some_iff.mp howner
      exact htw.before.findDocumented hname
  unfold units
  apply leads_bind
  have hmet : Met s s [] := ⟨stems_of_named rfl rfl, by simp⟩
  refine ((leads_declarations hs.sane).and (leads_declarations_met hus hmet)).mono ?_ fun _ _ _ => trivial
  rintro ⟨m', new⟩ t ⟨⟨⟨hst, hnew⟩, -⟩, heq, hmet⟩
  obtain rfl : new = fresh s us := heq
  apply leads_get_bind
  apply leads_bind
  refine (leads_references_paid (hs.follows hst)).mono ?_ fun _ _ h => h
  rintro m'' w ⟨htw, hpaid⟩
  apply leads_get_bind
  refine leads_pure ⟨t, hmet.stems, htw, fun u hu => ?_⟩
  obtain ⟨hmem, hready⟩ := hnew u hu
  exact ⟨hus u hmem, hready (hus u hmem), hpaid u hu⟩

end Scan

namespace Sample

/-- The file `class Outer{class Inner{}}class Outer<S,T>{class Inner{T x;}class Item{T y;}}`. -/
def twofold : SourceUnit where
  path := ⟨"Outer.cs"⟩
  source := "class Outer{class Inner{}}class Outer<S,T>{class Inner{T x;}class Item{T y;}}"
  root := node 0 "compilation_unit" none 0
    "class Outer{class Inner{}}class Outer<S,T>{class Inner{T x;}class Item{T y;}}"
    [node 1 "class_declaration" none 0 "class Outer{class Inner{}}"
      [node 2 "identifier" (some "name") 6 "Outer" [],
       node 3 "declaration_list" (some "body") 11 "{class Inner{}}"
        [node 4 "class_declaration" none 12 "class Inner{}"
          [node 5 "identifier" (some "name") 18 "Inner" [],
           node 6 "declaration_list" (some "body") 23 "{}" []]]],
     node 7 "class_declaration" none 26 "class Outer<S,T>{class Inner{T x;}class Item{T y;}}"
      [node 8 "identifier" (some "name") 32 "Outer" [],
       node 9 "type_parameter_list" (some "type_parameters") 37 "<S,T>"
        [node 10 "type_parameter" none 38 "S" [node 11 "identifier" (some "name") 38 "S" []],
         node 12 "type_parameter" none 40 "T" [node 13 "identifier" (some "name") 40 "T" []]],
       node 14 "declaration_list" (some "body") 42 "{class Inner{T x;}class Item{T y;}}"
        [node 15 "class_declaration" none 43 "class Inner{T x;}"
          [node 16 "identifier" (some "name") 49 "Inner" [],
           node 17 "declaration_list" (some "body") 54 "{T x;}"
            [node 18 "field_declaration" none 55 "T x;"
              [node 19 "variable_declaration" none 55 "T x"
                [node 20 "identifier" (some "type") 55 "T" [],
                 node 21 "variable_declarator" none 57 "x" [node 22 "identifier" (some "name") 57 "x" []]]]]],
         node 23 "class_declaration" none 60 "class Item{T y;}"
          [node 24 "identifier" (some "name") 66 "Item" [],
           node 25 "declaration_list" (some "body") 70 "{T y;}"
            [node 26 "field_declaration" none 71 "T y;"
              [node 27 "variable_declaration" none 71 "T y"
                [node 28 "identifier" (some "type") 71 "T" [],
                 node 29 "variable_declarator" none 73 "y" [node 30 "identifier" (some "name") 73 "y" []]]]]]]]]

theorem shaped_twofold : twofold.Shaped := SourceUnit.shaped_of_isShaped rfl

/-- Its declarations, from the front: `Outer`, `Outer.Inner`, `Outer<S,T>`, `Outer<S,T>.Inner` and `Outer<S,T>.Item`. -/
def outlined (i : Nat) : Cursor := ((twofold.top.preorder.filter (·.isTypeDeclaration))[i]?).getD twofold.top

/-- The field in one of them. -/
def fielded (i : Nat) : Site := ((outlined i).sites[0]?).getD ⟨.field, none, outlined i⟩

/-- What is around the fields. -/
def around (container : TypeId) (label : String) : List Context :=
  [⟨label, .type container⟩, ⟨"Outer", .type ⟨3⟩⟩, ⟨"", .space ⟨1⟩⟩]

/-- The type of one of the fields. -/
def lettered (container : TypeId) (label : String) : Analysis where
  root := .mk "T" (.searched (around container label)) 0 none []
  container
  file := ⟨1⟩
  fileContexts := []
  parameters := []
  allowCreate := true

/-- After the first pass over the file. -/
def listing : Session := left (twofold.catalog memory)

/-- After the usage in `Outer<S,T>.Inner`. -/
def strayed : Session :=
  left ((((lettered ⟨2⟩ "Outer.Inner").resolve .standard).outcome listing).2.addUsage ⟨2⟩ ⟨1⟩ .field (some "x"))

/-- After the scan of the file. -/
def lettering : Session :=
  left ((((lettered ⟨4⟩ "Outer.Item").resolve .standard).outcome strayed).2.addUsage ⟨4⟩ ⟨2⟩ .field (some "y"))

theorem typeDeclarations_twofold :
    twofold.top.typeDeclarations = [outlined 0, outlined 1, outlined 2, outlined 3, outlined 4] :=
  (Cursor.typeDeclarations_eq _).trans rfl

theorem writes_fielded {i : Nat} (h : i = 3 ∨ i = 4) : (fielded i).type.Writes "T" := by
  rcases h with rfl | rfl <;> exact ⟨rfl, rfl, rfl, by decide⟩

theorem declaration_lettered {s t u : Session} {i : Nat} {m : Summary} (container : TypeId) (label : String)
    (reference : ReferenceId) (usage : UsageId) (howner : s.documentedOf (outlined i) = some container)
    (hsites : (outlined i).sites = [fielded i]) (hwrites : (fielded i).type.Writes "T")
    (hfiles : s.files = [⟨⟨1⟩, twofold.path, []⟩])
    (hps : (Analysis.containerParameters container).outcome s = (.ok [], s))
    (haround : Analysis.lexicalContexts s [] (fielded i).type = .ok (around container label))
    (hresolve : ((lettered container label).resolve .standard).outcome s = (.ok reference, t))
    (husage : t.addUsage container reference (fielded i).role (fielded i).member = .ok (usage, u)) :
    (Scan.declaration true twofold m (outlined i)).outcome s = (.ok { m with usages := m.usages + 1 }, u) := by
  have hget (f : Session → Act ScanError Summary) : (get >>= f).outcome s = (f s).outcome s := rfl
  have hfile : s.findSourceFile twofold.path = some ⟨1⟩ := by simp [findSourceFile, hfiles, Path.same]
  have hcontexts : Analysis.contextsOfFile s ⟨1⟩ = .ok [] := by
    have hf : s.sourceFile? ⟨1⟩ = some ⟨⟨1⟩, twofold.path, []⟩ := by simp [sourceFile?, hfiles]
    unfold Analysis.contextsOfFile
    rw [hf]
    rfl
  unfold Scan.declaration
  rw [hget, howner]
  dsimp only
  rw [hsites, outcome_foldlM_singleton]
  exact Scan.record_ok (Analysis.ofNode_ok hfile hps hcontexts (Analysis.build_plain hwrites haround)) hresolve husage

theorem units_twofold : (Scan.units true {} [twofold]).outcome memory =
    (.ok { filesScanned := 1, documentedTypes := 5, references := 2, usages := 2 }, lettering) := by
  have hcatalog : twofold.catalog memory = .ok (.catalogued ⟨1⟩ 5, listing) := by decide +kernel
  have hx (m : Summary) : (Scan.declaration true twofold m (outlined 3)).outcome listing =
      (.ok { m with usages := m.usages + 1 }, strayed) :=
    declaration_lettered ⟨2⟩ "Outer.Inner" ⟨1⟩ ⟨1⟩ (by decide +kernel) rfl (writes_fielded (.inl rfl))
      (by decide +kernel) (Prod.ext (by decide +kernel) (by decide +kernel)) (by decide +kernel)
      (Prod.ext (by decide +kernel) rfl) (by decide +kernel)
  have hy (m : Summary) : (Scan.declaration true twofold m (outlined 4)).outcome strayed =
      (.ok { m with usages := m.usages + 1 }, lettering) :=
    declaration_lettered ⟨4⟩ "Outer.Item" ⟨2⟩ ⟨2⟩ (by decide +kernel) rfl (writes_fielded (.inr rfl))
      (by decide +kernel) (Prod.ext (by decide +kernel) (by decide +kernel)) (by decide +kernel)
      (Prod.ext (by decide +kernel) rfl) (by decide +kernel)
  have hnone (i : Nat) (hi : (outlined i).sites = []) (m : Summary) :
      (Scan.declaration true twofold m (outlined i)).outcome listing = (.ok m, listing) := by
    have hget (f : Session → Act ScanError Summary) : (get >>= f).outcome listing = (f listing).outcome listing := rfl
    unfold Scan.declaration
    rw [hget]
    split
    · rfl
    · rw [hi]
      rfl
  have hreferences (m : Summary) : (Scan.references true m twofold).outcome listing =
      (.ok { m with usages := m.usages + 2 }, lettering) := by
    unfold Scan.references
    rw [typeDeclarations_twofold]
    simp only [List.foldlM_cons, outcome_bind, hnone 0 rfl, hnone 1 rfl, hnone 2 rfl, hx, hy]
    rfl
  have hcount : lettering.references.length - listing.references.length = 2 := by decide +kernel
  rw [Scan.outcome_units, Scan.catalogued_singleton hcatalog]
  dsimp only
  rw [outcome_foldlM_singleton, hreferences]
  dsimp only
  rw [hcount]

/-- The declarations around the fields, innermost first. -/
theorem binds_fielded {i : Nat} (h : i = 3 ∨ i = 4) :
    (fielded i).type.outerType? = some (outlined i) ∧ (fielded i).type.Binds "T" [outlined i] (outlined 2) := by
  rcases h with rfl | rfl
  · exact ⟨rfl, ⟨[], rfl⟩, by decide +kernel, by decide +kernel⟩
  · exact ⟨rfl, ⟨[], rfl⟩, by decide +kernel, by decide +kernel⟩

theorem origin_outlined {i : Nat} {after : List Cursor} (k : String × Nat) (before : List Cursor)
    (hds : Scan.declared [twofold] = before ++ outlined i :: after) (hkey : (outlined i).key? = some k)
    (hnone : memory.findKey k = none) (hbefore : ∀ x ∈ before, x.key? ≠ some k) :
    memory.Origin (Scan.declared [twofold]) (outlined i) (outlined i).parameterNames
      ((outlined i).outerType?.bind Cursor.key?) := by
  refine .declared hkey hnone ?_ rfl rfl
  rw [List.find?_eq_some_iff_append]
  exact ⟨beq_iff_eq.mpr hkey, before, after, hds, fun x hx => by simpa using hbefore x hx⟩

/-- The field of `Item` is recorded with the second type parameter of `Outer<S,T>`. -/
theorem units_scoped_twofold :
    Session.inMemory = .ok memory ∧ twofold.Shaped ∧
      (Scan.units true {} [twofold]).outcome memory =
        (.ok { filesScanned := 1, documentedTypes := 5, references := 2, usages := 2 }, lettering) ∧
      (fielded 4).type.Binds "T" [outlined 4] (outlined 2) ∧
      ∃ owner declaring, lettering.documentedOf (outlined 4) = some owner ∧
        lettering.documentedOf (outlined 2) = some declaring ∧
        lettering.Records owner (fielded 4) ⟨"T", declaring, 1⟩ := by
  have hshaped : ∀ u ∈ [twofold], u.Shaped := by simpa using shaped_twofold
  have hfresh : Scan.fresh memory [twofold] = [twofold] := by
    have hunknown : (memory.findSourceFile twofold.path).isSome = false := by decide +kernel
    simp [Scan.fresh, Scan.meet, hunknown]
  have hdeclared : Scan.declared [twofold] = [outlined 0, outlined 1, outlined 2, outlined 3, outlined 4] := by
    simp [Scan.declared, typeDeclarations_twofold]
  have hbinder : memory.Origin (Scan.declared [twofold]) (outlined 2) _ _ :=
    origin_outlined ("Outer", 2) [outlined 0, outlined 1] hdeclared (by decide +kernel) (by decide +kernel)
      (by decide +kernel)
  have hitem : memory.Origin (Scan.declared [twofold]) (outlined 4) _ _ :=
    origin_outlined ("Outer.Item", 0) [outlined 0, outlined 1, outlined 2, outlined 3] hdeclared
      (by decide +kernel) (by decide +kernel) (by decide +kernel)
  obtain ⟨houter, hbinds⟩ := binds_fielded (.inr rfl)
  obtain ⟨owner, declaring, howner, hdeclaring, hrecords⟩ :=
    (leads_iff.mp (Scan.units_scoped (.inMemory inMemory_eq) hshaped)).1 _ _ units_twofold twofold
      (by rw [hfresh]; exact List.mem_cons_self) (outlined 4) (by simp [typeDeclarations_twofold]) (fielded 4)
      List.mem_cons_self "T" _ _ (writes_fielded (.inr rfl)) houter hbinds
      (by rw [hfresh]; simpa using ⟨_, hitem, by decide +kernel⟩)
      (by rw [hfresh]; exact ⟨_, _, hbinder, by decide +kernel, rfl⟩)
  exact ⟨inMemory_eq, shaped_twofold, units_twofold, hbinds, owner, declaring, howner, hdeclaring, hrecords⟩

/-- `Inner` is catalogued in `Outer`, where there is no `T`: its field is not recorded with the type parameter that is
around it. -/
theorem units_unscoped_twofold : ∃ m w, Session.inMemory = .ok memory ∧ twofold.Shaped ∧
    (Scan.units true {} [twofold]).outcome memory = (.ok m, w) ∧
    ∃ decl ∈ twofold.top.typeDeclarations, ∃ site ∈ decl.sites, site.type.Writes "T" ∧
      site.type.outerType? = some decl ∧ (∃ inner binder, site.type.Binds "T" inner binder) ∧
      ∀ owner p, ¬ w.Records owner site p := by
  obtain ⟨houter, hbinds⟩ := binds_fielded (.inl rfl)
  refine ⟨_, lettering, inMemory_eq, shaped_twofold, units_twofold, outlined 3, by simp [typeDeclarations_twofold],
    fielded 3, List.mem_cons_self, writes_fielded (.inl rfl), houter, ⟨_, _, hbinds⟩, ?_⟩
  rintro owner p ⟨usage, husage, -, -, hmember, r, hr, -, hp⟩
  have hexternal : ∀ usage ∈ lettering.usages, usage.member = some "x" →
      ((lettering.reference? usage.reference).bind fun r => lettering.named? r.named).any (·.external?.isSome) := by
    decide +kernel
  have hfalse := hexternal usage husage hmember
  rw [hr, Option.bind_some, hp] at hfalse
  cases hfalse

end Sample

end TypeCatalog
