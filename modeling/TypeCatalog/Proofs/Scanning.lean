import TypeCatalog.Proofs.Requests
import TypeCatalog.Proofs.RoundTrip

namespace TypeCatalog

/-- The code of a failure that a scan counts and survives: the written type is to blame, or nothing may be
created for it. -/
def Scan.Expected (allowCreate : Bool) (code : String) : Prop :=
  code ∈ ["UNSUPPORTED_NODE", "TYPE_TOO_DEEP", "NAME_RESOLUTION_FAILED"] ∨
    allowCreate = false ∧ code = "UNRESOLVED_TYPE"

namespace ScanError

/-- What ends a scan. -/
def Halts (e : ScanError) : Prop := ∃ d, e.catalog? = some d ∧ d.Halts

variable {allowCreate : Bool} {e : ScanError}

theorem Halts.not_recoverable (h : e.Halts) : e.isRecoverable = false := by
  obtain ⟨d, hd, hhalts⟩ := h
  have hmissing : d.isMissingPrerequisite = false := by
    rcases hhalts with rfl | rfl
    · rfl
    · rfl
  unfold isRecoverable
  split
  · rfl
  · rw [hd, Option.all_some, hmissing]

theorem recoverable_of_expected (h : Scan.Expected allowCreate e.code) : e.isRecoverable = true := by
  cases e with
  | config reason => simp [Scan.Expected, code] at h
  | fileRead path reason => rfl
  | parse e => rfl
  | catalog e => simp [Scan.Expected, code] at h
  | analyze e =>
    cases e with
    | catalog e => simp [Scan.Expected, code, AnalyzeError.code] at h
    | _ => rfl
  | resolve e =>
    cases e with
    | catalog e => simp [Scan.Expected, code, ResolveError.code] at h
    | _ => rfl

end ScanError

namespace Scan

open Session

/-- The failures of `m'` are those of `m` and then some that a scan survives. -/
def Survives (allowCreate : Bool) (m m' : Summary) : Prop :=
  ∃ new, m'.failures = m.failures ++ new ∧ ∀ x ∈ new, Expected allowCreate x.code

namespace Survives

variable {allowCreate : Bool} {m m' m'' : Summary}

theorem of_eq (h : m'.failures = m.failures) : Survives allowCreate m m' := ⟨[], by rw [h, List.append_nil], by simp⟩

theorem trans (h : Survives allowCreate m m') (h' : Survives allowCreate m' m'') : Survives allowCreate m m'' := by
  obtain ⟨new, hnew, hcodes⟩ := h
  obtain ⟨more, hmore, hcodes'⟩ := h'
  refine ⟨new ++ more, by rw [hmore, hnew, List.append_assoc], ?_⟩
  exact List.forall_mem_append.mpr ⟨hcodes, hcodes'⟩

theorem addFailure {path : Path} {span : Option Span} {e : ScanError} (h : Expected allowCreate e.code) :
    Survives allowCreate m (m.addFailure path span e) := by
  unfold Survives Summary.addFailure
  dsimp only
  split
  · exact ⟨_, rfl, by simpa using h⟩
  · exact ⟨[], (List.append_nil _).symm, by simp⟩

end Survives

variable {allowCreate : Bool} {u : SourceUnit} {s : Session} {owner : TypeId} {c : Cursor} {m : Summary}

theorem leads_resolveSite (hs : s.Sane) :
    (resolveSite allowCreate u owner c).Leads s
      (fun root t => s.Follows t ∧ root ∈ t.references.map (·.id))
      fun e t => s.Follows t ∧ (u.Shaped → s.Ready u → s.isDocumented owner = true → u.Clear c →
        Expected allowCreate e.code ∨ e.Halts) := by
  have hrequest {ε α : Type} {a : Act ε α} {t v : Session} {x : Except ε α} {r : Request}
      (hr : r.Grounded t) (hrun : (r.run t).2 = (a.outcome t).2) (h : a.outcome t = (x, v)) : t.Follows v := by
    have hnext := follows_run hr
    rwa [hrun, h] at hnext
  unfold resolveSite
  apply Act.leads_bind
  apply Act.leads_mapError
  refine (Act.leads_outcome.and (Analysis.leads_ofNode hs)).mono ?_ ?_
  · rintro a t ⟨houtcome, ht, hst, rfl, rfl, hdoc, hfile⟩
    have hfirst := hrequest (r := .analyze u a.container a.allowCreate c) trivial rfl houtcome
    apply Act.leads_mapError
    refine (Act.leads_outcome.and (Analysis.leads_resolve_sane ht)).mono ?_ ?_
    · rintro root v ⟨houtcome, -, -, hroot⟩
      exact ⟨hfirst.trans (hrequest (r := .resolve .standard a) trivial rfl houtcome), hroot⟩
    · rintro e v ⟨houtcome, -, -, herror⟩
      refine ⟨hfirst.trans (hrequest (r := .resolve .standard a) trivial rfl houtcome), fun _ _ _ _ => ?_⟩
      rcases herror with ⟨d, rfl, hd⟩ | ⟨hcreate, name, rfl⟩ | ⟨hnone | hnone, -⟩
      · exact .inr ⟨d, rfl, hd⟩
      · have hexternal : Resolver.external ∈ Chain.standard.order := by decide
        exact .inl (.inr ⟨Bool.eq_false_iff.mpr fun ha => hcreate ⟨ha, hexternal⟩, rfl⟩)
      · rw [hdoc] at hnone
        cases hnone
      · obtain ⟨f, hf⟩ := hfile
        rw [hf] at hnone
        cases hnone
  · rintro e t ⟨houtcome, -, -, herror⟩
    refine ⟨hrequest (r := .analyze u owner allowCreate c) trivial rfl houtcome, fun hu hr hd hc => ?_⟩
    exact .inl (.inl (herror hu hr hd hc))

/-- A part of a scan makes requests only. Where the scanned units are `shaped`, all failures on the way are
expected ones. -/
def Passes (allowCreate : Bool) (shaped : Prop) (a : Act ScanError Summary) (s : Session) (m : Summary) : Prop :=
  a.Leads s (fun m' t => s.Follows t ∧ (shaped → Survives allowCreate m m'))
    fun e t => s.Follows t ∧ (shaped → e.Halts)

variable {shaped : Prop}

theorem passes_foldlM {α : Type} {f : Summary → α → Act ScanError Summary} {xs : List α} (hs : s.Sane)
    (hf : ∀ x ∈ xs, ∀ t, t.Sane → s.Grows t → ∀ m', Passes allowCreate shaped (f m' x) t m') :
    Passes allowCreate shaped (xs.foldlM f m) s m := by
  refine Act.leads_foldlM ?_ ⟨.refl, fun _ => .of_eq rfl⟩
  rintro m' t x hx ⟨hst, hm⟩
  obtain ⟨ht, hgrows⟩ := hs.follows hst
  refine (hf x hx t ht hgrows m').mono ?_ ?_
  · rintro m'' v ⟨htv, hm'⟩
    exact ⟨hst.trans htv, fun hshaped => (hm hshaped).trans (hm' hshaped)⟩
  · rintro e v ⟨htv, he⟩
    exact ⟨hst.trans htv, he⟩

theorem passes_record (hs : s.Sane) (howner : s.isDocumented owner = true) {site : Site}
    (hu : shaped → u.Shaped ∧ s.Ready u ∧ u.Clear site.type) :
    Passes allowCreate shaped (record allowCreate u owner m site) s m := by
  unfold record
  apply Act.leads_bind
  apply Act.leads_attempt
  refine (leads_resolveSite hs).mono ?_ ?_
  · rintro root t ⟨hst, hroot⟩
    obtain ⟨ht, hgrows⟩ := hs.follows hst
    obtain ⟨d, hd⟩ := isDocumented_iff.mp (isDocumented_of_grows howner hgrows)
    apply Act.leads_bind
    apply Act.leads_perform
    · intro id v hv
      have hnext := follows_run (s := t) (r := .use owner root site.role site.member) ⟨⟨_, hd⟩, hroot⟩
      rw [Request.run, Act.outcome_perform, hv] at hnext
      exact Act.leads_pure ⟨hst.trans hnext, fun _ => .of_eq rfl⟩
    · intro e he
      exact ⟨hst, fun _ => ⟨e, rfl, .inl (addUsage_error he)⟩⟩
  · rintro e t ⟨hst, herror⟩
    dsimp only
    split
    -- the error of a shaped unit is expected or ends the scan, and only an expected one is recoverable
    · next hrecoverable =>
      refine Act.leads_pure ⟨hst, fun hshaped => .addFailure ?_⟩
      obtain ⟨hu, hr, hc⟩ := hu hshaped
      refine (herror hu hr howner hc).resolve_right fun hhalts => ?_
      rw [hhalts.not_recoverable] at hrecoverable
      cases hrecoverable
    · next hrecoverable =>
      refine Act.leads_throw ⟨hst, fun hshaped => ?_⟩
      obtain ⟨hu, hr, hc⟩ := hu hshaped
      refine (herror hu hr howner hc).resolve_left fun hexpected => hrecoverable ?_
      exact ScanError.recoverable_of_expected hexpected

theorem passes_declaration (hs : s.Sane) {decl : Cursor}
    (hu : shaped → u.Shaped ∧ s.Ready u ∧ decl ∈ u.top.preorder) :
    Passes allowCreate shaped (declaration allowCreate u m decl) s m := by
  unfold declaration
  apply Act.leads_get_bind
  split
  · exact Act.leads_pure ⟨.refl, fun _ => .of_eq rfl⟩
  · next owner howner =>
    have hdoc : s.isDocumented owner = true := by
      obtain ⟨name, -, hname⟩ := Option.bind_eq_some_iff.mp howner
      exact hs.findDocumented hname
    apply passes_foldlM hs
    intro site hsite t ht hgrows m'
    apply passes_record ht (isDocumented_of_grows hdoc hgrows)
    intro hshaped
    obtain ⟨hu, hr, hdecl⟩ := hu hshaped
    exact ⟨hu, hr.of_grows hgrows, hu.clear_sites hdecl hsite⟩

theorem passes_references (hs : s.Sane) (hu : shaped → u.Shaped ∧ s.Ready u) :
    Passes allowCreate shaped (references allowCreate m u) s m := by
  apply passes_foldlM hs
  intro decl hdecl t ht hgrows m'
  apply passes_declaration ht
  intro hshaped
  obtain ⟨hu, hr⟩ := hu hshaped
  exact ⟨hu, hr.of_grows hgrows, (SourceUnit.mem_typeDeclarations hdecl).1⟩

/-- After the first pass, all that the units of the second one declare is catalogued. -/
structure Prepares (s t : Session) (us fresh : List SourceUnit) : Prop where
  follows : s.Follows t
  fresh : ∀ u ∈ fresh, u ∈ us ∧ (u.Shaped → t.Ready u)

theorem leads_declarations (hs : s.Sane) {us : List SourceUnit} :
    (us.foldlM (fun (m, fresh) u => declarations m fresh u) (m, [])).Leads s
      (fun r t => Prepares s t us r.2 ∧ r.1.failures = m.failures)
      fun e t => s.Follows t ∧ e.Halts := by
  refine Act.leads_foldlM ?_ ⟨⟨.refl, by simp⟩, rfl⟩
  rintro ⟨m', fresh⟩ t u hu ⟨⟨hst, hfresh⟩, hm⟩
  obtain ⟨ht, -⟩ := hs.follows hst
  unfold declarations
  apply Act.leads_bind
  apply Act.leads_perform
  · intro outcome v hv
    have hnext := follows_run (s := t) (r := .catalog u) trivial
    rw [Request.run, Act.outcome_perform, hv] at hnext
    obtain ⟨-, hgrows, hready⟩ := (yields_iff.mp (u.yields_catalog ht)).1 _ hv
    have hkept : ∀ w ∈ fresh, w ∈ us ∧ (w.Shaped → v.Ready w) :=
      fun w hw => ⟨(hfresh w hw).1, fun hshaped => ((hfresh w hw).2 hshaped).of_grows hgrows⟩
    rcases hready with ⟨⟨file, types, rfl⟩, hready⟩ | ⟨⟨file, rfl⟩, -⟩
    · exact Act.leads_pure ⟨⟨hst.trans hnext, forall_mem_concat hkept ⟨hu, hready⟩⟩, hm⟩
    · exact Act.leads_pure ⟨⟨hst.trans hnext, hkept⟩, hm⟩
  · intro e he
    exact ⟨hst, e, rfl, .inl ((yields_iff.mp (u.yields_catalog ht)).2 e he)⟩

theorem passes_units (hs : s.Sane) {us : List SourceUnit} :
    Passes allowCreate (∀ u ∈ us, u.Shaped) (units allowCreate m us) s m := by
  unfold units
  apply Act.leads_bind
  refine (leads_declarations hs).mono ?_ fun _ _ h => ⟨h.1, fun _ => h.2⟩
  rintro ⟨m', fresh⟩ t ⟨⟨hst, hfresh⟩, hm⟩
  obtain ⟨ht, -⟩ := hs.follows hst
  apply Act.leads_get_bind
  apply Act.leads_bind
  have hpass : Passes allowCreate (∀ u ∈ us, u.Shaped) (fresh.foldlM (references allowCreate) m') t m' := by
    apply passes_foldlM ht
    intro u hu v hv hgrows m''
    apply passes_references hv
    intro hshaped
    obtain ⟨hmem, hready⟩ := hfresh u hu
    exact ⟨hshaped u hmem, (hready (hshaped u hmem)).of_grows hgrows⟩
  refine hpass.mono ?_ ?_
  · rintro m'' v ⟨htv, hm'⟩
    apply Act.leads_get_bind
    refine Act.leads_pure ⟨hst.trans htv, fun hshaped => ?_⟩
    have hsame : Survives allowCreate m m' := .of_eq hm
    exact hsame.trans (hm' hshaped)
  · rintro e v ⟨htv, he⟩
    exact ⟨hst.trans htv, he⟩

end Scan

namespace Session

theorem Worked.sane {s : Session} (h : s.Worked) : s.Sane := by
  induction h with
  | inMemory h => exact sane_inMemory h
  | create h => exact sane_create h
  | request _ hr ih => exact (ih.run hr).1
  | @scan s allowCreate m us _ ih =>
    have hfollows : s.Follows ((Scan.units allowCreate m us).outcome s).2 :=
      ((Scan.passes_units ih).mono (fun _ _ h => h.1) fun _ _ h => h.1).left
    exact (ih.follows hfollows).1
  | reopen _ hstore ho ih => exact ih.reopen hstore ho

/-- What holds of new sessions, and is kept by requests and by opening again what was stored, holds of every session
that the program has come to. Scans are sequences of requests. -/
theorem Worked.induction {P : Session → Prop} (hmemory : ∀ s, Session.inMemory = .ok s → P s)
    (hcreate : ∀ s path readOnly, openStore { database := {}, path, readOnly } = .ok s → P s)
    (hrun : ∀ (s : Session) (r : Request), s.Sane → r.Grounded s → P s → P (r.run s).2)
    (hreopen : ∀ (s t : Session) (store : Store) path readOnly, s.Sane → P s → s.store = some store →
      openStore { store with path, readOnly } = .ok t → P t)
    {s : Session} (h : s.Worked) : P s := by
  induction h with
  | inMemory h => exact hmemory _ h
  | create h => exact hcreate _ _ _ h
  | @request s r hs hr ih => exact hrun s r hs.sane hr ih
  | @scan s allowCreate m us hs ih =>
    have hfollows : s.Follows ((Scan.units allowCreate m us).outcome s).2 :=
      ((Scan.passes_units hs.sane).mono (fun _ _ h => h.1) fun _ _ h => h.1).left
    generalize ((Scan.units allowCreate m us).outcome s).2 = t at hfollows
    induction hfollows with
    | refl => exact ih
    | tail hst hstep ih' =>
      obtain ⟨r, hr, rfl⟩ := hstep
      exact hrun _ r (hs.sane.follows hst).1 hr ih'
  | @reopen s t store path readOnly hs hstore ho ih => exact hreopen s t store path readOnly hs.sane ih hstore ho

/-- A new session has no types. -/
theorem Worked.invariant {P : Session → Prop}
    (hglobal : ∀ s t : Session, s.named = [] → s.withGlobal = .ok t → t.Sane → P t)
    (hrun : ∀ (s : Session) (r : Request), s.Sane → r.Grounded s → P s → P (r.run s).2)
    (hreopen : ∀ (s t : Session) (store : Store) path readOnly, s.Sane → P s → s.store = some store →
      openStore { store with path, readOnly } = .ok t → P t)
    {s : Session} (h : s.Worked) : P s := by
  refine h.induction (fun t ht => hglobal _ t rfl ht (sane_inMemory ht)) ?_ hrun hreopen
  intro t path readOnly ht
  have hopen := (openStore_iff holds_empty.1 holds_empty.2.1.toRegular holds_empty.2.2).mp ht
  exact hglobal _ t rfl hopen.2 (sane_create ht)

end Session

namespace Scan

open Session

end Scan

namespace Sample

def node (index : Nat) (kind : String) (field : Option String) (start : Nat) (text : String)
    (children : List Node) : Node :=
  .mk { index, kind, field, named := true, hasError := false, missing := false, start, text
        span := .between 0 start 0 (start + text.length) } children

/-- The file `namespace N;class Box<T>{T[] all;}`. -/
def unit : SourceUnit where
  path := ⟨"Box.cs"⟩
  source := "namespace N;class Box<T>{T[] all;}"
  root := node 0 "compilation_unit" none 0 "namespace N;class Box<T>{T[] all;}"
    [node 1 "file_scoped_namespace_declaration" none 0 "namespace N;"
      [node 2 "identifier" (some "name") 10 "N" []],
     node 3 "class_declaration" none 12 "class Box<T>{T[] all;}"
      [node 4 "identifier" (some "name") 18 "Box" [],
       node 5 "type_parameter_list" (some "type_parameters") 21 "<T>"
        [node 6 "type_parameter" none 22 "T" [node 7 "identifier" (some "name") 22 "T" []]],
       node 8 "declaration_list" (some "body") 24 "{T[] all;}"
        [node 9 "field_declaration" none 25 "T[] all;"
          [node 10 "variable_declaration" none 25 "T[] all"
            [node 11 "array_type" (some "type") 25 "T[]"
              [node 12 "identifier" (some "type") 25 "T" [],
               node 13 "array_rank_specifier" none 26 "[]" []],
             node 14 "variable_declarator" none 29 "all" [node 15 "identifier" (some "name") 29 "all" []]]]]]]

def memory : Session := Session.inMemory.toOption.getD { store := none }

theorem inMemory_eq : Session.inMemory = .ok memory := by decide +kernel

end Sample

namespace Session

variable {s : Session}

theorem Coherent.write_ok {c f : Contents} (h : s.Coherent c f) {store : Store} (hstore : s.store = some store) :
    ∃ changes database, s.changeSet = .ok changes ∧ store.database.write changes = .ok database := by
  obtain ⟨changes, hchanges, hcompletes⟩ := h.changeSet_ok
  obtain ⟨database, hwrite⟩ := Database.write_succeeds (h.holds store hstore).1 hcompletes h.sound h.coherent
  exact ⟨changes, database, hchanges, hwrite⟩

end Session

namespace Sample

/-- The file catalogued over a new store. -/
def catalogued : Session := ((Request.catalog unit).run (opening {})).2

end Sample

end TypeCatalog
