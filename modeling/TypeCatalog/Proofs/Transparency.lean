import TypeCatalog.Proofs.Scanning
import TypeCatalog.Proofs.Twins

namespace TypeCatalog

namespace Request

/-- The answers to requests that are made one after the other, and the session that they leave. -/
def runAll (s : Session) : List Request → List Answer × Session
  | [] => ([], s)
  | r :: rs =>
    let (answer, t) := r.run s
    let (answers, u) := runAll t rs
    (answer :: answers, u)

/-- Each usage is asked for between rows that are there by then. -/
def GroundedAll (s : Session) : List Request → Prop
  | [] => True
  | r :: rs => r.Grounded s ∧ GroundedAll (r.run s).2 rs

end Request

namespace Session

variable {apart : Prop} {rs : List Reference} {us : List Usage} {o s s' t t' : Session}

theorem Sane.save_halts (hs : s.Sane) {e : CatalogError} (h : s.save = .error e) : e.Halts := by
  obtain ⟨-, c, f, hc⟩ := hs
  exact .inr (hc.save_error h).1

theorem leads_resolve_halts (hs : s.Sane) {chain : Chain} {a : Analysis} :
    (a.resolve chain).Leads s (fun _ t => t.Sane ∧ s.Grows t)
      fun e t => (t.Sane ∧ s.Grows t) ∧ ∀ d, e = .catalog d → d.Halts := by
  refine (Analysis.leads_resolve_sane hs).mono (fun _ _ h => ⟨h.1, h.2.1⟩) ?_
  rintro e t ⟨ht, hgrows, ⟨d, rfl, hd⟩ | ⟨-, name, rfl⟩ | ⟨-, reason, rfl⟩⟩
  · refine ⟨⟨ht, hgrows⟩, ?_⟩
    rintro _ ⟨⟩
    exact hd
  · exact ⟨⟨ht, hgrows⟩, by rintro _ ⟨⟩⟩
  · exact ⟨⟨ht, hgrows⟩, by rintro _ ⟨⟩⟩

namespace Twins

/-- What the store of the first session would refuse does not come up if that session is sane. -/
theorem resolve (h : Twins apart rs us s s') (hs : apart → s.Sane) (chain : Chain) (a : Analysis) :
    Act.Matches (Twins apart rs us) (fun _ => False) (a.resolve chain) (a.resolve chain) s s' := by
  have hmatches := simulation_twins.resolve (G := fun e => ∃ d, e = .catalog d ∧ apart ∧ ¬ d.Halts) h
    (fun d hd => ⟨d, rfl, hd⟩) chain a
  refine hmatches.mono (fun _ _ _ _ hR => hR) ?_
  rintro e t houtcome ⟨d, rfl, hapart, hd⟩
  exact hd (((Act.leads_iff.mp (leads_resolve_halts (hs hapart))).2 _ t houtcome).2 d rfl)

theorem save (h : Twins apart rs us s s') (hs : apart → s.Sane) :
    Tally (Both (Twins apart rs us)) s.save s'.save := by
  obtain htally | ⟨e, he, hapart, hhalts⟩ := simulation_twins.save h
  · exact htally
  · exact absurd ((hs hapart).save_halts he) hhalts

theorem run (h : Twins apart rs us s s') (hs : apart → s.Sane) (r : Request) :
    (r.run s').1 = (r.run s).1 ∧ Twins apart rs us (r.run s).2 (r.run s').2 := by
  have hanswer {ε α : Type} {a : Act ε α} {f : Except ε α → Answer}
      (ha : Act.Matches (Twins apart rs us) (fun _ => False) a a s s') :
      f (a.outcome s').1 = f (a.outcome s).1 ∧ Twins apart rs us (a.outcome s).2 (a.outcome s').2 :=
    ⟨congrArg f ha.eq.1, ha.eq.2⟩
  cases r with
  | catalog u => exact hanswer (Act.matches_perform h (simulation_twins.catalog h u))
  | analyze u container allowCreate c => exact hanswer (simulation_twins.ofNode h u container allowCreate c)
  | resolve chain a => exact hanswer (h.resolve hs chain a)
  | use owner reference role member =>
    refine hanswer (a := Act.perform id (·.addUsage owner reference role member)) (Act.matches_perform h ?_)
    exact simulation_twins.addUsage h owner reference role member
  | save => exact hanswer (Act.matches_perform h (h.save hs))

theorem runAll (h : Twins apart rs us s s') {requests : List Request}
    (hs : apart → s.Sane ∧ Request.GroundedAll s requests) :
    (Request.runAll s' requests).1 = (Request.runAll s requests).1 ∧
      Twins apart rs us (Request.runAll s requests).2 (Request.runAll s' requests).2 := by
  induction requests generalizing s s' with
  | nil => exact ⟨rfl, h⟩
  | cons r requests ih =>
    obtain ⟨hanswer, hnext⟩ := h.run (fun hapart => (hs hapart).1) r
    obtain ⟨hanswers, hlast⟩ := ih hnext fun hapart =>
      ⟨((hs hapart).1.run (hs hapart).2.1).1, (hs hapart).2.2⟩
    exact ⟨congrArg₂ List.cons hanswer hanswers, hlast⟩

theorem withGlobal (h : Twins apart rs us s s') (ht : s.withGlobal = .ok t) (ht' : s'.withGlobal = .ok t') :
    Twins apart rs us t t' := by
  obtain ⟨-, id, u, hu, rfl⟩ := withGlobal_ok ht
  obtain ⟨-, id', u', hu', rfl⟩ := withGlobal_ok ht'
  have htally : Tally (Both (Twins apart rs us)) (s.ensureNamespace "") (s'.ensureNamespace "") :=
    simulation_twins.ensureWithin h "" _
  rw [hu, hu'] at htally
  obtain ⟨rfl, c, f, hf⟩ := htally
  exact ⟨c, f, { hf with
    left := { hf.left with }
    right := { hf.right with }
    globalNamespace := rfl }⟩

end Twins

/-- Twins of which the first is sane and comes from `o`. -/
structure Paired (o : Session) (apart : Prop) (rs : List Reference) (us : List Usage) (s s' : Session) : Prop where
  grows : o.Grows s
  sane : s.Sane
  twins : Twins apart rs us s s'

end Session

open Session in
theorem Act.Matches.paired {ε α : Type} {apart : Prop} {rs : List Reference} {us : List Usage} {o s s' : Session}
    {a : Act ε α} (h : Matches (Twins apart rs us) (fun _ => False) a a s s') (ho : o.Grows s)
    (hl : a.Leads s (fun _ t => t.Sane ∧ s.Grows t) fun _ t => t.Sane ∧ s.Grows t) :
    Matches (Paired o apart rs us) (fun _ => False) a a s s' := by
  refine h.mono ?_ fun _ _ _ he => he
  intro x t t' houtcome hR
  rw [leads_iff] at hl
  obtain ⟨ht, hgrows⟩ : t.Sane ∧ s.Grows t := by
    cases x with
    | ok x => exact hl.1 x t houtcome
    | error e => exact hl.2 e t houtcome
  exact ⟨ho.trans hgrows, ht, hR⟩

namespace Scan

open Session

variable {apart : Prop} {rs : List Reference} {us : List Usage} {o s s' : Session} {allowCreate : Bool}
  {u : SourceUnit} {owner : TypeId} {m : Summary}

theorem matches_resolveSite (h : Paired o apart rs us s s') (c : Cursor) :
    Act.Matches (Paired o apart rs us) (fun _ => False) (resolveSite allowCreate u owner c)
      (resolveSite allowCreate u owner c) s s' := by
  unfold resolveSite
  refine Act.matches_bind (Act.matches_mapError (F := fun _ => False) ?_ fun _ he => he) ?_
  · refine (simulation_twins.ofNode h.twins u owner allowCreate c).paired h.grows ?_
    exact (Analysis.leads_ofNode h.sane).mono (fun _ _ hl => ⟨hl.1, hl.2.1⟩) fun _ _ hl => ⟨hl.1, hl.2.1⟩
  · intro a t t' _ h
    refine Act.matches_mapError (F := fun _ => False) ?_ fun _ he => he
    refine (h.twins.resolve (fun _ => h.sane) .standard a).paired h.grows ?_
    exact (leads_resolve_halts h.sane).mono (fun _ _ hl => hl) fun _ _ hl => hl.1

theorem matches_record (h : Paired o apart rs us s s') (howner : o.isDocumented owner = true) (site : Site) :
    Act.Matches (Paired o apart rs us) (fun _ => False) (record allowCreate u owner m site)
      (record allowCreate u owner m site) s s' := by
  unfold record
  refine Act.matches_bind (Act.matches_attempt (matches_resolveSite h site.type)) ?_
  intro x t t' houtcome ht
  rw [Act.outcome_attempt] at houtcome
  cases x with
  | ok root =>
    have hroot : root ∈ t.references.map (·.id) := by
      have hresult := (Prod.mk.inj houtcome).1
      refine ((Act.leads_iff.mp (leads_resolveSite h.sane)).1 root t (Prod.ext ?_ (Prod.mk.inj houtcome).2)).2
      exact Except.ok.inj hresult
    obtain ⟨d, hd⟩ := isDocumented_iff.mp (isDocumented_of_grows howner ht.grows)
    refine Act.matches_bind ?_ fun _ _ _ _ h => Act.matches_pure h
    refine (Act.matches_perform ht.twins (simulation_twins.addUsage ht.twins owner root _ _)).paired ht.grows ?_
    apply Act.leads_perform
    · intro id v hv
      have hgrows := grows_addUsage hv
      obtain ⟨hrooted, c, f, hc⟩ := ht.sane
      exact ⟨⟨hrooted.of_grows hgrows, c, hc.addUsage ⟨_, hd⟩ hroot hv⟩, hgrows⟩
    · exact fun _ _ => ⟨ht.sane, .refl t⟩
  | error e =>
    dsimp only
    split
    · exact Act.matches_pure ht
    · exact Act.matches_throw ht

theorem matches_declaration (h : Paired o apart rs us s s') (decl : Cursor) :
    Act.Matches (Paired o apart rs us) (fun _ => False) (declaration allowCreate u m decl)
      (declaration allowCreate u m decl) s s' := by
  unfold declaration
  apply Act.matches_get_bind
  rw [(simulation_twins.alongside h.twins).documentedOf]
  split
  · exact Act.matches_pure h
  · next owner howner =>
    have hdoc : s.isDocumented owner = true := by
      obtain ⟨name, -, hname⟩ := Option.bind_eq_some_iff.mp howner
      exact h.sane.findDocumented hname
    -- the owner stays documented in all that comes from `s`
    have hfold : Act.Matches (Paired s apart rs us) (fun _ => False)
        (decl.sites.foldlM (record allowCreate u owner) m) (decl.sites.foldlM (record allowCreate u owner) m) s s' :=
      Act.matches_foldlM (fun _ _ _ site _ ht => matches_record ht hdoc site) ⟨.refl s, h.sane, h.twins⟩
    refine hfold.mono ?_ fun _ _ _ he => he
    intro _ t t' _ ht
    exact ⟨h.grows.trans ht.grows, ht.sane, ht.twins⟩

theorem matches_declarations (h : Paired o apart rs us s s') (fresh : List SourceUnit) :
    Act.Matches (Paired o apart rs us) (fun _ => False) (declarations m fresh u) (declarations m fresh u) s s' := by
  unfold declarations
  refine Act.matches_bind ?_ ?_
  · refine (Act.matches_perform h.twins (simulation_twins.catalog h.twins u)).paired h.grows ?_
    apply Act.leads_perform
    · intro outcome t ht
      obtain ⟨hsane, hgrows, -⟩ := (yields_iff.mp (u.yields_catalog h.sane)).1 _ ht
      exact ⟨hsane, hgrows⟩
    · exact fun _ _ => ⟨h.sane, .refl s⟩
  · intro outcome t t' _ ht
    cases outcome with
    | catalogued file types => exact Act.matches_pure ht
    | known file => exact Act.matches_pure ht

/-- A scan counts the references that it adds, so the older ones do not matter. -/
theorem matches_units (h : Paired o apart rs us s s') (allowCreate : Bool) (m : Summary) (units : List SourceUnit) :
    Act.Matches (Paired o apart rs us) (fun _ => False) (Scan.units allowCreate m units)
      (Scan.units allowCreate m units) s s' := by
  unfold Scan.units
  refine Act.matches_bind (Act.matches_foldlM (fun _ _ _ u _ ht => matches_declarations ht _) h) ?_
  rintro ⟨m', fresh⟩ t t' _ ht
  apply Act.matches_get_bind
  refine Act.matches_bind (Act.matches_foldlM ?_ ht) ?_
  · intro m v v' u _ hv
    exact Act.matches_foldlM (fun _ _ _ decl _ hv => matches_declaration hv decl) hv
  · intro m'' v v' _ hv
    apply Act.matches_get_bind
    obtain ⟨c, f, htwin⟩ := ht.twins
    obtain ⟨c', f', hvtwin⟩ := hv.twins
    rw [htwin.references, hvtwin.references, List.length_append, List.length_append, Nat.add_sub_add_left]
    exact Act.matches_pure hv

end Scan

namespace Session

variable {m s t s' : Session}

/-- The session `m` has no store and has done the work that led to `s` over a store that can be written. What
`s` had stored may have been opened again. -/
inductive Accompanies : Session → Session → Prop
  | start {m s : Session} {path : Option Path} (hm : inMemory = .ok m)
      (hs : openStore { database := {}, path, readOnly := false } = .ok s) : Accompanies m s
  | request {m s : Session} {r : Request} (h : Accompanies m s) (hr : r.Grounded m) : Accompanies (r.run m).2 (r.run s).2
  | scan {m s : Session} {allowCreate : Bool} {summary : Summary} {units : List SourceUnit} (h : Accompanies m s) :
      Accompanies ((Scan.units allowCreate summary units).outcome m).2 ((Scan.units allowCreate summary units).outcome s).2
  | reopen {m s s' : Session} {store : Store} (h : Accompanies m s) (hp : s.pending.isEmpty = true)
      (hstore : s.store = some store) (ho : openStore store = .ok s') : Accompanies m s'

theorem Twins.grounded {b : Session} (h : Twins True [] [] b m) {r : Request} (hr : r.Grounded m) : r.Grounded b := by
  obtain ⟨c, f, h⟩ := h
  cases r with
  | use owner reference role member =>
    obtain ⟨⟨a, ha⟩, hreference⟩ := hr
    refine ⟨?_, by rwa [h.references]⟩
    obtain ⟨-, hnone⟩ | ⟨b, -, hb, -, -⟩ := h.alongside.named? owner
    · rw [ha] at hnone
      cases hnone
    · exact ⟨b, hb⟩
  | catalog u => trivial
  | analyze u container allowCreate c => trivial
  | resolve chain a => trivial
  | save => trivial

/-- Between a session without a store and one that was opened again stands one that was not. -/
theorem Accompanies.twins (h : m.Accompanies s) :
    ∃ b rs us, b.Sane ∧ Twins True [] [] b m ∧ Twins False rs us b s := by
  induction h with
  | @start m s path hm hs =>
    have hb : ({} : Contents).Bounded := ⟨by simp, by simp⟩
    obtain ⟨-, hopened⟩ := (openStore_iff holds_empty.1 holds_empty.2.1.toRegular holds_empty.2.2).mp hs
    have hl : (opened ⟨{}, path, false⟩ {}).Ledger {} {} :=
      ledger_opened holds_empty.1 holds_empty.2.1 holds_empty.2.2 hb
    have htwin : Twins True [] [] (opened ⟨{}, path, false⟩ {}) { store := none } :=
      ⟨{}, {}, hl, ledger_empty, rfl, rfl, rfl, rfl, .inr ⟨trivial, rfl, _, rfl, rfl⟩⟩
    have hself : Twins False [] [] (opened ⟨{}, path, false⟩ {}) (opened ⟨{}, path, false⟩ {}) :=
      ⟨{}, {}, hl, hl, rfl, rfl, rfl, rfl, .inl rfl⟩
    exact ⟨s, [], [], sane_create hs, htwin.withGlobal hopened hm, hself.withGlobal hopened hopened⟩
  | @request m s r _ hr ih =>
    obtain ⟨b, rs, us, hb, hm, hs⟩ := ih
    exact ⟨_, rs, us, (hb.run (hm.grounded hr)).1, (hm.run (fun _ => hb) r).2, (hs.run False.elim r).2⟩
  | @scan m s allowCreate summary units _ ih =>
    obtain ⟨b, rs, us, hb, hm, hs⟩ := ih
    have hm := (Scan.matches_units ⟨.refl b, hb, hm⟩ allowCreate summary units).eq.2
    have hs := (Scan.matches_units ⟨.refl b, hb, hs⟩ allowCreate summary units).eq.2
    exact ⟨_, rs, us, hm.sane, hm.twins, hs.twins⟩
  | reopen _ hp hstore ho ih =>
    obtain ⟨b, rs, us, hb, hm, c, f, hs⟩ := ih
    exact ⟨b, _, _, hb, hm, hs.reopen hb.1 hp hstore ho⟩

theorem isEmpty_save {n : Nat} (h : s.save = .ok (n, t)) : t.pending.isEmpty = true := by
  obtain ⟨hp, rfl⟩ | ⟨-, rfl⟩ | ⟨store, changes, database, -, -, -, -, rfl⟩ := save_ok h
  · exact hp
  · rfl
  · rfl

end Session

namespace Sample

/-- A new store with its first namespace, and the session on it when it is opened again. -/
def shelf : Session := left (opening {}).save

def reopened : Session := opening ((shelf.store.map (·.database)).getD {})

end Sample

end TypeCatalog
