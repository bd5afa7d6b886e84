import TypeCatalog.Proofs.Describing

namespace TypeCatalog

/-- A piece of work that a session is asked for. -/
inductive Request where
  | catalog (u : SourceUnit)
  | analyze (u : SourceUnit) (container : TypeId) (allowCreate : Bool) (c : Cursor)
  | resolve (chain : Chain) (a : Analysis)
  | use (owner : TypeId) (reference : ReferenceId) (role : Role) (member : Option String)
  | save

inductive Answer where
  | catalogued (r : Except CatalogError Outcome)
  | analyzed (r : Except AnalyzeError Analysis)
  | resolved (r : Except ResolveError ReferenceId)
  | used (r : Except CatalogError UsageId)
  | saved (r : Except CatalogError Nat)

namespace Request

/-- The answer to a request and the session that it leaves, which may have changed even if the answer is
an error. -/
def run (s : Session) : Request → Answer × Session
  | catalog u => ((Act.perform id u.catalog).outcome s).map .catalogued id
  | analyze u container allowCreate c => ((Analysis.ofNode u container allowCreate c).outcome s).map .analyzed id
  | resolve chain a => ((a.resolve chain).outcome s).map .resolved id
  | use owner reference role member =>
    ((Act.perform id (·.addUsage owner reference role member)).outcome s).map .used id
  | save => ((Act.perform id Session.save).outcome s).map .saved id

/-- Usages are only asked for between rows that are there. -/
def Grounded (s : Session) : Request → Prop
  | use owner reference _ _ => (∃ a, s.named? owner = some a) ∧ reference ∈ s.references.map (·.id)
  | _ => True

end Request

namespace Act

variable {ε α : Type} {a : Act ε α} {s : Session}

theorem leads_outcome : a.Leads s (fun x t => a.outcome s = (.ok x, t)) fun e t => a.outcome s = (.error e, t) :=
  leads_iff.mpr ⟨fun _ _ h => h, fun _ _ h => h⟩

theorem Leads.left {P : Session → Prop} (h : a.Leads s (fun _ t => P t) fun _ t => P t) : P (a.outcome s).2 := by
  unfold Leads at h
  generalize a.outcome s = r at h ⊢
  rcases r with ⟨x | x, t⟩ <;> exact h

theorem Leads.and {done done' : α → Session → Prop} {failed failed' : ε → Session → Prop}
    (h : a.Leads s done failed) (h' : a.Leads s done' failed') :
    a.Leads s (fun x t => done x t ∧ done' x t) fun e t => failed e t ∧ failed' e t := by
  rw [leads_iff] at h h' ⊢
  exact ⟨fun x t hr => ⟨h.1 x t hr, h'.1 x t hr⟩, fun e t hr => ⟨h.2 e t hr, h'.2 e t hr⟩⟩

end Act

namespace Session

variable {s t u : Session}

theorem Sane.run (hs : s.Sane) {r : Request} (hr : r.Grounded s) : (r.run s).2.Sane ∧ s.Grows (r.run s).2 := by
  have hkept : s.Sane ∧ s.Grows s := ⟨hs, .refl s⟩
  have hleft {ε α : Type} {a : Act ε α} (h : a.Leads s (fun _ t => t.Sane ∧ s.Grows t) fun _ t => t.Sane ∧ s.Grows t) :
      (a.outcome s).2.Sane ∧ s.Grows (a.outcome s).2 := h.left (P := fun t => t.Sane ∧ s.Grows t)
  cases r with
  | catalog u =>
    refine hleft (Act.leads_perform ?_ fun _ _ => hkept)
    intro outcome t ht
    obtain ⟨hsane, hgrows, -⟩ := (yields_iff.mp (u.yields_catalog hs)).1 _ ht
    exact ⟨hsane, hgrows⟩
  | analyze u container allowCreate c =>
    refine hleft ((Analysis.leads_ofNode hs).mono ?_ ?_)
    · rintro a t ⟨hsane, hgrows, -⟩
      exact ⟨hsane, hgrows⟩
    · rintro e t ⟨hsane, hgrows, -⟩
      exact ⟨hsane, hgrows⟩
  | resolve chain a =>
    refine hleft ((Analysis.leads_resolve_sane hs).mono ?_ ?_)
    · rintro root t ⟨hsane, hgrows, -⟩
      exact ⟨hsane, hgrows⟩
    · rintro e t ⟨hsane, hgrows, -⟩
      exact ⟨hsane, hgrows⟩
  | use owner reference role member =>
    refine hleft (Act.leads_perform ?_ fun _ _ => hkept)
    intro id t ht
    have hgrows := grows_addUsage ht
    obtain ⟨hroot, c, f, hc⟩ := hs
    exact ⟨⟨hroot.of_grows hgrows, c, hc.addUsage hr.1 hr.2 ht⟩, hgrows⟩
  | save =>
    refine hleft (Act.leads_perform ?_ fun _ _ => hkept)
    intro n t ht
    have hgrows := grows_save ht
    obtain ⟨hroot, c, f, hc⟩ := hs
    exact ⟨⟨hroot.of_grows hgrows, f, f, hc.save ht⟩, hgrows⟩

/-- The session `t` comes from `s` by any number of requests. -/
abbrev Follows : Session → Session → Prop :=
  Relation.ReflTransGen fun s t => ∃ r : Request, r.Grounded s ∧ (r.run s).2 = t

theorem follows_run {r : Request} (hr : r.Grounded s) : s.Follows (r.run s).2 := .single ⟨r, hr, rfl⟩

theorem Sane.follows (hs : s.Sane) (h : s.Follows t) : t.Sane ∧ s.Grows t := by
  induction h with
  | refl => exact ⟨hs, .refl s⟩
  | tail _ hstep ih =>
    obtain ⟨r, hr, rfl⟩ := hstep
    obtain ⟨hsane, hgrows⟩ := ih.1.run hr
    exact ⟨hsane, ih.2.trans hgrows⟩

/-- A session that the program has come to: in memory or over a new store, then by requests and scans, and
by opening again what was stored. A scan counts also if it ended with an error. -/
inductive Worked : Session → Prop
  | inMemory {s : Session} (h : inMemory = .ok s) : Worked s
  | create {s : Session} {path : Option Path} {readOnly : Bool}
      (h : openStore { database := {}, path, readOnly } = .ok s) : Worked s
  | request {s : Session} {r : Request} (hs : Worked s) (hr : r.Grounded s) : Worked (r.run s).2
  | scan {s : Session} {allowCreate : Bool} {m : Summary} {us : List SourceUnit} (hs : Worked s) :
      Worked ((Scan.units allowCreate m us).outcome s).2
  | reopen {s t : Session} {store : Store} {path : Option Path} {readOnly : Bool} (hs : Worked s)
      (hstore : s.store = some store) (ho : openStore { store with path, readOnly } = .ok t) : Worked t

theorem sane_create {path : Option Path} {readOnly : Bool}
    (h : openStore { database := {}, path, readOnly } = .ok s) : s.Sane :=
  sane_openStore holds_empty.1 holds_empty.2.1 holds_empty.2.2 coherent_empty h

end Session

end TypeCatalog
