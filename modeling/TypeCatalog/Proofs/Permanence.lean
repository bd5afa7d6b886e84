import TypeCatalog.Proofs.Stability

namespace TypeCatalog

open Act Session Resolved

namespace Session

variable {s t u : Session}

/-- Work has led from `s` to `t` that declares nothing: any resolutions, whether they succeed or fail, analyses,
usages, saves, and opening again what was saved. -/
inductive Later (s : Session) : Session → Prop
  | refl : Later s s
  | request {t : Session} {r : Request} (h : Later s t) (hq : r.Quiet) (hr : r.Grounded t) : Later s (r.run t).2
  | reopen {t u v : Session} {n : Nat} {store : Store} {path : Option Path} {readOnly : Bool} (h : Later s t)
      (hsave : t.save = .ok (n, u)) (hstore : u.store = some store)
      (ho : openStore { store with path, readOnly } = .ok v) : Later s v

theorem run_save {n : Nat} (h : s.save = .ok (n, t)) : (Request.save.run s).2 = t := by
  have hrun : (perform id Session.save).outcome s = (.ok n, t) := by rw [outcome_perform, h]
  exact congrArg Prod.snd hrun

theorem Later.worked (h : s.Later t) (hs : s.Worked) : t.Worked ∧ s.Continues t := by
  induction h with
  | refl => exact ⟨hs, .refl s⟩
  | request _ hq hr ih =>
    obtain ⟨ht, hst⟩ := ih
    exact ⟨ht.request hr, hst.trans (ht.sane.continues_run hq)⟩
  | @reopen t u _ _ _ _ _ _ hsave hstore ho ih =>
    obtain ⟨ht, hst⟩ := ih
    have hu : u.Worked ∧ t.Continues u := by
      rw [← run_save hsave]
      exact ⟨ht.request trivial, ht.sane.continues_run trivial⟩
    have huv := hu.1.sane.continues_reopen (isEmpty_save hsave) hstore ho
    exact ⟨hu.1.reopen hstore ho, (hst.trans hu.2).trans huv⟩

theorem Loads.room (h : s.Loads t) {n : Nat} (hs : s.Room n) : t.Room n := by
  rw [h.rest]
  exact hs

end Session

/-- What was resolved once is resolved again without leave to create, whatever was resolved and saved since. The
second tree names the same declared types and tuples, place by place, the same type parameters and external types
of the same names; no other types are added. -/
theorem Analysis.resolve_persists {chain : Chain} {a : Analysis} {s t s' : Session} {root : ReferenceId}
    (hs : s.Worked) (hlast : a.allowCreate = true ∨ chain.ExternalLast)
    (h : (a.resolve chain).outcome s = (.ok root, t)) (hl : t.Later s') (hroom : s'.Room a.root.nodeCount) :
    ∃ first root' t' first', t.reference? root = some first ∧ t.Mirrors a.root first ∧
      (({ a with allowCreate := false } : Analysis).resolve chain).outcome s' = (.ok root', t') ∧
      t'.reference? root' = some first' ∧ t'.Mirrors a.root first' ∧ s'.Learns t' ∧
      ∀ p d, a.root.at? p = some d → ∃ c c', t.referenceAt? first p = some c ∧ t'.referenceAt? first' p = some c' ∧
        ∃ R, t.reading c.named = some R ∧ t'.reading c'.named = some R := by
  have ht : t.Worked := by
    have hrun : ((Request.resolve chain a).run s).2 = t := congrArg Prod.snd h
    rw [← hrun]
    exact hs.request trivial
  obtain ⟨hdoc, hfile, -⟩ := resolve_iff.mp h
  obtain ⟨hst, first, hfirst, hmirrors, hmeans⟩ := resolve_settles hs.sane hs.tidy hs.nested hlast h
  obtain ⟨hs', hc⟩ := hl.worked ht
  have hsees (p : List Nat) (d : Descriptor) (hd : a.root.at? p = some d) : ∃ c R, t.referenceAt? first p = some c ∧
      t.reading c.named = some R ∧ chain.Sees a.scope s' d R := by
    obtain ⟨c, hplace, hm⟩ := hmeans p d hd
    obtain ⟨R, hR, hread⟩ := hm.reading
    exact ⟨c, R, hplace, hread, (hR.continues hc ht.sane hs'.sane ht.nested d).1⟩
  have hknows : chain.Knows a.scope s' a.root := by
    refine Chain.knows_of_at a.root fun p d hd => ?_
    obtain ⟨-, R, -, -, hR⟩ := hsees p d hd
    exact ⟨R, hR⟩
  obtain ⟨r, u, hr, b, v, hb, hloads, hsv, hfits, hapt⟩ := Chain.found_again hs'.sane hs'.nested hknows false
  obtain ⟨root', t', hstage, -⟩ :=
    (Binding.stage_room b a.root v none (m := 0) hsv.after.numbered hfits (hloads.room hroom)).succeeds
  obtain ⟨hsteps, first', hfirst', hmirrors', hplaces⟩ := Binding.stage_places hsv.after hfits hstage
  refine ⟨first, root', t', first', hfirst, hmirrors, ?_, hfirst', hmirrors', ?_, ?_⟩
  · refine resolve_iff.mpr ⟨?_, ?_, r, u, hr, b, v, hb, hstage⟩
    · rw [hc.isDocumented ht.sane.numbered, hst.continues.isDocumented hs.sane.numbered]
      exact hdoc
    · rw [hc.sourceFile?, hst.continues.sourceFile?]
      exact hfile
  · exact hloads.learns.trans (hsteps.learns hsv.after.numbered)
  · intro p d hd
    obtain ⟨c, R, hplace, hread, hR⟩ := hsees p d hd
    obtain ⟨r, hr⟩ := hfits.at hd
    obtain ⟨c', hplace', hbecame⟩ := hplaces p r hr
    refine ⟨c, c', hplace, hplace', R, hread, ?_⟩
    exact (hapt.at hd hr).reads hR hsv (hsteps.advances hsv.after hsv.nested_after) hbecame

namespace Sample

/-- After `Pair<Foo, N.Foo>` was resolved as well and all was saved. -/
def resumed : Session := (Request.save.run ((Request.resolve .standard pair).run tupled).2).2

theorem resolve_persists_resumed :
    tupled.Later resumed ∧ ∃ first root' t' first',
      ((analysis descriptor true).resolve .standard).outcome declared = (.ok ⟨1⟩, tupled) ∧
      tupled.reference? ⟨1⟩ = some first ∧
      ((analysis descriptor false).resolve .standard).outcome resumed = (.ok root', t') ∧
      t'.reference? root' = some first' ∧ resumed.Learns t' ∧
      ∀ p d, descriptor.at? p = some d → ∃ c c', tupled.referenceAt? first p = some c ∧
        t'.referenceAt? first' p = some c' ∧ ∃ R, tupled.reading c.named = some R ∧ t'.reading c'.named = some R := by
  have hrun : ((analysis descriptor true).resolve .standard).outcome declared = (.ok ⟨1⟩, tupled) :=
    Prod.ext (by decide +kernel) rfl
  have hlater : tupled.Later resumed := .request (.request .refl trivial trivial) trivial trivial
  have hroom : resumed.Room descriptor.nodeCount := ⟨by decide +kernel, by decide +kernel⟩
  refine ⟨hlater, ?_⟩
  obtain ⟨first, root', t', first', hfirst, -, hrun', hfirst', -, hlearns, hplaces⟩ :=
    Analysis.resolve_persists worked_declared (.inl rfl) hrun hlater hroom
  exact ⟨first, root', t', first', hrun, hfirst, hrun', hfirst', hlearns, hplaces⟩

end Sample

end TypeCatalog
