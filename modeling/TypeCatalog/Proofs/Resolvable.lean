import TypeCatalog.Proofs.Namespaces
import TypeCatalog.Proofs.ReferenceTree

namespace TypeCatalog

/-- What ends a scan: ids ran out, or the store must not be written. -/
def CatalogError.Halts (e : CatalogError) : Prop := e = .exhausted .counter ∨ e = .database .readOnly

namespace Session.Coherent

variable {s t : Session} {c f : Contents}

theorem namespace?_of_mem (h : s.Coherent c f) {id : NamespaceId} (hid : id ∈ f.namespaces.map (·.id)) :
    ∃ n ∈ f.namespaces, s.namespace? id = some n := by
  obtain ⟨n, hn, rfl⟩ := List.mem_map.mp hid
  refine ⟨n, hn, ?_⟩
  unfold namespace?
  rw [h.namespaces]
  exact find?_of_nodup h.sound.namespaces.nodup hn

theorem documented_iff (h : s.Coherent c f) {id : TypeId} :
    (∃ d, s.named? id = some (.documented d)) ↔ ∃ d, (id, .documented d) ∈ f.named := by
  rw [← Session.isDocumented_iff, h.isDocumented_iff]

theorem container_documented (h : s.Coherent c f) {id j : TypeId} {d : Documented}
    (hd : s.named? id = some (.documented d)) (hj : d.container = some j) :
    ∃ e, s.named? j = some (.documented e) := by
  obtain ⟨ps, hmem, -⟩ := h.documented_mem hd
  exact h.documented_iff.mpr (h.coherent.container id _ hmem j hj)

theorem home_mem (h : s.Coherent c f) {id : TypeId} {d : Documented}
    (hd : s.named? id = some (.documented d)) : d.home ∈ f.namespaces.map (·.id) := by
  obtain ⟨ps, hmem, -⟩ := h.documented_mem hd
  exact (h.coherent.linked.named _ hmem).1

theorem chainFrom_ok (h : s.Coherent c f) {n : Nat} {id? : Option NamespaceId}
    (hid : ∀ id, id? = some id → id ∈ f.namespaces.map (·.id)) : ∃ cs, s.chainFrom n id? = .ok cs := by
  induction n generalizing id? with
  | zero => cases id? <;> exact ⟨[], rfl⟩
  | succ n ih =>
    cases id? with
    | none => exact ⟨[], rfl⟩
    | some id =>
      obtain ⟨m, hm, hfind⟩ := h.namespace?_of_mem (hid id rfl)
      obtain ⟨cs, hcs⟩ := ih fun p hp => (h.coherent.linked.parent m hm p hp).1
      unfold chainFrom
      rw [hfind]
      dsimp only
      rw [hcs]
      exact ⟨_, rfl⟩

theorem containersFrom_ok (h : s.Coherent c f) {n : Nat} {id? : Option TypeId}
    (hid : ∀ id, id? = some id → ∃ d, s.named? id = some (.documented d)) :
    ∃ ds, s.containersFrom n id? = .ok ds ∧ ∀ p ∈ ds, s.named? p.1 = some (.documented p.2) := by
  induction n generalizing id? with
  | zero => cases id? <;> exact ⟨[], rfl, by simp⟩
  | succ n ih =>
    cases id? with
    | none => exact ⟨[], rfl, by simp⟩
    | some id =>
      obtain ⟨d, hd⟩ := hid id rfl
      obtain ⟨ds, hds, hall⟩ := ih fun j hj => h.container_documented hd hj
      refine ⟨(id, d) :: ds, ?_, ?_⟩
      · unfold containersFrom
        rw [documented_ok.mpr hd, ok_bind, hds]
        rfl
      · intro p hp
        rcases List.mem_cons.mp hp with rfl | hp
        · exact hd
        · exact hall p hp

theorem visibleFrom_ok (h : s.Coherent c f) {id : TypeId} (hd : s.isDocumented id) :
    ∃ cs, s.visibleFrom id = .ok cs := by
  have hid : ∀ j, some id = some j → ∃ d, s.named? j = some (.documented d) := by
    rintro j ⟨⟩
    exact Session.isDocumented_iff.mp hd
  obtain ⟨ds, hds, hall⟩ := h.containersFrom_ok (n := s.named.length + 1) hid
  unfold visibleFrom containers
  rw [hds, ok_bind]
  cases hlast : ds.getLast? with
  | none => exact ⟨_, rfl⟩
  | some p =>
    have hhome : ∀ j, some p.2.home = some j → j ∈ f.namespaces.map (·.id) := by
      rintro j ⟨⟩
      exact h.home_mem (hall p (List.mem_of_getLast? hlast))
    obtain ⟨cs, hcs⟩ := h.chainFrom_ok (n := s.namespaces.length + 1) hhome
    unfold namespaceChain
    dsimp only
    rw [hcs]
    exact ⟨_, rfl⟩

theorem contexts_ok (h : s.Coherent c f) (scope : Scope) (d : Descriptor) : ∃ cs, scope.contexts s d = .ok cs := by
  unfold Scope.contexts
  split
  · exact ⟨none, rfl⟩
  · dsimp only
    split
    · next hd =>
      obtain ⟨cs, hcs⟩ := h.visibleFrom_ok hd
      rw [hcs]
      exact ⟨_, rfl⟩
    · exact ⟨_, rfl⟩

theorem elementType_named (h : s.Coherent c f) {e : TupleElement} (he : e ∈ f.elements) :
    ∃ a, s.named? e.elementType = some a :=
  h.mem_named.mpr (h.coherent.linked.element e he).2

end Session.Coherent

namespace Find

open Resolved

variable {s t : Session} {c f : Contents}

theorem sameIdentity_ok {r : Resolved} (hr : r.Valid s) {stored : NamedType} :
    ∃ b, r.sameIdentity s stored = .ok b := by
  have hv := hr.target
  unfold sameIdentity
  cases htarget : r.target with
  | existing id =>
    rw [htarget] at hv
    obtain ⟨⟨a, ha⟩, -⟩ := hv
    dsimp only
    unfold Session.requireNamed
    rw [ha]
    exact ⟨_, rfl⟩
  | parameter declaring index name => exact ⟨_, rfl⟩

theorem matchesFrom_ok {rows : List TupleElement} {ds : List Descriptor} {rs : List Resolved} {n : Nat}
    (hrows : ∀ row ∈ rows, ∃ a, s.named? row.elementType = some a) (hr : ValidAll s rs) :
    ∃ b, matchesFrom s n rows ds rs = .ok b := by
  induction rows generalizing ds rs n with
  | nil => exact ⟨true, rfl⟩
  | cons row rows ih =>
    cases ds with
    | nil => exact ⟨true, rfl⟩
    | cons d ds =>
      cases rs with
      | nil => exact ⟨true, rfl⟩
      | cons r rs =>
        unfold matchesFrom
        split
        · exact ⟨false, rfl⟩
        · obtain ⟨a, ha⟩ := hrows row List.mem_cons_self
          obtain ⟨b, hb⟩ : ∃ b, r.sameIdentity s a = .ok b := sameIdentity_ok hr.1
          unfold Session.requireNamed
          rw [ha]
          dsimp only
          rw [ok_bind, hb, ok_bind]
          split
          · exact ih (fun q hq => hrows q (List.mem_cons_of_mem row hq)) hr.2
          · exact ⟨false, rfl⟩

theorem firstTuple_succeeds (h : s.Coherent c f) {ds : List Descriptor} {rs : List Resolved} {ids : List TypeId}
    (hr : ValidAll s rs) (hids : ∀ id ∈ ids, ∃ r, s.named? id = some (.tuple r)) :
    ∃ found, firstTuple s ds rs ids = .ok found := by
  induction ids with
  | nil => exact ⟨none, rfl⟩
  | cons id ids ih =>
    obtain ⟨r, hid⟩ := hids id List.mem_cons_self
    have hmatch : ∃ b, tupleMatches s ds rs id = .ok b := by
      unfold tupleMatches
      rw [h.tupleElements_ok hid, ok_bind]
      split
      · apply matchesFrom_ok _ hr
        intro row hrow
        exact h.elementType_named (List.mem_filter.mp hrow).1
      · exact ⟨false, rfl⟩
    obtain ⟨b, hb⟩ := hmatch
    unfold firstTuple
    rw [hb, ok_bind]
    cases b with
    | true => exact ⟨some id, rfl⟩
    | false => exact ih fun j hj => hids j (List.mem_cons_of_mem id hj)

theorem tupleCandidates_named (h : s.Coherent c f) {n : Nat} :
    ∀ id ∈ s.tupleCandidates n, ∃ r, s.named? id = some (.tuple r) := by
  intro id hid
  obtain ⟨⟨i, a⟩, hrow, rfl⟩ := List.mem_map.mp hid
  obtain ⟨hmem, htuple⟩ := List.mem_filter.mp hrow
  cases a with
  | tuple r => exact ⟨r, h.named?_eq.mpr hmem⟩
  | documented d => cases htuple
  | external x => cases htuple
  | parameter p => cases htuple

end Find

namespace Resolved

variable {s t : Session}

theorem sane_commit (hs : s.Sane) {r : Resolved} {id : TypeId} (hr : r.Valid s)
    (h : r.commit s = .ok (id, t)) : t.Sane := by
  refine ⟨hs.1.of_grows (grows_commit hs.numbered h), ?_⟩
  obtain ⟨-, c, f, hc⟩ := hs
  obtain ⟨-, -, rfl⟩ | ⟨-, -, n, he⟩ | ⟨declaring, index, name, htarget, ha⟩ := commit_ok h
  · exact ⟨c, f, hc⟩
  · exact ⟨c, hc.extendExternal he⟩
  · have hv := hr.target
    rw [htarget] at hv
    obtain ⟨d, hd⟩ := hv
    exact ⟨c, _, hc.addNamed ha trivial (hc.mem_named.mp ⟨_, hd⟩) (by simp)⟩

end Resolved

namespace Find

open Resolved

variable {allowCreate : Bool} {s t : Session}

theorem Step.sane (hs : s.Sane) (h : Step allowCreate s t) : t.Sane := by
  have hroot := hs.1.of_grows (h.grows hs.numbered)
  cases h with
  | commit _ hr h => exact sane_commit hs hr h
  | load h =>
    obtain ⟨-, c, f, hc⟩ := hs
    exact ⟨hroot, c, f, hc.ensureParameters h⟩
  | external _ hn h =>
    obtain ⟨-, c, f, hc⟩ := hs
    exact ⟨hroot, c, _, hc.addNamed h hn trivial (by simp)⟩
  | tuple _ hes h =>
    obtain ⟨-, c, f, hc⟩ := hs
    exact ⟨hroot, c, hc.addTuple hes h⟩
  | save _ h =>
    obtain ⟨-, c, f, hc⟩ := hs
    exact ⟨hroot, f, f, hc.save h⟩

theorem Steps.sane (hs : s.Sane) (h : Steps allowCreate s t) : t.Sane := by
  induction h with
  | refl => exact hs
  | tail _ hstep ih => exact hstep.sane ih

theorem Fails.halts {chain : Chain} {scope : Scope} {e : ResolveError} (hs : s.Sane)
    (h : Fails chain scope s e) : (∃ d, e = .catalog d ∧ d.Halts) ∨
      ¬ (scope.allowCreate = true ∧ .external ∈ chain.order) ∧ ∃ name, e = .unresolved name := by
  obtain ⟨-, c, f, hc⟩ := hs
  cases h with
  | @contexts d e h =>
    obtain ⟨cs, hcs⟩ := hc.contexts_ok scope d
    rw [hcs] at h
    cases h
  | container hj hd h =>
    obtain ⟨d, hd⟩ := hc.container_documented hj hd
    rw [Session.documented_ok.mpr hd] at h
    cases h
  | parameters hd h =>
    obtain ⟨ps, t, ht, -⟩ := hc.toLedger.ensureParameters hd
    rw [ht] at h
    cases h
  | external h => exact .inl ⟨_, rfl, .inl (Session.addNamed_error h)⟩
  | matching hr h =>
    obtain ⟨found, hfound⟩ := firstTuple_succeeds hc hr (tupleCandidates_named hc)
    rw [hfound] at h
    cases h
  | commit hr h => exact .inl ⟨_, rfl, .inl (commit_error hr h)⟩
  | tuple h => exact .inl ⟨_, rfl, .inl (Session.addTuple_error h)⟩
  | save h => exact .inl ⟨_, rfl, .inr (hc.save_error h).1⟩
  | unresolved h => exact .inr ⟨h, _, rfl⟩

end Find

namespace Binding

variable {s t : Session}

theorem Step.sane (hs : s.Sane) (h : Step s t) : t.Sane := by
  have hroot := hs.1.of_grows (h.grows hs.numbered)
  cases h with
  | commit hr h => exact Resolved.sane_commit hs hr h
  | reference hn hp h =>
    obtain ⟨-, c, f, hc⟩ := hs
    exact ⟨hroot, c, hc.addReference hn hp h⟩

theorem Steps.sane (hs : s.Sane) (h : Steps s t) : t.Sane := by
  induction h with
  | refl => exact hs
  | tail _ hstep ih => exact hstep.sane ih

end Binding

namespace Analysis

/-- In a sane session a type is resolved, unless ids run out, the store must not be written, nothing may
be created, or the analysis is not about a documented type and a file that are there. -/
theorem leads_resolve_sane {chain : Chain} {a : Analysis} {s : Session} (hs : s.Sane) :
    (a.resolve chain).Leads s
      (fun root t => t.Sane ∧ s.Grows t ∧ root ∈ t.references.map (·.id))
      fun e t => t.Sane ∧ s.Grows t ∧
        ((∃ d, e = .catalog d ∧ d.Halts) ∨
          (¬ (a.allowCreate = true ∧ .external ∈ chain.order) ∧ ∃ name, e = .unresolved name) ∨
          (s.isDocumented a.container = false ∨ s.sourceFile? a.file = none) ∧
            ∃ reason, e = .invalidAnalysis reason) := by
  refine (leads_resolve hs.numbered).mono ?_ ?_
  · rintro root t ⟨u, rows, hsu, hut, rfl, hrows⟩
    have hu := hsu.sane hs
    refine ⟨hut.steps.sane hu, (hsu.grows hs.numbered).trans (hut.steps.grows hu.numbered), ?_⟩
    rw [hut.references, List.map_append]
    apply List.mem_append_right
    cases hroot : a.root with
    | mk name form rank e as =>
      rw [hroot] at hrows
      obtain ⟨named, below, rfl, -⟩ := hrows
      exact List.mem_cons_self
  · rintro e t (⟨rfl, hinvalid⟩ | ⟨hst, hfails⟩ | ⟨u, hsu, hut, rfl⟩)
    · exact ⟨hs, .refl t, .inr (.inr hinvalid)⟩
    · exact ⟨hst.sane hs, hst.grows hs.numbered, (hfails.halts (hst.sane hs)).imp_right .inl⟩
    · have hu := hsu.sane hs
      exact ⟨hut.sane hu, (hsu.grows hs.numbered).trans (hut.grows hu.numbered), .inl ⟨_, rfl, .inl rfl⟩⟩

end Analysis

end TypeCatalog
