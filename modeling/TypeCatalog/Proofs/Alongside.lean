import TypeCatalog.Proofs.Ledger
import TypeCatalog.Resolve.Reference
import TypeCatalog.Scan.Declarations

namespace TypeCatalog

namespace RowsBecome

variable {C : TypeId → NamedType → NamedType → Prop} {P : NamedType → Prop} {rows later : List (TypeId × NamedType)}
  {p : TypeId × NamedType → Bool}

/-- A look-up that the changes keep and that finds no new row gives the same ids. -/
theorem filter_fst (h : RowsBecome C P rows later) (hp : ∀ id a b, C id a b → p (id, b) = p (id, a))
    (hnew : ∀ id a, P a → p (id, a) = false) : (later.filter p).map (·.1) = (rows.filter p).map (·.1) := by
  induction h with
  | @nil added h =>
    have hnone : added.filter p = [] := by
      rw [List.filter_eq_nil_iff]
      intro r hr
      simp [hnew r.1 r.2 (h r hr)]
    rw [hnone]
    rfl
  | @cons id a b rows later h _ ih =>
    rw [List.filter_cons, List.filter_cons, hp id a b h]
    split
    · rw [List.map_cons, List.map_cons, ih]
    · exact ih

theorem find?_eq_none (h : RowsBecome C (fun _ => False) rows later) {id : TypeId}
    (hid : rows.find? (·.1 == id) = none) : later.find? (·.1 == id) = none := by
  rw [List.find?_eq_none] at hid ⊢
  intro r hr heq
  obtain ⟨a, ha, -⟩ := h.of_mem hr
  exact hid _ ha heq

end RowsBecome

namespace NamedType.Alike

variable {a b c : NamedType}

theorem eq_or (h : a.Alike b) : b = a ∨ ∃ d ps, a = .documented d ∧ b = .documented { d with parameters := ps } := by
  cases a with
  | documented d =>
    obtain ⟨ps, rfl⟩ := h
    exact .inr ⟨d, ps, rfl, rfl⟩
  | external x => exact .inl h
  | parameter p => exact .inl h
  | tuple r => exact .inl h

theorem name (h : a.Alike b) : b.name = a.name := by
  obtain rfl | ⟨d, ps, rfl, rfl⟩ := h.eq_or <;> rfl

theorem external? (h : a.Alike b) : b.external? = a.external? := by
  obtain rfl | ⟨d, ps, rfl, rfl⟩ := h.eq_or <;> rfl

theorem tuple? (h : a.Alike b) : b.tuple? = a.tuple? := by
  obtain rfl | ⟨d, ps, rfl, rfl⟩ := h.eq_or <;> rfl

theorem any_documented? (h : a.Alike b) {p : Documented → Bool}
    (hp : ∀ d ps, p { d with parameters := ps } = p d) : b.documented?.any p = a.documented?.any p := by
  obtain rfl | ⟨d, ps, rfl, rfl⟩ := h.eq_or
  · rfl
  · exact hp d ps

theorem sameIdentity {a' b' : NamedType} (h : a.Alike b) (h' : a'.Alike b') :
    b.sameIdentity b' = a.sameIdentity a' := by
  obtain rfl | ⟨d, ps, rfl, rfl⟩ := h.eq_or <;> obtain rfl | ⟨d', ps', rfl, rfl⟩ := h'.eq_or
  · rfl
  · cases b <;> rfl
  · cases b' <;> rfl
  · rfl

end NamedType.Alike

/-- Rows that are alike to the same ones are alike. -/
theorem RowsBecome.alike {rows later later' : List (TypeId × NamedType)}
    (h : RowsBecome (fun _ => NamedType.Alike) (fun _ => False) rows later)
    (h' : RowsBecome (fun _ => NamedType.Alike) (fun _ => False) rows later') :
    RowsBecome (fun _ => NamedType.Alike) (fun _ => False) later later' := by
  induction h generalizing later' with
  | @nil added h =>
    cases added with
    | nil =>
      cases h' with
      | nil h' => exact .nil h'
    | cons r _ => exact (h r List.mem_cons_self).elim
  | @cons id a b rows later h _ ih =>
    cases h' with
    | @cons _ _ b' _ later' h' rest =>
      refine .cons ?_ (ih rest)
      obtain rfl | ⟨d, ps, rfl, rfl⟩ := h.eq_or
      · exact h'
      · obtain ⟨qs, rfl⟩ := h'
        exact ⟨qs, rfl⟩

namespace Session

theorem chainFrom_of_namespaces {s s' : Session} (h : s'.namespaces = s.namespaces) (n : Nat)
    (id : Option NamespaceId) : s'.chainFrom n id = s.chainFrom n id := by
  induction n generalizing id with
  | zero => cases id <;> rfl
  | succ n ih =>
    cases id with
    | none => rfl
    | some id =>
      unfold chainFrom Session.namespace?
      rw [h]
      split
      · rw [ih]
      · rfl

theorem namespaceChain_of_namespaces {s s' : Session} (h : s'.namespaces = s.namespaces) :
    s'.namespaceChain = s.namespaceChain := by
  funext id
  unfold namespaceChain
  rw [h, chainFrom_of_namespaces h]

/-- What is visible from a type depends on the names and the homes of the types around it. -/
theorem visibleFrom_of_containers {s s' : Session} {id : TypeId} {ds ds' : List (TypeId × Documented)}
    (h : s.containers id = .ok ds) (h' : s'.containers id = .ok ds')
    (hds : ds'.map (fun p => (p.1, p.2.fullName, p.2.home)) = ds.map fun p => (p.1, p.2.fullName, p.2.home))
    (hn : s'.namespaceChain = s.namespaceChain) : s'.visibleFrom id = s.visibleFrom id := by
  unfold visibleFrom
  rw [h, h', hn, ok_bind, ok_bind]
  have hcontexts : ds'.map (fun p => Context.ofType p.2.fullName p.1) =
      ds.map fun p => Context.ofType p.2.fullName p.1 := by
    have := congrArg (List.map fun p => Context.ofType p.2.1 p.1) hds
    rwa [List.map_map, List.map_map] at this
  have hlast : ds'.getLast?.map (·.2.home) = ds.getLast?.map (·.2.home) := by
    have := congrArg (fun l => l.getLast?.map (·.2.2)) hds
    rwa [List.getLast?_map, List.getLast?_map, Option.map_map, Option.map_map] at this
  dsimp only
  rw [hcontexts]
  cases hd : ds.getLast? with
  | none =>
    rw [hd, Option.map_none, Option.map_eq_none_iff] at hlast
    rw [hlast]
  | some p =>
    rw [hd, Option.map_some] at hlast
    obtain ⟨q, hq, hhome⟩ := Option.map_eq_some_iff.mp hlast
    rw [hq]
    dsimp only
    rw [hhome]

/-- Two sessions that show the same rows, except for the type parameters that are loaded. Nothing is said
about their stores, references and usages. -/
structure Alongside (s s' : Session) : Prop where
  namespaces : s'.namespaces = s.namespaces
  globalNamespace : s'.globalNamespace = s.globalNamespace
  files : s'.files = s.files
  rows : RowsBecome (fun _ => NamedType.Alike) (fun _ => False) s.named s'.named
  elements : s'.elements = s.elements

namespace Alongside

variable {s s' : Session}

theorem namespace? (h : s.Alongside s') : s'.namespace? = s.namespace? := by
  unfold Session.namespace?
  rw [h.namespaces]

theorem findNamespace (h : s.Alongside s') : s'.findNamespace = s.findNamespace := by
  unfold Session.findNamespace
  rw [h.namespaces]

theorem sourceFile? (h : s.Alongside s') : s'.sourceFile? = s.sourceFile? := by
  unfold Session.sourceFile?
  rw [h.files]

theorem findSourceFile (h : s.Alongside s') : s'.findSourceFile = s.findSourceFile := by
  unfold Session.findSourceFile
  rw [h.files]

theorem element? (h : s.Alongside s') : s'.element? = s.element? := by
  unfold Session.element?
  rw [h.elements]

theorem globalContext (h : s.Alongside s') : s'.globalContext = s.globalContext := by
  unfold Session.globalContext
  rw [h.globalNamespace]

theorem length_named (h : s.Alongside s') : s'.named.length = s.named.length := by
  rw [← List.length_map (·.1), h.rows.map_fst, List.length_map]

theorem named? (h : s.Alongside s') (id : TypeId) :
    s.named? id = none ∧ s'.named? id = none ∨
      ∃ a b, s.named? id = some a ∧ s'.named? id = some b ∧ a.Alike b := by
  cases ha : s.named? id with
  | none =>
    refine .inl ⟨rfl, ?_⟩
    unfold Session.named? at ha ⊢
    rw [Option.map_eq_none_iff] at ha ⊢
    exact h.rows.find?_eq_none ha
  | some a =>
    obtain ⟨b, hb, hab⟩ := h.rows.find?_fst (find?_of_named?.mp ha)
    exact .inr ⟨a, b, rfl, find?_of_named?.mpr hb, hab⟩

theorem requireNamed (h : s.Alongside s') (id : TypeId) :
    (∃ e, s.requireNamed id = .error e ∧ s'.requireNamed id = .error e) ∨
      ∃ a b, s.requireNamed id = .ok a ∧ s'.requireNamed id = .ok b ∧ a.Alike b := by
  unfold Session.requireNamed
  obtain ⟨ha, hb⟩ | ⟨a, b, ha, hb, hab⟩ := h.named? id
  · rw [ha, hb]
    exact .inl ⟨_, rfl, rfl⟩
  · rw [ha, hb]
    exact .inr ⟨a, b, rfl, rfl, hab⟩

theorem documented (h : s.Alongside s') (id : TypeId) :
    (∃ e, s.documented id = .error e ∧ s'.documented id = .error e) ∨
      ∃ d ps, s.documented id = .ok d ∧ s'.documented id = .ok { d with parameters := ps } := by
  unfold Session.documented
  obtain ⟨e, ha, hb⟩ | ⟨a, b, ha, hb, hab⟩ := h.requireNamed id
  · rw [ha, hb]
    exact .inl ⟨e, rfl, rfl⟩
  · rw [ha, hb]
    obtain rfl | ⟨d, ps, rfl, rfl⟩ := hab.eq_or
    · cases b with
      | documented d => exact .inr ⟨d, d.parameters, rfl, rfl⟩
      | external x => exact .inl ⟨_, rfl, rfl⟩
      | parameter p => exact .inl ⟨_, rfl, rfl⟩
      | tuple r => exact .inl ⟨_, rfl, rfl⟩
    · exact .inr ⟨d, ps, rfl, rfl⟩

theorem isDocumented (h : s.Alongside s') : s'.isDocumented = s.isDocumented := by
  funext id
  unfold Session.isDocumented
  obtain ⟨ha, hb⟩ | ⟨a, b, ha, hb, hab⟩ := h.named? id
  · rw [ha, hb]
  · rw [ha, hb]
    obtain rfl | ⟨d, ps, rfl, rfl⟩ := hab.eq_or <;> rfl

theorem findDocumented (h : s.Alongside s') : s'.findDocumented = s.findDocumented := by
  funext fullName arity
  unfold Session.findDocumented
  rw [← List.head?_filter, ← List.head?_filter, ← List.head?_map, ← List.head?_map]
  refine congrArg List.head? (h.rows.filter_fst ?_ fun _ _ h => h.elim)
  exact fun _ a b hab => hab.any_documented? fun _ _ => rfl

theorem externalCandidates (h : s.Alongside s') : s'.externalCandidates = s.externalCandidates := by
  funext name arity
  refine h.rows.filter_fst (fun _ a b hab => ?_) fun _ _ h => h.elim
  dsimp only
  rw [hab.external?]

theorem tupleCandidates (h : s.Alongside s') : s'.tupleCandidates = s.tupleCandidates := by
  funext count
  refine h.rows.filter_fst (fun _ a b hab => ?_) fun _ _ h => h.elim
  dsimp only
  rw [hab.tuple?]

theorem external? (h : s.Alongside s') (id : TypeId) :
    (s'.named? id).bind NamedType.external? = (s.named? id).bind NamedType.external? := by
  obtain ⟨ha, hb⟩ | ⟨a, b, ha, hb, hab⟩ := h.named? id
  · rw [ha, hb]
  · rw [ha, hb]
    exact hab.external?

theorem tupleElements (h : s.Alongside s') : s'.tupleElements = s.tupleElements := by
  funext id
  unfold Session.tupleElements
  rw [h.element?]
  obtain ⟨ha, hb⟩ | ⟨a, b, ha, hb, hab⟩ := h.named? id
  · rw [ha, hb]
  · rw [ha, hb]
    obtain rfl | ⟨d, ps, rfl, rfl⟩ := hab.eq_or <;> rfl

theorem namespaceChain (h : s.Alongside s') : s'.namespaceChain = s.namespaceChain :=
  namespaceChain_of_namespaces h.namespaces

theorem containersFrom (h : s.Alongside s') (n : Nat) (id : Option TypeId) :
    (∃ e, s.containersFrom n id = .error e ∧ s'.containersFrom n id = .error e) ∨
      ∃ ds ds', s.containersFrom n id = .ok ds ∧ s'.containersFrom n id = .ok ds' ∧
        ds'.map (fun p => (p.1, p.2.fullName, p.2.home)) = ds.map fun p => (p.1, p.2.fullName, p.2.home) := by
  induction n generalizing id with
  | zero => cases id <;> exact .inr ⟨[], [], rfl, rfl, rfl⟩
  | succ n ih =>
    cases id with
    | none => exact .inr ⟨[], [], rfl, rfl, rfl⟩
    | some id =>
      unfold Session.containersFrom
      obtain ⟨e, ha, hb⟩ | ⟨d, ps, ha, hb⟩ := h.documented id
      · rw [ha, hb]
        exact .inl ⟨e, rfl, rfl⟩
      · rw [ha, hb, ok_bind, ok_bind]
        obtain ⟨e, ha, hb⟩ | ⟨ds, ds', ha, hb, hds⟩ := ih d.container
        · rw [ha, hb]
          exact .inl ⟨e, rfl, rfl⟩
        · rw [ha, hb]
          refine .inr ⟨_, _, rfl, rfl, ?_⟩
          rw [List.map_cons, List.map_cons, hds]

theorem visibleFrom (h : s.Alongside s') : s'.visibleFrom = s.visibleFrom := by
  funext id
  have hcontainers := h.containersFrom (s.named.length + 1) (some id)
  obtain ⟨e, ha, hb⟩ | ⟨ds, ds', ha, hb, hds⟩ := hcontainers
  · unfold Session.visibleFrom Session.containers
    rw [h.length_named, ha, hb]
    rfl
  · refine visibleFrom_of_containers ha ?_ hds h.namespaceChain
    unfold Session.containers
    rw [h.length_named, hb]

theorem contexts (h : s.Alongside s') (scope : Scope) (d : Descriptor) :
    scope.contexts s' d = scope.contexts s d := by
  unfold Scope.contexts
  rw [h.isDocumented, h.visibleFrom, h.globalContext]

theorem sameIdentity (h : s.Alongside s') {a b : NamedType} (hab : a.Alike b) (r : Resolved) :
    r.sameIdentity s' b = r.sameIdentity s a := by
  unfold Resolved.sameIdentity
  split
  · next id _ =>
    obtain ⟨e, ha, hb⟩ | ⟨c, d, ha, hb, hcd⟩ := h.requireNamed id
    · rw [ha, hb]
      rfl
    · rw [ha, hb, ok_bind, ok_bind, hab.sameIdentity hcd]
  · rw [hab.name]

theorem matchesFrom (h : s.Alongside s') (n : Nat) (rows : List TupleElement) (ds : List Descriptor)
    (rs : List Resolved) : Find.matchesFrom s' n rows ds rs = Find.matchesFrom s n rows ds rs := by
  induction rows generalizing n ds rs with
  | nil => rfl
  | cons row rows ih =>
    cases ds with
    | nil => rfl
    | cons d ds =>
      cases rs with
      | nil => rfl
      | cons r rs =>
        unfold Find.matchesFrom
        split
        · rfl
        · obtain ⟨e, ha, hb⟩ | ⟨a, b, ha, hb, hab⟩ := h.requireNamed row.elementType
          · rw [ha, hb]
            rfl
          · rw [ha, hb, ok_bind, ok_bind, h.sameIdentity hab]
            simp only [ih]

theorem firstTuple (h : s.Alongside s') (ds : List Descriptor) (rs : List Resolved) (ids : List TypeId) :
    Find.firstTuple s' ds rs ids = Find.firstTuple s ds rs ids := by
  induction ids with
  | nil => rfl
  | cons id ids ih =>
    unfold Find.firstTuple Find.tupleMatches
    simp only [h.tupleElements, h.matchesFrom, ih]

theorem documentedOf (h : s.Alongside s') : s'.documentedOf = s.documentedOf := by
  unfold Session.documentedOf
  rw [h.findDocumented]

open Analysis in
theorem lexicalContexts (h : s.Alongside s') : Analysis.lexicalContexts s' = Analysis.lexicalContexts s := by
  have hspace : namespaceContext s' = namespaceContext s := by
    unfold namespaceContext
    rw [h.findNamespace]
  have htype : typeContext s' = typeContext s := by
    unfold typeContext
    rw [h.findDocumented]
  unfold Analysis.lexicalContexts scopeContexts
  rw [hspace, htype, h.globalContext]

open Analysis in
theorem build (h : s.Alongside s') (fileContexts : List Context) (n : Nat) :
    Analysis.build s' fileContexts n = Analysis.build s fileContexts n := by
  have hname : nameOf s' fileContexts = nameOf s fileContexts := by
    unfold nameOf contextsAt
    rw [h.lexicalContexts]
  induction n with
  | zero => rfl
  | succ n ih =>
    funext c
    unfold Analysis.build
    rw [hname, ih]

theorem contextsOfFile (h : s.Alongside s') : Analysis.contextsOfFile s' = Analysis.contextsOfFile s := by
  unfold Analysis.contextsOfFile
  rw [h.sourceFile?, h.namespace?]

end Alongside

end Session

end TypeCatalog
