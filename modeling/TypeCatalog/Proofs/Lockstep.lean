import TypeCatalog.Proofs.Alongside
import TypeCatalog.Proofs.Cataloguing
import TypeCatalog.Proofs.Resolution

namespace TypeCatalog

/-- Two outcomes that tell the same: related results, or one error. -/
def Tally {α β : Type} (related : α → β → Prop) : Except CatalogError α → Except CatalogError β → Prop
  | .ok a, .ok b => related a b
  | .error e, .error e' => e' = e
  | _, _ => False

namespace Tally

variable {α β γ δ : Type} {V : α → β → Prop} {W : γ → δ → Prop}
  {x : Except CatalogError α} {y : Except CatalogError β}

theorem bind {f : α → Except CatalogError γ} {g : β → Except CatalogError δ} (h : Tally V x y)
    (hf : ∀ a b, V a b → Tally W (f a) (g b)) : Tally W (x >>= f) (y >>= g) := by
  cases x with
  | ok a =>
    cases y with
    | ok b => exact hf a b h
    | error e => exact h.elim
  | error e =>
    cases y with
    | ok b => exact h.elim
    | error e' => exact h

end Tally

/-- The same answer, and related sessions. -/
def Both {α : Type} (R : Session → Session → Prop) (p q : α × Session) : Prop := p.1 = q.1 ∧ R p.2 q.2

namespace Act

variable {ε δ α β : Type}

/-- Two steps in two sessions that tell the same and leave related sessions, unless the first ends with an
error that is excused. -/
def Matches (R : Session → Session → Prop) (excused : ε → Prop) (a b : Act ε α) (s s' : Session) : Prop :=
  match a.outcome s, b.outcome s' with
  | (.ok x, t), (.ok y, t') => y = x ∧ R t t'
  | (.error e, t), (.error e', t') => e' = e ∧ R t t' ∨ excused e
  | (.error e, _), (.ok _, _) => excused e
  | (.ok _, _), (.error _, _) => False

variable {R : Session → Session → Prop} {E : ε → Prop} {s s' : Session}

theorem matches_pure {x : α} (h : R s s') : Matches R E (pure x) (pure x) s s' := ⟨rfl, h⟩

theorem matches_throw {e : ε} (h : R s s') : Matches R E (throw e : Act ε α) (throw e) s s' := .inl ⟨rfl, h⟩

theorem matches_bind {a b : Act ε β} {f g : β → Act ε α} (h : Matches R E a b s s')
    (hf : ∀ x t t', a.outcome s = (.ok x, t) → R t t' → Matches R E (f x) (g x) t t') :
    Matches R E (a >>= f) (b >>= g) s s' := by
  unfold Matches at h ⊢
  rw [outcome_bind, outcome_bind]
  revert hf
  generalize a.outcome s = r at h ⊢
  generalize b.outcome s' = r' at h ⊢
  intro hf
  rcases r with ⟨e | x, t⟩ <;> rcases r' with ⟨e' | x', t'⟩ <;> dsimp only at h ⊢
  · exact h
  · generalize (g x').outcome t' = q
    rcases q with ⟨e' | y, u⟩
    · exact .inr h
    · exact h
  · obtain ⟨rfl, hR⟩ := h
    exact hf x' t t' rfl hR

theorem matches_get_bind {f g : Session → Act ε α} (h : Matches R E (f s) (g s') s s') :
    Matches R E (get >>= f) (get >>= g) s s' := by
  unfold Matches at h ⊢
  rw [outcome_bind, outcome_bind]
  exact h

theorem matches_perform {wrap : CatalogError → ε} {op op' : Session → Except CatalogError (α × Session)}
    (hR : R s s') (h : Tally (Both R) (op s) (op' s')) :
    Matches R E (perform wrap op) (perform wrap op') s s' := by
  apply matches_get_bind
  generalize op s = x at h
  generalize op' s' = y at h
  rcases x with e | ⟨x, t⟩ <;> rcases y with e' | ⟨y, t'⟩
  · exact .inl ⟨congrArg wrap h, hR⟩
  · exact h.elim
  · exact h.elim
  · exact ⟨h.1.symm, h.2⟩

theorem matches_of_excused {a b : Act ε α} {e : ε} (h : (a.outcome s).1 = .error e) (he : E e) :
    Matches R E a b s s' := by
  unfold Matches
  generalize a.outcome s = r at h ⊢
  generalize b.outcome s' = r'
  rcases r with ⟨e | x, t⟩
  · cases h
    rcases r' with ⟨e' | x', t'⟩
    · exact .inr he
    · exact he
  · cases h

theorem matches_query_bind {wrap : CatalogError → ε} {q : Session → Except CatalogError β} {f g : β → Act ε α}
    (hR : R s s') (h : (∃ e, q s = .error e ∧ q s' = .error e) ∨
      ∃ x y, q s = .ok x ∧ q s' = .ok y ∧ Matches R E (f x) (g y) s s') :
    Matches R E (query wrap q >>= f) (query wrap q >>= g) s s' := by
  unfold Matches
  rw [outcome_bind, outcome_bind, outcome_query, outcome_query]
  obtain ⟨e, hs, hs'⟩ | ⟨x, y, hs, hs', h⟩ := h
  · rw [hs, hs']
    exact .inl ⟨rfl, hR⟩
  · rw [hs, hs']
    exact h

theorem matches_query {wrap : CatalogError → ε} {q : Session → Except CatalogError α} (hR : R s s')
    (h : q s' = q s) : Matches R E (query wrap q) (query wrap q) s s' := by
  apply matches_get_bind
  rw [h]
  cases q s with
  | ok x => exact matches_pure hR
  | error e => exact matches_throw hR

theorem Matches.mono {R' : Session → Session → Prop} {E' : ε → Prop} {a b : Act ε α} (h : Matches R E a b s s')
    (hR : ∀ x t t', a.outcome s = (x, t) → R t t' → R' t t')
    (hE : ∀ e t, a.outcome s = (.error e, t) → E e → E' e) : Matches R' E' a b s s' := by
  unfold Matches at h ⊢
  generalize a.outcome s = r at h hR hE ⊢
  generalize b.outcome s' = r' at h ⊢
  rcases r with ⟨e | x, t⟩ <;> rcases r' with ⟨e' | x', t'⟩ <;> dsimp only at h ⊢
  · exact h.imp (fun h => ⟨h.1, hR _ _ _ rfl h.2⟩) (hE e t rfl)
  · exact hE e t rfl h
  · exact ⟨h.1, hR _ _ _ rfl h.2⟩

theorem matches_mapError {F : δ → Prop} {f : δ → ε} {a b : Act δ α} (h : Matches R F a b s s')
    (hF : ∀ e, F e → E (f e)) : Matches R E (a.mapError f) (b.mapError f) s s' := by
  unfold Matches at h ⊢
  rw [outcome_mapError, outcome_mapError]
  generalize a.outcome s = r at h ⊢
  generalize b.outcome s' = r' at h ⊢
  rcases r with ⟨e | x, t⟩ <;> rcases r' with ⟨e' | x', t'⟩ <;> dsimp only at h ⊢
  · exact h.imp (fun h => ⟨by rw [h.1], h.2⟩) (hF e)
  · exact hF e h
  · exact h

theorem matches_attempt {a b : Act δ α} (h : Matches R (fun _ => False) a b s s') :
    Matches R E (a.attempt : Act ε (Except δ α)) b.attempt s s' := by
  unfold Matches at h ⊢
  rw [outcome_attempt, outcome_attempt]
  generalize a.outcome s = r at h ⊢
  generalize b.outcome s' = r' at h ⊢
  rcases r with ⟨e | x, t⟩ <;> rcases r' with ⟨e' | x', t'⟩ <;> dsimp only at h ⊢
  · obtain ⟨rfl, hR⟩ := h.resolve_right id
    exact ⟨rfl, hR⟩
  · exact ⟨by rw [h.1], h.2⟩

theorem matches_foldlM {f : β → α → Act ε β} {xs : List α}
    (hstep : ∀ b t t', ∀ x ∈ xs, R t t' → Matches R E (f b x) (f b x) t t') {b : β} (h : R s s') :
    Matches R E (xs.foldlM f b) (xs.foldlM f b) s s' := by
  induction xs generalizing b s s' with
  | nil => exact matches_pure h
  | cons x xs ih =>
    rw [List.foldlM_cons]
    apply matches_bind (hstep b s s' x List.mem_cons_self h)
    intro c t t' _ hR
    exact ih (fun b t t' y hy => hstep b t t' y (List.mem_cons_of_mem x hy)) hR

theorem Matches.eq {a b : Act ε α} (h : Matches R (fun _ => False) a b s s') :
    (b.outcome s').1 = (a.outcome s).1 ∧ R (a.outcome s).2 (b.outcome s').2 := by
  unfold Matches at h
  generalize a.outcome s = r at h ⊢
  generalize b.outcome s' = r' at h ⊢
  rcases r with ⟨e | x, t⟩ <;> rcases r' with ⟨e' | x', t'⟩ <;> dsimp only at h ⊢
  · obtain ⟨rfl, hR⟩ := h.resolve_right id
    exact ⟨rfl, hR⟩
  · obtain ⟨rfl, hR⟩ := h
    exact ⟨rfl, hR⟩

end Act

/-- A relation between sessions that every operation keeps, with the same answers on both sides. -/
structure Simulation (R : Session → Session → Prop) (excused : CatalogError → Prop) : Prop where
  alongside : ∀ {s s' : Session}, R s s' → s.Alongside s'
  addNamespace : ∀ {s s' : Session}, R s s' → ∀ name parent,
    Tally (Both R) (s.addNamespace name parent) (s'.addNamespace name parent)
  addSourceFile : ∀ {s s' : Session}, R s s' → ∀ path usings,
    Tally (Both R) (s.addSourceFile path usings) (s'.addSourceFile path usings)
  addNamed : ∀ {s s' : Session}, R s s' → ∀ a : NamedType, a.WellFormed →
    Tally (Both R) (s.addNamed a) (s'.addNamed a)
  addTuple : ∀ {s s' : Session}, R s s' → ∀ name es,
    Tally (Both R) (s.addTuple name es) (s'.addTuple name es)
  extendExternal : ∀ {s s' : Session}, R s s' → ∀ id names,
    Tally (Both R) (s.extendExternal id names) (s'.extendExternal id names)
  addReference : ∀ {s s' : Session}, R s s' → ∀ named rank parent,
    Tally (Both R) (s.addReference named rank parent) (s'.addReference named rank parent)
  addUsage : ∀ {s s' : Session}, R s s' → ∀ owner reference role member,
    Tally (Both R) (s.addUsage owner reference role member) (s'.addUsage owner reference role member)
  ensureParameters : ∀ {s s' : Session}, R s s' → ∀ id,
    Tally (Both R) (s.ensureParameters id) (s'.ensureParameters id)
  save : ∀ {s s' : Session}, R s s' → (Tally (Both R) s.save s'.save ∨ ∃ e, s.save = .error e ∧ excused e)

namespace Simulation

variable {R : Session → Session → Prop} {E : CatalogError → Prop} {s s' : Session}

/-! Cataloguing -/

theorem ensureWithin (h : Simulation R E) (hR : R s s') (name : String) (outer : List String) :
    Tally (Both R) (s.ensureWithin name outer) (s'.ensureWithin name outer) := by
  induction outer generalizing s s' name with
  | nil =>
    unfold Session.ensureWithin
    rw [(h.alongside hR).findNamespace]
    split
    · exact ⟨rfl, hR⟩
    · exact h.addNamespace hR name none
  | cons o os ih =>
    unfold Session.ensureWithin
    rw [(h.alongside hR).findNamespace]
    split
    · exact ⟨rfl, hR⟩
    · refine (ih hR o).bind ?_
      rintro ⟨parent, t⟩ ⟨_, t'⟩ ⟨rfl, hR'⟩
      exact h.addNamespace hR' name (some parent)

theorem ensureNamespaces (h : Simulation R E) (hR : R s s') (names : List String) :
    Tally (Both R) (s.ensureNamespaces names) (s'.ensureNamespaces names) := by
  induction names generalizing s s' with
  | nil => exact ⟨rfl, hR⟩
  | cons name names ih =>
    unfold Session.ensureNamespaces
    refine (h.ensureWithin hR name _).bind ?_
    rintro ⟨id, t⟩ ⟨_, t'⟩ ⟨rfl, hR⟩
    refine (ih hR).bind ?_
    rintro ⟨ids, u⟩ ⟨_, u'⟩ ⟨rfl, hR⟩
    exact ⟨rfl, hR⟩

theorem enterType (h : Simulation R E) (hR : R s s') (file : FileId) (container : Option TypeId) (c : Cursor) :
    Tally (Both R) (Declarations.enterType file container c s) (Declarations.enterType file container c s') := by
  unfold Declarations.enterType
  rw [(h.alongside hR).findDocumented]
  split
  · dsimp only
    split
    · exact ⟨rfl, hR⟩
    · refine (h.ensureWithin hR _ _).bind ?_
      rintro ⟨home, t⟩ ⟨_, t'⟩ ⟨rfl, hR⟩
      have hadd (d : Documented) (hd : d.Declared) :
          Tally (Both R) (t.addDocumented d) (t'.addDocumented d) := h.addNamed hR (.documented d) hd
      refine Tally.bind (hadd _ ?_) ?_
      · exact ⟨c.typeParameters, rfl, c.map_ordinal_typeParameters⟩
      · rintro ⟨id, u⟩ ⟨_, u'⟩ ⟨rfl, hR⟩
        exact ⟨rfl, hR⟩
  · exact ⟨rfl, hR⟩

mutual

theorem visit (h : Simulation R E) {s s' : Session} (hR : R s s') (file : FileId) (above : List Node)
    (container : Option TypeId) (n : Node) :
    Tally (Both R) (Declarations.visit file above container s n) (Declarations.visit file above container s' n) := by
  match n with
  | .mk i cs =>
    unfold Declarations.visit
    dsimp only
    split
    · refine Tally.bind (V := R) ?_ ?_
      · unfold Declarations.enterNamespace
        refine (h.ensureNamespaces hR _).bind ?_
        rintro ⟨ids, t⟩ ⟨_, t'⟩ ⟨rfl, hR⟩
        exact hR
      · exact fun t t' hR => visitAll h hR file _ container cs
    · split
      · refine (h.enterType hR file container _).bind ?_
        rintro ⟨id?, t⟩ ⟨_, t'⟩ ⟨rfl, hR⟩
        cases id? with
        | none => exact visitAll h hR file _ container cs
        | some id =>
          refine (visitAll h hR file _ (some id) cs).bind ?_
          rintro ⟨k, u⟩ ⟨_, u'⟩ ⟨rfl, hR⟩
          exact ⟨rfl, hR⟩
      · exact visitAll h hR file _ container cs

theorem visitAll (h : Simulation R E) {s s' : Session} (hR : R s s') (file : FileId) (above : List Node)
    (container : Option TypeId) (ns : List Node) :
    Tally (Both R) (Declarations.visitAll file above container s ns)
      (Declarations.visitAll file above container s' ns) := by
  match ns with
  | [] =>
    unfold Declarations.visitAll
    exact ⟨rfl, hR⟩
  | n :: ns =>
    unfold Declarations.visitAll
    have hrest {k : Nat} {t t' : Session} (hR : R t t') :
        Tally (Both R) (Declarations.visitAll file above container t ns >>= fun r => pure (k + r.1, r.2))
          (Declarations.visitAll file above container t' ns >>= fun r => pure (k + r.1, r.2)) := by
      refine (visitAll h hR file above container ns).bind ?_
      rintro ⟨m, u⟩ ⟨_, u'⟩ ⟨rfl, hR⟩
      exact ⟨rfl, hR⟩
    dsimp only
    split
    · refine (visit h hR file above container n).bind ?_
      rintro ⟨k, t⟩ ⟨_, t'⟩ ⟨rfl, hR⟩
      exact hrest hR
    · exact hrest hR

end

theorem catalog (h : Simulation R E) (hR : R s s') (u : SourceUnit) :
    Tally (Both R) (u.catalog s) (u.catalog s') := by
  unfold SourceUnit.catalog
  rw [(h.alongside hR).findSourceFile]
  split
  · exact ⟨rfl, hR⟩
  · refine (h.ensureNamespaces hR _).bind ?_
    rintro ⟨usings, t⟩ ⟨_, t'⟩ ⟨rfl, hR⟩
    refine (h.addSourceFile hR u.path usings).bind ?_
    rintro ⟨file, t⟩ ⟨_, t'⟩ ⟨rfl, hR⟩
    refine (h.visit hR file [] none u.root).bind ?_
    rintro ⟨types, t⟩ ⟨_, t'⟩ ⟨rfl, hR⟩
    exact ⟨rfl, hR⟩

/-! Analyses -/

section

variable {α : Type} {F : AnalyzeError → Prop} {G : ResolveError → Prop}

theorem containerParameters (h : Simulation R E) (hR : R s s') (container : TypeId) :
    Act.Matches R F (Analysis.containerParameters container) (Analysis.containerParameters container) s s' := by
  unfold Analysis.containerParameters
  apply Act.matches_get_bind
  obtain ⟨ha, hb⟩ | ⟨a, b, ha, hb, hab⟩ := (h.alongside hR).named? container
  · rw [ha, hb]
    exact Act.matches_throw hR
  · rw [ha, hb]
    obtain rfl | ⟨d, ps, rfl, rfl⟩ := hab.eq_or
    · cases b with
      | documented d =>
        dsimp only
        split
        · exact Act.matches_perform hR (h.ensureParameters hR container)
        · exact Act.matches_pure hR
      | external x => exact Act.matches_throw hR
      | parameter p => exact Act.matches_throw hR
      | tuple r => exact Act.matches_throw hR
    · dsimp only
      split
      · exact Act.matches_perform hR (h.ensureParameters hR container)
      · exact Act.matches_pure hR

theorem ofNode (h : Simulation R E) (hR : R s s') (u : SourceUnit) (container : TypeId) (allowCreate : Bool)
    (c : Cursor) :
    Act.Matches R F (Analysis.ofNode u container allowCreate c) (Analysis.ofNode u container allowCreate c) s s' := by
  unfold Analysis.ofNode
  apply Act.matches_get_bind
  rw [(h.alongside hR).findSourceFile]
  split
  · exact Act.matches_throw hR
  · next file _ =>
    refine Act.matches_bind (h.containerParameters hR container) ?_
    intro parameters t t' _ hR
    apply Act.matches_get_bind
    rw [(h.alongside hR).contextsOfFile]
    split
    · exact Act.matches_throw hR
    · rw [(h.alongside hR).build]
      split
      · exact Act.matches_throw hR
      · exact Act.matches_pure hR

/-! Resolutions -/

theorem parameterFrom (h : Simulation R E) (hR : R s s') (name : String) (n : Nat) (id? : Option TypeId) :
    Act.Matches R G (Find.parameterFrom name n id?) (Find.parameterFrom name n id?) s s' := by
  induction n generalizing s s' id? with
  | zero => cases id? <;> exact Act.matches_pure hR
  | succ n ih =>
    cases id? with
    | none => exact Act.matches_pure hR
    | some id =>
      unfold Find.parameterFrom
      apply Act.matches_query_bind hR
      obtain herror | ⟨d, ps, hd, hd'⟩ := (h.alongside hR).documented id
      · exact .inl herror
      · refine .inr ⟨_, _, hd, hd', ?_⟩
        dsimp only
        split
        · refine Act.matches_bind (Act.matches_perform hR (h.ensureParameters hR id)) ?_
          intro qs t t' _ hR
          split
          · exact Act.matches_pure hR
          · exact ih hR d.container
        · refine Act.matches_bind (Act.matches_pure hR) ?_
          intro qs t t' _ hR
          split
          · exact Act.matches_pure hR
          · exact ih hR d.container

theorem parameter (h : Simulation R E) (hR : R s s') (scope : Scope) (d : Descriptor) :
    Act.Matches R G (Find.parameter scope d) (Find.parameter scope d) s s' := by
  unfold Find.parameter
  apply Act.matches_get_bind
  rw [(h.alongside hR).isDocumented, (h.alongside hR).length_named]
  split
  · refine Act.matches_bind (h.parameterFrom hR _ _ _) ?_
    intro target t t' _ hR
    exact Act.matches_pure hR
  · exact Act.matches_pure hR

theorem external (h : Simulation R E) (hR : R s s') (scope : Scope) (d : Descriptor)
    (contexts : Option (List Context)) :
    Act.Matches R G (Find.external scope d contexts) (Find.external scope d contexts) s s' := by
  unfold Find.external
  apply Act.matches_get_bind
  dsimp only
  rw [(h.alongside hR).externalCandidates]
  simp only [(h.alongside hR).external?]
  split
  · exact Act.matches_pure hR
  · split
    · refine Act.matches_bind (Act.matches_perform hR
        (h.addNamed hR (.external _) Find.ascending_effectiveNamespaces)) ?_
      intro id t t' _ hR
      exact Act.matches_pure hR
    · exact Act.matches_pure hR

theorem commit (h : Simulation R E) (hR : R s s') (r : Resolved) : Tally (Both R) (r.commit s) (r.commit s') := by
  unfold Resolved.commit
  split
  · split
    · exact ⟨rfl, hR⟩
    · refine (h.extendExternal hR _ _).bind ?_
      rintro ⟨n, t⟩ ⟨_, t'⟩ ⟨rfl, hR⟩
      exact ⟨rfl, hR⟩
  · exact h.addNamed hR (.parameter _) trivial

theorem commitElements (h : Simulation R E) (hR : R s s') (n : Nat) (ds : List Descriptor) (rs : List Resolved) :
    Act.Matches R G (Find.commitElements n ds rs) (Find.commitElements n ds rs) s s' := by
  induction ds generalizing s s' n rs with
  | nil => exact Act.matches_pure hR
  | cons d ds ih =>
    cases rs with
    | nil => exact Act.matches_pure hR
    | cons r rs =>
      unfold Find.commitElements
      refine Act.matches_bind (Act.matches_perform hR (h.commit hR r)) ?_
      intro id t t' _ hR
      refine Act.matches_bind (ih hR (n + 1) rs) ?_
      intro x u u' _ hR
      exact Act.matches_pure hR

theorem tuple (h : Simulation R E) (hR : R s s') (hG : ∀ e, E e → G (.catalog e)) (scope : Scope)
    (d : Descriptor) (rs : List Resolved) :
    Act.Matches R G (Find.tuple scope d rs) (Find.tuple scope d rs) s s' := by
  unfold Find.tuple
  apply Act.matches_get_bind
  dsimp only
  rw [(h.alongside hR).tupleCandidates]
  refine Act.matches_bind (Act.matches_query hR ((h.alongside hR).firstTuple _ _ _)) ?_
  intro found t t' _ hR
  split
  · exact Act.matches_pure hR
  · split
    · refine Act.matches_bind (h.commitElements hR 0 d.arguments rs) ?_
      rintro ⟨rows, done⟩ u u' _ hR
      refine Act.matches_bind (Act.matches_perform hR (h.addTuple hR d.name rows)) ?_
      intro id v v' _ hR
      refine Act.matches_bind ?_ fun _ w w' _ hR => Act.matches_pure hR
      rcases h.save hR with hsave | ⟨e, hsave, he⟩
      · exact Act.matches_perform hR hsave
      · apply Act.matches_of_excused _ (hG e he)
        rw [Act.outcome_perform, hsave]
    · exact Act.matches_pure hR

theorem plain (h : Simulation R E) (hR : R s s') (scope : Scope) (d : Descriptor) (r : Resolver) :
    Act.Matches R G (Find.plain scope d r) (Find.plain scope d r) s s' := by
  cases r with
  | documented =>
    unfold Find.plain
    refine Act.matches_bind (Act.matches_query hR ((h.alongside hR).contexts scope d)) ?_
    intro contexts t t' _ hR
    apply Act.matches_get_bind
    unfold Find.documented
    rw [(h.alongside hR).findDocumented]
    exact Act.matches_pure hR
  | parameter =>
    unfold Find.plain
    exact h.parameter hR scope d
  | external =>
    unfold Find.plain
    refine Act.matches_bind (Act.matches_query hR ((h.alongside hR).contexts scope d)) ?_
    intro contexts t t' _ hR
    exact h.external hR scope d contexts
  | tuple => exact Act.matches_pure hR

theorem first (h : Simulation R E) (hR : R s s') (scope : Scope) (d : Descriptor) (rs : List Resolver) :
    Act.Matches R G (Find.first scope d rs) (Find.first scope d rs) s s' := by
  induction rs generalizing s s' with
  | nil => exact Act.matches_pure hR
  | cons r rs ih =>
    unfold Find.first
    refine Act.matches_bind (h.plain hR scope d r) ?_
    intro found t t' _ hR
    split
    · exact Act.matches_pure hR
    · exact ih hR

mutual

theorem resolveOne (h : Simulation R E) {s s' : Session} (hR : R s s') (hG : ∀ e, E e → G (.catalog e))
    (chain : Chain) (scope : Scope) (d : Descriptor) :
    Act.Matches R G (chain.resolve scope d) (chain.resolve scope d) s s' := by
  match d with
  | .mk name form rank e as =>
    unfold Chain.resolve
    dsimp only
    have hlast {found : Option Resolved} {t t' : Session} (hR : R t t') : Act.Matches R G
        (match found with
          | some r => pure r
          | none => throw (.unresolved (Descriptor.mk name form rank e as).display))
        (match found with
          | some r => pure r
          | none => throw (.unresolved (Descriptor.mk name form rank e as).display)) t t' := by
      cases found with
      | none => exact Act.matches_throw hR
      | some r => exact Act.matches_pure hR
    split
    · split
      · exact Act.matches_throw hR
      · refine Act.matches_bind (resolveAll h hR hG chain scope as) ?_
        intro rs t t' _ hR
        refine Act.matches_bind (h.tuple hR hG scope _ rs) ?_
        intro found u u' _ hR
        exact hlast hR
    · refine Act.matches_bind (h.first hR scope _ chain.order) ?_
      intro found t t' _ hR
      exact hlast hR

theorem resolveAll (h : Simulation R E) {s s' : Session} (hR : R s s') (hG : ∀ e, E e → G (.catalog e))
    (chain : Chain) (scope : Scope) (ds : List Descriptor) :
    Act.Matches R G (chain.resolveAll scope ds) (chain.resolveAll scope ds) s s' := by
  match ds with
  | [] =>
    unfold Chain.resolveAll
    exact Act.matches_pure hR
  | d :: ds =>
    unfold Chain.resolveAll
    refine Act.matches_bind (resolveOne h hR hG chain scope d) ?_
    intro r t t' _ hR
    refine Act.matches_bind (resolveAll h hR hG chain scope ds) ?_
    intro rs u u' _ hR
    exact Act.matches_pure hR

end

mutual

theorem bindTree (h : Simulation R E) {s s' : Session} (hR : R s s') (hG : ∀ e, E e → G (.catalog e))
    (chain : Chain) (scope : Scope) (r : Resolved) (d : Descriptor) :
    Act.Matches R G (chain.bindTree scope r d) (chain.bindTree scope r d) s s' := by
  match d with
  | .mk name form rank e as =>
    unfold Chain.bindTree
    refine Act.matches_bind (bindArguments h hR hG chain scope _ as) ?_
    intro children t t' _ hR
    exact Act.matches_pure hR

theorem bindArguments (h : Simulation R E) {s s' : Session} (hR : R s s') (hG : ∀ e, E e → G (.catalog e))
    (chain : Chain) (scope : Scope) (ready : List Resolved) (ds : List Descriptor) :
    Act.Matches R G (chain.bindArguments scope ready ds) (chain.bindArguments scope ready ds) s s' := by
  match ds with
  | [] =>
    unfold Chain.bindArguments
    exact Act.matches_pure hR
  | d :: ds =>
    unfold Chain.bindArguments
    have hrest {r : Resolved} {t t' : Session} (hR : R t t') : Act.Matches R G
        (do let child ← chain.bindTree scope r d
            let children ← chain.bindArguments scope ready.tail ds
            return child :: children)
        (do let child ← chain.bindTree scope r d
            let children ← chain.bindArguments scope ready.tail ds
            return child :: children) t t' := by
      refine Act.matches_bind (bindTree h hR hG chain scope r d) ?_
      intro child u u' _ hR
      refine Act.matches_bind (bindArguments h hR hG chain scope ready.tail ds) ?_
      intro children v v' _ hR
      exact Act.matches_pure hR
    cases ready with
    | nil =>
      refine Act.matches_bind (resolveOne h hR hG chain scope d) ?_
      intro r t t' _ hR
      exact hrest hR
    | cons r ready => exact hrest hR

end

mutual

theorem stage (h : Simulation R E) {s s' : Session} (hR : R s s') (parent : Option ReferenceId) (b : Binding) :
    Act.Matches R G (Binding.stage parent b) (Binding.stage parent b) s s' := by
  match b with
  | .mk r rank children =>
    unfold Binding.stage
    refine Act.matches_bind (Act.matches_perform hR (h.commit hR r)) ?_
    intro named t t' _ hR
    refine Act.matches_bind (Act.matches_perform hR (h.addReference hR named rank parent)) ?_
    intro id u u' _ hR
    refine Act.matches_bind (stageAll h hR id children) ?_
    intro _ v v' _ hR
    exact Act.matches_pure hR

theorem stageAll (h : Simulation R E) {s s' : Session} (hR : R s s') (parent : ReferenceId) (bs : List Binding) :
    Act.Matches R G (Binding.stageAll parent bs) (Binding.stageAll parent bs) s s' := by
  match bs with
  | [] =>
    unfold Binding.stageAll
    exact Act.matches_pure hR
  | b :: bs =>
    unfold Binding.stageAll
    refine Act.matches_bind (stage h hR (some parent) b) ?_
    intro _ t t' _ hR
    exact stageAll h hR parent bs

end

theorem resolve (h : Simulation R E) (hR : R s s') (hG : ∀ e, E e → G (.catalog e)) (chain : Chain)
    (a : Analysis) : Act.Matches R G (a.resolve chain) (a.resolve chain) s s' := by
  unfold Analysis.resolve
  apply Act.matches_get_bind
  rw [(h.alongside hR).isDocumented, (h.alongside hR).sourceFile?]
  dsimp only
  split
  · exact Act.matches_bind (Act.matches_throw hR) fun _ _ _ hok => by cases hok
  · split
    · exact Act.matches_bind (Act.matches_throw hR) fun _ _ _ hok => by cases hok
    · refine Act.matches_bind (h.resolveOne hR hG chain a.scope a.root) ?_
      intro r t t' _ hR
      refine Act.matches_bind (h.bindTree hR hG chain a.scope r a.root) ?_
      intro tree u u' _ hR
      exact h.stage hR none tree

end

end Simulation

end TypeCatalog
