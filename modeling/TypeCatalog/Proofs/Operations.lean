import TypeCatalog.Proofs.Run

namespace TypeCatalog

namespace Counter

variable {e : Entity} {c c' : Counter e} {i : RowId e}

theorem next_ok (h : c.next = .ok (i, c')) :
    c.used + 1 < RowId.largest ∧ i = ⟨c.used + 1⟩ ∧ c' = ⟨c.used + 1⟩ := by
  unfold next at h
  split at h
  · simp only [Except.ok.injEq, Prod.mk.injEq] at h
    exact ⟨by assumption, h.1.symm, h.2.symm⟩
  · simp at h

end Counter

namespace Session

variable {s t : Session}

theorem draw_ok {e : Entity} {c c' : Counter e} {i : RowId e} (h : draw c = .ok (i, c')) :
    c.used + 1 < RowId.largest ∧ i = ⟨c.used + 1⟩ ∧ c' = ⟨c.used + 1⟩ := by
  apply Counter.next_ok
  unfold draw at h
  cases hn : c.next with
  | error d =>
    rw [hn] at h
    cases h
  | ok r =>
    rw [hn] at h
    cases h
    rfl

theorem draw_error {e : Entity} {c : Counter e} {d : CatalogError} (h : draw c = .error d) :
    d = .exhausted .counter := by
  unfold draw Counter.next at h
  split at h
  · cases h
  · cases h
    rfl

/-- Every operation that adds a row begins by drawing its id. -/
theorem draw_bind_ok {e : Entity} {α : Type} {c : Counter e}
    {f : RowId e × Counter e → Except CatalogError α} {a : α} (h : (draw c >>= f) = .ok a) :
    c.used + 1 < RowId.largest ∧ f (⟨c.used + 1⟩, ⟨c.used + 1⟩) = .ok a := by
  obtain ⟨⟨i, d⟩, hd, h⟩ := bind_eq_ok.mp h
  obtain ⟨hroom, rfl, rfl⟩ := draw_ok hd
  exact ⟨hroom, h⟩

theorem draw_bind_error {e : Entity} {α : Type} {c : Counter e}
    {f : RowId e × Counter e → Except CatalogError α} {d : CatalogError}
    (h : (draw c >>= f) = .error d) :
    d = .exhausted .counter ∨ ∃ r, f r = .error d := by
  obtain h | ⟨r, _, h⟩ := bind_eq_error.mp h
  · exact .inl (draw_error h)
  · exact .inr ⟨r, h⟩

/-! What an operation that succeeds leaves, and how it can fail. -/

theorem addNamespace_ok {name : String} {parent : Option NamespaceId} {id : NamespaceId}
    (h : s.addNamespace name parent = .ok (id, t)) :
    s.namespaceIds.used + 1 < RowId.largest ∧ id = ⟨s.namespaceIds.used + 1⟩ ∧
      t = { s with
        namespaceIds := ⟨s.namespaceIds.used + 1⟩
        namespaces := s.namespaces ++ [{ id := ⟨s.namespaceIds.used + 1⟩, name, parent }]
        pending := { s.pending with
          namespaces := s.pending.namespaces ++ [⟨s.namespaceIds.used + 1⟩] } } := by
  obtain ⟨hroom, h⟩ := draw_bind_ok h
  cases h
  exact ⟨hroom, rfl, rfl⟩

theorem addNamespace_error {name : String} {parent : Option NamespaceId} {e : CatalogError}
    (h : s.addNamespace name parent = .error e) : e = .exhausted .counter := by
  obtain h | ⟨r, h⟩ := draw_bind_error h
  · exact h
  · cases h

/-- What the addition of a namespace preserves is preserved when a namespace is found or added together
with those around it. -/
theorem ensureWithin_induction {P : Session → Prop}
    (hstep : ∀ s name parent id t, P s → s.addNamespace name parent = .ok (id, t) → P t) {name : String}
    {outer : List String} {id : NamespaceId} (hs : P s) (h : s.ensureWithin name outer = .ok (id, t)) : P t := by
  induction outer generalizing s t name id with
  | nil =>
    unfold ensureWithin at h
    split at h
    · cases h
      exact hs
    · exact hstep _ _ _ _ _ hs h
  | cons o os ih =>
    unfold ensureWithin at h
    split at h
    · cases h
      exact hs
    · obtain ⟨⟨parent, u⟩, hu, h⟩ := bind_eq_ok.mp h
      exact hstep _ _ _ _ _ (ih hs hu) h

theorem addSourceFile_ok {path : Path} {usings : List NamespaceId} {id : FileId}
    (h : s.addSourceFile path usings = .ok (id, t)) :
    s.fileIds.used + 1 < RowId.largest ∧ id = ⟨s.fileIds.used + 1⟩ ∧
      t = { s with
        fileIds := ⟨s.fileIds.used + 1⟩
        files := s.files ++ [{ id := ⟨s.fileIds.used + 1⟩, path, usings }]
        pending := { s.pending with files := s.pending.files ++ [⟨s.fileIds.used + 1⟩] } } := by
  obtain ⟨hroom, h⟩ := draw_bind_ok h
  cases h
  exact ⟨hroom, rfl, rfl⟩

theorem addSourceFile_error {path : Path} {usings : List NamespaceId} {e : CatalogError}
    (h : s.addSourceFile path usings = .error e) : e = .exhausted .counter := by
  obtain h | ⟨r, h⟩ := draw_bind_error h
  · exact h
  · cases h

theorem addNamed_ok {type : NamedType} {id : TypeId} (h : s.addNamed type = .ok (id, t)) :
    s.namedIds.used + 1 < RowId.largest ∧ id = ⟨s.namedIds.used + 1⟩ ∧
      t = { s with
        namedIds := ⟨s.namedIds.used + 1⟩
        named := s.named ++ [(⟨s.namedIds.used + 1⟩, type)]
        pending := { s.pending with named := s.pending.named ++ [⟨s.namedIds.used + 1⟩] } } := by
  obtain ⟨hroom, h⟩ := draw_bind_ok h
  cases h
  exact ⟨hroom, rfl, rfl⟩

theorem addNamed_error {type : NamedType} {e : CatalogError} (h : s.addNamed type = .error e) :
    e = .exhausted .counter := by
  obtain h | ⟨r, h⟩ := draw_bind_error h
  · exact h
  · cases h

theorem addReference_ok {named : TypeId} {rank : Nat} {parent : Option ReferenceId} {id : ReferenceId}
    (h : s.addReference named rank parent = .ok (id, t)) :
    s.referenceIds.used + 1 < RowId.largest ∧ id = ⟨s.referenceIds.used + 1⟩ ∧
      t = { s with
        referenceIds := ⟨s.referenceIds.used + 1⟩
        references := s.references ++ [{ id := ⟨s.referenceIds.used + 1⟩, named, rank, parent }]
        pending := { s.pending with
          references := s.pending.references ++ [⟨s.referenceIds.used + 1⟩] } } := by
  obtain ⟨hroom, h⟩ := draw_bind_ok h
  cases h
  exact ⟨hroom, rfl, rfl⟩

theorem addReference_error {named : TypeId} {rank : Nat} {parent : Option ReferenceId}
    {e : CatalogError} (h : s.addReference named rank parent = .error e) :
    e = .exhausted .counter := by
  obtain h | ⟨r, h⟩ := draw_bind_error h
  · exact h
  · cases h

theorem addUsage_ok {owner : TypeId} {reference : ReferenceId} {role : Role} {member : Option String}
    {id : UsageId} (h : s.addUsage owner reference role member = .ok (id, t)) :
    s.usageIds.used + 1 < RowId.largest ∧ id = ⟨s.usageIds.used + 1⟩ ∧
      t = { s with
        usageIds := ⟨s.usageIds.used + 1⟩
        usages := s.usages ++ [{ id := ⟨s.usageIds.used + 1⟩, owner, reference, role, member }]
        pending := { s.pending with usages := s.pending.usages ++ [⟨s.usageIds.used + 1⟩] } } := by
  obtain ⟨hroom, h⟩ := draw_bind_ok h
  cases h
  exact ⟨hroom, rfl, rfl⟩

theorem addUsage_error {owner : TypeId} {reference : ReferenceId} {role : Role}
    {member : Option String} {e : CatalogError}
    (h : s.addUsage owner reference role member = .error e) : e = .exhausted .counter := by
  obtain h | ⟨r, h⟩ := draw_bind_error h
  · exact h
  · cases h

/-- The rows of the elements of `tuple`, with ids from `n + 1` on and ordinals from `ordinal` on. -/
def numberedElements (tuple : TypeId) (n ordinal : Nat) : List NewElement → List TupleElement
  | [] => []
  | e :: es =>
    { id := ⟨n + 1⟩, tuple, ordinal, name := e.name, rank := e.rank, elementType := e.elementType }
      :: numberedElements tuple (n + 1) (ordinal + 1) es

theorem length_numberedElements {tuple : TypeId} {n ordinal : Nat} {es : List NewElement} :
    (numberedElements tuple n ordinal es).length = es.length := by
  induction es generalizing n ordinal with
  | nil => rfl
  | cons e es ih => simp [numberedElements, ih]

theorem elementRows_ok {tuple : TypeId} {c c' : Counter .element} {ordinal : Nat}
    {es : List NewElement} {rows : List TupleElement}
    (h : elementRows tuple c ordinal es = .ok (rows, c')) :
    rows = numberedElements tuple c.used ordinal es ∧ c' = ⟨c.used + es.length⟩ ∧
      (es = [] ∨ c'.used < RowId.largest) := by
  induction es generalizing c c' ordinal rows with
  | nil =>
    simp only [elementRows, Except.ok.injEq, Prod.mk.injEq] at h
    obtain ⟨rfl, rfl⟩ := h
    exact ⟨rfl, rfl, .inl rfl⟩
  | cons e es ih =>
    obtain ⟨hroom, h⟩ := draw_bind_ok h
    obtain ⟨⟨rest, d⟩, hrest, h⟩ := bind_eq_ok.mp h
    obtain ⟨rfl, rfl, hlast⟩ := ih hrest
    simp only [pure, Except.pure, Except.ok.injEq, Prod.mk.injEq] at h
    obtain ⟨rfl, rfl⟩ := h
    refine ⟨rfl, ?_, .inr ?_⟩
    · simp only [List.length_cons, Counter.mk.injEq]
      omega
    · rcases hlast with rfl | hlast
      · simpa using hroom
      · exact hlast

theorem elementRows_error {tuple : TypeId} {c : Counter .element} {ordinal : Nat}
    {es : List NewElement} {d : CatalogError} (h : elementRows tuple c ordinal es = .error d) :
    d = .exhausted .counter := by
  induction es generalizing c ordinal with
  | nil => simp [elementRows] at h
  | cons e es ih =>
    obtain h | ⟨r, h⟩ := draw_bind_error h
    · exact h
    obtain h | ⟨rest, _, h⟩ := bind_eq_error.mp h
    · exact ih h
    · simp [pure, Except.pure] at h

theorem addTuple_ok {name : String} {es : List NewElement} {id : TypeId}
    (h : s.addTuple name es = .ok (id, t)) :
    s.namedIds.used + 1 < RowId.largest ∧ (es = [] ∨ s.elementIds.used + es.length < RowId.largest) ∧
      id = ⟨s.namedIds.used + 1⟩ ∧
      t = { s with
        namedIds := ⟨s.namedIds.used + 1⟩
        elementIds := ⟨s.elementIds.used + es.length⟩
        elements := s.elements ++ numberedElements id s.elementIds.used 0 es
        named := s.named ++ [(id, .tuple { name, elements :=
          (numberedElements id s.elementIds.used 0 es).map (·.id) })]
        pending := { s.pending with
          named := s.pending.named ++ [id]
          elements := s.pending.elements ++
            (numberedElements id s.elementIds.used 0 es).map (·.id) } } := by
  obtain ⟨hroom, h⟩ := draw_bind_ok h
  obtain ⟨⟨rows, c⟩, hrows, h⟩ := bind_eq_ok.mp h
  obtain ⟨rfl, rfl, hlast⟩ := elementRows_ok hrows
  simp only [pure, Except.pure, Except.ok.injEq, Prod.mk.injEq] at h
  obtain ⟨rfl, rfl⟩ := h
  exact ⟨hroom, hlast, rfl, rfl⟩

theorem addTuple_error {name : String} {es : List NewElement} {e : CatalogError}
    (h : s.addTuple name es = .error e) : e = .exhausted .counter := by
  obtain h | ⟨r, h⟩ := draw_bind_error h
  · exact h
  obtain h | ⟨rows, _, h⟩ := bind_eq_error.mp h
  · exact elementRows_error h
  · simp [pure, Except.pure] at h

theorem documented_ok {id : TypeId} {d : Documented} :
    s.documented id = .ok d ↔ s.named? id = some (.documented d) := by
  unfold documented requireNamed
  cases h : s.named? id with
  | none => simp [bind, Except.bind]
  | some a => cases a <;> simp [bind, Except.bind, pure, Except.pure, throw, throwThe, MonadExceptOf.throw]

theorem ensureParameters_ok {id : TypeId} {ps : List TypeParameter}
    (h : s.ensureParameters id = .ok (ps, t)) :
    ∃ d, s.named? id = some (.documented d) ∧
      (d.parameters = some ps ∧ t = s ∨
        d.parameters = none ∧ (∃ store, s.store = some store ∧ store.database.parametersOf id = .ok ps) ∧
          ps.length = d.arity ∧ t = s.replaceNamed id (.documented { d with parameters := some ps })) := by
  obtain ⟨d, hd, h⟩ := bind_eq_ok.mp h
  refine ⟨d, documented_ok.mp hd, ?_⟩
  cases hp : d.parameters with
  | some qs =>
    simp only [hp, pure, Except.pure, Except.ok.injEq, Prod.mk.injEq] at h
    exact .inl ⟨by rw [h.1], h.2.symm⟩
  | none =>
    simp only [hp] at h
    cases hstore : s.store with
    | none => simp [hstore, throw, throwThe, MonadExceptOf.throw] at h
    | some store =>
      simp only [hstore] at h
      obtain ⟨qs, hq, h⟩ := bind_eq_ok.mp h
      split at h
      · next hlen =>
        simp only [pure, Except.pure, Except.ok.injEq, Prod.mk.injEq] at h
        obtain ⟨rfl, rfl⟩ := h
        exact .inr ⟨rfl, ⟨store, rfl, hq⟩, hlen, rfl⟩
      · simp [throw, throwThe, MonadExceptOf.throw] at h

/-- The namespaces of `names` that are new to `known`, in order and without repetitions. -/
def unseen (known : NameSet) : List String → List String
  | [] => []
  | n :: ns => if known.contains n then unseen known ns else n :: unseen (known.insert n) ns

theorem foldl_insert_eq (known : NameSet) (added names : List String) :
    names.foldl (fun (acc : NameSet × List String) n =>
      if acc.1.contains n then acc else (acc.1.insert n, acc.2 ++ [n])) (known, added) =
    ((unseen known names).foldl NameSet.insert known, added ++ unseen known names) := by
  induction names generalizing known added with
  | nil => simp [unseen]
  | cons n ns ih =>
    rw [List.foldl_cons]
    by_cases hn : known.contains n = true
    · simp only [hn, if_true, unseen, ih]
    · simp only [hn, Bool.false_eq_true, if_false, unseen, ih, List.foldl_cons,
        List.append_assoc, List.singleton_append]

/-- An external type after it was seen from these namespaces. -/
def seenFrom (x : External) (names : List String) : External :=
  { x with namespaces := (unseen x.namespaces names).foldl NameSet.insert x.namespaces }

theorem extendExternal_ok {id : TypeId} {names : List String} {n : Nat}
    (h : s.extendExternal id names = .ok (n, t)) :
    ∃ x, s.named? id = some (.external x) ∧ n = (unseen x.namespaces names).length ∧
      t = { s.replaceNamed id (.external (seenFrom x names)) with
        pending :=
          if s.pending.named.contains id then s.pending
          else { s.pending with
            externalNamespaces :=
              s.pending.externalNamespaces ++ (unseen x.namespaces names).map (id, ·) } } := by
  unfold extendExternal at h
  split at h
  · next x hx =>
    refine ⟨x, hx, ?_⟩
    simp only [foldl_insert_eq, List.nil_append, Except.ok.injEq, Prod.mk.injEq] at h
    exact ⟨h.1.symm, h.2.symm⟩
  · simp at h

theorem extendExternal_error {id : TypeId} {names : List String} {e : CatalogError}
    (h : s.extendExternal id names = .error e) :
    e = .missingNamedType id ∧ ∀ x, s.named? id ≠ some (.external x) := by
  unfold extendExternal at h
  split at h
  · simp at h
  · next hx => exact ⟨by simpa [eq_comm] using h, hx⟩

theorem save_ok {n : Nat} (h : s.save = .ok (n, t)) :
    s.pending.isEmpty = true ∧ t = s ∨
      s.store = none ∧ t = { s with pending := {} } ∨
      ∃ store changes database, s.store = some store ∧ s.changeSet = .ok changes ∧
        store.readOnly = false ∧ store.database.write changes = .ok database ∧
        t = { s with store := some { store with database }, pending := {} } := by
  unfold save at h
  split at h
  · next hp =>
    simp only [Except.ok.injEq, Prod.mk.injEq] at h
    exact .inl ⟨hp, h.2.symm⟩
  · refine .inr ?_
    cases hstore : s.store with
    | none =>
      simp only [hstore, Except.ok.injEq, Prod.mk.injEq] at h
      exact .inl ⟨rfl, h.2.symm⟩
    | some store =>
      simp only [hstore] at h
      obtain ⟨changes, hc, h⟩ := bind_eq_ok.mp h
      cases hro : store.readOnly with
      | true => simp [hro, bind, Except.bind, throw, throwThe, MonadExceptOf.throw] at h
      | false =>
        simp only [hro, Bool.false_eq_true, if_false] at h
        obtain ⟨database, hw, h⟩ := bind_eq_ok.mp h
        simp only [pure, Except.pure, Except.ok.injEq, Prod.mk.injEq] at h
        exact .inr ⟨store, changes, database, rfl, hc, hro, hw, by rw [hro]; exact h.2.symm⟩

end Session

end TypeCatalog
