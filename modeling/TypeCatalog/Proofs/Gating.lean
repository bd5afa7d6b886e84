import TypeCatalog.Proofs.ReferenceTree

namespace TypeCatalog

/-- The row of a documented type whose type parameters were not loaded, with the stored list. -/
inductive NamedType.Loads (store : Option Store) (id : TypeId) : NamedType → NamedType → Prop
  | same (a : NamedType) : Loads store id a a
  | parameters {d : Documented} {ps : List TypeParameter} {file : Store} (hd : d.parameters = none)
      (hs : store = some file) (hp : file.database.parametersOf id = .ok ps)
      (hl : ps.length = d.arity) :
      Loads store id (.documented d) (.documented { d with parameters := some ps })

/-- The row of an external type with more namespaces, or a row that is loaded. -/
inductive NamedType.Learns (store : Option Store) (id : TypeId) : NamedType → NamedType → Prop
  | loads {a b : NamedType} (h : a.Loads store id b) : Learns store id a b
  | namespaces {x : External} {names : NameSet} (h : ∀ n ∈ x.namespaces.names, n ∈ names.names) :
      Learns store id (.external x) (.external { x with namespaces := names })

namespace NamedType

variable {store : Option Store} {id : TypeId} {a b c : NamedType}

theorem Loads.trans (h : a.Loads store id b) (k : b.Loads store id c) : a.Loads store id c := by
  cases h with
  | same => exact k
  | parameters hd hs hp hl =>
    cases k with
    | same => exact .parameters hd hs hp hl
    | parameters hd' => simp at hd'

theorem Learns.refl : a.Learns store id a := .loads (.same a)

theorem Learns.trans (h : a.Learns store id b) (k : b.Learns store id c) : a.Learns store id c := by
  cases h with
  | loads h =>
    cases k with
    | loads k => exact .loads (h.trans k)
    | namespaces k =>
      cases h with
      | same => exact .namespaces k
  | namespaces h =>
    cases k with
    | loads k =>
      cases k with
      | same => exact .namespaces h
    | namespaces k => exact .namespaces fun n hn => k n (h n hn)

theorem Learns.kind_eq (h : a.Learns store id b) : b.kind = a.kind := by
  cases h with
  | loads h => cases h <;> rfl
  | namespaces => rfl

end NamedType

namespace Session

variable {s t u : Session}

/-- The session `t` is `s` with the type parameters of some documented types read from the store. -/
structure Loads (s t : Session) : Prop where
  named : RowsBecome (NamedType.Loads s.store) (fun _ => False) s.named t.named
  rest : t = { s with named := t.named }

/-- The session `t` is `s` with new rows of type parameters and references, and with what its rows have
learned. -/
structure Learns (s t : Session) : Prop where
  named : RowsBecome (NamedType.Learns s.store) (·.kind = .parameter) s.named t.named
  references : s.references <+: t.references
  rest : t = { s with
    named := t.named
    references := t.references
    namedIds := t.namedIds
    referenceIds := t.referenceIds
    pending := { s.pending with
      named := t.pending.named
      externalNamespaces := t.pending.externalNamespaces
      references := t.pending.references } }

theorem Loads.refl (s : Session) : s.Loads s := ⟨.refl (fun _ => .same) _, rfl⟩

theorem Loads.store_eq (h : s.Loads t) : t.store = s.store := by rw [h.rest]

theorem Loads.trans (h : s.Loads t) (k : t.Loads u) : s.Loads u where
  named := by
    have k := k.named
    rw [h.store_eq] at k
    exact .trans (fun _ _ _ _ h k => h.trans k) (fun _ _ _ h _ => h) (fun _ h => h) h.named k
  rest := by
    rw [k.rest, h.rest]

theorem Learns.refl (s : Session) : s.Learns s :=
  ⟨.refl (fun _ _ => .refl) _, List.prefix_rfl, rfl⟩

theorem Loads.learns (h : s.Loads t) : s.Learns t where
  named := h.named.mono (fun _ _ _ => .loads) fun _ => False.elim
  references := ⟨[], by rw [h.rest, List.append_nil]⟩
  rest := by
    rw [h.rest]

theorem Learns.store_eq (h : s.Learns t) : t.store = s.store := by rw [h.rest]

theorem Learns.trans (h : s.Learns t) (k : t.Learns u) : s.Learns u where
  named := by
    have k := k.named
    rw [h.store_eq] at k
    refine .trans (fun _ _ _ _ h k => h.trans k) ?_ (fun _ h => h) h.named k
    intro id a b ha hab
    rw [hab.kind_eq, ha]
  references := h.references.trans k.references
  rest := by
    rw [k.rest, h.rest]

theorem loads_ensureParameters (hs : s.Numbered) {id : TypeId} {ps : List TypeParameter}
    (h : s.ensureParameters id = .ok (ps, t)) : s.Loads t := by
  obtain ⟨d, hd, ⟨-, rfl⟩ | ⟨hp, ⟨file, hfile, hps⟩, hlen, rfl⟩⟩ := ensureParameters_ok h
  · exact .refl _
  · exact ⟨rowsBecome_replaceNamed (fun _ => .same) hs.named.nodup hd (.parameters hp hfile hps hlen), rfl⟩

theorem learns_commit (hs : s.Numbered) {r : Resolved} {id : TypeId} (h : r.commit s = .ok (id, t)) :
    s.Learns t := by
  obtain ⟨-, -, rfl⟩ | ⟨-, -, n, he⟩ | ⟨declaring, index, name, -, ha⟩ := Resolved.commit_ok h
  · exact .refl _
  · obtain ⟨x, hx, -, rfl⟩ := extendExternal_ok he
    refine ⟨rowsBecome_replaceNamed (fun _ _ => .refl) hs.named.nodup hx (.namespaces ?_),
      List.prefix_rfl, ?_⟩
    · intro m hm
      exact NameSet.mem_foldl_insert.mpr (.inr hm)
    · dsimp only [replaceNamed]
      split <;> rfl
  · obtain ⟨-, rfl, rfl⟩ := addNamed_ok ha
    exact ⟨.append (fun _ _ => .refl) (by simp [NamedType.kind]), List.prefix_rfl, rfl⟩

theorem learns_addReference {named : TypeId} {rank : Nat} {parent : Option ReferenceId}
    {id : ReferenceId} (h : s.addReference named rank parent = .ok (id, t)) : s.Learns t := by
  obtain ⟨-, rfl, rfl⟩ := addReference_ok h
  exact ⟨.refl (fun _ _ => .refl) _, List.prefix_append _ _, rfl⟩

end Session

theorem Find.Steps.loads {s t : Session} (hs : s.Numbered) (h : Find.Steps false s t) : s.Loads t := by
  induction h with
  | refl => exact .refl s
  | tail hrun hstep ih =>
    apply ih.trans
    cases hstep with
    | load h => exact Session.loads_ensureParameters (Find.Steps.numbered hs hrun) h
    | external ha => simp at ha
    | commit ha => simp at ha
    | tuple ha => simp at ha
    | save ha => simp at ha

theorem Binding.Steps.learns {s t : Session} (hs : s.Numbered) (h : Binding.Steps s t) : s.Learns t := by
  induction h with
  | refl => exact .refl s
  | tail hrun hstep ih =>
    apply ih.trans
    cases hstep with
    | commit _ h => exact Session.learns_commit (Binding.Steps.numbered hs hrun) h
    | reference _ _ h => exact Session.learns_addReference h

namespace Analysis

/-- Without leave to create, a resolution that fails has loaded type parameters at most, unless the
ids ran out. One that succeeds adds type parameters and references and nothing else, and leaves the
store alone. -/
theorem resolve_creates_nothing {chain : Chain} {a : Analysis} {s : Session} (hs : s.Numbered)
    (ha : a.allowCreate = false) :
    (∀ root t, (a.resolve chain).outcome s = (.ok root, t) → s.Learns t) ∧
      ∀ e t, (a.resolve chain).outcome s = (.error e, t) →
        e ≠ .catalog (.exhausted .counter) → s.Loads t := by
  apply Act.leads_iff.mp
  refine (leads_resolve hs).mono ?_ ?_
  · rintro root t ⟨u, rows, hsu, hut, -⟩
    rw [ha] at hsu
    exact (hsu.loads hs).learns.trans (hut.steps.learns (hsu.numbered hs))
  · rintro e t (⟨rfl, -⟩ | ⟨hst, -⟩ | ⟨u, -, -, he⟩) hne
    · exact .refl t
    · rw [ha] at hst
      exact hst.loads hs
    · exact absurd he hne

end Analysis

namespace Sample

/-- The type parameter of `Box`. -/
def parameter : Descriptor := .mk "T" (.searched []) 0 none []

/-- The nested tuples are refused as a whole; the type parameter gets its row. -/
theorem resolve_creates_nothing_in_box :
    (∃ t, ((analysis descriptor false).resolve .standard).outcome session =
        (.error (.unresolved "List<(T, int[])>"), t) ∧ session.Loads t) ∧
      ∃ t, ((analysis parameter false).resolve .standard).outcome session = (.ok ⟨2⟩, t) ∧
        session.Learns t := by
  have hbad : (((analysis descriptor false).resolve .standard).outcome session).1 =
      .error (.unresolved "List<(T, int[])>") := by
    decide +kernel
  have hgood : (((analysis parameter false).resolve .standard).outcome session).1 = .ok ⟨2⟩ := by
    decide +kernel
  constructor
  · generalize hrun : ((analysis descriptor false).resolve .standard).outcome session = run at hbad
    obtain ⟨_, t⟩ := run
    subst hbad
    exact ⟨t, rfl, (Analysis.resolve_creates_nothing numbered_session rfl).2 _ t hrun (by simp)⟩
  · generalize hrun : ((analysis parameter false).resolve .standard).outcome session = run at hgood
    obtain ⟨_, t⟩ := run
    subst hgood
    exact ⟨t, rfl, (Analysis.resolve_creates_nothing numbered_session rfl).1 _ t hrun⟩

end Sample

end TypeCatalog
