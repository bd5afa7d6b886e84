import Mathlib.Logic.Relation
import TypeCatalog.Proofs.Growth
import TypeCatalog.Resolve.Find

namespace TypeCatalog

/-- What a found target relies on: its row is there, and is external if there are namespaces to
learn; a type parameter belongs to a documented type. -/
def Target.Valid (s : Session) (learned : NameSet) : Target → Prop
  | .existing id =>
    (∃ a, s.named? id = some a) ∧ (learned.isEmpty = false → ∃ x, s.named? id = some (.external x))
  | .parameter declaring _ _ => ∃ d, s.named? declaring = some (.documented d)

namespace Resolved

mutual

def Valid (s : Session) : Resolved → Prop
  | .mk target learned elements => target.Valid s learned ∧ ValidAll s elements

def ValidAll (s : Session) : List Resolved → Prop
  | [] => True
  | r :: rs => r.Valid s ∧ ValidAll s rs

end

variable {s t : Session}

theorem Valid.target {r : Resolved} (h : r.Valid s) : r.target.Valid s r.learned := by
  cases r with
  | mk target learned elements => exact h.1

theorem Valid.elements {r : Resolved} (h : r.Valid s) : ValidAll s r.elements := by
  cases r with
  | mk target learned elements => exact h.2

end Resolved

theorem Target.Valid.mono {s t : Session} {learned : NameSet} {target : Target}
    (h : target.Valid s learned) (hg : s.Grows t) : target.Valid t learned := by
  cases target with
  | existing id =>
    obtain ⟨⟨a, ha⟩, hx⟩ := h
    obtain ⟨b, hb, -⟩ := hg.named? ha
    refine ⟨⟨b, hb⟩, fun hl => ?_⟩
    obtain ⟨x, hx⟩ := hx hl
    obtain ⟨names, hx⟩ := hg.external? hx
    exact ⟨_, hx⟩
  | parameter declaring index name =>
    obtain ⟨d, hd⟩ := h
    obtain ⟨ps, hd⟩ := hg.documented? hd
    exact ⟨_, hd⟩

namespace Resolved

mutual

theorem Valid.mono {s t : Session} {r : Resolved} (h : r.Valid s) (hg : s.Grows t) : r.Valid t := by
  cases r with
  | mk target learned elements => exact ⟨h.1.mono hg, ValidAll.mono h.2 hg⟩

theorem ValidAll.mono {s t : Session} {rs : List Resolved} (h : ValidAll s rs) (hg : s.Grows t) :
    ValidAll t rs := by
  cases rs with
  | nil => trivial
  | cons r rs => exact ⟨Valid.mono h.1 hg, ValidAll.mono h.2 hg⟩

end

variable {s t : Session}

theorem valid_named {id : TypeId} {a : NamedType} (h : s.named? id = some a) : (named id).Valid s :=
  ⟨⟨⟨a, h⟩, fun hl => by simp [NameSet.empty, NameSet.isEmpty] at hl⟩, trivial⟩

/-- Committing changes nothing, grows an external type, or adds the row of a type parameter. -/
theorem commit_ok {r : Resolved} {id : TypeId} (h : r.commit s = .ok (id, t)) :
    r.target = .existing id ∧ r.learned.isEmpty = true ∧ t = s ∨
      r.target = .existing id ∧ r.learned.isEmpty = false ∧
        (∃ n, s.extendExternal id r.learned.names = .ok (n, t)) ∨
      ∃ declaring index name, r.target = .parameter declaring index name ∧
        s.addParameter declaring index name = .ok (id, t) := by
  unfold commit at h
  split at h
  · next j hj =>
    split at h
    · next hl =>
      simp only [Except.ok.injEq, Prod.mk.injEq] at h
      obtain ⟨rfl, rfl⟩ := h
      exact .inl ⟨hj, hl, rfl⟩
    · next hl =>
      obtain ⟨⟨n, u⟩, hu, h⟩ := bind_eq_ok.mp h
      simp only [pure, Except.pure, Except.ok.injEq, Prod.mk.injEq] at h
      obtain ⟨rfl, rfl⟩ := h
      exact .inr (.inl ⟨hj, by simpa using hl, n, hu⟩)
  · next declaring index name hp => exact .inr (.inr ⟨declaring, index, name, hp, h⟩)

theorem commit_error {r : Resolved} {e : CatalogError} (hr : r.Valid s) (h : r.commit s = .error e) :
    e = .exhausted .counter := by
  have hv := hr.target
  unfold commit at h
  split at h
  · next j hj =>
    split at h
    · simp at h
    · next hl =>
      obtain h | ⟨⟨n, u⟩, _, h⟩ := bind_eq_error.mp h
      · rw [hj] at hv
        obtain ⟨x, hx⟩ := hv.2 (by simpa using hl)
        exact absurd hx ((Session.extendExternal_error h).2 x)
      · simp [pure, Except.pure] at h
  · exact Session.addNamed_error h

theorem numbered_commit (hs : s.Numbered) {r : Resolved} {id : TypeId} (h : r.commit s = .ok (id, t)) :
    t.Numbered := by
  obtain ⟨-, -, rfl⟩ | ⟨-, -, n, he⟩ | ⟨declaring, index, name, -, ha⟩ := commit_ok h
  · exact hs
  · exact hs.extendExternal he
  · exact hs.addNamed ha

theorem grows_commit (hs : s.Numbered) {r : Resolved} {id : TypeId} (h : r.commit s = .ok (id, t)) :
    s.Grows t := by
  obtain ⟨-, -, rfl⟩ | ⟨-, -, n, he⟩ | ⟨declaring, index, name, -, ha⟩ := commit_ok h
  · exact .refl _
  · exact Session.grows_extendExternal hs he
  · exact Session.grows_addNamed ha

theorem commit_references {r : Resolved} {id : TypeId} (h : r.commit s = .ok (id, t)) :
    t.references = s.references ∧ t.referenceIds = s.referenceIds := by
  obtain ⟨-, -, rfl⟩ | ⟨-, -, n, he⟩ | ⟨declaring, index, name, -, ha⟩ := commit_ok h
  · exact ⟨rfl, rfl⟩
  · obtain ⟨x, -, -, rfl⟩ := Session.extendExternal_ok he
    exact ⟨rfl, rfl⟩
  · obtain ⟨-, rfl, rfl⟩ := Session.addNamed_ok ha
    exact ⟨rfl, rfl⟩

theorem named?_commit (hs : s.Numbered) {r : Resolved} {id : TypeId} (hr : r.Valid s)
    (h : r.commit s = .ok (id, t)) : ∃ a, t.named? id = some a := by
  have hv := hr.target
  have hg := grows_commit hs h
  obtain ⟨hj, -, -⟩ | ⟨hj, -, -⟩ | ⟨declaring, index, name, -, ha⟩ := commit_ok h
  · rw [hj] at hv
    exact (Target.Valid.mono hv hg).1
  · rw [hj] at hv
    exact (Target.Valid.mono hv hg).1
  · obtain ⟨-, rfl, rfl⟩ := Session.addNamed_ok ha
    refine Option.isSome_iff_exists.mp ?_
    simp [Session.named?]

end Resolved

namespace Find

open Resolved

/-- What resolving may do to a session, one operation at a time. Only type parameters are loaded
unless creation is allowed. -/
inductive Step (allowCreate : Bool) : Session → Session → Prop
  | load {s t : Session} {id : TypeId} {ps : List TypeParameter}
      (h : s.ensureParameters id = .ok (ps, t)) : Step allowCreate s t
  | external {s t : Session} {name : String} {arity : Nat} {names : NameSet} {id : TypeId}
      (ha : allowCreate = true) (hn : names.Ascending)
      (h : s.addExternal name arity names = .ok (id, t)) : Step allowCreate s t
  | commit {s t : Session} {r : Resolved} {id : TypeId} (ha : allowCreate = true) (hr : r.Valid s)
      (h : r.commit s = .ok (id, t)) : Step allowCreate s t
  | tuple {s t : Session} {name : String} {es : List NewElement} {id : TypeId}
      (ha : allowCreate = true) (hes : ∀ e ∈ es, ∃ a, s.named? e.elementType = some a)
      (h : s.addTuple name es = .ok (id, t)) : Step allowCreate s t
  | save {s t : Session} {n : Nat} (ha : allowCreate = true) (h : s.save = .ok (n, t)) :
      Step allowCreate s t

abbrev Steps (allowCreate : Bool) : Session → Session → Prop := Relation.ReflTransGen (Step allowCreate)

theorem Step.numbered {allowCreate : Bool} {s t : Session} (hs : s.Numbered)
    (h : Step allowCreate s t) : t.Numbered := by
  cases h with
  | load h => exact hs.ensureParameters h
  | external _ _ h => exact hs.addNamed h
  | commit _ _ h => exact numbered_commit hs h
  | tuple _ _ h => exact hs.addTuple h
  | save _ h => exact hs.save h

theorem Step.grows {allowCreate : Bool} {s t : Session} (hs : s.Numbered)
    (h : Step allowCreate s t) : s.Grows t := by
  cases h with
  | load h => exact Session.grows_ensureParameters hs h
  | external _ _ h => exact Session.grows_addNamed h
  | commit _ _ h => exact grows_commit hs h
  | tuple _ _ h => exact Session.grows_addTuple h
  | save _ h => exact Session.grows_save h

theorem Steps.numbered {allowCreate : Bool} {s t : Session} (hs : s.Numbered)
    (h : Steps allowCreate s t) : t.Numbered := by
  induction h with
  | refl => exact hs
  | tail _ hstep ih => exact hstep.numbered ih

theorem Steps.grows {allowCreate : Bool} {s t : Session} (hs : s.Numbered)
    (h : Steps allowCreate s t) : s.Grows t := by
  induction h with
  | refl => exact .refl s
  | tail hrun hstep ih => exact ih.trans (hstep.grows (Steps.numbered hs hrun))

/-- What can stop a resolution in session `s`. -/
inductive Fails (chain : Chain) (scope : Scope) (s : Session) : ResolveError → Prop
  | contexts {d : Descriptor} {e : CatalogError} (h : scope.contexts s d = .error e) :
      Fails chain scope s (.catalog e)
  | container {j id : TypeId} {d : Documented} {e : CatalogError}
      (hj : s.named? j = some (.documented d)) (hd : d.container = some id)
      (h : s.documented id = .error e) : Fails chain scope s (.catalog e)
  | parameters {id : TypeId} {d : Documented} {e : CatalogError}
      (hd : s.named? id = some (.documented d)) (h : s.ensureParameters id = .error e) :
      Fails chain scope s (.catalog e)
  | external {name : String} {arity : Nat} {names : NameSet} {e : CatalogError}
      (h : s.addExternal name arity names = .error e) : Fails chain scope s (.catalog e)
  | matching {ds : List Descriptor} {rs : List Resolved} {n : Nat} {e : CatalogError}
      (hr : ValidAll s rs) (h : firstTuple s ds rs (s.tupleCandidates n) = .error e) :
      Fails chain scope s (.catalog e)
  | commit {r : Resolved} {e : CatalogError} (hr : r.Valid s) (h : r.commit s = .error e) :
      Fails chain scope s (.catalog e)
  | tuple {name : String} {es : List NewElement} {e : CatalogError}
      (h : s.addTuple name es = .error e) : Fails chain scope s (.catalog e)
  | save {e : CatalogError} (h : s.save = .error e) : Fails chain scope s (.catalog e)
  | unresolved {name : String} (h : ¬ (scope.allowCreate = true ∧ .external ∈ chain.order)) :
      Fails chain scope s (.unresolved name)

section

variable {α β : Type} {chain : Chain} {scope : Scope} {s t : Session} {good : α → Session → Prop}

/-- A part of a resolution makes steps only, gives what is `good`, and stops for a known cause. -/
def Traced (chain : Chain) (scope : Scope) (a : Act ResolveError α) (s : Session)
    (good : α → Session → Prop) : Prop :=
  s.Numbered → a.Leads s (fun x t => Steps scope.allowCreate s t ∧ good x t)
    fun e t => Steps scope.allowCreate s t ∧ Fails chain scope t e

theorem traced_pure {x : α} (h : good x s) : Traced chain scope (pure x) s good :=
  fun _ => Act.leads_pure ⟨.refl, h⟩

theorem traced_throw {e : ResolveError} (h : Fails chain scope s e) :
    Traced chain scope (throw e : Act ResolveError α) s good :=
  fun _ => Act.leads_throw ⟨.refl, h⟩

theorem traced_bind {m : β → Session → Prop} {a : Act ResolveError β} {f : β → Act ResolveError α}
    (ha : Traced chain scope a s m)
    (hf : ∀ x t, t.Numbered → s.Grows t → m x t → Traced chain scope (f x) t good) :
    Traced chain scope (a >>= f) s good := by
  intro hs
  apply Act.leads_bind
  refine (ha hs).mono ?_ fun _ _ h => h
  rintro x t ⟨hrun, hx⟩
  have ht := Steps.numbered hs hrun
  refine (hf x t ht (Steps.grows hs hrun) hx ht).mono ?_ ?_
  · rintro y u ⟨hrun', hy⟩
    exact ⟨hrun.trans hrun', hy⟩
  · rintro e u ⟨hrun', he⟩
    exact ⟨hrun.trans hrun', he⟩

/-- Two ways to begin that go on in the same way. -/
theorem traced_ite_bind {p : Prop} [Decidable p] {m : β → Session → Prop} {a b : Act ResolveError β}
    {f : β → Act ResolveError α} (ha : p → Traced chain scope a s m) (hb : ¬ p → Traced chain scope b s m)
    (hf : ∀ x t, t.Numbered → s.Grows t → m x t → Traced chain scope (f x) t good) :
    Traced chain scope (if p then a >>= f else b >>= f) s good := by
  split
  · next h => exact traced_bind (ha h) hf
  · next h => exact traced_bind (hb h) hf

theorem traced_get_bind {f : Session → Act ResolveError α}
    (h : Traced chain scope (f s) s good) : Traced chain scope (get >>= f) s good :=
  fun hs => Act.leads_get_bind (h hs)

theorem traced_query {q : Session → Except CatalogError α} (hd : ∀ x, q s = .ok x → good x s)
    (hf : ∀ e, q s = .error e → Fails chain scope s (.catalog e)) :
    Traced chain scope (Act.query .catalog q) s good :=
  fun _ => Act.leads_query (fun x hx => ⟨.refl, hd x hx⟩) fun e he => ⟨.refl, hf e he⟩

theorem traced_perform {op : Session → Except CatalogError (α × Session)}
    (hd : ∀ x t, op s = .ok (x, t) → Step scope.allowCreate s t ∧ good x t)
    (hf : ∀ e, op s = .error e → Fails chain scope s (.catalog e)) :
    Traced chain scope (Act.perform .catalog op) s good :=
  fun _ => Act.leads_perform (fun x t hx => ⟨.single (hd x t hx).1, (hd x t hx).2⟩)
    fun e he => ⟨.refl, hf e he⟩

theorem Traced.mono {a : Act ResolveError α} {good' : α → Session → Prop}
    (h : Traced chain scope a s good) (hg : ∀ x t, s.Grows t → good x t → good' x t) :
    Traced chain scope a s good' := by
  intro hs
  refine (h hs).mono ?_ fun _ _ h => h
  rintro x t ⟨hrun, hx⟩
  exact ⟨hrun, hg x t (Steps.grows hs hrun) hx⟩

theorem traced_parameterFrom {name : String} {n : Nat} {id? : Option TypeId}
    (hid : ∀ id, id? = some id → (∃ d, s.named? id = some (.documented d)) ∨
      ∃ j d, s.named? j = some (.documented d) ∧ d.container = some id) :
    Traced chain scope (parameterFrom name n id?) s
      fun r t => ∀ target, r = some target → target.Valid t .empty := by
  induction n generalizing s id? with
  | zero => cases id? <;> exact traced_pure (by simp)
  | succ n ih =>
    cases id? with
    | none => exact traced_pure (by simp)
    | some id =>
      unfold parameterFrom
      apply traced_bind (m := fun d t => t.named? id = some (.documented d))
      · apply traced_query
        · intro d hd
          exact Session.documented_ok.mp hd
        · intro e he
          obtain ⟨d, hd⟩ | ⟨j, d, hj, hc⟩ := hid id rfl
          · rw [Session.documented_ok.mpr hd] at he
            simp at he
          · exact .container hj hc he
      · intro d t ht _ hd
        -- both branches go on with some parameters, in a session that still has the type
        apply traced_ite_bind
          (m := fun _ u => ∃ ps, u.named? id = some (.documented { d with parameters := ps }))
        · intro _ ht
          refine traced_perform (fun ps u hu => ⟨.load hu, ?_⟩) (fun e he => .parameters hd he) ht
          exact (Session.grows_ensureParameters ht hu).documented? hd
        · intro _
          exact traced_pure ⟨d.parameters, hd⟩
        · rintro ps u _ _ ⟨qs, hd'⟩
          dsimp only
          split
          · refine traced_pure ?_
            rintro target ⟨⟩
            exact ⟨_, hd'⟩
          · exact ih fun i hi => .inr ⟨id, _, hd', hi⟩

theorem traced_parameter {d : Descriptor} :
    Traced chain scope (parameter scope d) s fun r t => ∀ x, r = some x → x.Valid t := by
  unfold parameter
  apply traced_get_bind
  split
  · next h =>
    have hdoc : ∃ d, s.named? scope.container = some (.documented d) := by
      simp only [Bool.and_eq_true, Session.isDocumented, Option.isSome_iff_exists,
        Option.bind_eq_some_iff] at h
      obtain ⟨⟨d, a, ha, hd⟩, -⟩ := h
      cases a <;> simp [NamedType.documented?] at hd
      exact ⟨_, ha⟩
    apply traced_bind (traced_parameterFrom _)
    · intro r t _ _ hr
      refine traced_pure ?_
      intro x hx
      obtain ⟨target, ht, rfl⟩ := Option.map_eq_some_iff.mp hx
      exact ⟨hr target ht, trivial⟩
    · rintro id ⟨⟩
      exact .inl hdoc
  · exact traced_pure (by simp)

theorem ascending_effectiveNamespaces {d : Descriptor} {contexts : Option (List Context)} :
    (effectiveNamespaces d contexts).Ascending := by
  unfold effectiveNamespaces
  split
  · exact NameSet.ascending_ofList _
  · exact NameSet.ascending_ofList _
  · split <;> exact NameSet.ascending_ofList _

theorem traced_external {d : Descriptor} {contexts : Option (List Context)} :
    Traced chain scope (external scope d contexts) s
      fun r t => (∀ x, r = some x → x.Valid t) ∧ (r = none → scope.allowCreate = false) := by
  unfold external
  apply traced_get_bind
  dsimp only
  split
  · next id hid =>
    have hx : ∃ x, s.named? id = some (.external x) := by
      have hfits := List.find?_some hid
      cases ha : s.named? id with
      | none => simp [ha] at hfits
      | some a => cases a <;> simp [ha, NamedType.external?] at hfits ⊢
    refine traced_pure ⟨?_, by simp⟩
    rintro x ⟨⟩
    obtain ⟨x, hx⟩ := hx
    exact ⟨⟨⟨_, hx⟩, fun _ => ⟨x, hx⟩⟩, trivial⟩
  · split
    · next ha =>
      apply traced_bind (m := fun id t => ∃ a, t.named? id = some a)
      · apply traced_perform
        · intro id t ht
          refine ⟨.external ha ascending_effectiveNamespaces ht, ?_⟩
          obtain ⟨-, rfl, rfl⟩ := Session.addNamed_ok ht
          refine Option.isSome_iff_exists.mp ?_
          simp [Session.named?]
        · exact fun e he => .external he
      · intro id t _ _ hid
        obtain ⟨a, ha⟩ := hid
        refine traced_pure ⟨?_, by simp⟩
        rintro x ⟨⟩
        exact valid_named ha
    · next ha => exact traced_pure ⟨by simp, fun _ => by simpa using ha⟩

theorem traced_commitElements {n : Nat} {ds : List Descriptor} {rs : List Resolved}
    (ha : scope.allowCreate = true) (hr : ValidAll s rs) :
    Traced chain scope (commitElements n ds rs) s
      fun x t => (∀ e ∈ x.1, ∃ a, t.named? e.elementType = some a) ∧ ValidAll t x.2 := by
  induction ds generalizing s n rs with
  | nil => exact traced_pure ⟨by simp, trivial⟩
  | cons d ds ih =>
    cases rs with
    | nil => exact traced_pure ⟨by simp, trivial⟩
    | cons r rs =>
      intro hs
      revert hs
      unfold commitElements
      apply traced_bind (m := fun id t => ∃ a, t.named? id = some a)
      · intro hs
        refine traced_perform (fun id t ht => ⟨.commit ha hr.1 ht, ?_⟩) (fun e he => .commit hr.1 he) hs
        exact named?_commit hs hr.1 ht
      · intro id t _ hg hid
        obtain ⟨a, hid⟩ := hid
        apply traced_bind (ih (hr.2.mono hg))
        intro x u _ hg' hx
        obtain ⟨b, hb, -⟩ := hg'.named? hid
        refine traced_pure ⟨?_, ?_, hx.2⟩
        · intro e he
          rcases List.mem_cons.mp he with rfl | he
          · exact ⟨b, hb⟩
          · exact hx.1 e he
        · refine ⟨(valid_named hb).target, ?_⟩
          exact ValidAll.mono (hr.1.elements) (hg.trans hg')

theorem firstTuple_ok {ds : List Descriptor} {rs : List Resolved} {ids : List TypeId} {id : TypeId}
    (h : firstTuple s ds rs ids = .ok (some id)) : id ∈ ids := by
  induction ids with
  | nil => simp [firstTuple] at h
  | cons i ids ih =>
    obtain ⟨b, _, h⟩ := bind_eq_ok.mp h
    cases b with
    | true =>
      simp only [if_true, pure, Except.pure, Except.ok.injEq, Option.some.injEq] at h
      subst h
      exact List.mem_cons_self
    | false => exact List.mem_cons_of_mem _ (ih h)

theorem named?_of_mem {r : TypeId × NamedType} (h : r ∈ s.named) : ∃ a, s.named? r.1 = some a := by
  unfold Session.named?
  refine Option.isSome_iff_exists.mp ?_
  rw [Option.isSome_map, List.find?_isSome]
  exact ⟨r, h, by simp⟩

theorem traced_tuple {d : Descriptor} {rs : List Resolved} (hr : ValidAll s rs) :
    Traced chain scope (tuple scope d rs) s
      fun r t => (∀ x, r = some x → x.Valid t) ∧ (r = none → scope.allowCreate = false) := by
  unfold tuple
  apply traced_get_bind
  dsimp only
  apply traced_bind (m := fun r t => t = s ∧ ∀ id, r = some id → ∃ a, t.named? id = some a)
  · apply traced_query
    · rintro r hr
      refine ⟨rfl, ?_⟩
      rintro id rfl
      obtain ⟨row, hrow, rfl⟩ := List.mem_map.mp (firstTuple_ok hr)
      exact named?_of_mem (List.mem_filter.mp hrow).1
    · exact fun e he => .matching hr he
  · rintro r t _ _ ⟨rfl, hfound⟩
    split
    · next id =>
      obtain ⟨a, ha⟩ := hfound id rfl
      refine traced_pure ⟨?_, by simp⟩
      rintro x ⟨⟩
      exact ⟨(valid_named ha).target, hr⟩
    · split
      · next ha =>
        apply traced_bind (traced_commitElements ha hr)
        rintro ⟨rows, done⟩ u _ _ ⟨hrows, hdone⟩
        apply traced_bind (m := fun id v => u.Grows v ∧ ∃ a, v.named? id = some a)
        · apply traced_perform
          · intro id v hv
            refine ⟨.tuple ha hrows hv, Session.grows_addTuple hv, ?_⟩
            obtain ⟨-, -, rfl, rfl⟩ := Session.addTuple_ok hv
            refine Option.isSome_iff_exists.mp ?_
            simp [Session.named?]
          · exact fun e he => .tuple he
        · rintro id v _ _ ⟨hg, a, hid⟩
          apply traced_bind (m := fun _ w => v.Grows w)
          · exact traced_perform (fun n w hw => ⟨.save ha hw, Session.grows_save hw⟩) fun e he => .save he
          · intro n w _ _ hg'
            obtain ⟨b, hb, -⟩ := hg'.named? hid
            refine traced_pure ⟨?_, by simp⟩
            rintro x ⟨⟩
            exact ⟨(valid_named hb).target, hdone.mono (hg.trans hg')⟩
      · next ha => exact traced_pure ⟨by simp, fun _ => by simpa using ha⟩

theorem traced_plain {d : Descriptor} {r : Resolver} :
    Traced chain scope (plain scope d r) s
      fun x t => (∀ y, x = some y → y.Valid t) ∧
        (x = none → ¬ (scope.allowCreate = true ∧ r = .external)) := by
  cases r with
  | documented =>
    unfold plain
    apply traced_bind (m := fun _ t => t = s)
    · exact traced_query (fun _ _ => rfl) fun e he => .contexts he
    · rintro contexts t _ _ rfl
      apply traced_get_bind
      refine traced_pure ⟨?_, by simp⟩
      intro y hy
      obtain ⟨id, hid, rfl⟩ := Option.map_eq_some_iff.mp hy
      have hfound : ∃ name, t.findDocumented name d.argumentCount = some id := by
        unfold documented at hid
        split at hid
        · exact ⟨_, hid⟩
        · obtain ⟨c, _, hc⟩ := List.exists_of_findSome?_eq_some hid
          exact ⟨_, hc⟩
      obtain ⟨name, hname⟩ := hfound
      obtain ⟨row, hrow, rfl⟩ := Option.map_eq_some_iff.mp hname
      obtain ⟨a, ha⟩ := named?_of_mem (List.mem_of_find?_eq_some hrow)
      exact valid_named ha
  | parameter =>
    unfold plain
    exact traced_parameter.mono fun x t _ hx => ⟨hx, by simp⟩
  | external =>
    unfold plain
    apply traced_bind (m := fun _ t => t = s)
    · exact traced_query (fun _ _ => rfl) fun e he => .contexts he
    · rintro contexts t _ _ rfl
      exact traced_external.mono fun x t _ hx => ⟨hx.1, fun hn => by simp [hx.2 hn]⟩
  | tuple => exact traced_pure ⟨by simp, by simp⟩

theorem traced_first {d : Descriptor} {rs : List Resolver} :
    Traced chain scope (first scope d rs) s
      fun x t => (∀ y, x = some y → y.Valid t) ∧
        (x = none → ¬ (scope.allowCreate = true ∧ .external ∈ rs)) := by
  induction rs generalizing s with
  | nil => exact traced_pure ⟨by simp, by simp⟩
  | cons r rs ih =>
    unfold first
    apply traced_bind traced_plain
    rintro x t _ _ ⟨hx, hnone⟩
    split
    · exact traced_pure ⟨hx, by simp⟩
    · refine ih.mono fun y u _ hy => ⟨hy.1, fun hn => ?_⟩
      rintro ⟨ha, hm⟩
      rcases List.mem_cons.mp hm with rfl | hm
      · exact hnone rfl ⟨ha, rfl⟩
      · exact hy.2 hn ⟨ha, hm⟩

end

end Find

namespace Chain

open Find Resolved

mutual

theorem traced_resolve (chain : Chain) (scope : Scope) (s : Session) (d : Descriptor) :
    Traced chain scope (chain.resolve scope d) s fun r t => r.Valid t := by
  cases d with
  | mk name form rank e as =>
    unfold resolve
    dsimp only
    split
    · split
      · next hempty =>
        refine traced_throw (.unresolved ?_)
        rw [List.isEmpty_iff.mp hempty]
        simp
      · apply traced_bind (traced_resolveAll chain scope s as)
        intro rs t _ _ hrs
        apply traced_bind (traced_tuple hrs)
        rintro found u _ _ ⟨hv, hnone⟩
        split
        · exact traced_pure (hv _ rfl)
        · exact traced_throw (.unresolved (by simp [hnone rfl]))
    · apply traced_bind traced_first
      rintro found u _ _ ⟨hv, hnone⟩
      split
      · exact traced_pure (hv _ rfl)
      · exact traced_throw (.unresolved (hnone rfl))

theorem traced_resolveAll (chain : Chain) (scope : Scope) (s : Session) (ds : List Descriptor) :
    Traced chain scope (chain.resolveAll scope ds) s fun rs t => ValidAll t rs := by
  cases ds with
  | nil =>
    unfold resolveAll
    exact traced_pure trivial
  | cons d ds =>
    unfold resolveAll
    apply traced_bind (traced_resolve chain scope s d)
    intro r t _ _ hr
    apply traced_bind (traced_resolveAll chain scope t ds)
    intro rs u _ hg hrs
    exact traced_pure ⟨hr.mono hg, hrs⟩

end

end Chain

end TypeCatalog
