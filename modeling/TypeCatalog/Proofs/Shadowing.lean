import TypeCatalog.Proofs.Gating
import TypeCatalog.Proofs.Stability

namespace TypeCatalog

open Act Session Find

namespace Session

variable {s t : Session} {scope : Scope} {d : Descriptor} {name : String} {arity : Nat} {id : TypeId}

/-- The row is a documented type of this full name and number of type parameters. -/
def Declared (s : Session) (fullName : String) (arity : Nat) (id : TypeId) : Prop :=
  ∃ e, s.named? id = some (.documented e) ∧ e.fullName = fullName ∧ e.arity = arity

structure OldestDeclared (s : Session) (fullName : String) (arity : Nat) (id : TypeId) : Prop where
  declared : s.Declared fullName arity id
  least : ∀ j, s.Declared fullName arity j → id.value ≤ j.value

theorem declared_iff (hs : s.Numbered) : s.Declared name arity id ↔ ∃ a, (id, a) ∈ s.named ∧
    a.documented?.any (fun e => e.fullName == name && e.arity == arity) = true := by
  constructor
  · rintro ⟨e, he, rfl, rfl⟩
    exact ⟨_, List.mem_of_find?_eq_some (find?_of_named?.mp he), by simp [NamedType.documented?]⟩
  · rintro ⟨a, ha, hfits⟩
    have hnamed := find?_of_named?.mpr (find?_of_nodup hs.named.nodup ha)
    cases a with
    | documented e => exact ⟨e, hnamed, by simpa [NamedType.documented?] using hfits⟩
    | external x => cases hfits
    | parameter p => cases hfits
    | tuple r => cases hfits

theorem findDocumented_none (hs : s.Numbered) (h : s.findDocumented name arity = none) (j : TypeId) :
    ¬ s.Declared name arity j := by
  intro hj
  obtain ⟨a, ha, hfits⟩ := (declared_iff hs).mp hj
  exact List.find?_eq_none.mp (Option.map_eq_none_iff.mp h) (j, a) ha hfits

theorem findDocumented_oldest (hs : s.Numbered) (h : s.findDocumented name arity = some id) :
    s.OldestDeclared name arity id := by
  obtain ⟨⟨i, a⟩, hfind, rfl⟩ := Option.map_eq_some_iff.mp h
  have hfits := List.find?_some hfind
  refine ⟨(declared_iff hs).mpr ⟨a, List.mem_of_find?_eq_some hfind, hfits⟩, ?_⟩
  intro j hj
  obtain ⟨b, hb, hj⟩ := (declared_iff hs).mp hj
  obtain ⟨-, older, newer, heq, hnot⟩ := List.find?_eq_some_iff_append.mp hfind
  have hascending := hs.named.ascending
  rw [heq] at hb hascending
  rw [List.map_append, List.map_cons] at hascending
  rcases List.mem_append.mp hb with hb | hb
  · simpa [hj] using hnot (j, b) hb
  · rcases List.mem_cons.mp hb with hb | hb
    · cases hb
      exact Nat.le_refl _
    · have hnewer := (List.pairwise_append.mp hascending).2.1
      exact Nat.le_of_lt ((List.pairwise_cons.mp hnewer).1 j (List.mem_map_of_mem hb))

end Session

/-- The full names under which a descriptor is looked up among the documented types, in order. -/
def Scope.names (scope : Scope) (s : Session) (d : Descriptor) : List String :=
  match scope.contexts s d with
  | .ok none => [d.name]
  | .ok (some contexts) => contexts.map (·.qualify d.name)
  | .error _ => []

namespace Session

variable {s t : Session} {scope : Scope} {d : Descriptor} {name : String} {id declaring : TypeId}
  {ds : List (TypeId × Documented)} {p : TypeParameter}

/-- The oldest documented type of the first of these names that has one. -/
def FirstDeclared (s : Session) (names : List String) (arity : Nat) (id : TypeId) : Prop :=
  ∃ inner n outer, names = inner ++ n :: outer ∧ s.OldestDeclared n arity id ∧
    ∀ m ∈ inner, ∀ j, ¬ s.Declared m arity j

theorem documented_first (hs : s.Numbered) {contexts : Option (List Context)} (hc : scope.contexts s d = .ok contexts)
    (h : Find.documented s d contexts = some id) : s.FirstDeclared (scope.names s d) d.argumentCount id := by
  unfold Scope.names
  rw [hc]
  unfold Find.documented at h
  cases contexts with
  | none => exact ⟨[], _, [], rfl, findDocumented_oldest hs h, by simp⟩
  | some cs =>
    obtain ⟨inner, c, outer, rfl, hfound, hnot⟩ := List.findSome?_eq_some_iff.mp h
    refine ⟨inner.map (·.qualify d.name), c.qualify d.name, outer.map (·.qualify d.name), by simp,
      findDocumented_oldest hs hfound, ?_⟩
    intro m hm
    obtain ⟨c', hc', rfl⟩ := List.mem_map.mp hm
    exact findDocumented_none hs (hnot c' hc')

theorem documented_none (hs : s.Numbered) {contexts : Option (List Context)} (hc : scope.contexts s d = .ok contexts)
    (h : Find.documented s d contexts = none) : ∀ m ∈ scope.names s d, ∀ j, ¬ s.Declared m d.argumentCount j := by
  unfold Scope.names
  rw [hc]
  unfold Find.documented at h
  cases contexts with
  | none => simpa using findDocumented_none hs h
  | some cs =>
    intro m hm
    obtain ⟨c, hc, rfl⟩ := List.mem_map.mp hm
    exact findDocumented_none hs (List.findSome?_eq_none_iff.mp h c hc)

/-! Type parameters -/

/-- The first type parameter of this name that a documented type declares. -/
def HasParameter (s : Session) (name : String) (x : TypeId × Documented) (p : TypeParameter) : Prop :=
  ∃ ps, s.Searches x.1 x.2 ps ∧ ps.find? (·.name == name) = some p

theorem HasParameter.name_eq {x : TypeId × Documented} (h : s.HasParameter name x p) : p.name = name := by
  obtain ⟨ps, -, hp⟩ := h
  simpa using List.find?_some hp

/-- The type parameter of this name of the first of these types that has one. -/
def InnermostParameter (s : Session) (name : String) (ds : List (TypeId × Documented)) (declaring : TypeId)
    (p : TypeParameter) : Prop :=
  ∃ inner e outer, ds = inner ++ (declaring, e) :: outer ∧ s.HasParameter name (declaring, e) p ∧
    ∀ x ∈ inner, ∀ q, ¬ s.HasParameter name x q

/-- What is offered inside a type is found along the types around it. -/
theorem Offers.split {id? : Option TypeId} {x : Option Target} (h : s.Offers name id? x) (hs : s.Sane) (hn : s.Nested)
    {n : Nat} (hbound : ∀ id, id? = some id → id.value < n) :
    ∃ ds, s.containersFrom n id? = .ok ds ∧
      ((∃ declaring p, s.InnermostParameter name ds declaring p ∧ x = some (.parameter declaring p.ordinal name)) ∨
        x = none ∧ ∀ y ∈ ds, ∀ q, ¬ s.HasParameter name y q) := by
  -- by induction on the way out; what one type offers hides the same name further out
  induction h generalizing n with
  | nowhere =>
    refine ⟨[], ?_, .inr ⟨rfl, by simp⟩⟩
    cases n <;> rfl
  | @found id e ps p hd hps hp =>
    have hhas : s.HasParameter name (id, e) p := ⟨ps, hps, hp⟩
    obtain ⟨n, rfl⟩ := Nat.exists_eq_add_of_lt (hbound id rfl)
    have hcontainer (j : TypeId) (hj : e.container = some j) := hs.container hd hj
    obtain ⟨-, c, f, hc⟩ := hs
    obtain ⟨ds, hds, -⟩ := hc.containersFrom_ok (n := id.value + n) hcontainer
    refine ⟨(id, e) :: ds, ?_, .inl ⟨id, p, ⟨[], e, ds, rfl, hhas, by simp⟩, by rw [hhas.name_eq]⟩⟩
    unfold containersFrom
    rw [documented_ok.mpr hd, ok_bind, hds]
    rfl
  | @outer id e ps found hd hps hp _ ih =>
    have hnone (q : TypeParameter) : ¬ s.HasParameter name (id, e) q := by
      rintro ⟨qs, hqs, hq⟩
      rw [hqs.unique hps, hp] at hq
      cases hq
    have hlt := hbound id rfl
    obtain ⟨n, rfl⟩ := Nat.exists_eq_add_of_lt hlt
    obtain ⟨ds, hds, hfound⟩ := ih (n := id.value + n) fun j hj => by
      have := hn id e hd j hj
      omega
    refine ⟨(id, e) :: ds, ?_, ?_⟩
    · unfold containersFrom
      rw [documented_ok.mpr hd, ok_bind, hds]
      rfl
    · rcases hfound with ⟨declaring, p, ⟨inner, e', outer, rfl, hhas, hinner⟩, rfl⟩ | ⟨rfl, hnot⟩
      · refine .inl ⟨declaring, p, ⟨(id, e) :: inner, e', outer, rfl, hhas, ?_⟩, rfl⟩
        exact List.forall_mem_cons.mpr ⟨hnone, hinner⟩
      · exact .inr ⟨rfl, List.forall_mem_cons.mpr ⟨hnone, hnot⟩⟩

theorem exists_searches (hs : s.Sane) {e : Documented} (hd : s.named? id = some (.documented e)) :
    ∃ ps, s.Searches id e ps := by
  unfold Searches
  split
  · obtain ⟨c, f, hl⟩ := hs.ledger
    obtain ⟨ps, t, ht, -⟩ := hl.ensureParameters hd
    exact ⟨ps, t, ht⟩
  · exact ⟨[], rfl⟩

theorem exists_offers (name : String) (hs : s.Sane) (hn : s.Nested) {e : Documented}
    (hd : s.named? id = some (.documented e)) :
    ∃ x, s.Offers name (some id) x := by
  induction hvalue : id.value using Nat.strong_induction_on generalizing id e with
  | _ n ih =>
    obtain ⟨ps, hps⟩ := exists_searches hs hd
    cases hp : ps.find? (·.name == name) with
    | some p => exact ⟨_, .found hd hps hp⟩
    | none =>
      cases hc : e.container with
      | none => exact ⟨none, .outer hd hps hp (hc ▸ .nowhere)⟩
      | some j =>
        obtain ⟨e', he'⟩ := hs.container hd hc
        obtain ⟨x, hx⟩ := ih j.value (hvalue ▸ hn id e hd j hc) he' rfl
        exact ⟨x, .outer hd hps hp (hc ▸ hx)⟩

/-! Loading of type parameters leaves the external types as they are -/

theorem Loads.suits_iff (h : s.Loads t) (ha : s.Advances t) : t.Suits scope d id ↔ s.Suits scope d id := by
  refine ⟨fun hid => ?_, ha.suits⟩
  have hold : ∃ a, s.named? id = some a := by
    have hnamed := ha.after.named_iff.mp hid.named
    rw [h.rest] at hnamed
    exact ha.before.named_iff.mpr hnamed
  rcases h.learnsFrom (Q := fun _ _ => False) ha d id hold hid with hid | ⟨q, hq, -⟩
  · exact hid
  · exact hq.elim

theorem Loads.oldest_iff (h : s.Loads t) (ha : s.Advances t) : t.Oldest scope d id ↔ s.Oldest scope d id := by
  constructor
  · intro hid
    exact ⟨(h.suits_iff ha).mp hid.suits, fun j hj => hid.least j ((h.suits_iff ha).mpr hj)⟩
  · intro hid
    exact ⟨(h.suits_iff ha).mpr hid.suits, fun j hj => hid.least j ((h.suits_iff ha).mp hj)⟩

/-! The rules -/

/-- No type parameter is meant: the name cannot be one, or none of the types around the reference has it. -/
def Unparametrised (s : Session) (scope : Scope) (d : Descriptor) : Prop :=
  mayBeParameter d = false ∨
    ∃ ds, s.containers scope.container = .ok ds ∧ ∀ x ∈ ds, ∀ q, ¬ s.HasParameter d.name x q

/-- What a name that is no tuple comes to in a scope, with the session that is left. Type parameters shadow
documented types, and these shadow external types, of which one is added if there is none. -/
inductive Ruled (s : Session) (scope : Scope) (d : Descriptor) : Except ResolveError Resolved → Session → Prop
  | parameter {t : Session} {ds : List (TypeId × Documented)} {declaring : TypeId} {p : TypeParameter}
      (hd : mayBeParameter d = true) (hds : s.containers scope.container = .ok ds)
      (hp : s.InnermostParameter d.name ds declaring p) (ht : s.Loads t) :
      Ruled s scope d (.ok (.ofTarget (.parameter declaring p.ordinal d.name))) t
  | documented {t : Session} {id : TypeId} (hfree : s.Unparametrised scope d)
      (hid : s.FirstDeclared (scope.names s d) d.argumentCount id) (ht : s.Loads t) :
      Ruled s scope d (.ok (.named id)) t
  | external {t : Session} {id : TypeId} (hfree : s.Unparametrised scope d)
      (hnone : ∀ n ∈ scope.names s d, ∀ j, ¬ s.Declared n d.argumentCount j) (hid : s.Oldest scope d id)
      (ht : s.Loads t) :
      Ruled s scope d (.ok (.mk (.existing id) (scope.effective s d) [])) t
  | created {t u : Session} {id : TypeId} (hfree : s.Unparametrised scope d)
      (hnone : ∀ n ∈ scope.names s d, ∀ j, ¬ s.Declared n d.argumentCount j) (hnew : ∀ j, ¬ s.Suits scope d j)
      (ha : scope.allowCreate = true) (ht : s.Loads t)
      (hadd : t.addExternal d.split.2 d.argumentCount (scope.effective s d) = .ok (id, u))
      (hrow : u.named? id = some (.external ⟨d.split.2, d.argumentCount, .external, scope.effective s d⟩)) :
      Ruled s scope d (.ok (.named id)) u
  | unresolved {t : Session} (hfree : s.Unparametrised scope d)
      (hnone : ∀ n ∈ scope.names s d, ∀ j, ¬ s.Declared n d.argumentCount j) (hnew : ∀ j, ¬ s.Suits scope d j)
      (ha : scope.allowCreate = false) (ht : s.Loads t) :
      Ruled s scope d (.error (.unresolved d.display)) t
  | exhausted {t : Session} (hfree : s.Unparametrised scope d)
      (hnone : ∀ n ∈ scope.names s d, ∀ j, ¬ s.Declared n d.argumentCount j) (hnew : ∀ j, ¬ s.Suits scope d j)
      (ha : scope.allowCreate = true) (hfull : RowId.largest ≤ s.namedIds.used + 1) (ht : s.Loads t) :
      Ruled s scope d (.error (.catalog (.exhausted .counter))) t

end Session

namespace Find

variable {s t : Session} {scope : Scope} {d : Descriptor}

/-- The search for a type parameter gives the innermost one. -/
theorem reads_parameter (hdoc : s.isDocumented scope.container = true) :
    Reads (plain scope d .parameter) s fun x _ =>
      (mayBeParameter d = true ∧ ∃ ds declaring p, s.containers scope.container = .ok ds ∧
        s.InnermostParameter d.name ds declaring p ∧
        x = some (.ofTarget (.parameter declaring p.ordinal d.name))) ∨ x = none ∧ s.Unparametrised scope d := by
  unfold plain parameter
  apply reads_get_bind
  rw [hdoc, Bool.true_and]
  split
  · next hm =>
    intro hs hn
    obtain ⟨e, he⟩ := isDocumented_iff.mp hdoc
    obtain ⟨y, hy⟩ := exists_offers d.name hs hn he
    have hbound : ∀ id, some scope.container = some id → id.value < s.named.length + 1 := by
      rintro id ⟨⟩
      exact hs.value_le he
    obtain ⟨ds, hds, hsplit⟩ := hy.split hs hn hbound
    refine reads_bind (reads_parameterFrom fun id hid => ⟨?_, hbound id hid⟩) ?_ hs hn
    · cases hid
      exact ⟨e, he⟩
    · intro x t _ hst hx
      refine reads_pure fun _ => ?_
      cases hx.unique (hy.continues hst.continues)
      rcases hsplit with ⟨declaring, p, hp, rfl⟩ | ⟨rfl, hnot⟩
      · exact .inl ⟨hm, ds, declaring, p, hds, hp, rfl⟩
      · exact .inr ⟨rfl, .inr ⟨ds, hds, hnot⟩⟩
  · next hm => exact reads_pure fun _ => .inr ⟨rfl, .inl (Bool.eq_false_iff.mpr hm)⟩

theorem reads_documented : Reads (plain scope d .documented) s fun x _ =>
    (∃ id, s.FirstDeclared (scope.names s d) d.argumentCount id ∧ x = some (.named id)) ∨
      x = none ∧ ∀ n ∈ scope.names s d, ∀ j, ¬ s.Declared n d.argumentCount j := by
  unfold plain
  apply reads_bind (m := fun contexts t => t = s ∧ scope.contexts s d = .ok contexts)
  · exact reads_contexts fun contexts hc => ⟨rfl, hc⟩
  · rintro contexts t - - ⟨rfl, hc⟩
    apply reads_get_bind
    refine reads_pure fun ht => ?_
    cases hfound : documented t d contexts with
    | some id => exact .inl ⟨id, documented_first ht.numbered hc hfound, rfl⟩
    | none => exact .inr ⟨rfl, documented_none ht.numbered hc hfound⟩

/-- The external resolver fails only where no id is left for the type that it would add. -/
theorem leads_external_error {contexts : Option (List Context)} :
    (external scope d contexts).Leads s (fun _ _ => True) fun e t =>
      t = s ∧ scope.allowCreate = true ∧ RowId.largest ≤ s.namedIds.used + 1 ∧ e = .catalog (.exhausted .counter) := by
  unfold external
  apply leads_get_bind
  dsimp only
  split
  · exact leads_pure trivial
  · split
    · next ha =>
      apply leads_bind
      refine leads_perform (fun _ _ _ => leads_pure trivial) fun e he => ⟨rfl, ha, ?_, by rw [addNamed_error he]⟩
      by_contra hroom
      unfold addExternal addNamed at he
      rw [draw_room (by omega), ok_bind] at he
      cases he
    · exact leads_pure trivial

end Find

namespace Session

open Find

variable {s t : Session} {scope : Scope} {d : Descriptor} {name : String} {arity : Nat} {id : TypeId}

theorem Advances.declared_iff (h : s.Advances t) : t.Declared name arity id ↔ s.Declared name arity id := by
  constructor
  · rintro ⟨e, he, hname, harity⟩
    obtain ⟨ps, hd⟩ := h.continues.of_documented h.before.numbered he
    exact ⟨_, hd, hname, harity⟩
  · rintro ⟨e, he, hname, harity⟩
    obtain ⟨ps, hd⟩ := h.continues.documented? he
    exact ⟨_, hd, hname, harity⟩

theorem Advances.names (h : s.Advances t) : scope.names t d = scope.names s d := by
  unfold Scope.names
  rw [h.continues.contexts h.before h.after h.nested]

theorem Advances.firstDeclared (h : s.Advances t) (hid : t.FirstDeclared (scope.names t d) arity id) :
    s.FirstDeclared (scope.names s d) arity id := by
  rw [h.names] at hid
  obtain ⟨inner, n, outer, heq, holdest, hnot⟩ := hid
  refine ⟨inner, n, outer, heq, ⟨h.declared_iff.mp holdest.declared, fun j hj => ?_⟩, fun m hm j hj => ?_⟩
  · exact holdest.least j (h.declared_iff.mpr hj)
  · exact hnot m hm j (h.declared_iff.mpr hj)

theorem Advances.none_declared (h : s.Advances t) (hnone : ∀ n ∈ scope.names t d, ∀ j, ¬ t.Declared n arity j) :
    ∀ n ∈ scope.names s d, ∀ j, ¬ s.Declared n arity j := by
  rw [← h.names]
  exact fun n hn j hj => hnone n hn j (h.declared_iff.mpr hj)

/-- What is left to the external resolver once nothing is declared. -/
theorem Ruled.of_external (hfree : s.Unparametrised scope d)
    (hnone : ∀ n ∈ scope.names s d, ∀ j, ¬ s.Declared n d.argumentCount j) (hloads : s.Loads t) (hst : s.Advances t) :
    (Find.plain scope d .external).Leads t
      (fun x u => (∃ r, x = some r ∧ s.Ruled scope d (.ok r) u) ∨
        x = none ∧ s.Ruled scope d (.error (.unresolved d.display)) u)
      fun e u => s.Ruled scope d (.error e) u := by
  have hnew (h : ∀ j, ¬ t.Suits scope d j) (j : TypeId) : ¬ s.Suits scope d j := fun hj => h j (hst.suits hj)
  unfold plain
  apply leads_bind
  have hcontexts :=
    reads_contexts (m := fun contexts u => u = t ∧ scope.contexts t d = .ok contexts) fun _ hc => ⟨rfl, hc⟩
  refine (hcontexts hst.after hst.nested_after).mono ?_ fun _ _ h => h.elim
  rintro contexts _ ⟨-, rfl, hc⟩
  refine ((leads_external hst.after hc).and leads_external_error).mono ?_ ?_
  · rintro x u ⟨⟨id, hid, rfl, rfl⟩ | ⟨hnot, ⟨ha, rfl, rfl⟩ | ⟨ha, id, hadd, rfl⟩⟩, -⟩
    · refine .inl ⟨_, rfl, ?_⟩
      rw [hst.effective]
      exact .external hfree hnone ((hloads.oldest_iff hst).mp hid) hloads
    · exact .inr ⟨rfl, .unresolved hfree hnone (hnew hnot) ha hloads⟩
    · rw [hst.effective] at hadd
      have hrow := (named?_addNamed hst.after.numbered hadd).2
      exact .inl ⟨_, rfl, .created hfree hnone (hnew hnot) ha hloads hadd hrow⟩
  · rintro e u ⟨hnot, rfl, ha, hfull, rfl⟩
    rw [hloads.rest] at hfull
    exact .exhausted hfree hnone (hnew hnot) ha hfull hloads

end Session

namespace Find

variable {s : Session} {scope : Scope} {d : Descriptor}

theorem leads_first_ruled (hs : s.Sane) (hn : s.Nested) (hdoc : s.isDocumented scope.container = true) :
    (first scope d Chain.standard.order).Leads s
      (fun x t => (∃ r, x = some r ∧ s.Ruled scope d (.ok r) t) ∨
        x = none ∧ s.Ruled scope d (.error (.unresolved d.display)) t)
      fun e t => s.Ruled scope d (.error e) t := by
  unfold Chain.standard first
  apply leads_bind
  refine (reads_parameter hdoc hs hn).mono ?_ fun _ _ h => h.elim
  rintro _ t ⟨⟨hloads, hst⟩, ⟨hm, ds, declaring, p, hds, hp, rfl⟩ | ⟨rfl, hfree⟩⟩
  · exact leads_pure (.inl ⟨_, rfl, .parameter hm hds hp hloads⟩)
  unfold first
  apply leads_bind
  refine (reads_documented hst.after hst.nested_after).mono ?_ fun _ _ h => h.elim
  rintro _ u ⟨⟨hloads', htu⟩, ⟨id, hid, rfl⟩ | ⟨rfl, hnone⟩⟩
  · exact leads_pure (.inl ⟨_, rfl, .documented hfree (hst.firstDeclared hid) (hloads.trans hloads')⟩)
  unfold first
  apply leads_bind
  apply leads_pure
  dsimp only
  unfold first
  apply leads_bind
  have hexternal := Ruled.of_external hfree (hst.none_declared hnone) (hloads.trans hloads') (hst.trans htu)
  refine hexternal.mono ?_ fun _ _ h => h
  rintro _ v (⟨r, rfl, hr⟩ | ⟨rfl, hr⟩)
  · exact leads_pure (.inl ⟨r, rfl, hr⟩)
  · exact leads_pure (.inr ⟨rfl, hr⟩)

end Find

namespace Chain

open Find

variable {s : Session} {scope : Scope} {d : Descriptor}

/-- The standard chain follows the rules wherever the container is a declared type. -/
theorem resolve_ruled (hs : s.Sane) (hn : s.Nested) (hdoc : s.isDocumented scope.container = true)
    (hd : d.isTuple = false) :
    (∃ contexts, scope.contexts s d = .ok contexts) ∧
      s.Ruled scope d ((standard.resolve scope d).outcome s).1 ((standard.resolve scope d).outcome s).2 := by
  constructor
  · obtain ⟨-, c, f, hc⟩ := hs
    exact hc.contexts_ok scope d
  · have hleads : (standard.resolve scope d).Leads s (fun r t => s.Ruled scope d (.ok r) t) fun e t =>
        s.Ruled scope d (.error e) t := by
      cases d with
      | mk name form rank e as =>
        unfold resolve
        dsimp only
        rw [hd]
        apply leads_bind
        refine (leads_first_ruled hs hn hdoc).mono ?_ fun _ _ h => h
        rintro _ t (⟨r, rfl, hr⟩ | ⟨rfl, hr⟩)
        · exact leads_pure hr
        · exact leads_throw hr
    obtain ⟨hok, herror⟩ := leads_iff.mp hleads
    cases hrun : (standard.resolve scope d).outcome s with
    | mk answer t =>
      cases answer with
      | error e => exact herror e t hrun
      | ok r => exact hok r t hrun

end Chain

namespace Sample

theorem resolve_ruled_in_box :
    declared.Sane ∧ declared.Nested ∧ declared.isDocumented ⟨1⟩ = true ∧
      ∃ r t, (Chain.standard.resolve (analysis parameter false).scope parameter).outcome declared = (.ok r, t) ∧
        r.target = .parameter ⟨1⟩ 0 "T" ∧ declared.Ruled (analysis parameter false).scope parameter (.ok r) t := by
  have hdoc : declared.isDocumented ⟨1⟩ = true := by decide +kernel
  have htarget : ((Chain.standard.resolve (analysis parameter false).scope parameter).outcome declared).1.toOption.map
      (·.target) = some (.parameter ⟨1⟩ 0 "T") := by decide +kernel
  obtain ⟨-, hruled⟩ : _ ∧ declared.Ruled (analysis parameter false).scope parameter _ _ :=
    Chain.resolve_ruled worked_declared.sane worked_declared.nested hdoc rfl
  refine ⟨worked_declared.sane, worked_declared.nested, hdoc, ?_⟩
  generalize (Chain.standard.resolve (analysis parameter false).scope parameter).outcome declared = run at htarget hruled
  obtain ⟨e | r, t⟩ := run
  · cases htarget
  · exact ⟨r, t, rfl, Option.some.inj htarget, hruled⟩

end Sample

end TypeCatalog
