import TypeCatalog.Proofs.Continuity

namespace TypeCatalog

/-- What a reference says: the declared type or the tuple that it names, a type parameter by its place, or an
external type by its name. -/
inductive Reading where
  | documented (id : TypeId)
  | tuple (id : TypeId)
  | parameter (declaring : TypeId) (index : Nat) (name : String)
  | external (name : String) (arity : Nat)
  deriving DecidableEq, Repr

def NamedType.reading (id : TypeId) : NamedType → Reading
  | documented _ => .documented id
  | tuple _ => .tuple id
  | parameter p => .parameter p.declaring p.index p.name
  | external x => .external x.name x.arity

theorem NamedType.Develops.reading {a b : NamedType} (h : a.Develops b) (id : TypeId) :
    b.reading id = a.reading id := by
  cases h with
  | namespaces => rfl
  | alike h =>
    obtain rfl | ⟨d, ps, rfl, rfl⟩ := h.eq_or <;> rfl

namespace Session

variable {s t u : Session} {id : TypeId} {R R' : Reading} {scope : Scope} {d : Descriptor}

def reading (s : Session) (id : TypeId) : Option Reading := (s.named? id).map (NamedType.reading id)

theorem reading_eq_some : s.reading id = some R ↔ ∃ a, s.named? id = some a ∧ a.reading id = R :=
  Option.map_eq_some_iff

theorem Continues.reading (h : s.Continues t) (hr : s.reading id = some R) : t.reading id = some R := by
  obtain ⟨a, ha, rfl⟩ := reading_eq_some.mp hr
  obtain ⟨b, hb, hab⟩ := h.named? ha
  exact reading_eq_some.mpr ⟨b, hb, hab.reading id⟩

end Session

/-- What a type that is read so is taken for when tuples are compared. -/
def Reading.identity (s : Session) : Reading → Identity
  | documented id => s.identityOf id
  | tuple id => s.identityOf id
  | parameter _ _ name => ⟨none, name⟩
  | external name _ => ⟨none, name⟩

theorem Session.identityOf_reading {s : Session} {id : TypeId} {R : Reading} (h : s.reading id = some R) :
    s.identityOf id = R.identity s := by
  obtain ⟨a, ha, rfl⟩ := reading_eq_some.mp h
  cases a with
  | documented d => rfl
  | tuple r => rfl
  | parameter p => exact identityOf_named ha
  | external x => exact identityOf_named ha

namespace Resolved

def reading (s : Session) (r : Resolved) : Option Reading :=
  match r.target with
  | .existing id => s.reading id
  | .parameter declaring index name => some (.parameter declaring index name)

variable {s t : Session} {r : Resolved} {R : Reading}

theorem identity_reading (h : r.reading s = some R) : r.identity s = R.identity s := by
  unfold reading at h
  unfold identity
  cases htarget : r.target with
  | existing id =>
    rw [htarget] at h
    exact Session.identityOf_reading h
  | parameter declaring index name =>
    rw [htarget] at h
    cases h
    rfl

theorem reading_continues (h : r.reading s = some R) (hc : s.Continues t) : r.reading t = some R := by
  unfold reading at h ⊢
  cases htarget : r.target with
  | existing id =>
    rw [htarget] at h
    exact hc.reading h
  | parameter declaring index name =>
    rw [htarget] at h
    exact h

end Resolved

/-! External types -/

/-- The namespaces that a type may live in where it is written, or none if its scope is broken. -/
def Scope.effective (scope : Scope) (s : Session) (d : Descriptor) : NameSet :=
  match scope.contexts s d with
  | .ok contexts => Find.effectiveNamespaces d contexts
  | .error _ => .empty

/-- Those of them that an external type has to be seen from to be taken for it. -/
def Scope.witnesses (scope : Scope) (s : Session) (d : Descriptor) : List String :=
  match scope.contexts s d with
  | .ok contexts => Find.witnesses (Find.effectiveNamespaces d contexts) contexts
  | .error _ => []

namespace Session

variable {s t u : Session} {id : TypeId} {R R' : Reading} {scope : Scope} {d : Descriptor}

/-- The row is an external type that the descriptor may mean. -/
def Suits (s : Session) (scope : Scope) (d : Descriptor) (id : TypeId) : Prop :=
  ∃ x, s.named? id = some (.external x) ∧ x.name = d.split.2 ∧ x.arity = d.argumentCount ∧
    ∃ n ∈ scope.witnesses s d, n ∈ x.namespaces.names

structure Oldest (s : Session) (scope : Scope) (d : Descriptor) (id : TypeId) : Prop where
  suits : s.Suits scope d id
  least : ∀ j, s.Suits scope d j → id.value ≤ j.value

theorem Continues.effective (h : s.Continues t) (hs : s.Sane) (ht : t.Sane) (hn : s.Nested) :
    scope.effective t d = scope.effective s d := by
  unfold Scope.effective
  rw [h.contexts hs ht hn]

theorem Continues.witnesses (h : s.Continues t) (hs : s.Sane) (ht : t.Sane) (hn : s.Nested) :
    scope.witnesses t d = scope.witnesses s d := by
  unfold Scope.witnesses
  rw [h.contexts hs ht hn]

theorem Suits.continues (h : s.Suits scope d id) (hc : s.Continues t) (hs : s.Sane) (ht : t.Sane) (hn : s.Nested) :
    t.Suits scope d id := by
  obtain ⟨x, hx, hname, harity, n, hseen, hmem⟩ := h
  obtain ⟨names, hx', hnames⟩ := hc.external? hx
  refine ⟨_, hx', hname, harity, n, ?_, hnames n hmem⟩
  rwa [hc.witnesses hs ht hn]

theorem Suits.named (h : s.Suits scope d id) : ∃ a, s.named? id = some a := by
  obtain ⟨x, hx, -⟩ := h
  exact ⟨_, hx⟩

theorem Suits.reading (h : s.Suits scope d id) : s.reading id = some (.external d.split.2 d.argumentCount) := by
  obtain ⟨x, hx, hname, harity, -⟩ := h
  exact reading_eq_some.mpr ⟨_, hx, by rw [← hname, ← harity]; rfl⟩

theorem mem_externalCandidates (hs : s.Numbered) {name : String} {arity : Nat} :
    id ∈ s.externalCandidates name arity ↔ ∃ x, s.named? id = some (.external x) ∧ x.name = name ∧ x.arity = arity := by
  unfold externalCandidates
  simp only [List.mem_map, List.mem_filter, Prod.exists, exists_and_right, exists_eq_right]
  constructor
  · rintro ⟨a, hmem, ha⟩
    cases a with
    | external x =>
      refine ⟨x, find?_of_named?.mpr (find?_of_nodup hs.named.nodup hmem), ?_⟩
      simpa [NamedType.external?] using ha
    | documented _ => cases ha
    | parameter _ => cases ha
    | tuple _ => cases ha
  · rintro ⟨x, hx, rfl, rfl⟩
    exact ⟨_, List.mem_of_find?_eq_some (find?_of_named?.mp hx), by simp [NamedType.external?]⟩

theorem suits_iff (hs : s.Numbered) :
    s.Suits scope d id ↔ id ∈ s.externalCandidates d.split.2 d.argumentCount ∧
      ((s.named? id).bind NamedType.external?).any (·.couldLiveIn (scope.witnesses s d)) = true := by
  rw [mem_externalCandidates hs]
  constructor
  · rintro ⟨x, hx, hname, harity, n, hn, hmem⟩
    refine ⟨⟨x, hx, hname, harity⟩, ?_⟩
    rw [hx]
    simpa [NamedType.external?, External.couldLiveIn, NameSet.contains] using ⟨n, hn, hmem⟩
  · rintro ⟨⟨x, hx, hname, harity⟩, hfits⟩
    rw [hx] at hfits
    refine ⟨x, hx, hname, harity, ?_⟩
    simpa [NamedType.external?, External.couldLiveIn, NameSet.contains] using hfits

/-- The search goes through the candidates from the oldest on. -/
theorem find?_suits (hs : s.Numbered) :
    (s.externalCandidates d.split.2 d.argumentCount).find? (fun id =>
        ((s.named? id).bind NamedType.external?).any (·.couldLiveIn (scope.witnesses s d))) = some id ↔
      s.Oldest scope d id := by
  -- the candidates ascend, so the first that fits is the oldest
  have hascending : (s.externalCandidates d.split.2 d.argumentCount).Pairwise fun i j => i.value < j.value :=
    hs.named.ascending.sublist (List.filter_sublist.map _)
  rw [List.find?_eq_some_iff_append]
  constructor
  · rintro ⟨hfits, older, newer, heq, hnot⟩
    refine ⟨(suits_iff hs).mpr ⟨by rw [heq]; simp, hfits⟩, ?_⟩
    intro j hj
    obtain ⟨hmem, hj⟩ := (suits_iff hs).mp hj
    rw [heq] at hmem hascending
    rcases List.mem_append.mp hmem with hmem | hmem
    · simpa [hj] using hnot j hmem
    · rcases List.mem_cons.mp hmem with rfl | hmem
      · exact Nat.le_refl _
      · have hnewer := (List.pairwise_append.mp hascending).2.1
        exact Nat.le_of_lt ((List.pairwise_cons.mp hnewer).1 j hmem)
  · intro h
    obtain ⟨hmem, hfits⟩ := (suits_iff hs).mp h.suits
    obtain ⟨older, newer, heq⟩ := List.append_of_mem hmem
    refine ⟨hfits, older, newer, heq, ?_⟩
    intro j hj
    rw [heq] at hascending
    have hlt := (List.pairwise_append.mp hascending).2.2 j hj id List.mem_cons_self
    rw [Bool.not_eq_true', Bool.eq_false_iff]
    intro hfits
    have hle := h.least j ((suits_iff hs).mpr ⟨by rw [heq]; exact List.mem_append_left _ hj, hfits⟩)
    omega

theorem find?_suits_none (hs : s.Numbered) (h : (s.externalCandidates d.split.2 d.argumentCount).find? (fun id =>
      ((s.named? id).bind NamedType.external?).any (·.couldLiveIn (scope.witnesses s d))) = none) (j : TypeId) :
    ¬ s.Suits scope d j := by
  intro hj
  obtain ⟨hmem, hfits⟩ := (suits_iff hs).mp hj
  exact List.find?_eq_none.mp h j hmem hfits

/-! Type parameters -/

/-- The type parameters that are searched at a documented type. -/
def Searches (s : Session) (id : TypeId) (d : Documented) (ps : List TypeParameter) : Prop :=
  if d.arity > 0 then s.Declares id ps else ps = []

/-- The type parameter of a name that is in scope inside a type, or that there is none. -/
inductive Offers (s : Session) (name : String) : Option TypeId → Option Target → Prop
  | nowhere : Offers s name none none
  | found {id : TypeId} {d : Documented} {ps : List TypeParameter} {p : TypeParameter}
      (hd : s.named? id = some (.documented d)) (hps : s.Searches id d ps) (hp : ps.find? (·.name == name) = some p) :
      Offers s name (some id) (some (.parameter id p.ordinal p.name))
  | outer {id : TypeId} {d : Documented} {ps : List TypeParameter} {found : Option Target}
      (hd : s.named? id = some (.documented d)) (hps : s.Searches id d ps) (hp : ps.find? (·.name == name) = none)
      (h : Offers s name d.container found) : Offers s name (some id) found

theorem Declares.unique {ps qs : List TypeParameter} (h : s.Declares id ps) (h' : s.Declares id qs) : ps = qs := by
  obtain ⟨t, ht⟩ := h
  obtain ⟨t', ht'⟩ := h'
  rw [ht] at ht'
  cases ht'
  rfl

theorem Searches.unique {e : Documented} {ps qs : List TypeParameter} (h : s.Searches id e ps) (h' : s.Searches id e qs) :
    ps = qs := by
  unfold Searches at h h'
  split at h
  · next ha =>
    rw [if_pos ha] at h'
    exact h.unique h'
  · next ha =>
    rw [if_neg ha] at h'
    rw [h, h']

theorem Searches.continues {e : Documented} {ps : List TypeParameter} (h : s.Searches id e ps) (hc : s.Continues t)
    (qs : Option (List TypeParameter)) : t.Searches id { e with parameters := qs } ps := by
  unfold Searches at h ⊢
  dsimp only
  split at h
  · next ha =>
    rw [if_pos ha]
    exact hc.declares id ps h
  · next ha =>
    rw [if_neg ha]
    exact h

namespace Offers

variable {name : String} {id? : Option TypeId} {x y : Option Target}

theorem unique (h : s.Offers name id? x) (h' : s.Offers name id? y) : x = y := by
  induction h with
  | nowhere =>
    cases h'
    rfl
  | found hd hps hp =>
    cases h' with
    | found hd' hps' hp' =>
      cases hd.symm.trans hd'
      cases hps.unique hps'
      cases hp.symm.trans hp'
      rfl
    | outer hd' hps' hp' h' =>
      cases hd.symm.trans hd'
      cases hps.unique hps'
      cases hp.symm.trans hp'
  | outer hd hps hp _ ih =>
    cases h' with
    | found hd' hps' hp' =>
      cases hd.symm.trans hd'
      cases hps.unique hps'
      cases hp.symm.trans hp'
    | outer hd' hps' hp' h' =>
      cases hd.symm.trans hd'
      exact ih h'

theorem continues (h : s.Offers name id? x) (hc : s.Continues t) : t.Offers name id? x := by
  induction h with
  | nowhere => exact .nowhere
  | found hd hps hp =>
    obtain ⟨qs, hd'⟩ := hc.documented? hd
    exact .found hd' (hps.continues hc qs) hp
  | outer hd hps hp _ ih =>
    obtain ⟨qs, hd'⟩ := hc.documented? hd
    exact .outer hd' (hps.continues hc qs) hp ih

theorem target (h : s.Offers name id? x) {target : Target} (hx : x = some target) :
    ∃ declaring index name, target = .parameter declaring index name ∧ ∃ e, s.named? declaring = some (.documented e) := by
  induction h with
  | nowhere => cases hx
  | found hd =>
    cases hx
    exact ⟨_, _, _, rfl, _, hd⟩
  | outer _ _ _ _ ih => exact ih hx

end Offers

/-! Identities -/

theorem FirstTuple.unique {ds : List Descriptor} {is : List Identity} {i j : TypeId} (h : s.FirstTuple ds is i)
    (h' : s.FirstTuple ds is j) : i = j :=
  RowId.eq_of_value (Nat.le_antisymm (h.least j h'.has) (h'.least i h.has))

theorem Carries.identityOf (h : s.Carries t) {a : NamedType} (ha : s.named? id = some a) :
    t.identityOf id = s.identityOf id := by
  obtain ⟨b, hb, hidentity, -⟩ := h.named id a ha
  rw [identityOf_named ha, identityOf_named hb, hidentity]

end Session

/-! Answers of the resolvers -/

namespace Find

open Session

/-- What a resolver finds for a descriptor that is no tuple. -/
inductive Finds (s : Session) (scope : Scope) (d : Descriptor) : Resolver → Reading → Prop
  | documented {contexts : Option (List Context)} {id : TypeId} (hc : scope.contexts s d = .ok contexts)
      (h : documented s d contexts = some id) : Finds s scope d .documented (.documented id)
  | parameter {declaring : TypeId} {index : Nat} {name : String} (hd : s.isDocumented scope.container = true)
      (hm : mayBeParameter d = true)
      (h : s.Offers d.name (some scope.container) (some (.parameter declaring index name))) :
      Finds s scope d .parameter (.parameter declaring index name)
  | external {id : TypeId} (h : s.Suits scope d id) :
      Finds s scope d .external (.external d.split.2 d.argumentCount)

/-- A resolver finds nothing, and will not find anything until something is declared. -/
inductive Misses (s : Session) (scope : Scope) (d : Descriptor) : Resolver → Prop
  | documented {contexts : Option (List Context)} (hc : scope.contexts s d = .ok contexts)
      (h : documented s d contexts = none) : Misses s scope d .documented
  | barred (h : (s.isDocumented scope.container && mayBeParameter d) = false) : Misses s scope d .parameter
  | parameter (h : s.Offers d.name (some scope.container) none) : Misses s scope d .parameter
  | tuple : Misses s scope d .tuple

/-- What is found by the first resolver that finds anything. -/
inductive First (s : Session) (scope : Scope) (d : Descriptor) : List Resolver → Reading → Prop
  | here {r : Resolver} {rs : List Resolver} {R : Reading} (h : Finds s scope d r R) : First s scope d (r :: rs) R
  | next {r : Resolver} {rs : List Resolver} {R : Reading} (h : Misses s scope d r)
      (rest : First s scope d rs R) : First s scope d (r :: rs) R

variable {s t : Session} {scope : Scope} {d : Descriptor} {r : Resolver} {rs : List Resolver} {R R' : Reading}

theorem Finds.not_misses (h : Finds s scope d r R) (hm : Misses s scope d r) : False := by
  cases h with
  | documented hc h =>
    cases hm with
    | documented hc' h' =>
      cases hc.symm.trans hc'
      cases h.symm.trans h'
  | parameter hd hm' h =>
    cases hm with
    | barred hb =>
      rw [hd, hm'] at hb
      cases hb
    | parameter h' => cases h.unique h'
  | external => cases hm

theorem Finds.unique (h : Finds s scope d r R) (h' : Finds s scope d r R') : R = R' := by
  cases h with
  | documented hc h =>
    cases h' with
    | documented hc' h' =>
      cases hc.symm.trans hc'
      cases h.symm.trans h'
      rfl
  | parameter hd hm h =>
    cases h' with
    | parameter _ _ h' =>
      cases h.unique h'
      rfl
  | external =>
    cases h'
    rfl

theorem First.unique (h : First s scope d rs R) (h' : First s scope d rs R') : R = R' := by
  induction h with
  | here h =>
    cases h' with
    | here h' => exact h.unique h'
    | next h' _ => exact (h.not_misses h').elim
  | next h _ ih =>
    cases h' with
    | here h' => exact (h'.not_misses h).elim
    | next _ rest' => exact ih rest'

theorem documented_continues (hc : s.Continues t) {contexts : Option (List Context)} :
    documented t d contexts = documented s d contexts := by
  unfold documented
  rw [hc.findDocumented]

theorem Finds.continues (h : Finds s scope d r R) (hc : s.Continues t) (hs : s.Sane) (ht : t.Sane)
    (hn : s.Nested) : Finds t scope d r R := by
  cases h with
  | documented hcs h => exact .documented ((hc.contexts hs ht hn ..).trans hcs) ((documented_continues hc).trans h)
  | parameter hd hm h => exact .parameter (by rw [hc.isDocumented hs.numbered]; exact hd) hm (h.continues hc)
  | external h => exact .external (h.continues hc hs ht hn)

theorem Misses.continues (h : Misses s scope d r) (hc : s.Continues t) (hs : s.Sane) (ht : t.Sane)
    (hn : s.Nested) : Misses t scope d r := by
  cases h with
  | documented hcs h => exact .documented ((hc.contexts hs ht hn ..).trans hcs) ((documented_continues hc).trans h)
  | barred h => exact .barred (by rw [hc.isDocumented hs.numbered]; exact h)
  | parameter h => exact .parameter (h.continues hc)
  | tuple => exact .tuple

theorem First.continues (h : First s scope d rs R) (hc : s.Continues t) (hs : s.Sane) (ht : t.Sane)
    (hn : s.Nested) : First t scope d rs R := by
  induction h with
  | here h => exact .here (h.continues hc hs ht hn)
  | next h _ ih => exact .next (h.continues hc hs ht hn) ih

theorem named?_documented (hs : s.Sane) {contexts : Option (List Context)} {id : TypeId}
    (h : documented s d contexts = some id) : ∃ e, s.named? id = some (.documented e) := by
  have hfound : ∃ name, s.findDocumented name d.argumentCount = some id := by
    unfold documented at h
    split at h
    · exact ⟨_, h⟩
    · obtain ⟨c, -, hc⟩ := List.exists_of_findSome?_eq_some h
      exact ⟨_, hc⟩
  obtain ⟨name, hname⟩ := hfound
  exact isDocumented_iff.mp (hs.findDocumented hname)

theorem First.identity (h : First s scope d rs R) (hs : s.Sane) (hc : s.Carries t) : R.identity t = R.identity s := by
  induction h with
  | next _ _ ih => exact ih
  | here h =>
    cases h with
    | documented _ h =>
      obtain ⟨e, he⟩ := named?_documented hs h
      exact hc.identityOf he
    | parameter => rfl
    | external => rfl

end Find

namespace Chain

open Find Session

mutual

/-- What a descriptor is recognised as in a session, without anything new. A tuple is the oldest one with the
elements that are recognised. -/
def Sees (chain : Chain) (scope : Scope) (s : Session) : Descriptor → Reading → Prop
  | .mk name form rank e as, R =>
    (form = .tuple → chain.order ≠ [] ∧ ∃ Rs id, SeesAll chain scope s as Rs ∧ R = .tuple id ∧
      s.FirstTuple as (Rs.map (Reading.identity s)) id) ∧
    (form ≠ .tuple → First s scope (.mk name form rank e as) chain.order R)

def SeesAll (chain : Chain) (scope : Scope) (s : Session) : List Descriptor → List Reading → Prop
  | [], Rs => Rs = []
  | d :: ds, Rs => ∃ R rest, Rs = R :: rest ∧ Sees chain scope s d R ∧ SeesAll chain scope s ds rest

end

variable {chain : Chain} {scope : Scope} {s t : Session}

mutual

theorem Sees.unique (d : Descriptor) {R R' : Reading} (h : chain.Sees scope s d R) (h' : chain.Sees scope s d R') :
    R = R' := by
  match d with
  | .mk name form rank e as =>
    by_cases hform : form = .tuple
    · obtain ⟨-, Rs, id, hRs, rfl, hfirst⟩ := h.1 hform
      obtain ⟨-, Rs', id', hRs', rfl, hfirst'⟩ := h'.1 hform
      rw [SeesAll.unique as hRs hRs'] at hfirst
      rw [hfirst.unique hfirst']
    · exact (h.2 hform).unique (h'.2 hform)

theorem SeesAll.unique (ds : List Descriptor) {Rs Rs' : List Reading} (h : chain.SeesAll scope s ds Rs)
    (h' : chain.SeesAll scope s ds Rs') : Rs = Rs' := by
  match ds with
  | [] => exact Eq.trans h (Eq.symm h')
  | d :: ds =>
    obtain ⟨R, rest, rfl, hd, hds⟩ := h
    obtain ⟨R', rest', rfl, hd', hds'⟩ := h'
    rw [Sees.unique d hd hd', SeesAll.unique ds hds hds']

end

mutual

/-- What is recognised stays so, and is taken for the same. -/
theorem Sees.continues (hc : s.Continues t) (hs : s.Sane) (ht : t.Sane) (hn : s.Nested) (d : Descriptor) {R : Reading}
    (h : chain.Sees scope s d R) : chain.Sees scope t d R ∧ R.identity t = R.identity s := by
  match d with
  | .mk name form rank e as =>
    by_cases hform : form = .tuple
    · obtain ⟨hne, Rs, id, hRs, rfl, hfirst⟩ := h.1 hform
      obtain ⟨hRs', hidentities⟩ := SeesAll.continues hc hs ht hn as hRs
      obtain ⟨r, hr⟩ := hfirst.has.named hs
      refine ⟨⟨fun _ => ⟨hne, Rs, id, hRs', rfl, ?_⟩, fun hne => absurd hform hne⟩, hc.carries.identityOf hr⟩
      rw [hidentities]
      exact hfirst.carried hs ht hc.carries
    · have hfirst := h.2 hform
      refine ⟨⟨fun h => absurd h hform, fun _ => hfirst.continues hc hs ht hn⟩, hfirst.identity hs hc.carries⟩

theorem SeesAll.continues (hc : s.Continues t) (hs : s.Sane) (ht : t.Sane) (hn : s.Nested) (ds : List Descriptor)
    {Rs : List Reading} (h : chain.SeesAll scope s ds Rs) :
    chain.SeesAll scope t ds Rs ∧ Rs.map (Reading.identity t) = Rs.map (Reading.identity s) := by
  match ds with
  | [] =>
    cases h
    exact ⟨rfl, rfl⟩
  | d :: ds =>
    obtain ⟨R, rest, rfl, hd, hds⟩ := h
    obtain ⟨hd', hidentity⟩ := Sees.continues hc hs ht hn d hd
    obtain ⟨hds', hidentities⟩ := SeesAll.continues hc hs ht hn ds hds
    exact ⟨⟨R, rest, rfl, hd', hds'⟩, by rw [List.map_cons, List.map_cons, hidentity, hidentities]⟩

end

end Chain

end TypeCatalog
