import TypeCatalog.Proofs.Shadowing

namespace TypeCatalog

open Act Session Resolved

namespace Session

variable {s t u : Session} {id : TypeId} {a : NamedType} {n m l n' m' : TypeId → Nat}

/-! New rows of type parameters -/

/-- The id is that of a type parameter or of no row. -/
def Unclaimed (s : Session) (id : TypeId) : Prop := ∀ a, s.named? id = some a → a.kind = .parameter

def taken (s : Session) (id : TypeId) : Nat := if (s.named? id).isSome then 1 else 0

/-- The type parameters that got a row since `s` are those of which `after` counts one more than `before`. -/
def Pays (s t : Session) (before after : TypeId → Nat) : Prop :=
  ∀ id, t.Unclaimed id → t.taken id + before id = s.taken id + after id

theorem Grows.unclaimed (h : s.Grows t) (hid : t.Unclaimed id) : s.Unclaimed id := by
  intro a ha
  obtain ⟨b, hb, hab⟩ := h.named? ha
  rw [← hab.kind_eq]
  exact hid b hb

theorem Pays.trans (h : s.Pays t n m) (k : t.Pays u m l) (hg : t.Grows u) : s.Pays u n l := by
  intro id hid
  have hst := h id (hg.unclaimed hid)
  have htu := k id hid
  omega

theorem Pays.add (h : s.Pays t n m) (k : t.Pays u n' m') (hg : t.Grows u) :
    s.Pays u (fun id => n id + n' id) fun id => m id + m' id := by
  intro id hid
  have hst := h id (hg.unclaimed hid)
  have htu := k id hid
  dsimp only
  omega

/-- What is counted for ids of other rows does not matter. -/
theorem Pays.congr (h : s.Pays t n m) (hn : ∀ id, t.Unclaimed id → n' id = n id)
    (hm : ∀ id, t.Unclaimed id → m' id = m id) : s.Pays t n' m' := by
  intro id hid
  rw [hn id hid, hm id hid]
  exact h id hid

theorem pays_of_taken (h : ∀ id, t.Unclaimed id → t.taken id = s.taken id) : s.Pays t n n := by
  intro id hid
  rw [h id hid]

theorem Pays.refl (s : Session) : s.Pays s n n := pays_of_taken fun _ _ => rfl

theorem pays_of_named (h : t.named = s.named) : s.Pays t n n := by
  refine pays_of_taken fun id _ => ?_
  unfold taken named?
  rw [h]

theorem pays_of_namedIds (hs : s.Sane) (ht : t.Sane) (h : t.namedIds = s.namedIds) : s.Pays t n n := by
  refine pays_of_taken fun id _ => ?_
  have hiff : (t.named? id).isSome = true ↔ (s.named? id).isSome = true := by
    rw [Option.isSome_iff_exists, Option.isSome_iff_exists, hs.named_iff, ht.named_iff, h]
  unfold taken
  simp only [hiff]

theorem Loads.pays (h : s.Loads t) (ha : s.Advances t) : s.Pays t n n :=
  pays_of_namedIds ha.before ha.after (by rw [h.rest])

theorem taken_concat (h : t.named = s.named ++ [(id, a)]) (hnew : s.named? id = none) (j : TypeId) :
    t.taken j = s.taken j + if id = j then 1 else 0 := by
  unfold taken
  rw [named?_concat h]
  by_cases hj : j = id
  · subst hj
    simp [hnew]
  · simp [hj, Ne.symm hj]

/-- A new row of another kind is none of a type parameter. -/
theorem pays_concat (h : t.named = s.named ++ [(id, a)]) (hnew : s.named? id = none) (ha : a.kind ≠ .parameter) :
    s.Pays t n n := by
  refine pays_of_taken fun j hj => ?_
  rw [taken_concat h hnew, if_neg, Nat.add_zero]
  rintro rfl
  refine ha (hj a ?_)
  rw [named?_concat h, hnew]
  simp

theorem pays_addNamed (hs : s.Numbered) (ha : a.kind ≠ .parameter) (h : s.addNamed a = .ok (id, t)) : s.Pays t n n := by
  obtain ⟨-, rfl, rfl⟩ := addNamed_ok h
  exact pays_concat rfl (named?_next hs) ha

theorem pays_addTuple (hs : s.Numbered) {name : String} {es : List NewElement}
    (h : s.addTuple name es = .ok (id, t)) : s.Pays t n n := by
  obtain ⟨-, -, rfl, rfl⟩ := addTuple_ok h
  exact pays_concat rfl (named?_next hs) (by simp [NamedType.kind])

end Session

/-- How often a target refers to the row. -/
def Target.counts (target : Target) (id : TypeId) : Nat := if target = .existing id then 1 else 0

theorem Target.counts_eq_zero {t : Session} {target : Target} {id : TypeId} (hid : t.Unclaimed id)
    (h : ∀ j, target = .existing j → ∃ a, t.named? j = some a ∧ a.kind ≠ .parameter) : target.counts id = 0 := by
  refine if_neg fun htarget => ?_
  obtain ⟨a, ha, hkind⟩ := h id htarget
  exact hkind (hid a ha)

/-- A new row of a type parameter is added for the one reference that is committed. -/
theorem Resolved.pays_commit {s t : Session} (hs : s.Sane) {r : Resolved} (hr : r.Valid s) {id : TypeId}
    (h : r.commit s = .ok (id, t)) : s.Pays t r.target.counts (Target.existing id).counts := by
  obtain ⟨htarget, -, rfl⟩ | ⟨htarget, -, n, he⟩ | ⟨declaring, index, name, htarget, hadd⟩ := commit_ok h
  · rw [htarget]
    exact .refl t
  · rw [htarget]
    have ht : t.Sane := Binding.Steps.sane hs (.single (.commit hr h))
    obtain ⟨x, -, -, rfl⟩ := extendExternal_ok he
    exact pays_of_namedIds hs ht rfl
  · obtain ⟨-, rfl, rfl⟩ := addNamed_ok hadd
    intro j _
    rw [htarget, taken_concat rfl (named?_next hs.numbered)]
    simp [Target.counts]

/-! What was found, and what it still owes -/

namespace Session

variable {s t : Session} {id : TypeId}

theorem mem_unseen_or {known : NameSet} {names : List String} {n : String} (h : n ∈ names) :
    n ∈ unseen known names ∨ n ∈ known.names := by
  induction names generalizing known with
  | nil => cases h
  | cons m names ih =>
    unfold unseen
    split
    · next hm =>
      rcases List.mem_cons.mp h with rfl | h
      · exact .inr (List.contains_iff_mem.mp hm)
      · exact ih h
    · rcases List.mem_cons.mp h with rfl | h
      · exact .inl List.mem_cons_self
      · have hrest : n ∈ unseen (known.insert m) names ∨ n ∈ (known.insert m).names := ih h
        rcases hrest with h | h
        · exact .inl (List.mem_cons_of_mem m h)
        · rcases NameSet.mem_insert.mp h with rfl | h
          · exact .inl List.mem_cons_self
          · exact .inr h

theorem mem_seenFrom {x : External} {names : List String} {n : String} (h : n ∈ names ∨ n ∈ x.namespaces.names) :
    n ∈ (seenFrom x names).namespaces.names := by
  refine NameSet.mem_foldl_insert.mpr ?_
  rcases h with h | h
  · exact mem_unseen_or h
  · exact .inr h

theorem extended (hs : s.Numbered) {names : List String} {n : Nat} (h : s.extendExternal id names = .ok (n, t)) :
    ∃ x, s.named? id = some (.external x) ∧ t.named? id = some (.external (seenFrom x names)) := by
  obtain ⟨x, hx, -, rfl⟩ := extendExternal_ok h
  have hmem : (id, .external (seenFrom x names)) ∈ replaceRow id (.external (seenFrom x names)) s.named := by
    refine mem_replaceRow.mpr (.inr ⟨rfl, ?_⟩)
    exact List.mem_map_of_mem (List.mem_of_find?_eq_some (find?_of_named?.mp hx))
  have hnodup : ((replaceRow id (.external (seenFrom x names)) s.named).map (·.1)).Nodup := by
    rw [map_fst_replaceRow]
    exact hs.named.nodup
  exact ⟨x, hx, find?_of_named?.mpr (find?_of_nodup hnodup hmem)⟩

end Session

theorem Find.Finds.back {s t : Session} {scope : Scope} {d : Descriptor} {R : Reading}
    (h : Finds t scope d .parameter R) (hst : s.Advances t) : Finds s scope d .parameter R := by
  cases h with
  | parameter hd hm h =>
    rw [hst.continues.isDocumented hst.before.numbered] at hd
    obtain ⟨e, he⟩ := isDocumented_iff.mp hd
    obtain ⟨x, hx⟩ := exists_offers d.name hst.before hst.nested he
    cases h.unique (hx.continues hst.continues)
    exact .parameter hd hm hx

namespace Resolved

/-- What was found for a descriptor says what was recognised in `o`, and a type parameter only if it was in scope
there. An external type has all the namespaces that it may live in, or they wait to be learned. -/
structure Due (chain : Chain) (scope : Scope) (o s : Session) (d : Descriptor) (r : Resolved) : Prop where
  named : ∀ id, r.target = .existing id → ∃ a, s.named? id = some a
  recognised : ∀ R, chain.Sees scope o d R → r.reading s = some R
  parameter : ∀ declaring index name, r.reading s = some (.parameter declaring index name) →
    Find.Finds o scope d .parameter (.parameter declaring index name)
  external : ∀ id x, r.target = .existing id → s.named? id = some (.external x) → x.name = d.split.2 ∧
    x.arity = d.argumentCount ∧ ∀ n ∈ (scope.effective o d).names, n ∈ r.learned.names ∨ n ∈ x.namespaces.names

variable {chain : Chain} {scope : Scope} {o s t : Session} {d : Descriptor} {r : Resolved} {id : TypeId} {R : Reading}

theorem Due.reading (h : r.Due chain scope o s d) : ∃ R, r.reading s = some R := by
  unfold Resolved.reading
  cases htarget : r.target with
  | existing i =>
    obtain ⟨a, ha⟩ := h.named i htarget
    exact ⟨_, reading_eq_some.mpr ⟨a, ha, rfl⟩⟩
  | parameter declaring index name => exact ⟨_, rfl⟩

theorem Due.reading_back (h : r.Due chain scope o s d) (hst : s.Advances t) (hr : r.reading t = some R) :
    r.reading s = some R := by
  obtain ⟨R', hR'⟩ := h.reading
  cases hr.symm.trans (reading_continues hR' hst.continues)
  exact hR'

theorem Due.advances (h : r.Due chain scope o s d) (hst : s.Advances t) : r.Due chain scope o t d where
  named id htarget := by
    obtain ⟨a, ha⟩ := h.named id htarget
    obtain ⟨b, hb, -⟩ := hst.grows.named? ha
    exact ⟨b, hb⟩
  recognised R hR := reading_continues (h.recognised R hR) hst.continues
  parameter declaring index name hr := h.parameter declaring index name (h.reading_back hst hr)
  external id x htarget hx := by
    obtain ⟨a, ha⟩ := h.named id htarget
    obtain ⟨y, hy⟩ := hst.of_external ha hx
    obtain ⟨hname, harity, hseen⟩ := h.external id y htarget hy
    obtain ⟨names, hx', hnames⟩ := hst.continues.external? hy
    cases hx.symm.trans hx'
    exact ⟨hname, harity, fun n hn => (hseen n hn).imp_right (hnames n)⟩

/-- A commit settles what is due. -/
theorem Due.committed (h : r.Due chain scope o s d) (hr : r.Valid s) (hst : s.Advances t)
    (hc : r.commit s = .ok (id, t)) (es : List Resolved) :
    (Resolved.mk (.existing id) .empty es).Due chain scope o t d where
  named := by
    rintro _ ⟨⟩
    exact named?_commit hst.before.numbered hr hc
  recognised R hR := reading_commit hst.before.numbered hc ((h.advances hst).recognised R hR)
  parameter declaring index name hid := by
    obtain ⟨R, hR⟩ := (h.advances hst).reading
    cases hid.symm.trans (reading_commit hst.before.numbered hc hR)
    exact (h.advances hst).parameter declaring index name hR
  external := by
    rintro _ x ⟨⟩ hx
    obtain ⟨htarget, hnone, rfl⟩ | ⟨htarget, -, n, he⟩ | ⟨declaring, index, name, -, hadd⟩ := commit_ok hc
    · obtain ⟨hname, harity, hseen⟩ := h.external id x htarget hx
      refine ⟨hname, harity, fun n hn => (hseen n hn).imp_left fun hlearned => ?_⟩
      rw [List.isEmpty_iff.mp hnone] at hlearned
      exact hlearned
    · obtain ⟨y, hy, hy'⟩ := extended hst.before.numbered he
      cases hx.symm.trans hy'
      obtain ⟨hname, harity, hseen⟩ := h.external id y htarget hy
      exact ⟨hname, harity, fun n hn => .inr (mem_seenFrom (hseen n hn))⟩
    · cases (named?_addNamed hst.before.numbered hadd).2.symm.trans hx

/-- What a resolver found for a descriptor that is no tuple. -/
structure Found (scope : Scope) (s : Session) (d : Descriptor) (r : Resolved) : Prop where
  kind : ∀ id, r.target = .existing id → ∃ a, s.named? id = some a ∧ a.kind ≠ .parameter
  parameter : ∀ declaring index name, r.target = .parameter declaring index name →
    Find.Finds s scope d .parameter (.parameter declaring index name)
  external : ∀ id x, r.target = .existing id → s.named? id = some (.external x) → x.name = d.split.2 ∧
    x.arity = d.argumentCount ∧ ∀ n ∈ (scope.effective s d).names, n ∈ r.learned.names ∨ n ∈ x.namespaces.names

theorem Answers.found {Q : Resolver} (hQ : Q ≠ .external)
    (h : r.Answers (fun _ _ => False) (Find.Finds s scope d Q) scope s d) : r.Found scope s d where
  kind id htarget := by
    have hv := h.valid.target
    rw [htarget] at hv
    obtain ⟨⟨a, ha⟩, -⟩ := hv
    refine ⟨a, ha, fun hkind => ?_⟩
    cases a with
    | parameter p => exact h.parameter id p htarget ha
    | documented _ => cases hkind
    | external _ => cases hkind
    | tuple _ => cases hkind
  parameter declaring index name htarget := by
    obtain ⟨R, hR, hr⟩ := h.reading
    unfold Resolved.reading at hr
    rw [htarget] at hr
    cases hr
    cases hR with
    | parameter hd hm h => exact .parameter hd hm h
  external id x htarget hx := by
    obtain ⟨R, hR, hr⟩ := h.reading
    unfold Resolved.reading at hr
    rw [htarget] at hr
    have hread := Option.some.inj (hr.symm.trans (reading_eq_some.mpr ⟨_, hx, rfl⟩))
    cases hR with
    | documented => cases hread
    | parameter => cases hread
    | external => exact absurd rfl hQ

end Resolved

namespace Find

theorem Pursues.outcome {α : Type} {a : Act ResolveError α} {s : Session} {good : α → Session → Prop}
    (h : Pursues a s good) : Pursues a s fun x t => good x t ∧ a.outcome s = (.ok x, t) := by
  intro hs htidy hn
  refine ((h hs htidy hn).and leads_outcome).mono ?_ fun _ _ _ => trivial
  rintro x t ⟨⟨hkept, hx⟩, hrun⟩
  exact ⟨hkept, hx, hrun⟩

variable {scope : Scope} {s t : Session} {d : Descriptor} {n : TypeId → Nat}

theorem found_oldest {id : TypeId} (h : s.Oldest scope d id) :
    (Resolved.mk (.existing id) (scope.effective s d) []).Found scope s d where
  kind := by
    rintro _ ⟨⟩
    obtain ⟨x, hx, -⟩ := h.suits
    exact ⟨_, hx, by simp [NamedType.kind]⟩
  parameter := by rintro _ _ _ ⟨⟩
  external := by
    rintro _ x ⟨⟩ hx
    obtain ⟨y, hy, hname, harity, -⟩ := h.suits
    cases hx.symm.trans hy
    exact ⟨hname, harity, fun n hn => .inl hn⟩

theorem found_addExternal {id : TypeId} (hst : s.Advances t)
    (h : s.addExternal d.split.2 d.argumentCount (scope.effective s d) = .ok (id, t)) :
    (Resolved.named id).Found scope t d := by
  have hrow := (named?_addNamed hst.before.numbered h).2
  constructor
  · rintro _ ⟨⟩
    exact ⟨_, hrow, by simp [NamedType.kind]⟩
  · rintro _ _ _ ⟨⟩
  · rintro _ x ⟨⟩ hx
    cases hx.symm.trans hrow
    refine ⟨rfl, rfl, fun n hn => .inr ?_⟩
    rwa [hst.effective] at hn

theorem pursues_found_external : Pursues (plain scope d .external) s fun x t => s.Pays t n n ∧
    ∀ r, x = some r → r.Found scope t d := by
  unfold plain
  apply pursues_bind (m := fun contexts t => t = s ∧ scope.contexts s d = .ok contexts)
  · exact (reads_contexts fun contexts hc => ⟨rfl, hc⟩).pursues.mono fun _ _ _ h => h.2
  · rintro contexts t - ⟨rfl, hc⟩ ht htidy hn
    have heffective : scope.effective t d = effectiveNamespaces d contexts := by
      unfold Scope.effective
      rw [hc]
    refine (leads_external ht hc).mono ?_ fun _ _ _ => trivial
    rintro x u (⟨id, hid, rfl, rfl⟩ | ⟨-, ⟨-, rfl, rfl⟩ | ⟨ha, id, hadd, rfl⟩⟩)
    · refine ⟨⟨htidy, .refl ht hn⟩, .refl u, ?_⟩
      rintro _ ⟨⟩
      exact found_oldest hid
    · exact ⟨⟨htidy, .refl ht hn⟩, .refl u, by simp⟩
    · have hnames := heffective ▸ hadd
      have hstep : Steps true t u := .single (.external rfl ascending_effectiveNamespaces hnames)
      have htu := hstep.advances ht hn
      refine ⟨⟨htidy.kept ht htu.after htu.grows (.addNamed rfl hadd), htu⟩, ?_, ?_⟩
      · exact pays_addNamed ht.numbered (by simp [NamedType.kind]) hadd
      · rintro _ ⟨⟩
        exact found_addExternal htu hadd

theorem pursues_found {rs : List Resolver} : Pursues (first scope d rs) s fun x t => s.Pays t n n ∧
    ∀ r, x = some r → r.Found scope t d := by
  induction rs generalizing s with
  | nil => exact pursues_pure fun _ => ⟨.refl s, by simp⟩
  | cons r rs ih =>
    unfold first
    have hplain : Pursues (plain scope d r) s fun x t => s.Pays t n n ∧ ∀ y, x = some y → y.Found scope t d := by
      by_cases hr : r = .external
      · subst hr
        exact pursues_found_external
      · refine (reads_plain (Q := fun _ _ => False) hr).pursues.mono ?_
        rintro x t hst ⟨hloads, hsome, -⟩
        exact ⟨hloads.pays hst, fun y hy => (hsome y hy).found hr⟩
    apply pursues_bind hplain
    rintro x t - ⟨hpays, hx⟩
    cases x with
    | some y => exact pursues_pure fun _ => ⟨hpays, hx⟩
    | none =>
      refine ih.mono ?_
      rintro x u htu ⟨hpays', hx'⟩
      exact ⟨hpays.trans hpays' htu.grows, hx'⟩

end Find

/-! Targets that are counted in a tree -/

namespace Resolved

mutual

/-- How often a descriptor and the elements of a tuple were found to be the row. -/
def uses (id : TypeId) : Descriptor → Resolved → Nat
  | .mk _ form _ _ as, r => r.target.counts id + if form = .tuple then usesAll id as r.elements else 0

def usesAll (id : TypeId) : List Descriptor → List Resolved → Nat
  | d :: ds, r :: rs => uses id d r + usesAll id ds rs
  | _, _ => 0

end

theorem usesAll_nil (id : TypeId) (ds : List Descriptor) : usesAll id ds [] = 0 := by cases ds <;> rfl

theorem uses_committed (j id : TypeId) (d : Descriptor) (r : Resolved) :
    uses j d (.mk (.existing id) .empty r.elements) + r.target.counts j =
      uses j d r + (Target.existing id).counts j := by
  cases d with
  | mk name form rank e as =>
    cases r with
    | mk target learned elements =>
      simp only [uses, Resolved.target, Resolved.elements]
      omega

variable {chain : Chain} {scope : Scope} {o s t : Session} {d : Descriptor} {r : Resolved} {id : TypeId}

theorem Found.due (h : r.Found scope t d) (ho : o.Advances t) (hr : ∀ R, chain.Sees scope o d R → r.reading t = some R) :
    r.Due chain scope o t d where
  named id htarget := by
    obtain ⟨a, ha, -⟩ := h.kind id htarget
    exact ⟨a, ha⟩
  recognised := hr
  parameter declaring index name hread := by
    unfold Resolved.reading at hread
    cases htarget : r.target with
    | existing id =>
      rw [htarget] at hread
      obtain ⟨a, ha, hkind⟩ := h.kind id htarget
      obtain ⟨b, hb, hreading⟩ := reading_eq_some.mp hread
      cases ha.symm.trans hb
      cases a with
      | parameter p => exact absurd rfl hkind
      | documented _ => cases hreading
      | external _ => cases hreading
      | tuple _ => cases hreading
    | parameter declaring' index' name' =>
      rw [htarget] at hread
      cases hread
      exact (h.parameter declaring index name htarget).back ho
  external id x htarget hx := by
    rw [← ho.effective]
    exact h.external id x htarget hx

theorem found_tuple {q : Tuple} {es : List Resolved} (hq : s.named? id = some (.tuple q)) :
    (Resolved.mk (.existing id) .empty es).Found scope s d := by
  constructor
  · rintro _ ⟨⟩
    exact ⟨_, hq, by simp [NamedType.kind]⟩
  · rintro _ _ _ ⟨⟩
  · rintro _ x ⟨⟩ hx
    cases hx.symm.trans hq

theorem all_due_committed (h : r.All (Due chain scope o s) d) (hr : r.Valid s) (hst : s.Advances t)
    (hc : r.commit s = .ok (id, t)) : (Resolved.mk (.existing id) .empty r.elements).All (Due chain scope o t) d := by
  cases d with
  | mk name form rank e as =>
    exact ⟨h.1.committed hr hst hc _, fun hform => (h.2 hform).imp (fun _ _ h => h.advances hst) as⟩

end Resolved

namespace Find

variable {chain : Chain} {scope : Scope} {o s : Session}

theorem pursues_due_commitElements (ha : scope.allowCreate = true) {k : Nat} {ds : List Descriptor} {rs : List Resolved}
    (hr : ValidAll s rs) (hd : AllOf (Due chain scope o s) ds rs) :
    Pursues (commitElements k ds rs) s fun x t => s.Pays t (usesAll · ds rs) (usesAll · ds x.2) ∧
      AllOf (Due chain scope o t) ds x.2 := by
  induction ds generalizing s k rs with
  | nil =>
    cases hd
    exact pursues_pure fun _ => ⟨.refl s, rfl⟩
  | cons d ds ih =>
    obtain ⟨r, rs, rfl, hd, hds⟩ := hd
    unfold commitElements
    apply pursues_bind (pursues_commit ha hr.1)
    intro id t hst hc
    have hpays := pays_commit hst.before hr.1 hc
    apply pursues_bind (ih (hr.2.mono hst.grows) (hds.imp (fun _ _ h => h.advances hst) ds))
    rintro ⟨rows, done⟩ u htu ⟨hpays', hdone⟩
    refine pursues_pure fun _ => ⟨?_, _, _, rfl, ?_, hdone⟩
    · intro j hj
      have hfirst := hpays j (htu.grows.unclaimed hj)
      have hrest := hpays' j hj
      have hsame := uses_committed j id d r
      dsimp only [usesAll] at hrest ⊢
      omega
    · exact (all_due_committed hd hr.1 hst hc).imp (fun _ _ h => h.advances htu) d

theorem pursues_due_tuple {d : Descriptor} {rs : List Resolved} (hr : ValidAll s rs)
    (hdescribes : DescribesAll s d.arguments rs) (hd : AllOf (Due chain scope o s) d.arguments rs) :
    Pursues (tuple scope d rs) s fun x t => ∀ r, x = some r →
      s.Pays t (usesAll · d.arguments rs) (usesAll · d.arguments r.elements) ∧
        AllOf (Due chain scope o t) d.arguments r.elements ∧ r.Found scope t d := by
  have hgood : Pursues (tuple scope d rs) s fun x t => ∀ r, x = some r → r.learned = .empty ∧
      s.Pays t (usesAll · d.arguments rs) (usesAll · d.arguments r.elements) ∧
        AllOf (Due chain scope o t) d.arguments r.elements := by
    apply pursues_tuple_of (fun es t => s.Pays t (usesAll · d.arguments rs) (usesAll · d.arguments es) ∧
      AllOf (Due chain scope o t) d.arguments es) hr hdescribes ⟨.refl s, hd⟩
    · exact fun ha => pursues_due_commitElements ha hr hd
    · rintro es rows t id u n v hst hu hv htv ⟨hpays, hdue⟩
      refine ⟨hpays.trans ?_ htv.grows, hdue.imp (fun _ _ h => h.advances htv) d.arguments⟩
      exact (pays_addTuple hst.after.numbered hu).trans (pays_of_named (named_save hv)) (grows_save hv)
  refine (hgood.and (tracks_tuple hr hdescribes)).mono ?_
  rintro x t hst ⟨hx, htracks⟩ r hr
  obtain ⟨hlearned, hpays, hdue⟩ := hx r hr
  obtain ⟨-, ⟨id, htarget, hfirst⟩, -⟩ := htracks r hr
  obtain ⟨q, hq⟩ := hfirst.has.named hst.after
  obtain ⟨target, learned, elements⟩ := r
  cases htarget
  cases hlearned
  exact ⟨hpays, hdue, found_tuple hq⟩

end Find

namespace Chain

open Find

variable {chain : Chain} {scope : Scope} {o s t : Session} {d : Descriptor} {r : Resolved}

/-- What is recognised is what is found, also if types may be created. -/
theorem recognised {R : Reading} (ho : o.Advances s) (hR : chain.Sees scope o d R)
    (h : (chain.resolve scope d).outcome s = (.ok r, t)) : r.reading t = some R := by
  have hsees := (hR.continues ho.continues ho.before ho.after ho.nested d).1
  have hreads := reads_resolve (Q := fun _ _ => False) chain scope scope.allowCreate s d hsees ho.after ho.nested_after
  obtain ⟨⟨-, hst⟩, hall⟩ := (leads_iff.mp hreads).1 r t h
  obtain ⟨R', hR', hr⟩ := hall.self.reading
  rw [hr, ((hsees.continues hst.continues hst.before hst.after hst.nested d).1).unique d hR']

mutual

theorem pursues_due_resolve (chain : Chain) (scope : Scope) (o s : Session) (d : Descriptor) (ho : o.Advances s) :
    Pursues (chain.resolve scope d) s fun r t => s.Pays t (fun _ => 0) (uses · d r) ∧
      r.All (Due chain scope o t) d := by
  match d with
  | .mk name form rank e as =>
    suffices h : Pursues (chain.resolve scope (.mk name form rank e as)) s fun r t =>
        s.Pays t (fun _ => 0) (uses · (.mk name form rank e as) r) ∧ r.Found scope t (.mk name form rank e as) ∧
          (form = .tuple → AllOf (Due chain scope o t) as r.elements) by
      refine h.outcome.mono ?_
      rintro r t hst ⟨⟨hpays, hfound, hall⟩, hrun⟩
      exact ⟨hpays, hfound.due (ho.trans hst) fun R hR => recognised ho hR hrun, hall⟩
    unfold resolve
    dsimp only
    split
    · next hform =>
      obtain rfl : form = .tuple := beq_iff_eq.mp hform
      split
      · exact pursues_throw
      · apply pursues_bind ((pursues_due_resolveAll chain scope o s as ho).and (tracks_resolveAll chain scope s as))
        rintro rs t hst ⟨⟨hpays, hall⟩, hvalid, hdescribes⟩
        apply pursues_bind (pursues_due_tuple (d := .mk name .tuple rank e as) hvalid hdescribes hall)
        rintro found u htu hfound
        split
        · next r =>
          obtain ⟨hpays', hall, hr⟩ := hfound r rfl
          refine pursues_pure fun _ => ⟨?_, hr, fun _ => hall⟩
          refine (hpays.trans hpays' htu.grows).congr (fun _ _ => rfl) fun j hj => ?_
          rw [uses, if_pos rfl, Target.counts_eq_zero hj hr.kind, Nat.zero_add]
          rfl
        · exact pursues_throw
    · next hform =>
      have hne : form ≠ .tuple := fun h => hform (beq_iff_eq.mpr h)
      apply pursues_bind (pursues_found (n := fun _ => 0))
      rintro found t hst ⟨hpays, hfound⟩
      split
      · next r =>
        refine pursues_pure fun _ => ⟨?_, hfound r rfl, fun h => absurd h hne⟩
        refine hpays.congr (fun _ _ => rfl) fun j hj => ?_
        rw [uses, if_neg hne, Target.counts_eq_zero hj (hfound r rfl).kind]
      · exact pursues_throw

theorem pursues_due_resolveAll (chain : Chain) (scope : Scope) (o s : Session) (ds : List Descriptor)
    (ho : o.Advances s) :
    Pursues (chain.resolveAll scope ds) s fun rs t => s.Pays t (fun _ => 0) (usesAll · ds rs) ∧
      AllOf (Due chain scope o t) ds rs := by
  match ds with
  | [] =>
    unfold resolveAll
    exact pursues_pure fun _ => ⟨.refl s, rfl⟩
  | d :: ds =>
    unfold resolveAll
    apply pursues_bind (pursues_due_resolve chain scope o s d ho)
    rintro r t hst ⟨hpays, hr⟩
    apply pursues_bind (pursues_due_resolveAll chain scope o t ds (ho.trans hst))
    rintro rs u htu ⟨hpays', hrs⟩
    refine pursues_pure fun _ => ⟨?_, r, rs, rfl, hr.imp (fun _ _ h => h.advances htu) d, hrs⟩
    exact hpays.add hpays' htu.grows

end

end Chain

namespace Binding

mutual

/-- How many nodes of a binding have the row as their target. -/
def uses (id : TypeId) : Binding → Nat
  | .mk r _ bs => r.target.counts id + usesAll id bs

def usesAll (id : TypeId) : List Binding → Nat
  | [] => 0
  | b :: bs => uses id b + usesAll id bs

end

end Binding

namespace Chain

open Find

mutual

theorem pursues_due_bindTree (chain : Chain) (scope : Scope) (o s : Session) (r : Resolved) (d : Descriptor)
    (ho : o.Advances s) (hr : r.All (Due chain scope o s) d) :
    Pursues (chain.bindTree scope r d) s fun b t => s.Pays t (Resolved.uses · d r) b.uses ∧
      b.All (Due chain scope o t) d := by
  match d with
  | .mk name form rank e as =>
    unfold bindTree
    dsimp only
    have hready : (if form == .tuple then r.elements else []) = [] ∨
        AllOf (Due chain scope o s) as (if form == .tuple then r.elements else []) := by
      split
      · next hform => exact .inr (hr.2 (beq_iff_eq.mp hform))
      · exact .inl rfl
    have huses (id : TypeId) : Resolved.uses id (.mk name form rank e as) r =
        r.target.counts id + Resolved.usesAll id as (if form == .tuple then r.elements else []) := by
      unfold Resolved.uses
      by_cases hform : form = .tuple
      · rw [if_pos hform, if_pos (beq_iff_eq.mpr hform)]
      · rw [if_neg hform, if_neg (fun h => hform (beq_iff_eq.mp h)), usesAll_nil]
    apply pursues_bind (pursues_due_bindArguments chain scope o s _ as ho hready)
    rintro bs t hst ⟨hpays, hbs⟩
    refine pursues_pure fun _ => ⟨fun id hid => ?_, hr.1.advances hst, hbs⟩
    have hbelow := hpays id hid
    dsimp only at hbelow ⊢
    rw [huses, Binding.uses]
    omega

theorem pursues_due_bindArguments (chain : Chain) (scope : Scope) (o s : Session) (ready : List Resolved)
    (ds : List Descriptor) (ho : o.Advances s) (hr : ready = [] ∨ AllOf (Due chain scope o s) ds ready) :
    Pursues (chain.bindArguments scope ready ds) s fun bs t =>
      s.Pays t (Resolved.usesAll · ds ready) (Binding.usesAll · bs) ∧ Binding.AllOf (Due chain scope o t) ds bs := by
  match ds with
  | [] =>
    unfold bindArguments
    exact pursues_pure fun _ => ⟨.refl s, trivial⟩
  | d :: ds =>
    unfold bindArguments
    dsimp only
    -- an element that is ready is used as it is, any other is resolved first
    have hrest (r : Resolved) (t : Session) (hst : s.Advances t) (hr : r.All (Due chain scope o t) d)
        (htail : ready.tail = [] ∨ AllOf (Due chain scope o s) ds ready.tail) :
        Pursues (do
          let child ← chain.bindTree scope r d
          let children ← chain.bindArguments scope ready.tail ds
          return child :: children) t fun bs u =>
            t.Pays u (fun id => Resolved.uses id d r + Resolved.usesAll id ds ready.tail) (Binding.usesAll · bs) ∧
              Binding.AllOf (Due chain scope o u) (d :: ds) bs := by
      apply pursues_bind (pursues_due_bindTree chain scope o t r d (ho.trans hst) hr)
      rintro b u htu ⟨hpays, hb⟩
      have hsu := hst.trans htu
      have htail := htail.imp_right fun h => h.imp (fun _ _ h => h.advances hsu) ds
      apply pursues_bind (pursues_due_bindArguments chain scope o u ready.tail ds (ho.trans hsu) htail)
      rintro bs v huv ⟨hpays', hbs⟩
      refine pursues_pure fun _ => ⟨hpays.add hpays' huv.grows, ?_, hbs⟩
      exact hb.imp (fun _ _ h => h.advances huv) d
    cases ready with
    | nil =>
      apply pursues_bind (pursues_due_resolve chain scope o s d ho)
      rintro r t hst ⟨hpays, hr⟩
      refine (hrest r t hst hr (.inl rfl)).mono ?_
      rintro bs u htu ⟨hpays', hbs⟩
      refine ⟨fun id hid => ?_, hbs⟩
      have hfirst := hpays id (htu.grows.unclaimed hid)
      have hall := hpays' id hid
      dsimp only [List.tail_nil] at hall hfirst ⊢
      rw [usesAll_nil] at hall ⊢
      omega
    | cons r rs =>
      obtain hnil | ⟨_, _, heq, hr, hall⟩ := hr
      · cases hnil
      · cases heq
        intro hs htidy hn
        exact hrest r s (.refl hs hn) hr (.inr hall) hs htidy hn

end

end Chain

namespace Binding

variable {chain : Chain} {scope : Scope}

/-- A node of a tree and the reference that was added for it. -/
def Settled (chain : Chain) (scope : Scope) (o t : Session) (node : Nat × Descriptor) (c : Reference) : Prop :=
  (Resolved.named c.named).Due chain scope o t node.2

theorem Settled.advances {o t u : Session} {node : Nat × Descriptor} {c : Reference}
    (h : Settled chain scope o t node c) (htu : t.Advances u) : Settled chain scope o u node c := Due.advances h htu

mutual

/-- Staging a tree carries out what its nodes owe. -/
theorem stages_settled (b : Binding) (d : Descriptor) (o s : Session) (parent : Option ReferenceId) (depth : Nat)
    (hs : s.Sane) (hn : s.Nested) (hb : b.Fits s d) (hdue : b.All (Due chain scope o s) d)
    (hp : ∀ p, parent = some p → p ∈ s.references.map (·.id)) :
    Stages (b.stage parent) s fun _ t rows => s.Pays t b.uses (fun id => (rows.map (·.named)).count id) ∧
      List.Forall₂ (Settled chain scope o t) (d.preorder depth) rows := by
  match b, d with
  | .mk r rank bs, .mk name form rank' e as =>
    obtain ⟨-, hr, hbs⟩ := hb
    unfold stage
    apply stages_bind (stages_commit hr)
    rintro named t _ hgt ht ⟨rfl, hcommit, hnamed⟩
    have hst := ht.steps.advances hs hn
    have hpays := pays_commit hs hr hcommit
    have hsettled := hdue.1.committed hr hst hcommit []
    have hrefs : t.references = s.references := by simpa using ht.references
    apply stages_bind (stages_reference hnamed (by rw [hrefs]; exact hp))
    rintro id u _ - hu ⟨rfl, rfl, hsame⟩
    have htu := hu.steps.advances hst.after hst.nested_after
    have hsu := hst.trans htu
    have hall := hdue.2.imp (fun _ _ h => h.advances hsu) as
    have hparent : (⟨t.referenceIds.used + 1⟩ : ReferenceId) ∈ u.references.map (·.id) := by
      rw [hu.references]
      simp
    apply stages_bind (stages_stageAll_settled bs as o u _ (depth + 1) hsu.after hsu.nested_after (hbs.mono hsu.grows)
      hall hparent)
    rintro ⟨⟩ v below hguv hv ⟨hpays', hbelow⟩
    have huv := hv.steps.advances hsu.after hsu.nested_after
    refine stages_pure ?_
    rw [List.nil_append, List.singleton_append, List.append_nil]
    constructor
    · intro j hj
      have hfirst := (hpays.trans (pays_of_named hsame) htu.grows) j (huv.grows.unclaimed hj)
      have hrest := hpays' j hj
      have hcount : (Target.existing named).counts j = if named = j then 1 else 0 := by simp [Target.counts]
      simp only [uses, List.map_cons, List.count_cons, beq_iff_eq] at hrest ⊢
      omega
    · exact .cons (hsettled.advances (htu.trans huv)) hbelow

theorem stages_stageAll_settled (bs : List Binding) (ds : List Descriptor) (o s : Session) (parent : ReferenceId)
    (depth : Nat) (hs : s.Sane) (hn : s.Nested) (hb : FitsAll s bs ds) (hdue : AllOf (Due chain scope o s) ds bs)
    (hp : parent ∈ s.references.map (·.id)) :
    Stages (stageAll parent bs) s fun _ t rows =>
      s.Pays t (usesAll · bs) (fun id => (rows.map (·.named)).count id) ∧
        List.Forall₂ (Settled chain scope o t) (Descriptor.preorderAll depth ds) rows := by
  match bs, ds with
  | [], [] =>
    unfold stageAll
    exact stages_pure ⟨.refl s, .nil⟩
  | [], d :: ds => exact hb.elim
  | b :: bs, [] => exact hb.elim
  | b :: bs, d :: ds =>
    unfold stageAll
    apply stages_bind (stages_settled b d o s (some parent) depth hs hn hb.1 hdue.1 (by rintro p ⟨⟩; exact hp))
    rintro id t first hgt ht ⟨hpays, hfirst⟩
    have hst := ht.steps.advances hs hn
    have hp' : parent ∈ t.references.map (·.id) := by
      rw [ht.references, List.map_append]
      exact List.mem_append_left _ hp
    have hall := hdue.2.imp (fun _ _ h => h.advances hst) ds
    have hrest := stages_stageAll_settled bs ds o t parent depth hst.after hst.nested_after (hb.2.mono hgt) hall hp'
    intro htn
    refine (hrest htn).mono ?_ fun _ _ h => h
    rintro ⟨⟩ u ⟨rest, hadds, hpays', hrest⟩
    have htu := hadds.steps.advances hst.after hst.nested_after
    refine ⟨rest, hadds, fun j hj => ?_, ?_⟩
    · have hsum := hpays.add hpays' htu.grows j hj
      dsimp only [usesAll]
      rw [List.map_append, List.count_append]
      exact hsum
    · rw [Descriptor.preorderAll]
      exact List.rel_append (hfirst.imp fun _ _ h => h.advances htu) hrest

end

/-- Reading down from the root of a staged tree gives the references that were added. -/
theorem Adds.referenceTree {s t : Session} {d : Descriptor} {rows : List Reference} (h : Adds s t rows) (hs : s.Sane)
    (hd : d.Planted none s.referenceIds.used rows) : t.referenceTree ⟨s.referenceIds.used + 1⟩ = rows := by
  obtain ⟨first, below, rfl, hid⟩ : ∃ first below, rows = first :: below ∧ first.id = ⟨s.referenceIds.used + 1⟩ := by
    cases d
    obtain ⟨named, below, rfl, -⟩ := hd
    exact ⟨_, below, rfl, rfl⟩
  unfold Session.referenceTree
  rw [h.reference? hs.numbered hid]
  refine referencesBelow_of_planted hd (by simp) (h.holds hs) ?_
  rw [h.references, List.length_append, List.length_cons]
  omega

end Binding

namespace Session

/-- The row `id` that a node of a tree names after it is resolved in `s`. It says what was recognised, and it is the
row of a type parameter only where one is in scope. An external type has every namespace that it may live in. -/
structure Settles (s t : Session) (chain : Chain) (scope : Scope) (d : Descriptor) (id : TypeId) : Prop where
  recognised : ∀ R, chain.Sees scope s d R → t.reading id = some R
  parameter : ∀ p, t.named? id = some (.parameter p) →
    Find.Finds s scope d .parameter (.parameter p.declaring p.index p.name)
  external : ∀ x, t.named? id = some (.external x) → x.name = d.split.2 ∧ x.arity = d.argumentCount ∧
    ∀ n ∈ (scope.effective s d).names, n ∈ x.namespaces.names

def isParameter (s : Session) (id : TypeId) : Bool := (s.named? id).any (·.kind == .parameter)

/-- The type parameters that have a row in `t` and had none in `s`. -/
def newParameters (s t : Session) : List TypeId :=
  (t.named.filter fun r => r.2.kind == .parameter && (s.named? r.1).isNone).map (·.1)

variable {s t : Session} {id : TypeId}

theorem isParameter_iff : s.isParameter id = true ↔ ∃ a, s.named? id = some a ∧ a.kind = .parameter := by
  unfold isParameter
  rw [Option.any_eq_true]
  simp only [beq_iff_eq]

theorem mem_newParameters (ht : t.Numbered) : id ∈ s.newParameters t ↔ t.isParameter id = true ∧ s.named? id = none := by
  unfold newParameters
  rw [isParameter_iff]
  simp only [List.mem_map, List.mem_filter, Bool.and_eq_true, beq_iff_eq, Option.isNone_iff_eq_none, Prod.exists,
    exists_and_right, exists_eq_right]
  constructor
  · rintro ⟨a, hmem, hkind, hnone⟩
    exact ⟨⟨a, find?_of_named?.mpr (find?_of_nodup ht.named.nodup hmem), hkind⟩, hnone⟩
  · rintro ⟨⟨a, ha, hkind⟩, hnone⟩
    exact ⟨a, List.mem_of_find?_eq_some (find?_of_named?.mp ha), hkind, hnone⟩

theorem nodup_newParameters (ht : t.Numbered) : (s.newParameters t).Nodup :=
  ht.named.nodup.sublist (List.filter_sublist.map _)

/-- A type parameter that got its row is counted once, and one that had a row is not counted. -/
theorem Pays.perm (ht : t.Numbered) {ids : List TypeId} (h : s.Pays t (fun _ => 0) (ids.count ·)) :
    (s.newParameters t).Perm (ids.filter t.isParameter) := by
  refine List.perm_iff_count.mpr fun id => ?_
  by_cases hid : t.isParameter id = true
  · rw [List.count_filter hid]
    obtain ⟨a, ha, hkind⟩ := isParameter_iff.mp hid
    have hpays := h id fun b hb => by rw [Option.some.inj (hb.symm.trans ha), hkind]
    unfold taken at hpays
    rw [ha] at hpays
    cases hs : s.named? id with
    | none =>
      rw [List.count_eq_one_of_mem (nodup_newParameters ht) ((mem_newParameters ht).mpr ⟨hid, hs⟩)]
      simpa [hs] using hpays
    | some b =>
      rw [List.count_eq_zero_of_not_mem fun hmem => by simp [((mem_newParameters ht).mp hmem).2] at hs]
      simp [hs] at hpays
      omega
  · rw [List.count_eq_zero_of_not_mem fun hmem => hid ((mem_newParameters ht).mp hmem).1,
      List.count_eq_zero_of_not_mem fun hmem => hid (List.mem_filter.mp hmem).2]

end Session

theorem Binding.Settled.settles {chain : Chain} {scope : Scope} {s t : Session} {node : Nat × Descriptor} {c : Reference}
    (h : Settled chain scope s t node c) : s.Settles t chain scope node.2 c.named where
  recognised := h.recognised
  parameter p hp := h.parameter _ _ _ (reading_eq_some.mpr ⟨_, hp, rfl⟩)
  external x hx := by
    obtain ⟨hname, harity, hseen⟩ := h.external _ x rfl hx
    refine ⟨hname, harity, fun n hn => (hseen n hn).resolve_left ?_⟩
    rintro ⟨⟩

/-- What waits for a resolution takes place once. The type parameters that get a row are those that the references of
the new tree name, each of them one. The references are those of the nodes in pre-order, and an external type that one
of them names has been seen from wherever the node may mean it. -/
theorem Analysis.resolve_settles_once {chain : Chain} {a : Analysis} {s t : Session} {root : ReferenceId}
    (hs : s.Worked) (h : (a.resolve chain).outcome s = (.ok root, t)) :
    ∃ rows, t.references = s.references ++ rows ∧ t.referenceTree root = rows ∧
      List.Forall₂ (fun node c => s.Settles t chain a.scope node.2 c.named) (a.root.preorder 0) rows ∧
      (s.newParameters t).Nodup ∧ (s.newParameters t).Perm ((rows.map (·.named)).filter t.isParameter) := by
  obtain ⟨-, -, r, u, hr, b, v, hb, hstage⟩ := resolve_iff.mp h
  have hrefl : s.Advances s := .refl hs.sane hs.nested
  obtain ⟨⟨hutidy, hsu⟩, ⟨hpays, hdue⟩, hvalid, hdescribes⟩ :=
    ((Chain.pursues_due_resolve chain a.scope s s a.root hrefl).and (Chain.tracks_resolve chain a.scope s a.root)).left
      hs.sane hs.tidy hs.nested hr
  obtain ⟨⟨-, huv⟩, ⟨hpays', hall⟩, hfits, -⟩ :=
    ((Chain.pursues_due_bindTree chain a.scope s u r a.root hsu hdue).and
      (Chain.tracks_bindTree chain a.scope u r a.root hvalid hdescribes)).left hsu.after hutidy hsu.nested_after hb
  have hsv := hsu.trans huv
  have hv := hsv.after
  obtain ⟨rows, hadds, hpays'', hsettled⟩ := (leads_iff.mp (Binding.stages_settled b a.root s v none 0 hv
    hsv.nested_after hfits hall (by simp) hv.numbered)).1 root t hstage
  obtain ⟨rows', hadds', rfl, hstaged⟩ :=
    (leads_iff.mp (Binding.stages_staged b a.root v v none hfits (.refl v) (by simp) hv.numbered)).1 root t hstage
  obtain rfl : rows = rows' := List.append_cancel_left (hadds.references.symm.trans hadds'.references)
  have hrefs : v.references = s.references := by
    have hsteps := (leads_iff.mp (Chain.traced_resolve chain a.scope s a.root hs.sane.numbered)).1 r u hr
    have hsteps' := (leads_iff.mp (Chain.traced_bindTree chain a.scope u r a.root hvalid hsu.after.numbered)).1 b v hb
    rw [hsteps'.1.references_eq.1, hsteps.1.references_eq.1]
  have hvt := hadds.steps.advances hv hsv.nested_after
  have ht := hvt.after.numbered
  refine ⟨rows, hrefs ▸ hadds.references, hadds.referenceTree hv (hstaged.planted b hfits), ?_,
    nodup_newParameters ht, ?_⟩
  · exact hsettled.imp fun _ _ h => h.settles
  · exact ((hpays.trans hpays' huv.grows).trans hpays'' hvt.grows).perm ht

namespace Sample

theorem resolve_settles_once_nested :
    declared.Worked ∧ ∃ t, ((analysis descriptor true).resolve .standard).outcome declared = (.ok ⟨1⟩, t) ∧
      (t.referenceTree ⟨1⟩).length = 6 ∧ (declared.newParameters t).length = 1 ∧
      (declared.newParameters t).Perm (((t.referenceTree ⟨1⟩).map (·.named)).filter t.isParameter) := by
  have hroot : (((analysis descriptor true).resolve .standard).outcome declared).1 = .ok ⟨1⟩ := by decide +kernel
  have hcount :
      (declared.newParameters (((analysis descriptor true).resolve .standard).outcome declared).2).length = 1 :=
    by decide +kernel
  generalize hrun : ((analysis descriptor true).resolve .standard).outcome declared = run at hroot hcount
  obtain ⟨_, t⟩ := run
  subst hroot
  obtain ⟨rows, -, htree, hnodes, -, hperm⟩ := Analysis.resolve_settles_once worked_declared hrun
  refine ⟨worked_declared, t, rfl, ?_, hcount, htree ▸ hperm⟩
  rw [htree, ← hnodes.length_eq]
  rfl

end Sample

end TypeCatalog
