import TypeCatalog.Proofs.Settling
import TypeCatalog.Proofs.Transparency

namespace TypeCatalog

open Act Session Resolved

theorem Act.outcome_bind_ok {ε α β : Type} {a : Act ε β} {f : β → Act ε α} {s u : Session} {y : α} :
    (a >>= f).outcome s = (.ok y, u) ↔ ∃ x t, a.outcome s = (.ok x, t) ∧ (f x).outcome t = (.ok y, u) := by
  rw [outcome_bind]
  rcases a.outcome s with ⟨e | x, t⟩
  · simp
  · simp

theorem Act.outcome_mapError_ok {δ ε α : Type} {a : Act δ α} {f : δ → ε} {s t : Session} {x : α} :
    (a.mapError f).outcome s = (.ok x, t) ↔ a.outcome s = (.ok x, t) := by
  rw [outcome_mapError]
  rcases a.outcome s with ⟨e | y, v⟩ <;> simp

theorem Act.Leads.succeeds {ε α : Type} {a : Act ε α} {s : Session} {done : α → Session → Prop}
    (h : a.Leads s done fun _ _ => False) : ∃ x t, a.outcome s = (.ok x, t) ∧ done x t := by
  obtain ⟨hdone, hfailed⟩ := leads_iff.mp h
  rcases hrun : a.outcome s with ⟨e | x, t⟩
  · exact (hfailed e t hrun).elim
  · exact ⟨x, t, rfl, hdone x t hrun⟩

namespace Binding

variable {s t : Session} {d : Descriptor} {b : Binding} {root : ReferenceId}

/-- A staged tree has a reference at every place, which names what was found there. -/
theorem stage_places (hs : s.Sane) (hb : b.Fits s d) (h : (b.stage none).outcome s = (.ok root, t)) :
    Steps s t ∧ ∃ first, t.reference? root = some first ∧ t.Mirrors d first ∧
      ∀ p r, b.at? p = some r → ∃ c, t.referenceAt? first p = some c ∧ r.Became s t c.named := by
  obtain ⟨rows, hadds, rfl, hstaged⟩ :=
    (leads_iff.mp (stages_staged b d s s none hb (.refl s) (by simp) hs.numbered)).1 root t h
  obtain ⟨first, below, rfl, hid⟩ := hstaged.root
  have hholds := hadds.holds hs
  refine ⟨hadds.steps, first, hadds.reference? hs.numbered hid, ?_, fun p r hp => ?_⟩
  · exact mirrors_of_planted (hstaged.planted b hb) (by simp) hholds
  · exact hstaged.at hb (by simp) hholds hp

end Binding

namespace Analysis

variable {chain : Chain} {a : Analysis} {s t : Session} {root : ReferenceId}

theorem resolve_iff : (a.resolve chain).outcome s = (.ok root, t) ↔
    s.isDocumented a.container = true ∧ (s.sourceFile? a.file).isSome = true ∧
      ∃ r u, (chain.resolve a.scope a.root).outcome s = (.ok r, u) ∧
        ∃ b v, (chain.bindTree a.scope r a.root).outcome u = (.ok b, v) ∧ (b.stage none).outcome v = (.ok root, t) := by
  have hget (f : Session → Act ResolveError ReferenceId) : (get >>= f).outcome s = (f s).outcome s := rfl
  have hthrow (e : ResolveError) (f : PUnit → Act ResolveError ReferenceId) :
      (throw e >>= f).outcome s = (.error e, s) := rfl
  unfold resolve
  rw [hget]
  dsimp only
  by_cases hdoc : s.isDocumented a.container = true
  · rw [if_neg (by simp [hdoc])]
    by_cases hfile : (s.sourceFile? a.file).isSome = true
    · rw [if_neg (by simpa [Option.isSome_iff_ne_none] using hfile)]
      simp only [outcome_bind_ok, hdoc, hfile, true_and]
    · rw [if_pos (by simpa using hfile), hthrow]
      simp [hfile]
  · rw [if_pos (by simpa using hdoc), hthrow]
    simp [hdoc]

end Analysis

/-! The first resolution -/

theorem Resolved.Became.reading {s t : Session} {r : Resolved} {id : TypeId} {R : Reading} (h : r.Became s t id)
    (hr : r.reading t = some R) : t.reading id = some R := by
  unfold Resolved.reading at hr
  cases htarget : r.target with
  | existing i =>
    rw [htarget] at hr
    rw [h.existing i htarget]
    exact hr
  | parameter declaring index name =>
    rw [htarget] at hr
    cases hr
    exact reading_eq_some.mpr ⟨_, (h.parameter declaring index name htarget).2, rfl⟩

namespace Session

/-- The row is what a descriptor is recognised as. An external type is the oldest that suits, unless `Q` has
taught an older one since. -/
structure Means (s : Session) (chain : Chain) (scope : Scope) (Q : Descriptor → TypeId → Prop) (d : Descriptor)
    (id : TypeId) : Prop where
  reading : ∃ R, chain.Sees scope s d R ∧ s.reading id = some R
  external : ∀ x, s.named? id = some (.external x) → s.Suits scope d id ∧
    ∀ j, s.Suits scope d j → j.value < id.value → ∃ q, Q q j ∧ scope.Teaches s q d

/-- A node of the tree below `r`, written as `d`, names the row. -/
def Names (s : Session) (root : Descriptor) (r : Reference) (d : Descriptor) (id : TypeId) : Prop :=
  ∃ p c, root.at? p = some d ∧ s.referenceAt? r p = some c ∧ c.named = id

end Session

namespace Chain

variable {chain : Chain} {scope : Scope} {s t u v : Session} {d : Descriptor} {r : Resolved} {b : Binding}
  {id : TypeId} {Q : Descriptor → TypeId → Prop}

theorem Apt.means (h : chain.Apt scope Q t d r) (hb : r.Became s t id) : t.Means chain scope Q d id where
  reading := by
    obtain ⟨R, hR, hr⟩ := h.reading
    exact ⟨R, hR, hb.reading hr⟩
  external x hx := by
    cases htarget : r.target with
    | existing i =>
      cases hb.existing i htarget
      exact h.external id x htarget hx
    | parameter declaring index name => cases (hb.parameter declaring index name htarget).2.symm.trans hx

theorem found (hs : s.Sane) (htidy : s.Tidy) (hn : s.Nested) (hlast : scope.allowCreate = true ∨ chain.ExternalLast)
    (hr : (chain.resolve scope d).outcome s = (.ok r, u)) (hb : (chain.bindTree scope r d).outcome u = (.ok b, v)) :
    s.Advances v ∧ v.Tidy ∧ b.Fits v d ∧ ∀ Q, b.All (Owns Q) d → b.All (chain.Apt scope Q v) d := by
  have hresolve (Q : Descriptor → TypeId → Prop) :=
    ((pursues_resolve (Q := Q) chain scope s d hlast).and (tracks_resolve chain scope s d)).left hs htidy hn hr
  obtain ⟨⟨hutidy, hsu⟩, -, hv, hd⟩ := hresolve fun _ _ => True
  have hbind (Q : Descriptor → TypeId → Prop) :=
    ((pursues_bindTree (Q := Q) chain scope u r d hlast hv hd).and (tracks_bindTree chain scope u r d hv hd)).left
      hsu.after hutidy hsu.nested_after hb
  obtain ⟨⟨hvtidy, huv⟩, -, hfits, htells, hresolved⟩ := hbind fun _ _ => True
  refine ⟨hsu.trans huv, hvtidy, hfits, fun Q hown => ?_⟩
  obtain ⟨-, hr, -⟩ := hresolve Q
  obtain ⟨-, hb, -⟩ := hbind Q
  have hrown : r.All (Owns Q) d := hresolved ▸ hown.resolved d hfits htells
  exact (hb hown (hr hrown).2).2

end Chain

namespace Analysis

variable {chain : Chain} {a : Analysis} {s t : Session} {root : ReferenceId}

/-- After a type is resolved, the references of its tree name what is recognised at their places. Only a node of
the same tree can have taught an external type to suit another. -/
theorem resolve_settles (hs : s.Sane) (htidy : s.Tidy) (hn : s.Nested)
    (hlast : a.allowCreate = true ∨ chain.ExternalLast) (h : (a.resolve chain).outcome s = (.ok root, t)) :
    s.Advances t ∧ ∃ first, t.reference? root = some first ∧ t.Mirrors a.root first ∧
      ∀ p d, a.root.at? p = some d → ∃ c, t.referenceAt? first p = some c ∧
        t.Means chain a.scope (t.Names a.root first) d c.named := by
  obtain ⟨-, -, r, u, hr, b, v, hb, hstage⟩ := resolve_iff.mp h
  obtain ⟨hsv, hvtidy, hfits, hfound⟩ := Chain.found hs htidy hn hlast hr hb
  obtain ⟨hsteps, first, hfirst, hmirrors, hplaces⟩ := Binding.stage_places hsv.after hfits hstage
  have hvt := hsteps.advances hsv.after hsv.nested_after
  have hown : b.All (Owns (t.Names a.root first)) a.root := by
    refine Binding.all_of_at a.root b fun p d r hd hr j hj => ?_
    obtain ⟨c, hc, hbecame⟩ := hplaces p r hr
    exact ⟨p, c, hd, hc, hbecame.existing j hj⟩
  have hapt := hfound _ hown
  obtain ⟨-, -, hlearns⟩ := (leads_iff.mp (Binding.stages_learns b a.root v none hsv.after hsv.nested_after hfits hapt
    hown (by simp) hsv.after.numbered)).1 root t hstage
  refine ⟨hsv.trans hvt, first, hfirst, hmirrors, fun p d hd => ?_⟩
  obtain ⟨r, hr⟩ := hfits.at hd
  obtain ⟨c, hc, hbecame⟩ := hplaces p r hr
  exact ⟨c, hc, ((hapt.at hd hr).advances hvt hlearns).means hbecame⟩

end Analysis

/-! Another resolution -/

namespace Chain

variable {chain : Chain} {scope : Scope} {s : Session}

mutual

theorem knows_of_at (d : Descriptor) (h : ∀ p e, d.at? p = some e → ∃ R, chain.Sees scope s e R) :
    chain.Knows scope s d := by
  match d with
  | .mk name form rank e as =>
    refine ⟨h [] _ rfl, knowsAll_of_at as fun i d p e hd he => h (i :: p) e ?_⟩
    exact Option.bind_eq_some_iff.mpr ⟨d, hd, he⟩

theorem knowsAll_of_at (ds : List Descriptor)
    (h : ∀ (i : Nat) d p e, ds[i]? = some d → d.at? p = some e → ∃ R, chain.Sees scope s e R) :
    chain.KnowsAll scope s ds := by
  match ds with
  | [] => trivial
  | d :: ds => exact ⟨knows_of_at d fun p e => h 0 d p e rfl, knowsAll_of_at ds fun i => h (i + 1)⟩

end

theorem found_again {d : Descriptor} (hs : s.Sane) (hn : s.Nested) (hd : chain.Knows scope s d) (allowCreate : Bool) :
    ∃ r u, (chain.resolve { scope with allowCreate } d).outcome s = (.ok r, u) ∧
      ∃ b v, (chain.bindTree { scope with allowCreate } r d).outcome u = (.ok b, v) ∧
        s.Loads v ∧ s.Advances v ∧ b.Fits v d ∧ b.All (chain.Apt scope (fun _ _ => False) v) d := by
  obtain ⟨R, hR⟩ : ∃ R, chain.Sees scope s d R := by
    cases d
    exact hd.1
  obtain ⟨r, u, hr, ⟨hsu, hadvances⟩, hapt⟩ :=
    (reads_resolve (Q := fun _ _ => False) chain scope allowCreate s d hR hs hn).succeeds
  have hknows := hd.continues hadvances.continues hs hadvances.after hn d
  obtain ⟨b, v, hb, ⟨huv, hadvances'⟩, hall, hfits⟩ :=
    (reads_bindTree chain scope allowCreate u r d hknows hapt hadvances.after hadvances.nested_after).succeeds
  exact ⟨r, u, hr, b, v, hb, hsu.trans huv, hadvances.trans hadvances', hfits, hall⟩

variable {t u : Session} {d : Descriptor} {r : Resolved} {id : TypeId} {R : Reading} {Q : Descriptor → TypeId → Prop}

/-- What is recognised is what a later resolution adds a reference to. -/
theorem Apt.reads (hR : chain.Sees scope s d R) (hst : s.Advances t) (h : chain.Apt scope Q t d r)
    (htu : t.Advances u) (hb : r.Became t u id) : u.reading id = some R := by
  obtain ⟨R', hR', hr⟩ := h.reading
  have hR := (hR.continues hst.continues hst.before hst.after hst.nested d).1
  rw [hR.unique d hR']
  exact hb.reading (reading_continues hr htu.continues)

end Chain

namespace Session

variable {chain : Chain} {scope : Scope} {s t u : Session} {d : Descriptor} {r : Resolved} {i j : TypeId}
  {Q : Descriptor → TypeId → Prop}

/-- How the row `j` that a place names after another resolution compares with the row `i` that it named in `s`. -/
inductive Rebound (s t : Session) (scope : Scope) (Q : Descriptor → TypeId → Prop) (d : Descriptor) (i j : TypeId) : Prop
  | same {a : NamedType} (ha : s.named? i = some a) (hkind : a.kind ≠ .parameter) (h : j = i)
  | fresh {p : Parameter} (hp : s.named? i = some (.parameter p)) (hnew : s.named? j = none)
      (h : t.named? j = some (.parameter p))
  | older {x y : External} (hx : s.named? i = some (.external x)) (hy : t.named? j = some (.external y))
      (hlt : j.value < i.value) (hsuits : s.Suits scope d j) (hq : ∃ q, Q q j ∧ scope.Teaches s q d)

theorem rebound_parameter {p : Parameter} (hi : s.named? i = some (.parameter p)) (hst : s.Advances t)
    (hapt : chain.Apt scope (fun _ _ => False) t d r) (htu : t.Advances u) (hb : r.Became t u j)
    (hj : u.named? j = some (.parameter p)) : s.Rebound u scope Q d i j := by
  cases htarget : r.target with
  | existing k =>
    cases hb.existing k htarget
    have hv := hapt.valid.target
    rw [htarget] at hv
    obtain ⟨⟨c, hc⟩, -⟩ := hv
    exact (hapt.parameter j p htarget (htu.of_parameter hc hj)).elim
  | parameter declaring index name =>
    obtain ⟨hnew, -⟩ := hb.parameter declaring index name htarget
    refine .fresh hi ?_ hj
    by_contra hold
    obtain ⟨c, hc⟩ := Option.ne_none_iff_exists'.mp hold
    obtain ⟨c', hc', -⟩ := hst.grows.named? hc
    cases hnew.symm.trans hc'

theorem Means.rebound_external {x y : External} (hm : s.Means chain scope Q d i)
    (hi : s.named? i = some (.external x)) (hloads : s.Loads t) (hst : s.Advances t)
    (hapt : chain.Apt scope (fun _ _ => False) t d r) (htu : t.Advances u) (hb : r.Became t u j)
    (hj : u.named? j = some (.external y)) : s.Rebound u scope Q d i j := by
  cases htarget : r.target with
  | existing k =>
    cases hb.existing k htarget
    have hv := hapt.valid.target
    rw [htarget] at hv
    obtain ⟨⟨c, hc⟩, -⟩ := hv
    obtain ⟨z, hz⟩ := htu.of_external hc hj
    obtain ⟨hsuits, hleast⟩ := hapt.external j z htarget hz
    obtain ⟨hsuitsi, holder⟩ := hm.external x hi
    -- the row is the oldest that suits, and it is not newer than the one that was named
    rcases Nat.lt_trichotomy j.value i.value with hlt | heq | hgt
    · rcases hloads.learnsFrom (Q := fun _ _ => False) hst d j (hst.named_below hi hz hlt) hsuits with
        hsuits | ⟨q, hq, -⟩
      · exact .older hi hj hlt hsuits (holder j hsuits hlt)
      · exact hq.elim
    · exact .same hi (by simp [NamedType.kind]) (RowId.eq_of_value heq)
    · obtain ⟨q, hq, -⟩ := hleast i (hst.suits hsuitsi) hgt
      exact hq.elim
  | parameter declaring index name => cases (hb.parameter declaring index name htarget).2.symm.trans hj

theorem Means.rebound (hm : s.Means chain scope Q d i) (hloads : s.Loads t) (hst : s.Advances t)
    (hapt : chain.Apt scope (fun _ _ => False) t d r) (htu : t.Advances u) (hb : r.Became t u j) :
    s.Rebound u scope Q d i j := by
  obtain ⟨R, hsees, hread⟩ := hm.reading
  obtain ⟨b, hj, hreadj⟩ := reading_eq_some.mp (hapt.reads hsees hst htu hb)
  obtain ⟨a, hi, rfl⟩ := reading_eq_some.mp hread
  cases a with
  | documented e =>
    cases b <;> cases hreadj
    exact .same hi (by simp [NamedType.kind]) rfl
  | tuple x =>
    cases b <;> cases hreadj
    exact .same hi (by simp [NamedType.kind]) rfl
  | parameter p =>
    cases b with
    | parameter q =>
      obtain rfl : q = p := by
        cases p
        cases q
        cases hreadj
        rfl
      exact rebound_parameter hi hst hapt htu hb hj
    | documented _ => cases hreadj
    | external _ => cases hreadj
    | tuple _ => cases hreadj
  | external x =>
    cases b with
    | external y => exact hm.rebound_external hi hloads hst hapt htu hb hj
    | documented _ => cases hreadj
    | parameter _ => cases hreadj
    | tuple _ => cases hreadj

end Session

/-- Whatever has the simple name and the number of arguments of `d` in a tree is written as `d` is. -/
def Descriptor.Uniform (root d : Descriptor) : Prop :=
  ∀ p q, root.at? p = some q → q.split.2 = d.split.2 → q.argumentCount = d.argumentCount →
    q.name = d.name ∧ q.form = d.form

theorem Session.Rebound.eq {s t : Session} {scope : Scope} {root d : Descriptor} {r : Reference} {i j : TypeId}
    (h : s.Rebound t scope (s.Names root r) d i j) (hd : root.Uniform d) {x : External}
    (hx : s.named? i = some (.external x)) : j = i := by
  cases h with
  | same _ _ h => exact h
  | fresh hp => cases hp.symm.trans hx
  | older _ _ _ _ hq =>
    obtain ⟨q, ⟨p, c, hp, -⟩, hteaches⟩ := hq
    exact absurd (hd p q hp hteaches.name hteaches.arity) hteaches.written

/-- Resolving is stable. When a type is resolved twice in a row, the two trees name the same declared types and
tuples, place by place, and new rows of the same type parameters. An external type is the same as well, unless
another place of the tree, where it is written differently, was the first time found to be an older one, which
learned there a namespace that both have. -/
theorem Analysis.resolve_stable {chain : Chain} {a : Analysis} {s t u : Session} {root root' : ReferenceId}
    (hs : s.Worked) (ha : a.allowCreate = true) (h : (a.resolve chain).outcome s = (.ok root, t))
    (h' : (a.resolve chain).outcome t = (.ok root', u)) :
    ∃ first second, t.reference? root = some first ∧ u.reference? root' = some second ∧
      t.Mirrors a.root first ∧ u.Mirrors a.root second ∧
      ∀ p d, a.root.at? p = some d → ∃ c c', t.referenceAt? first p = some c ∧ u.referenceAt? second p = some c' ∧
        t.Rebound u a.scope (t.Names a.root first) d c.named c'.named ∧
        (a.root.Uniform d → (∃ x, t.named? c.named = some (.external x)) → c'.named = c.named) := by
  obtain ⟨hst, first, hfirst, hmirrors, hmeans⟩ := resolve_settles hs.sane hs.tidy hs.nested (.inl ha) h
  have hknows : chain.Knows a.scope t a.root := by
    refine Chain.knows_of_at a.root fun p d hd => ?_
    obtain ⟨c, -, hc⟩ := hmeans p d hd
    obtain ⟨R, hR, -⟩ := hc.reading
    exact ⟨R, hR⟩
  obtain ⟨r, v, hr, b, w, hb, hloads, htw, hfits, hapt⟩ :=
    Chain.found_again hst.after hst.nested_after hknows a.allowCreate
  obtain ⟨-, -, r', v', hr', b', w', hb', hstage⟩ := resolve_iff.mp h'
  cases hr.symm.trans hr'
  cases hb.symm.trans hb'
  obtain ⟨hsteps, second, hsecond, hmirrors', hplaces⟩ := Binding.stage_places htw.after hfits hstage
  refine ⟨first, second, hfirst, hsecond, hmirrors, hmirrors', fun p d hd => ?_⟩
  obtain ⟨c, hc, hm⟩ := hmeans p d hd
  obtain ⟨r, hr⟩ := hfits.at hd
  obtain ⟨c', hc', hbecame⟩ := hplaces p r hr
  have hrebound := hm.rebound hloads htw (hapt.at hd hr) (hsteps.advances htw.after htw.nested_after) hbecame
  exact ⟨c, c', hc, hc', hrebound, fun hd ⟨x, hx⟩ => hrebound.eq hd hx⟩

namespace Sample

theorem worked_declared : declared.Worked := .request (.inMemory inMemory_eq) trivial

theorem resolve_stable_tupled :
    ∃ t u first second, ((analysis descriptor true).resolve .standard).outcome declared = (.ok ⟨1⟩, t) ∧
      ((analysis descriptor true).resolve .standard).outcome t = (.ok ⟨7⟩, u) ∧
      t.reference? ⟨1⟩ = some first ∧ u.reference? ⟨7⟩ = some second ∧
      ∀ p d, descriptor.at? p = some d → ∃ c c', t.referenceAt? first p = some c ∧ u.referenceAt? second p = some c' ∧
        t.Rebound u (analysis descriptor true).scope (t.Names descriptor first) d c.named c'.named := by
  have hroot : (((analysis descriptor true).resolve .standard).outcome declared).1 = .ok ⟨1⟩ := by decide +kernel
  have hroot' : (((analysis descriptor true).resolve .standard).outcome
      (((analysis descriptor true).resolve .standard).outcome declared).2).1 = .ok ⟨7⟩ := by
    decide +kernel
  generalize hrun : ((analysis descriptor true).resolve .standard).outcome declared = run at hroot hroot'
  obtain ⟨_, t⟩ := run
  subst hroot
  generalize hrun' : ((analysis descriptor true).resolve .standard).outcome t = run' at hroot'
  obtain ⟨_, u⟩ := run'
  subst hroot'
  obtain ⟨first, second, hfirst, hsecond, -, -, hplaces⟩ :=
    Analysis.resolve_stable worked_declared rfl hrun hrun'
  refine ⟨t, u, first, second, rfl, hrun', hfirst, hsecond, fun p d hd => ?_⟩
  obtain ⟨c, c', hc, hc', hrebound, -⟩ := hplaces p d hd
  exact ⟨c, c', hc, hc', hrebound⟩

def simple (name : String) : Descriptor := .mk name (.searched []) 0 none []

/-- After `Box.Foo` and `N.Foo` were resolved in `Box`, each to an external type of its own. -/
def divided : Session :=
  ((Request.resolve .standard (analysis (simple "N.Foo") true)).run
    ((Request.resolve .standard (analysis (simple "Box.Foo") true)).run declared).2).2

def pair : Analysis := analysis (.mk "Pair" (.searched []) 0 none [simple "Foo", simple "N.Foo"]) true

/-- The first of them is found for `Foo`, and learns that it may be `N.Foo` only after that was looked up. -/
theorem resolve_moves_external :
    divided.Worked ∧ ∃ t u first second c c', (pair.resolve .standard).outcome divided = (.ok ⟨3⟩, t) ∧
      (pair.resolve .standard).outcome t = (.ok ⟨6⟩, u) ∧
      t.reference? ⟨3⟩ = some first ∧ u.reference? ⟨6⟩ = some second ∧
      t.referenceAt? first [1] = some c ∧ u.referenceAt? second [1] = some c' ∧
      (t.named? c.named).map (·.kind) = some .external ∧ c'.named ≠ c.named := by
  refine ⟨.request (.request worked_declared trivial) trivial, ?_⟩
  refine ⟨((pair.resolve .standard).outcome divided).2, _, { id := ⟨3⟩, named := ⟨4⟩, rank := 0, parent := none },
    { id := ⟨6⟩, named := ⟨4⟩, rank := 0, parent := none }, { id := ⟨5⟩, named := ⟨3⟩, rank := 0, parent := some ⟨3⟩ },
    { id := ⟨8⟩, named := ⟨2⟩, rank := 0, parent := some ⟨6⟩ }, Prod.ext ?_ rfl, Prod.ext ?_ rfl, ?_⟩
  · decide +kernel
  · decide +kernel
  · refine ⟨?_, ?_, ?_, ?_, ?_, ?_⟩
    all_goals decide +kernel

end Sample

end TypeCatalog
