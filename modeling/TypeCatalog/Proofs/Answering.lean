import TypeCatalog.Proofs.Recognition

namespace TypeCatalog

namespace Session

variable {s t u : Session} {id : TypeId} {scope : Scope} {d : Descriptor} {Q : Descriptor → TypeId → Prop}

/-- Work has led from `s` to `t` that declares nothing. -/
structure Advances (s t : Session) : Prop where
  before : s.Sane
  nested : s.Nested
  after : t.Sane
  grows : s.Grows t
  continues : s.Continues t

namespace Advances

theorem refl (hs : s.Sane) (hn : s.Nested) : s.Advances s := ⟨hs, hn, hs, .refl s, .refl s⟩

theorem nested_after (h : s.Advances t) : t.Nested := h.nested.continues h.before.numbered h.continues

theorem trans (h : s.Advances t) (k : t.Advances u) : s.Advances u :=
  ⟨h.before, h.nested, k.after, h.grows.trans k.grows, h.continues.trans k.continues⟩

theorem effective (h : s.Advances t) : scope.effective t d = scope.effective s d :=
  h.continues.effective h.before h.after h.nested

theorem witnesses (h : s.Advances t) : scope.witnesses t d = scope.witnesses s d :=
  h.continues.witnesses h.before h.after h.nested

theorem suits (h : s.Advances t) (hd : s.Suits scope d id) : t.Suits scope d id :=
  hd.continues h.continues h.before h.after h.nested

/-- Rows up to a row that was there were there. -/
theorem named_below (h : s.Advances t) {j : TypeId} {a b : NamedType} (ha : s.named? id = some a)
    (hb : t.named? j = some b) (hlt : j.value < id.value) : ∃ c, s.named? j = some c := by
  have hj := h.after.named_iff.mp ⟨b, hb⟩
  have hid := h.before.named_iff.mp ⟨a, ha⟩
  exact h.before.named_iff.mpr ⟨hj.1, by omega⟩

theorem of_external (h : s.Advances t) {a : NamedType} {x : External} (ha : s.named? id = some a)
    (hx : t.named? id = some (.external x)) : ∃ y, s.named? id = some (.external y) := by
  obtain ⟨b, hb, hab⟩ := h.grows.named? ha
  rw [hx] at hb
  cases hb
  cases a with
  | external y => exact ⟨y, ha⟩
  | documented _ => exact hab.elim
  | parameter _ => exact hab.elim
  | tuple _ => exact hab.elim

theorem of_parameter (h : s.Advances t) {a : NamedType} {p : Parameter} (ha : s.named? id = some a)
    (hp : t.named? id = some (.parameter p)) : s.named? id = some (.parameter p) := by
  obtain ⟨b, hb, hab⟩ := h.grows.named? ha
  cases hp.symm.trans hb
  cases a with
  | parameter q => rw [ha, show q = p from hab]
  | documented _ => exact hab.elim
  | external _ => exact hab.elim
  | tuple _ => exact hab.elim

end Advances

end Session

theorem Find.Steps.advances {allowCreate : Bool} {s t : Session} (h : Steps allowCreate s t) (hs : s.Sane)
    (hn : s.Nested) : s.Advances t :=
  ⟨hs, hn, h.sane hs, h.grows hs.numbered, h.continues hs⟩

theorem Binding.Steps.advances {s t : Session} (h : Steps s t) (hs : s.Sane) (hn : s.Nested) : s.Advances t :=
  ⟨hs, hn, h.sane hs, h.grows hs.numbered, h.continues hs⟩

/-- A row that `q` is found to be learns there a namespace by which it may be taken for `d`, which is written
differently. -/
structure Scope.Teaches (scope : Scope) (s : Session) (q d : Descriptor) : Prop where
  name : q.split.2 = d.split.2
  arity : q.argumentCount = d.argumentCount
  written : ¬ (q.name = d.name ∧ q.form = d.form)
  shared : ∃ n ∈ scope.witnesses s d, n ∈ (scope.effective s q).names

namespace Session

variable {s t u : Session} {id : TypeId} {scope : Scope} {d : Descriptor} {Q : Descriptor → TypeId → Prop}

theorem Advances.teaches (h : s.Advances t) {q : Descriptor} (hq : scope.Teaches s q d) : scope.Teaches t q d :=
  { hq with shared := by rw [h.witnesses, h.effective]; exact hq.shared }

/-- A row of `s` that suits a descriptor in `t` did so in `s`, or was taught by a descriptor that it was found for,
as `Q` says. -/
def LearnsFrom (Q : Descriptor → TypeId → Prop) (scope : Scope) (s t : Session) : Prop :=
  ∀ d j, (∃ a, s.named? j = some a) → t.Suits scope d j → s.Suits scope d j ∨ ∃ q, Q q j ∧ scope.Teaches t q d

namespace LearnsFrom

theorem refl (s : Session) : LearnsFrom Q scope s s := fun _ _ _ h => .inl h

theorem trans (h : LearnsFrom Q scope s t) (k : LearnsFrom Q scope t u) (hst : s.Advances t) (htu : t.Advances u) :
    LearnsFrom Q scope s u := by
  rintro d j ⟨a, ha⟩ hj
  obtain ⟨b, hb, -⟩ := hst.grows.named? ha
  rcases k d j ⟨b, hb⟩ hj with hj | hq
  · rcases h d j ⟨a, ha⟩ hj with hj | ⟨q, hq, hteaches⟩
    · exact .inl hj
    · exact .inr ⟨q, hq, htu.teaches hteaches⟩
  · exact .inr hq

/-- Nothing is learned while the external types stay as they are. -/
theorem of_external (h : s.Advances t)
    (hx : ∀ j x, (∃ a, s.named? j = some a) → t.named? j = some (.external x) → s.named? j = some (.external x)) :
    LearnsFrom Q scope s t := by
  rintro d j hold ⟨x, hj, hname, harity, n, hseen, hmem⟩
  rw [h.witnesses] at hseen
  exact .inl ⟨x, hx j x hold hj, hname, harity, n, hseen, hmem⟩

theorem of_appended (h : s.Advances t) (hp : s.named <+: t.named) : LearnsFrom Q scope s t := by
  refine .of_external h ?_
  rintro j x ⟨a, ha⟩ hx
  have hsame := find?_of_named?.mpr (hp.find?_eq_some (find?_of_named?.mp ha))
  rw [ha, ← hsame, hx]

end LearnsFrom

theorem mem_of_unseen {known : NameSet} {names : List String} {n : String} (h : n ∈ unseen known names) :
    n ∈ names := by
  induction names generalizing known with
  | nil => cases h
  | cons m names ih =>
    unfold unseen at h
    split at h
    · exact List.mem_cons_of_mem m (ih h)
    · exact (List.mem_cons.mp h).elim (fun h => h ▸ List.mem_cons_self) fun h => List.mem_cons_of_mem m (ih h)

theorem named?_extendExternal (hs : s.Numbered) {names : List String} {n : Nat}
    (h : s.extendExternal id names = .ok (n, t)) : ∃ x, s.named? id = some (.external x) ∧
      ∀ j a, s.named? j = some a → ∃ b, t.named? j = some b ∧ (b = a ∨ j = id ∧ b = .external (seenFrom x names)) := by
  obtain ⟨x, hx, -, rfl⟩ := extendExternal_ok h
  refine ⟨x, hx, fun j a ha => ?_⟩
  have hrows := rowsBecome_replaceNamed (P := fun _ => False)
    (C := fun j a b => b = a ∨ j = id ∧ b = .external (seenFrom x names)) (fun _ _ => .inl rfl) hs.named.nodup hx
    (.inr ⟨rfl, rfl⟩)
  obtain ⟨b, hb, hab⟩ := hrows.find?_fst (find?_of_named?.mp ha)
  exact ⟨b, find?_of_named?.mpr hb, hab⟩

/-- What makes an external type suit a descriptor is how its name is written, and how many arguments it has. -/
theorem Suits.congr {q : Descriptor} (h : s.Suits scope q id) (hname : q.name = d.name) (hform : q.form = d.form)
    (harity : q.argumentCount = d.argumentCount) : s.Suits scope d id := by
  obtain ⟨x, hx, hsimple, hcount, hseen⟩ := h
  obtain ⟨name, form, rank, e, as⟩ := q
  obtain ⟨name', form', rank', e', as'⟩ := d
  obtain rfl : name = name' := hname
  obtain rfl : form = form' := hform
  exact ⟨x, hx, hsimple, hcount.trans harity, hseen⟩

end Session

open Session

/-- What was found for a descriptor: a target that is read as one of `P` and has no more to learn than the
descriptor tells. An external type is the oldest one that suits, unless `Q` has taught an older one since. Only
`Q` has rows of type parameters. -/
structure Resolved.Answers (Q : Descriptor → TypeId → Prop) (P : Reading → Prop) (scope : Scope) (s : Session)
    (d : Descriptor) (r : Resolved) : Prop where
  valid : r.Valid s
  reading : ∃ R, P R ∧ r.reading s = some R
  learned : ∀ n ∈ r.learned.names, n ∈ (scope.effective s d).names
  external : ∀ id x, r.target = .existing id → s.named? id = some (.external x) → s.Suits scope d id ∧
    ∀ j, s.Suits scope d j → j.value < id.value → ∃ q, Q q j ∧ scope.Teaches s q d
  parameter : ∀ id p, r.target = .existing id → s.named? id = some (.parameter p) → Q d id

namespace Resolved

variable {s t : Session} {scope : Scope} {d : Descriptor} {r : Resolved} {Q : Descriptor → TypeId → Prop}
  {P P' : Reading → Prop}

theorem Answers.imp (h : r.Answers Q P scope s d) (hP : ∀ R, P R → P' R) : r.Answers Q P' scope s d := by
  obtain ⟨R, hR, hr⟩ := h.reading
  exact { h with reading := ⟨R, hP R hR, hr⟩ }

theorem answers_of_declared (hv : r.Valid s) (hr : ∃ R, P R ∧ r.reading s = some R) (hl : r.learned = .empty)
    (ha : ∀ id, r.target = .existing id → ∃ a, s.named? id = some a ∧ (a.kind = .documented ∨ a.kind = .tuple)) :
    r.Answers Q P scope s d where
  valid := hv
  reading := hr
  learned n hn := by
    rw [hl] at hn
    cases hn
  external id x htarget hx := by
    obtain ⟨a, ha, hkind⟩ := ha id htarget
    cases hx.symm.trans ha
    simp [NamedType.kind] at hkind
  parameter id p htarget hp := by
    obtain ⟨a, ha, hkind⟩ := ha id htarget
    cases hp.symm.trans ha
    simp [NamedType.kind] at hkind

theorem Answers.advances (h : r.Answers Q P scope s d) (ha : s.Advances t) (hl : LearnsFrom Q scope s t)
    (hP : ∀ R, P R → P' R) : r.Answers Q P' scope t d where
  valid := h.valid.mono ha.grows
  reading := by
    obtain ⟨R, hR, hr⟩ := h.reading
    exact ⟨R, hP R hR, reading_continues hr ha.continues⟩
  learned := by
    rw [ha.effective]
    exact h.learned
  external id x htarget hx := by
    have hv := h.valid.target
    rw [htarget] at hv
    obtain ⟨⟨a, hold⟩, -⟩ := hv
    obtain ⟨y, hy⟩ := ha.of_external hold hx
    obtain ⟨hsuits, hleast⟩ := h.external id y htarget hy
    refine ⟨ha.suits hsuits, fun j hj hlt => ?_⟩
    obtain ⟨b, hb⟩ := hj.named
    rcases hl d j (ha.named_below hold hb hlt) hj with hj | hq
    · obtain ⟨q, hq, hteaches⟩ := hleast j hj hlt
      exact ⟨q, hq, ha.teaches hteaches⟩
    · exact hq
  parameter id p htarget hp := by
    have hv := h.valid.target
    rw [htarget] at hv
    obtain ⟨⟨a, hold⟩, -⟩ := hv
    exact h.parameter id p htarget (ha.of_parameter hold hp)

/-- Committing teaches an external type only what its descriptor tells, which it suits already. -/
theorem learnsFrom_commit (h : r.Answers Q P scope s d) (hQ : ∀ j, r.target = .existing j → Q d j)
    (ha : s.Advances t) {id : TypeId} (hc : r.commit s = .ok (id, t)) : LearnsFrom Q scope s t := by
  obtain ⟨-, -, rfl⟩ | ⟨htarget, -, n, he⟩ | ⟨declaring, index, name, -, hadd⟩ := commit_ok hc
  · exact .refl t
  · rintro e j ⟨a, hold⟩ ⟨y, hy, hname, harity, m, hseen, hmem⟩
    obtain ⟨x, hx, hrows⟩ := named?_extendExternal ha.before.numbered he
    obtain ⟨hsuits, -⟩ := h.external id x htarget hx
    rw [ha.witnesses] at hseen
    obtain ⟨b, hb, rfl | ⟨rfl, rfl⟩⟩ := hrows j a hold
    · cases hy.symm.trans hb
      exact .inl ⟨y, hold, hname, harity, m, hseen, hmem⟩
    · cases hy.symm.trans hb
      cases hold.symm.trans hx
      rcases NameSet.mem_foldl_insert.mp hmem with hmem | hmem
      · have hrow := hsuits
        obtain ⟨x', hx', hname', harity', -⟩ := hrow
        cases hx.symm.trans hx'
        by_cases hsame : d.name = e.name ∧ d.form = e.form
        · exact .inl (hsuits.congr hsame.1 hsame.2 (harity'.symm.trans harity))
        · refine .inr ⟨d, hQ j htarget, hname'.symm.trans hname, harity'.symm.trans harity, hsame, m, ?_, ?_⟩
          · rw [ha.witnesses]
            exact hseen
          · rw [ha.effective]
            exact h.learned m (mem_of_unseen hmem)
      · exact .inl ⟨x, hx, hname, harity, m, hseen, hmem⟩
  · obtain ⟨-, rfl, rfl⟩ := addNamed_ok hadd
    exact .of_appended ha (List.prefix_append _ _)

mutual

/-- What was found for a descriptor has a property, and so have the elements that were found for a tuple. -/
def All (P : Descriptor → Resolved → Prop) : Descriptor → Resolved → Prop
  | .mk name form rank e as, r => P (.mk name form rank e as) r ∧ (form = .tuple → AllOf P as r.elements)

def AllOf (P : Descriptor → Resolved → Prop) : List Descriptor → List Resolved → Prop
  | [], rs => rs = []
  | d :: ds, rs => ∃ r rest, rs = r :: rest ∧ All P d r ∧ AllOf P ds rest

end

mutual

theorem All.imp {P P' : Descriptor → Resolved → Prop} (hP : ∀ d r, P d r → P' d r) (d : Descriptor) {r : Resolved}
    (h : r.All P d) : r.All P' d := by
  match d with
  | .mk name form rank e as => exact ⟨hP _ r h.1, fun hform => AllOf.imp hP as (h.2 hform)⟩

theorem AllOf.imp {P P' : Descriptor → Resolved → Prop} (hP : ∀ d r, P d r → P' d r) (ds : List Descriptor)
    {rs : List Resolved} (h : AllOf P ds rs) : AllOf P' ds rs := by
  match ds with
  | [] => exact h
  | d :: ds =>
    obtain ⟨r, rest, rfl, hd, hds⟩ := h
    exact ⟨r, rest, rfl, All.imp hP d hd, AllOf.imp hP ds hds⟩

end

end Resolved

namespace Chain

open Resolved

variable {chain : Chain} {scope : Scope} {s t : Session} {Q : Descriptor → TypeId → Prop}

/-- What was found for a descriptor is what it is recognised as. -/
def Apt (chain : Chain) (scope : Scope) (Q : Descriptor → TypeId → Prop) (s : Session) (d : Descriptor)
    (r : Resolved) : Prop :=
  r.Answers Q (chain.Sees scope s d) scope s d

theorem Apt.advances {d : Descriptor} {r : Resolved} (h : chain.Apt scope Q s d r) (ha : s.Advances t)
    (hl : LearnsFrom Q scope s t) : chain.Apt scope Q t d r :=
  Answers.advances h ha hl fun _ hR => (Sees.continues ha.continues ha.before ha.after ha.nested d hR).1

theorem apt_all_valid {ds : List Descriptor} {rs : List Resolved} (h : AllOf (chain.Apt scope Q s) ds rs) :
    ValidAll s rs ∧ rs.length = ds.length := by
  induction ds generalizing rs with
  | nil =>
    cases h
    exact ⟨trivial, rfl⟩
  | cons d ds ih =>
    obtain ⟨r, rest, rfl, hd, hds⟩ := h
    obtain ⟨hvalid, hlength⟩ := ih hds
    cases d with
    | mk name form rank e as => exact ⟨⟨hd.1.valid, hvalid⟩, congrArg (· + 1) hlength⟩

/-- Elements are recognised as types of the identities that they are compared with. -/
theorem apt_all_sees {ds : List Descriptor} {rs : List Resolved} (h : AllOf (chain.Apt scope Q s) ds rs) :
    ∃ Rs, chain.SeesAll scope s ds Rs ∧ rs.map (identity s) = Rs.map (Reading.identity s) := by
  induction ds generalizing rs with
  | nil =>
    cases h
    exact ⟨[], rfl, rfl⟩
  | cons d ds ih =>
    obtain ⟨r, rest, rfl, hd, hds⟩ := h
    obtain ⟨Rs, hRs, hidentities⟩ := ih hds
    cases d with
    | mk name form rank e as =>
      obtain ⟨R, hR, hr⟩ := hd.1.reading
      refine ⟨R :: Rs, ⟨R, Rs, rfl, hR, hRs⟩, ?_⟩
      rw [List.map_cons, List.map_cons, hidentities, identity_reading hr]

/-- A tuple that was found with elements that are recognised is recognised. -/
theorem apt_tuple {name : String} {rank : Nat} {e : Option String} {as : List Descriptor} {rs : List Resolved}
    {id : TypeId} (hs : s.Sane) (hne : chain.order ≠ []) (h : AllOf (chain.Apt scope Q s) as rs)
    (hfirst : s.FirstTuple as (rs.map (identity s)) id) :
    (Resolved.mk (.existing id) .empty rs).All (chain.Apt scope Q s) (.mk name .tuple rank e as) := by
  obtain ⟨Rs, hRs, hidentities⟩ := apt_all_sees h
  obtain ⟨r, hr⟩ := hfirst.has.named hs
  rw [hidentities] at hfirst
  refine ⟨answers_of_declared ⟨(valid_named hr).target, (apt_all_valid h).1⟩ ?_ rfl ?_, fun _ => h⟩
  · refine ⟨.tuple id, ⟨fun _ => ⟨hne, Rs, id, hRs, rfl, hfirst⟩, fun hform => absurd rfl hform⟩, ?_⟩
    exact reading_eq_some.mpr ⟨_, hr, rfl⟩
  · rintro _ ⟨⟩
    exact ⟨_, hr, .inr rfl⟩

end Chain

namespace Binding

mutual

def All (P : Descriptor → Resolved → Prop) : Descriptor → Binding → Prop
  | .mk name form rank e as, .mk r _ bs => P (.mk name form rank e as) r ∧ AllOf P as bs

def AllOf (P : Descriptor → Resolved → Prop) : List Descriptor → List Binding → Prop
  | d :: ds, b :: bs => All P d b ∧ AllOf P ds bs
  | _, _ => True

end

mutual

theorem All.imp {P P' : Descriptor → Resolved → Prop} (hP : ∀ d r, P d r → P' d r) (d : Descriptor) {b : Binding}
    (h : b.All P d) : b.All P' d := by
  match d, b with
  | .mk name form rank e as, .mk r _ bs => exact ⟨hP _ r h.1, AllOf.imp hP as h.2⟩

theorem AllOf.imp {P P' : Descriptor → Resolved → Prop} (hP : ∀ d r, P d r → P' d r) (ds : List Descriptor)
    {bs : List Binding} (h : AllOf P ds bs) : AllOf P' ds bs := by
  match ds, bs with
  | [], _ => trivial
  | d :: ds, [] => trivial
  | d :: ds, b :: bs => exact ⟨All.imp hP d h.1, AllOf.imp hP ds h.2⟩

end

mutual

/-- The elements of a tuple are bound as they were found for it. -/
theorem All.resolved {P : Descriptor → Resolved → Prop} {s : Session} (d : Descriptor) {b : Binding} (hb : b.Fits s d)
    (ht : b.Tells s d) (h : b.All P d) : b.resolved.All P d := by
  match d, b with
  | .mk name form rank e as, .mk r _ bs =>
    refine ⟨h.1, fun hform => ?_⟩
    obtain ⟨heq, -⟩ := ht.1 hform
    show Resolved.AllOf P as r.elements
    rw [← heq]
    exact AllOf.resolved as hb.2.2 ht.2 h.2

theorem AllOf.resolved {P : Descriptor → Resolved → Prop} {s : Session} (ds : List Descriptor) {bs : List Binding}
    (hb : FitsAll s bs ds) (ht : TellsAll s ds bs) (h : AllOf P ds bs) :
    Resolved.AllOf P ds (bs.map Binding.resolved) := by
  match ds, bs with
  | [], [] => rfl
  | [], b :: bs => exact hb.elim
  | d :: ds, [] => exact hb.elim
  | d :: ds, b :: bs =>
    exact ⟨_, _, rfl, All.resolved d hb.1 ht.1 h.1, AllOf.resolved ds hb.2 ht.2 h.2⟩

end

end Binding

end TypeCatalog
