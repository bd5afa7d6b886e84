import TypeCatalog.Proofs.Integrity
import TypeCatalog.Proofs.Requests
import TypeCatalog.Proofs.Visiting

namespace TypeCatalog

/-- What decides whether two types are taken for the same: the full name of a documented type, and the name. -/
structure Identity where
  full : Option String
  name : String

/-- Two full names decide, otherwise the names do. -/
def Identity.same (i j : Identity) : Bool :=
  match i.full, j.full with
  | some a, some b => a == b
  | _, _ => i.name == j.name

theorem Identity.same_comm (i j : Identity) : i.same j = j.same i := by
  unfold same
  cases i.full <;> cases j.full <;> exact BEq.comm

theorem Identity.same_self (i : Identity) : i.same i = true := by
  unfold same
  cases i.full <;> exact beq_self_eq_true _

namespace NamedType

def identity (a : NamedType) : Identity := ⟨a.documented?.map (·.fullName), a.name⟩

variable {a b : NamedType}

theorem sameIdentity_eq : a.sameIdentity b = a.identity.same b.identity := by
  cases a <;> cases b <;> rfl

theorem Grows.identity (h : a.Grows b) : b.identity = a.identity := by
  cases a with
  | documented d =>
    obtain ⟨ps, rfl⟩ := h.documented
    rfl
  | external x =>
    obtain ⟨names, rfl, -⟩ := h.external
    rfl
  | parameter p => cases b <;> first | exact h.elim | exact congrArg _ (congrArg _ (Eq.symm h))
  | tuple r =>
    obtain rfl := h.tuple
    rfl

theorem Grows.tuple? (h : a.Grows b) : b.tuple? = a.tuple? := by
  cases a with
  | documented d =>
    obtain ⟨ps, rfl⟩ := h.documented
    rfl
  | external x =>
    obtain ⟨names, rfl, -⟩ := h.external
    rfl
  | parameter p => cases b <;> first | exact h.elim | rfl
  | tuple r =>
    obtain rfl := h.tuple
    rfl

theorem tuple?_eq_some {r : Tuple} : a.tuple? = some r ↔ a = .tuple r := by
  cases a <;> simp [NamedType.tuple?]

theorem Alike.identity (h : a.Alike b) : b.identity = a.identity := by
  cases a with
  | documented d =>
    obtain ⟨ps, rfl⟩ := h
    rfl
  | external x => rw [show b = _ from h]
  | parameter p => rw [show b = _ from h]
  | tuple r => rw [show b = _ from h]

theorem Awaits.identity {waiting : List (TypeId × String)} {id : TypeId} (h : a.Awaits waiting id b) :
    b.identity = a.identity := by
  cases a with
  | external x =>
    obtain ⟨names, rfl, -⟩ := h
    rfl
  | documented d => rw [show b = _ from h]
  | parameter p => rw [show b = _ from h]
  | tuple r => rw [show b = _ from h]

theorem Awaits.tuple? {waiting : List (TypeId × String)} {id : TypeId} (h : a.Awaits waiting id b) :
    b.tuple? = a.tuple? := by
  cases a with
  | external x =>
    obtain ⟨names, rfl, -⟩ := h
    rfl
  | documented d => rw [show b = _ from h]
  | parameter p => rw [show b = _ from h]
  | tuple r => rw [show b = _ from h]

end NamedType

namespace Session

variable {s t : Session}

/-! The elements of tuples -/

theorem Sane.tupleElements_iff (hs : s.Sane) {i : TypeId} {rows : List TupleElement} :
    s.tupleElements i = .ok rows ↔
      (∃ r, s.named? i = some (.tuple r)) ∧ rows = s.elements.filter (·.tuple == i) := by
  obtain ⟨-, c, f, hc⟩ := hs
  constructor
  · intro h
    cases ha : s.named? i with
    | none =>
      unfold tupleElements at h
      rw [ha] at h
      cases h
    | some a =>
      cases a with
      | tuple r =>
        rw [hc.tupleElements_ok ha, ← hc.elements] at h
        cases h
        exact ⟨⟨r, rfl⟩, rfl⟩
      | documented d =>
        unfold tupleElements at h
        rw [ha] at h
        cases h
      | external x =>
        unfold tupleElements at h
        rw [ha] at h
        cases h
      | parameter p =>
        unfold tupleElements at h
        rw [ha] at h
        cases h
  · rintro ⟨⟨r, hr⟩, rfl⟩
    rw [hc.tupleElements_ok hr, hc.elements]

theorem Sane.tuple_elements (hs : s.Sane) {i : TypeId} {r : Tuple} (hr : s.named? i = some (.tuple r)) :
    r.elements = (s.elements.filter (·.tuple == i)).map (·.id) := by
  obtain ⟨-, c, f, hc⟩ := hs
  rw [hc.elements]
  exact hc.regular.tuple i r (hc.tuple_mem hr)

/-- A tuple lists its elements, so no element is added to it later. -/
theorem Sane.filter_eq (hs : s.Sane) (ht : t.Sane) (hp : s.elements <+: t.elements) {i : TypeId} {r : Tuple}
    (hi : s.named? i = some (.tuple r)) (hi' : t.named? i = some (.tuple r)) :
    t.elements.filter (·.tuple == i) = s.elements.filter (·.tuple == i) := by
  obtain ⟨more, hmore⟩ := hp
  have hlength : (t.elements.filter (·.tuple == i)).length = (s.elements.filter (·.tuple == i)).length := by
    have hids := (ht.tuple_elements hi').symm.trans (hs.tuple_elements hi)
    simpa using congrArg List.length hids
  rw [← hmore, List.filter_append, List.length_append] at hlength
  have hnil : more.filter (·.tuple == i) = [] := List.length_eq_zero_iff.mp (by omega)
  rw [← hmore, List.filter_append, hnil, List.append_nil]

theorem Sane.elementType (hs : s.Sane) {e : TupleElement} (he : e ∈ s.elements) :
    ∃ a, s.named? e.elementType = some a := by
  obtain ⟨-, c, f, hc⟩ := hs
  exact hc.elementType_named (hc.elements ▸ he)

/-- Types are still taken for what they were, and tuples have the elements that they had. -/
structure Carries (s t : Session) : Prop where
  named : ∀ id a, s.named? id = some a → ∃ b, t.named? id = some b ∧ b.identity = a.identity ∧ b.tuple? = a.tuple?
  elements : s.elements <+: t.elements

theorem Grows.carries (hg : s.Grows t) : s.Carries t where
  named id a ha := by
    obtain ⟨b, hb, hab⟩ := hg.named? ha
    exact ⟨b, hb, hab.identity, hab.tuple?⟩
  elements := hg.elements

namespace Carries

theorem tuple (hg : s.Carries t) {i : TypeId} {r : Tuple} (hr : s.named? i = some (.tuple r)) :
    t.named? i = some (.tuple r) := by
  obtain ⟨b, hb, -, htuple⟩ := hg.named i _ hr
  rw [hb, NamedType.tuple?_eq_some.mp htuple]

theorem of_tuple (hg : s.Carries t) {i : TypeId} {a : NamedType} {r : Tuple} (ha : s.named? i = some a)
    (hr : t.named? i = some (.tuple r)) : a = .tuple r := by
  obtain ⟨b, hb, -, htuple⟩ := hg.named i a ha
  rw [hr] at hb
  cases hb
  exact NamedType.tuple?_eq_some.mp htuple.symm

theorem identity_elementType (hg : s.Carries t) (hs : s.Sane) {e : TupleElement} (he : e ∈ s.elements)
    {a : NamedType} (ha : t.named? e.elementType = some a) :
    ∃ b, s.named? e.elementType = some b ∧ b.identity = a.identity := by
  obtain ⟨b, hb⟩ := hs.elementType he
  obtain ⟨a', ha', hidentity, -⟩ := hg.named _ b hb
  have heq := Option.some.inj (ha'.symm.trans ha)
  subst heq
  exact ⟨b, hb, hidentity.symm⟩

theorem tupleElements (hg : s.Carries t) (hs : s.Sane) (ht : t.Sane) {i : TypeId} {rows : List TupleElement}
    (h : s.tupleElements i = .ok rows) : t.tupleElements i = .ok rows := by
  obtain ⟨⟨r, hr⟩, rfl⟩ := hs.tupleElements_iff.mp h
  have hr' := hg.tuple hr
  exact ht.tupleElements_iff.mpr ⟨⟨r, hr'⟩, (hs.filter_eq ht hg.elements hr hr').symm⟩

end Carries

/-! Tuples without doubles -/

/-- Elements that do not tell two tuples apart. -/
structure Agree (s : Session) (e e' : TupleElement) : Prop where
  name : e.name = e'.name
  rank : e.rank = e'.rank
  type : ∃ a b, s.named? e.elementType = some a ∧ s.named? e'.elementType = some b ∧ a.sameIdentity b = true

theorem Agree.symm {e e' : TupleElement} (h : s.Agree e e') : s.Agree e' e := by
  obtain ⟨a, b, ha, hb, hab⟩ := h.type
  refine ⟨h.name.symm, h.rank.symm, b, a, hb, ha, ?_⟩
  rwa [NamedType.sameIdentity_eq, Identity.same_comm, ← NamedType.sameIdentity_eq]

theorem Agree.imp {e e' : TupleElement} (h : t.Agree e e')
    (he : ∀ a, t.named? e.elementType = some a → ∃ b, s.named? e.elementType = some b ∧ b.identity = a.identity)
    (he' : ∀ a, t.named? e'.elementType = some a → ∃ b, s.named? e'.elementType = some b ∧ b.identity = a.identity) :
    s.Agree e e' := by
  obtain ⟨a, b, ha, hb, hab⟩ := h.type
  obtain ⟨a', ha', hida⟩ := he a ha
  obtain ⟨b', hb', hidb⟩ := he' b hb
  refine ⟨h.name, h.rank, a', b', ha', hb', ?_⟩
  rw [NamedType.sameIdentity_eq, hida, hidb, ← NamedType.sameIdentity_eq, hab]

/-- No two tuples have elements that agree, and every tuple numbers its elements from 0. -/
structure Tidy (s : Session) : Prop where
  distinct : ∀ i j rows rows', s.tupleElements i = .ok rows → s.tupleElements j = .ok rows' →
    List.Forall₂ s.Agree rows rows' → i = j
  ordinals : ∀ i rows, s.tupleElements i = .ok rows → rows.map (·.ordinal) = List.range rows.length

theorem forall₂_of_mem {α β : Type} {R S : α → β → Prop} {xs : List α} {ys : List β} (h : List.Forall₂ R xs ys)
    (hRS : ∀ x ∈ xs, ∀ y ∈ ys, R x y → S x y) : List.Forall₂ S xs ys := by
  induction h with
  | nil => exact .nil
  | cons hxy _ ih =>
    refine .cons (hRS _ List.mem_cons_self _ List.mem_cons_self hxy) (ih ?_)
    intro x hx y hy
    exact hRS x (List.mem_cons_of_mem _ hx) y (List.mem_cons_of_mem _ hy)

theorem Tidy.of_shown (h : s.Tidy)
    (ht : ∀ i rows, t.tupleElements i = .ok rows → s.tupleElements i = .ok rows ∧
      ∀ e ∈ rows, ∀ a, t.named? e.elementType = some a →
        ∃ b, s.named? e.elementType = some b ∧ b.identity = a.identity) : t.Tidy where
  distinct i j rows rows' hi hj hagree := by
    obtain ⟨hsi, htypes⟩ := ht i rows hi
    obtain ⟨hsj, htypes'⟩ := ht j rows' hj
    refine h.distinct i j rows rows' hsi hsj (forall₂_of_mem hagree ?_)
    exact fun e he e' he' hee => hee.imp (htypes e he) (htypes' e' he')
  ordinals i rows hi := h.ordinals i rows (ht i rows hi).1

/-- Every tuple of `t` is a tuple of `s`. -/
def AddsNoTuple (s t : Session) : Prop := ∀ i r, t.named? i = some (.tuple r) → s.named? i = some (.tuple r)

theorem AddsNoTuple.tupleElements (hk : s.AddsNoTuple t) (hs : s.Sane) (ht : t.Sane) (hg : s.Grows t) {i : TypeId}
    {rows : List TupleElement} (h : t.tupleElements i = .ok rows) : s.tupleElements i = .ok rows := by
  obtain ⟨⟨r, hr⟩, rfl⟩ := ht.tupleElements_iff.mp h
  have hsr := hk i r hr
  exact hs.tupleElements_iff.mpr ⟨⟨r, hsr⟩, hs.filter_eq ht hg.elements hsr hr⟩

theorem Tidy.kept (h : s.Tidy) (hs : s.Sane) (ht : t.Sane) (hg : s.Grows t) (hk : s.AddsNoTuple t) : t.Tidy := by
  refine h.of_shown fun i rows hi => ?_
  have hsi := hk.tupleElements hs ht hg hi
  refine ⟨hsi, fun e he a ha => ?_⟩
  obtain ⟨-, rfl⟩ := hs.tupleElements_iff.mp hsi
  exact hg.carries.identity_elementType hs (List.mem_filter.mp he).1 ha

theorem named?_concat {id : TypeId} {a : NamedType} (h : t.named = s.named ++ [(id, a)]) (j : TypeId) :
    t.named? j = (s.named? j).or (if j = id then some a else none) := by
  unfold named?
  rw [h, List.find?_append, Option.map_or]
  congr 1
  by_cases hj : j = id
  · subst hj
    rw [if_pos rfl, List.find?_cons_of_pos (by simp)]
    rfl
  · rw [if_neg hj, List.find?_cons_of_neg (by simpa using Ne.symm hj)]
    rfl

theorem named?_next (hs : s.Numbered) : s.named? ⟨s.namedIds.used + 1⟩ = none := by
  by_contra hne
  obtain ⟨b, hb⟩ := Option.ne_none_iff_exists'.mp hne
  have hle := hs.named.bounded _ (List.mem_map_of_mem (List.mem_of_find?_eq_some (find?_of_named?.mp hb)))
  dsimp only at hle
  omega

theorem named?_addNamed (hs : s.Numbered) {id : TypeId} {a : NamedType} (h : s.addNamed a = .ok (id, t)) :
    s.named? id = none ∧ t.named? id = some a := by
  obtain ⟨-, rfl, rfl⟩ := addNamed_ok h
  refine ⟨named?_next hs, ?_⟩
  rw [named?_concat rfl, named?_next hs, Option.none_or, if_pos rfl]

namespace AddsNoTuple

variable {u : Session}

theorem refl (s : Session) : s.AddsNoTuple s := fun _ _ h => h

theorem trans (h : s.AddsNoTuple t) (k : t.AddsNoTuple u) : s.AddsNoTuple u := fun i r hr => h i r (k i r hr)

theorem of_named (h : t.named = s.named) : s.AddsNoTuple t := by
  intro i r hr
  unfold named? at hr ⊢
  rwa [h] at hr

theorem replaceNamed {id : TypeId} {a : NamedType} (ha : a.tuple? = none) : s.AddsNoTuple (s.replaceNamed id a) := by
  intro i r hr
  rw [find?_of_named?] at hr ⊢
  have hmem := List.find?_some hr
  unfold Session.replaceNamed at hr
  dsimp only at hr
  rw [List.find?_map] at hr
  obtain ⟨⟨j, b⟩, hj, hb⟩ := Option.map_eq_some_iff.mp hr
  dsimp only at hb
  split at hb
  · cases hb
    cases ha
  · cases hb
    have hsame : ((·.1 == i) ∘ fun x : TypeId × NamedType => if x.1 = id then (x.1, a) else (x.1, x.2)) =
        fun x => x.1 == i := by
      funext x
      dsimp only [Function.comp_apply]
      split <;> rfl
    rwa [hsame] at hj

theorem addNamed {a : NamedType} {id : TypeId} (ha : a.tuple? = none) (h : s.addNamed a = .ok (id, t)) :
    s.AddsNoTuple t := by
  obtain ⟨-, rfl, rfl⟩ := addNamed_ok h
  intro i r hr
  rw [named?_concat rfl, Option.or_eq_some_iff] at hr
  rcases hr with hr | ⟨-, hr⟩
  · exact hr
  · split at hr
    · cases hr
      cases ha
    · cases hr

theorem ensureNamespace {name : String} {id : NamespaceId} (h : s.ensureNamespace name = .ok (id, t)) :
    s.AddsNoTuple t := by
  refine ensureWithin_induction ?_ (refl s) h
  intro u name parent id v hu hv
  obtain ⟨-, rfl, rfl⟩ := addNamespace_ok hv
  exact hu.trans (of_named rfl)

theorem ensureParameters {id : TypeId} {ps : List TypeParameter} (h : s.ensureParameters id = .ok (ps, t)) :
    s.AddsNoTuple t := by
  obtain ⟨d, -, ⟨-, rfl⟩ | ⟨-, -, -, rfl⟩⟩ := ensureParameters_ok h
  · exact refl t
  · exact replaceNamed rfl

theorem extendExternal {id : TypeId} {names : List String} {n : Nat} (h : s.extendExternal id names = .ok (n, t)) :
    s.AddsNoTuple t := by
  obtain ⟨x, -, -, rfl⟩ := extendExternal_ok h
  exact replaceNamed rfl

theorem save {n : Nat} (h : s.save = .ok (n, t)) : s.AddsNoTuple t := by
  obtain ⟨-, rfl⟩ | ⟨-, rfl⟩ | ⟨store, changes, database, -, -, -, -, rfl⟩ := save_ok h
  · exact refl t
  · exact of_named rfl
  · exact of_named rfl

theorem commit {r : Resolved} {id : TypeId} (h : r.commit s = .ok (id, t)) : s.AddsNoTuple t := by
  obtain ⟨-, -, rfl⟩ | ⟨-, -, n, he⟩ | ⟨declaring, index, name, -, ha⟩ := Resolved.commit_ok h
  · exact refl t
  · exact extendExternal he
  · exact addNamed rfl ha

end AddsNoTuple

end Session

/-! Cataloguing -/

namespace Session

variable {s t : Session}

theorem named?_findDocumented {name : String} {arity : Nat} {id : TypeId} (h : s.findDocumented name arity = some id) :
    ∃ a, s.named? id = some a := by
  obtain ⟨r, hr, rfl⟩ := Option.map_eq_some_iff.mp h
  refine Option.isSome_iff_exists.mp ?_
  unfold named?
  rw [Option.isSome_map, List.find?_isSome]
  exact ⟨r, List.mem_of_find?_eq_some hr, beq_self_eq_true _⟩

theorem named?_addDocumented {d : Documented} {id j : TypeId} (h : s.addDocumented d = .ok (id, t))
    (hj : j = id ∨ ∃ a, s.named? j = some a) : ∃ a, t.named? j = some a := by
  obtain ⟨-, rfl, rfl⟩ := addNamed_ok h
  refine Option.isSome_iff_exists.mp ?_
  rw [named?_concat rfl, Option.isSome_or, Bool.or_eq_true]
  rcases hj with rfl | ⟨a, ha⟩
  · exact .inr (by simp)
  · exact .inl (by simp [ha])

theorem named?_ensureNamespace {name : String} {id : NamespaceId} (h : s.ensureNamespace name = .ok (id, t)) :
    t.named? = s.named? := by
  have hnamed : t.named = s.named := by
    refine ensureWithin_induction (P := fun t => t.named = s.named) ?_ rfl h
    intro u name parent id v hu hv
    obtain ⟨-, rfl, rfl⟩ := addNamespace_ok hv
    exact hu
  funext j
  unfold named?
  rw [hnamed]

end Session

namespace Declarations

open Session

/-- What cataloguing preserves: that which every operation it is made of preserves. A type is only declared
in a container that is there. -/
structure Preserves (P : Session → Prop) : Prop where
  space : ∀ s name id t, P s → s.ensureNamespace name = .ok (id, t) → P t
  file : ∀ s path usings id t, P s → s.addSourceFile path usings = .ok (id, t) → P t
  type : ∀ s d id t, P s → (∀ j, d.container = some j → ∃ a, s.named? j = some a) →
    s.addDocumented d = .ok (id, t) → P t

/-- The rows of named types that are there stay there. -/
def Retains (s t : Session) : Prop := ∀ j, (∃ a, s.named? j = some a) → ∃ a, t.named? j = some a

variable {P : Session → Prop} {s t : Session}

namespace Preserves

theorem ensureNamespaces (h : Preserves P) (hs : P s) {names : List String} {ids : List NamespaceId}
    (he : s.ensureNamespaces names = .ok (ids, t)) : P t ∧ Retains s t := by
  induction names generalizing s ids with
  | nil =>
    cases he
    exact ⟨hs, fun _ hj => hj⟩
  | cons name names ih =>
    unfold Session.ensureNamespaces at he
    obtain ⟨⟨id, u⟩, hu, he⟩ := bind_eq_ok.mp he
    obtain ⟨⟨rest, v⟩, hv, he⟩ := bind_eq_ok.mp he
    cases he
    obtain ⟨ht, hkeep⟩ := ih (h.space _ _ _ _ hs hu) hv
    rw [Retains, named?_ensureNamespace hu] at hkeep
    exact ⟨ht, hkeep⟩

theorem enterType (h : Preserves P) (hs : P s) {file : FileId} {container id? : Option TypeId} {c : Cursor}
    (hc : ∀ j, container = some j → ∃ a, s.named? j = some a)
    (he : enterType file container c s = .ok (id?, t)) :
    P t ∧ Retains s t ∧ ∀ j, id? = some j → ∃ a, t.named? j = some a := by
  unfold Declarations.enterType at he
  split at he
  · dsimp only at he
    split at he
    · next id hid =>
      cases he
      refine ⟨hs, fun _ hj => hj, ?_⟩
      rintro j ⟨⟩
      exact named?_findDocumented hid
    · obtain ⟨⟨home, u⟩, hu, he⟩ := bind_eq_ok.mp he
      obtain ⟨⟨id, v⟩, hv, he⟩ := bind_eq_ok.mp he
      cases he
      rw [← named?_ensureNamespace hu] at hc
      refine ⟨h.type _ _ _ _ (h.space _ _ _ _ hs hu) hc hv, ?_, ?_⟩
      · intro j hj
        rw [← named?_ensureNamespace hu] at hj
        exact named?_addDocumented hv (.inr hj)
      · rintro j ⟨⟩
        exact named?_addDocumented hv (.inl rfl)
  · cases he
    exact ⟨hs, fun _ hj => hj, by rintro j ⟨⟩⟩

theorem walk (h : Preserves P) (file : FileId) : Walk file (fun _ => True)
    (fun _ container s => P s ∧ ∀ j, container = some j → ∃ a, s.named? j = some a)
    (fun s _ t => P t ∧ Retains s t) where
  stay hc := ⟨hc.1, fun _ hj => hj⟩
  trans hst htv := ⟨htv.1, fun j hj => htv.2 j (hst.2 j hj)⟩
  keep hc hst := ⟨hst.1, fun j hj => hst.2 j (hc.2 j hj)⟩
  space _ _ hc hown := by
    obtain ⟨⟨ids, v⟩, hnames, hown⟩ := bind_eq_ok.mp hown
    cases hown
    obtain ⟨ht, hkeep⟩ := h.ensureNamespaces hc.1 hnames
    exact ⟨⟨ht, hkeep⟩, ht, fun j hj => hkeep j (hc.2 j hj)⟩
  type _ _ hc hown := by
    obtain ⟨ht, hkeep, hid⟩ := h.enterType hc.1 hc.2 hown
    refine ⟨⟨ht, hkeep⟩, ht, fun j hj => ?_⟩
    rcases Option.or_eq_some_iff.mp hj with hj | ⟨-, hj⟩
    · exact hid j hj
    · exact hkeep j (hc.2 j hj)
  other _ _ _ hc := ⟨⟨hc.1, fun _ hj => hj⟩, hc⟩

theorem visit {s t : Session} (h : Preserves P) (hs : P s) {file : FileId} {above : List Node}
    {container : Option TypeId} (hc : ∀ j, container = some j → ∃ a, s.named? j = some a) {k : Nat} (n : Node)
    (hv : visit file above container s n = .ok (k, t)) : P t ∧ Retains s t :=
  (h.walk file).visit n hv (fun _ _ => trivial) ⟨hs, hc⟩

theorem catalog (h : Preserves P) (hs : P s) {u : SourceUnit} {outcome : Outcome}
    (hc : u.catalog s = .ok (outcome, t)) : P t := by
  unfold SourceUnit.catalog at hc
  split at hc
  · cases hc
    exact hs
  · obtain ⟨⟨usings, v⟩, hv, hc⟩ := bind_eq_ok.mp hc
    obtain ⟨⟨file, w⟩, hw, hc⟩ := bind_eq_ok.mp hc
    obtain ⟨⟨types, x⟩, hx, hc⟩ := bind_eq_ok.mp hc
    cases hc
    exact (h.visit (h.file _ _ _ _ _ (h.ensureNamespaces hs hv).1 hw) (by simp) u.root hx).1

end Preserves

theorem preserves_addsNoTuple {o : Session} : Preserves o.AddsNoTuple where
  space _ _ _ _ hs h := hs.trans (.ensureNamespace h)
  file _ _ _ _ _ hs h := by
    obtain ⟨-, rfl, rfl⟩ := addSourceFile_ok h
    exact hs.trans (.of_named rfl)
  type _ _ _ _ hs _ h := hs.trans (.addNamed rfl h)

end Declarations

end TypeCatalog
