import TypeCatalog.Proofs.AppendOnly
import TypeCatalog.Proofs.Gating

namespace TypeCatalog

/-- How a row may look later: its type parameters are loaded or not, and an external type is seen from more
namespaces. -/
inductive NamedType.Develops : NamedType → NamedType → Prop
  | alike {a b : NamedType} (h : a.Alike b) : Develops a b
  | namespaces {x : External} {names : NameSet} (h : ∀ n ∈ x.namespaces.names, n ∈ names.names) :
      Develops (.external x) (.external { x with namespaces := names })

namespace NamedType.Develops

variable {a b c : NamedType}

theorem refl (a : NamedType) : a.Develops a := .alike (.refl a)

theorem documented {d : Documented} (h : (NamedType.documented d).Develops b) :
    ∃ ps, b = .documented { d with parameters := ps } := by
  cases h with
  | alike h => exact h

theorem external {x : External} (h : (NamedType.external x).Develops b) :
    ∃ names, b = .external { x with namespaces := names } ∧ ∀ n ∈ x.namespaces.names, n ∈ names.names := by
  cases h with
  | alike h => exact ⟨x.namespaces, h, fun n hn => hn⟩
  | namespaces h => exact ⟨_, rfl, h⟩

theorem trans (h : a.Develops b) (k : b.Develops c) : a.Develops c := by
  cases a with
  | documented d =>
    obtain ⟨ps, rfl⟩ := h.documented
    obtain ⟨qs, rfl⟩ := k.documented
    exact .alike ⟨qs, rfl⟩
  | external x =>
    obtain ⟨names, rfl, hn⟩ := h.external
    obtain ⟨more, rfl, hm⟩ := k.external
    exact .namespaces fun n h => hm n (hn n h)
  | parameter p =>
    cases h with
    | alike h => exact (show b = _ from h) ▸ k
  | tuple r =>
    cases h with
    | alike h => exact (show b = _ from h) ▸ k

theorem identity (h : a.Develops b) : b.identity = a.identity := by
  cases h with
  | alike h => exact h.identity
  | namespaces => rfl

theorem tuple? (h : a.Develops b) : b.tuple? = a.tuple? := by
  cases h with
  | alike h => exact h.tuple?
  | namespaces => rfl

theorem any_documented? (h : a.Develops b) {p : Documented → Bool}
    (hp : ∀ d ps, p { d with parameters := ps } = p d) : b.documented?.any p = a.documented?.any p := by
  cases h with
  | alike h => exact h.any_documented? hp
  | namespaces => rfl

theorem documented?_none (h : a.Develops b) (ha : a.documented? = none) : b.documented? = none := by
  cases a with
  | documented d => cases ha
  | external x =>
    obtain ⟨names, rfl, -⟩ := h.external
    rfl
  | parameter p =>
    cases h with
    | alike h => rw [show b = _ from h]; rfl
  | tuple r =>
    cases h with
    | alike h => rw [show b = _ from h]; rfl

end NamedType.Develops

theorem RowsBecome.mem_or {C : TypeId → NamedType → NamedType → Prop} {P : NamedType → Prop}
    {rows later : List (TypeId × NamedType)} (h : RowsBecome C P rows later) {id : TypeId} {b : NamedType}
    (hb : (id, b) ∈ later) : (∃ a, (id, a) ∈ rows ∧ C id a b) ∨ P b := by
  induction h with
  | nil h => exact .inr (h _ hb)
  | cons h _ ih =>
    rcases List.mem_cons.mp hb with heq | hb
    · cases heq
      exact .inl ⟨_, List.mem_cons_self, h⟩
    · exact (ih hb).imp_left fun ⟨a, ha, hab⟩ => ⟨a, List.mem_cons_of_mem _ ha, hab⟩

namespace Session

variable {s t u : Session} {c f c' f' : Contents} {id : TypeId} {ps : List TypeParameter}

/-- The type parameters that a documented type is found to have when they are asked for. -/
def Declares (s : Session) (id : TypeId) (ps : List TypeParameter) : Prop := ∃ t, s.ensureParameters id = .ok (ps, t)

theorem Ledger.declares_iff (h : s.Ledger c f) :
    s.Declares id ps ↔ ∃ d, (id, .documented d) ∈ f.named ∧ d.parameters = some ps := by
  constructor
  · rintro ⟨t, ht⟩
    obtain ⟨d, hd, -⟩ := ensureParameters_ok ht
    obtain ⟨qs, u, hu, -, hmem⟩ := h.ensureParameters hd
    rw [hu] at ht
    cases ht
    exact ⟨_, hmem, rfl⟩
  · rintro ⟨d, hmem, hps⟩
    obtain ⟨e, he⟩ := Session.isDocumented_iff.mp (h.isDocumented_iff.mpr ⟨d, hmem⟩)
    obtain ⟨qs, u, hu, -, hmem'⟩ := h.ensureParameters he
    cases h.sound.named.unique hmem hmem'
    cases hps
    exact ⟨u, hu⟩

theorem Ledger.declares_mono (hs : s.Ledger c f) (ht : t.Ledger c' f')
    (hrows : ∀ i d, (i, .documented d) ∈ f.named → (i, .documented d) ∈ f'.named) (h : s.Declares id ps) :
    t.Declares id ps := by
  obtain ⟨d, hd, hps⟩ := hs.declares_iff.mp h
  exact ht.declares_iff.mpr ⟨d, hrows id d hd, hps⟩

/-- What is declared is the same in `t` as in `s`, and what was found in `s` is still there. -/
structure Continues (s t : Session) : Prop where
  namespaces : t.namespaces = s.namespaces
  globalNamespace : t.globalNamespace = s.globalNamespace
  files : t.files = s.files
  rows : RowsBecome (fun _ => NamedType.Develops) (·.documented? = none) s.named t.named
  elements : s.elements <+: t.elements
  declares : ∀ id ps, s.Declares id ps → t.Declares id ps

namespace Continues

theorem refl (s : Session) : s.Continues s :=
  ⟨rfl, rfl, rfl, .refl (fun _ => .refl) _, List.prefix_rfl, fun _ _ h => h⟩

theorem trans (h : s.Continues t) (k : t.Continues u) : s.Continues u where
  namespaces := k.namespaces.trans h.namespaces
  globalNamespace := k.globalNamespace.trans h.globalNamespace
  files := k.files.trans h.files
  rows := .trans (fun _ _ _ _ h k => h.trans k) (fun _ _ _ ha hab => hab.documented?_none ha) (fun _ h => h)
    h.rows k.rows
  elements := h.elements.trans k.elements
  declares id ps hd := k.declares id ps (h.declares id ps hd)

theorem named? (h : s.Continues t) {a : NamedType} (ha : s.named? id = some a) :
    ∃ b, t.named? id = some b ∧ a.Develops b := by
  obtain ⟨b, hb, hab⟩ := h.rows.find?_fst (find?_of_named?.mp ha)
  exact ⟨b, find?_of_named?.mpr hb, hab⟩

theorem documented? (h : s.Continues t) {d : Documented} (hd : s.named? id = some (.documented d)) :
    ∃ ps, t.named? id = some (.documented { d with parameters := ps }) := by
  obtain ⟨b, hb, hab⟩ := h.named? hd
  obtain ⟨ps, rfl⟩ := hab.documented
  exact ⟨ps, hb⟩

theorem external? (h : s.Continues t) {x : External} (hx : s.named? id = some (.external x)) :
    ∃ names, t.named? id = some (.external { x with namespaces := names }) ∧
      ∀ n ∈ x.namespaces.names, n ∈ names.names := by
  obtain ⟨b, hb, hab⟩ := h.named? hx
  obtain ⟨names, rfl, hnames⟩ := hab.external
  exact ⟨names, hb, hnames⟩

theorem carries (h : s.Continues t) : s.Carries t where
  named id a ha := by
    obtain ⟨b, hb, hab⟩ := h.named? ha
    exact ⟨b, hb, hab.identity, hab.tuple?⟩
  elements := h.elements

theorem sourceFile? (h : s.Continues t) : t.sourceFile? = s.sourceFile? := by
  unfold Session.sourceFile?
  rw [h.files]

theorem findDocumented (h : s.Continues t) : t.findDocumented = s.findDocumented := by
  funext fullName arity
  unfold Session.findDocumented
  rw [← List.head?_filter, ← List.head?_filter, ← List.head?_map, ← List.head?_map]
  refine congrArg List.head? (h.rows.filter_fst (fun _ a b hab => hab.any_documented? fun _ _ => rfl) ?_)
  rintro - a ha
  simp only [ha]
  rfl

/-- A documented row is the same declaration as before. -/
theorem of_documented (h : s.Continues t) (hs : s.Numbered) {d : Documented} (hd : t.named? id = some (.documented d)) :
    ∃ ps, s.named? id = some (.documented { d with parameters := ps }) := by
  have hmem := List.mem_of_find?_eq_some (find?_of_named?.mp hd)
  rcases h.rows.mem_or hmem with ⟨a, ha, hab⟩ | hnone
  · have hfind := find?_of_nodup hs.named.nodup ha
    cases a with
    | documented e =>
      obtain ⟨ps, heq⟩ := hab.documented
      cases heq
      exact ⟨e.parameters, find?_of_named?.mpr hfind⟩
    | external x =>
      obtain ⟨names, heq, -⟩ := hab.external
      cases heq
    | parameter p =>
      cases hab with
      | alike h => cases h
    | tuple r =>
      cases hab with
      | alike h => cases h
  · cases hnone

theorem isDocumented (h : s.Continues t) (hs : s.Numbered) : t.isDocumented = s.isDocumented := by
  funext id
  rw [Bool.eq_iff_iff, isDocumented_iff, isDocumented_iff]
  constructor
  · rintro ⟨d, hd⟩
    obtain ⟨ps, hd⟩ := h.of_documented hs hd
    exact ⟨_, hd⟩
  · rintro ⟨d, hd⟩
    obtain ⟨ps, hd⟩ := h.documented? hd
    exact ⟨_, hd⟩

theorem globalContext (h : s.Continues t) : t.globalContext = s.globalContext := by
  unfold Session.globalContext
  rw [h.globalNamespace]

end Continues

/-! Operations that declare nothing -/

theorem continues_addNamed (hs : s.Ledger c f) {a : NamedType} (hw : a.WellFormed) (ha : a.documented? = none)
    (h : s.addNamed a = .ok (id, t)) : s.Continues t := by
  have hl := hs.addNamed hw h
  obtain ⟨-, rfl, rfl⟩ := addNamed_ok h
  exact { Continues.refl s with
    rows := .append (fun _ => .refl) (by simpa using ha)
    declares := fun _ _ => hs.declares_mono hl fun _ _ => List.mem_append_left _ }

theorem continues_addTuple (hs : s.Ledger c f) {name : String} {es : List NewElement}
    (h : s.addTuple name es = .ok (id, t)) : s.Continues t := by
  have hl := hs.addTuple h
  obtain ⟨-, -, rfl, rfl⟩ := addTuple_ok h
  exact { Continues.refl s with
    rows := .append (fun _ => .refl) (by simp [NamedType.documented?])
    elements := List.prefix_append _ _
    declares := fun _ _ => hs.declares_mono hl fun _ _ => List.mem_append_left _ }

theorem continues_ensureParameters (hs : s.Ledger c f) (h : s.ensureParameters id = .ok (ps, t)) : s.Continues t := by
  obtain ⟨d, hd, -⟩ := ensureParameters_ok h
  obtain ⟨qs, u, hu, hl, -⟩ := hs.ensureParameters hd
  rw [hu] at h
  cases h
  have hloads := loads_ensureParameters hs.numbered hu
  rw [hloads.rest] at hl ⊢
  refine { Continues.refl s with
    rows := hloads.named.mono ?_ fun _ h => h.elim
    declares := fun _ _ => hs.declares_mono hl fun _ _ h => h }
  intro i a b hab
  cases hab with
  | same => exact .refl a
  | parameters => exact .alike ⟨_, rfl⟩

theorem continues_extendExternal (hs : s.Ledger c f) {names : List String} {n : Nat}
    (h : s.extendExternal id names = .ok (n, t)) : s.Continues t := by
  obtain ⟨x, hx, hl⟩ := hs.extendExternal h
  have hmem := hs.external_mem hx
  have hkeep : ∀ i d, (i, .documented d) ∈ f.named →
      (i, .documented d) ∈ replaceRow id (.external (seenFrom x names)) f.named := by
    intro i d hd
    refine mem_replaceRow.mpr (.inl ⟨?_, hd⟩)
    rintro rfl
    cases hs.sound.named.unique hd hmem
  obtain ⟨y, hy, -, rfl⟩ := extendExternal_ok h
  exact { Continues.refl s with
    rows := rowsBecome_replaceNamed (fun _ => .refl) hs.numbered.named.nodup hy
      (.namespaces fun m hm => NameSet.mem_foldl_insert.mpr (.inr hm))
    declares := fun _ _ => hs.declares_mono hl hkeep }

theorem continues_commit (hs : s.Ledger c f) {r : Resolved} (h : r.commit s = .ok (id, t)) : s.Continues t := by
  obtain ⟨-, -, rfl⟩ | ⟨-, -, n, he⟩ | ⟨declaring, index, name, -, ha⟩ := Resolved.commit_ok h
  · exact .refl t
  · exact continues_extendExternal hs he
  · exact continues_addNamed hs (a := .parameter ⟨name, declaring, index⟩) trivial rfl ha

theorem continues_save (hs : s.Ledger c f) {n : Nat} (h : s.save = .ok (n, t)) : s.Continues t := by
  have hl := hs.save h
  have hdeclares : ∀ id ps, s.Declares id ps → t.Declares id ps := fun _ _ => hs.declares_mono hl fun _ _ h => h
  obtain ⟨-, rfl⟩ | ⟨-, rfl⟩ | ⟨store, changes, database, -, -, -, -, rfl⟩ := save_ok h
  · exact .refl t
  · exact { Continues.refl s with declares := hdeclares }
  · exact { Continues.refl s with declares := hdeclares }

theorem continues_addReference (hs : s.Ledger c f) {named : TypeId} {rank : Nat} {parent : Option ReferenceId}
    {id : ReferenceId} (h : s.addReference named rank parent = .ok (id, t)) : s.Continues t := by
  have hl := hs.addReference h
  obtain ⟨-, rfl, rfl⟩ := addReference_ok h
  exact { Continues.refl s with declares := fun _ _ => hs.declares_mono hl fun _ _ h => h }

theorem continues_addUsage (hs : s.Ledger c f) {owner : TypeId} {reference : ReferenceId} {role : Role}
    {member : Option String} {id : UsageId} (h : s.addUsage owner reference role member = .ok (id, t)) :
    s.Continues t := by
  have hl := hs.addUsage h
  obtain ⟨-, rfl, rfl⟩ := addUsage_ok h
  exact { Continues.refl s with declares := fun _ _ => hs.declares_mono hl fun _ _ h => h }

theorem Sane.ledger (hs : s.Sane) : ∃ c f, s.Ledger c f := by
  obtain ⟨-, c, f, hc⟩ := hs
  exact ⟨c, f, hc.toLedger⟩

end Session

open Session

theorem Find.Steps.continues {allowCreate : Bool} {s t : Session} (hs : s.Sane) (h : Steps allowCreate s t) :
    s.Continues t := by
  induction h with
  | refl => exact .refl s
  | tail hrun hstep ih =>
    obtain ⟨c, f, hl⟩ := (Steps.sane hs hrun).ledger
    refine ih.trans ?_
    cases hstep with
    | load h => exact continues_ensureParameters hl h
    | @external name arity names _ _ hn h =>
      exact continues_addNamed hl (a := .external ⟨name, arity, .external, names⟩) hn rfl h
    | commit _ _ h => exact continues_commit hl h
    | tuple _ _ h => exact continues_addTuple hl h
    | save _ h => exact continues_save hl h

theorem Binding.Steps.continues {s t : Session} (hs : s.Sane) (h : Steps s t) : s.Continues t := by
  induction h with
  | refl => exact .refl s
  | tail hrun hstep ih =>
    obtain ⟨c, f, hl⟩ := (Steps.sane hs hrun).ledger
    refine ih.trans ?_
    cases hstep with
    | commit _ h => exact continues_commit hl h
    | reference _ _ h => exact continues_addReference hl h

/-- A request that declares nothing. -/
def Request.Quiet : Request → Prop
  | catalog _ => False
  | _ => True

namespace Session

variable {s t u : Session} {c f : Contents}

theorem continues_resolve (hs : s.Sane) (chain : Chain) (a : Analysis) :
    s.Continues ((a.resolve chain).outcome s).2 := by
  refine Act.Leads.left (P := s.Continues) ((Analysis.leads_resolve hs.numbered).mono ?_ ?_)
  · rintro root v ⟨u, rows, hsu, huv, -⟩
    exact (hsu.continues hs).trans (huv.steps.continues (hsu.sane hs))
  · rintro e v (⟨rfl, -⟩ | ⟨hsv, -⟩ | ⟨u, hsu, huv, -⟩)
    · exact .refl v
    · exact hsv.continues hs
    · exact (hsu.continues hs).trans (huv.continues (hsu.sane hs))

theorem Sane.ensureParameters (hs : s.Sane) {id : TypeId} {ps : List TypeParameter}
    (h : s.ensureParameters id = .ok (ps, t)) : t.Sane ∧ s.Continues t := by
  have hstep : Find.Steps false s t := .single (.load h)
  exact ⟨hstep.sane hs, hstep.continues hs⟩

theorem Sane.continues_run (hs : s.Sane) {r : Request} (hq : r.Quiet) : s.Continues (r.run s).2 := by
  obtain ⟨c, f, hl⟩ := hs.ledger
  cases r with
  | catalog u => exact hq.elim
  | analyze u container allowCreate cursor =>
    have hkeeps : Act.Keeps (fun t => t.Sane ∧ s.Continues t) (Analysis.ofNode u container allowCreate cursor) := by
      refine Analysis.keeps_ofNode ?_
      rintro v id ps w ⟨hv, hsv⟩ hw
      obtain ⟨hsane, hvw⟩ := hv.ensureParameters hw
      exact ⟨hsane, hsv.trans hvw⟩
    have hleft : _ ∧ s.Continues _ := (hkeeps s ⟨hs, .refl s⟩).left
    exact hleft.2
  | resolve chain a => exact continues_resolve hs chain a
  | use owner reference role member =>
    refine Act.Leads.left (P := s.Continues) (Act.leads_perform ?_ fun _ _ => .refl s)
    exact fun _ _ h => continues_addUsage hl h
  | save =>
    refine Act.Leads.left (P := s.Continues) (Act.leads_perform ?_ fun _ _ => .refl s)
    exact fun _ _ h => continues_save hl h

/-- Opening what was saved continues the session that saved it. -/
theorem Sane.continues_reopen (hs : s.Sane) (hp : s.pending.isEmpty = true) {store : Store}
    (hstore : s.store = some store) {path : Option Path} {readOnly : Bool}
    (ho : openStore { store with path, readOnly } = .ok t) : s.Continues t := by
  obtain ⟨hroot, c, f, hc⟩ := hs
  have halong := (hc.toJournal.reopened hroot hp hstore ho).1
  have hcf := hc.pending.eq_of_isEmpty hp hc.storedRegular hc.regular
  subst hcf
  obtain ⟨-, -, ns, hl⟩ := hc.toLedger.reopen hstore ho
  exact {
    namespaces := halong.namespaces
    globalNamespace := halong.globalNamespace
    files := halong.files
    rows := halong.rows.mono (fun _ _ _ h => .alike h) fun _ h => h.elim
    elements := ⟨[], by rw [halong.elements, List.append_nil]⟩
    declares := fun _ _ => hc.toLedger.declares_mono hl fun _ _ h => h }

/-! Containers -/

/-- A type is declared within an older one. -/
def Nested (s : Session) : Prop :=
  ∀ i d, s.named? i = some (.documented d) → ∀ j, d.container = some j → j.value < i.value

theorem Nested.continues (h : s.Nested) (hs : s.Numbered) (hc : s.Continues t) : t.Nested := by
  intro i d hd j hj
  obtain ⟨ps, hd⟩ := hc.of_documented hs hd
  exact h i _ hd j hj

theorem named_le (hs : s.namedIds.Covers (s.named.map (·.1))) {id : TypeId} {a : NamedType}
    (ha : s.named? id = some a) : id.value ≤ s.namedIds.used :=
  hs.bounded _ (List.mem_map_of_mem (List.mem_of_find?_eq_some (find?_of_named?.mp ha)))

/-- A type is declared within one that is there, and gets the next id. -/
theorem Nested.addDocumented (h : s.Nested) (hs : s.namedIds.Covers (s.named.map (·.1))) {d : Documented}
    (hd : ∀ j, d.container = some j → ∃ a, s.named? j = some a) {id : TypeId}
    (ha : s.addDocumented d = .ok (id, t)) : t.Nested := by
  obtain ⟨-, rfl, rfl⟩ := addNamed_ok ha
  intro i e he j hj
  rw [named?_concat rfl, Option.or_eq_some_iff] at he
  rcases he with he | ⟨-, he⟩
  · exact h i e he j hj
  · split at he
    · next hi =>
      cases he
      subst hi
      obtain ⟨a, ha⟩ := hd j hj
      exact Nat.lt_succ_of_le (named_le hs ha)
    · cases he

theorem preserves_nested :
    Declarations.Preserves fun s => s.namedIds.Covers (s.named.map (·.1)) ∧ s.Nested where
  space s name id t hs h := by
    refine ensureWithin_induction (P := fun s => s.namedIds.Covers (s.named.map (·.1)) ∧ s.Nested) ?_ hs h
    intro u name parent id v hu hv
    obtain ⟨-, rfl, rfl⟩ := addNamespace_ok hv
    exact hu
  file s path usings id t hs h := by
    obtain ⟨-, rfl, rfl⟩ := addSourceFile_ok h
    exact hs
  type s d id t hs hd h := by
    refine ⟨?_, hs.2.addDocumented hs.1 hd h⟩
    obtain ⟨-, rfl, rfl⟩ := addNamed_ok h
    simpa using hs.1.next

theorem Nested.run (h : s.Nested) (hs : s.Sane) {r : Request} : (r.run s).2.Nested := by
  have hquiet (hq : r.Quiet) : (r.run s).2.Nested := h.continues hs.numbered (hs.continues_run hq)
  cases r with
  | catalog u =>
    refine Act.Leads.left (P := Nested) (Act.leads_perform ?_ fun _ _ => h)
    exact fun _ _ ht => (preserves_nested.catalog ⟨hs.numbered.named, h⟩ ht).2
  | analyze => exact hquiet trivial
  | resolve => exact hquiet trivial
  | use => exact hquiet trivial
  | save => exact hquiet trivial

theorem nested_withGlobal (hs : s.named = []) (h : s.withGlobal = .ok t) : t.Nested := by
  obtain ⟨-, id, u, hu, rfl⟩ := withGlobal_ok h
  have hnone (i : TypeId) : named? { u with globalNamespace := id } i = none := by
    have hnamed := congrFun (named?_ensureNamespace hu) i
    unfold named? at hnamed ⊢
    rw [hs] at hnamed
    exact hnamed
  intro i d hd
  rw [hnone] at hd
  cases hd

theorem Nested.reopen (h : s.Nested) (hs : s.Sane) {store : Store} (hstore : s.store = some store)
    {path : Option Path} {readOnly : Bool} (ho : openStore { store with path, readOnly } = .ok t) : t.Nested := by
  obtain ⟨-, c, f, hc⟩ := hs
  obtain ⟨-, -, ns, hl⟩ := hc.toLedger.reopen hstore ho
  intro i d hd j hj
  -- the stored declaration is one of the rows that were there
  obtain ⟨a, ha, hda⟩ := hl.rows.of_mem (hl.named?_eq.mp hd)
  obtain ⟨old, new, hall, -, hold⟩ := hc.pending.named
  obtain ⟨b, hb, hab⟩ := hold.mem ha
  cases a with
  | documented e =>
    obtain ⟨ps, heq⟩ := hda
    cases heq
    obtain rfl : b = _ := hab
    have hmem : (i, NamedType.documented e) ∈ f.named := hall ▸ List.mem_append_left new hb
    obtain ⟨shown, hshown, qs, rfl⟩ := hc.rows.mem hmem
    exact h i _ (hc.named?_eq.mpr hshown) j hj
  | external x => cases (show NamedType.documented d = _ from hda)
  | parameter p => cases (show NamedType.documented d = _ from hda)
  | tuple r => cases (show NamedType.documented d = _ from hda)

theorem Worked.nested (h : s.Worked) : s.Nested :=
  h.invariant (fun _ _ hs h _ => nested_withGlobal hs h) (fun _ _ hs _ ih => ih.run hs)
    fun _ _ _ _ _ hs ih hstore ho => ih.reopen hs hstore ho

/-! Scopes -/

theorem Sane.length_named (hs : s.Sane) : s.named.length = s.namedIds.used := by
  obtain ⟨-, c, f, hc⟩ := hs
  rw [hc.namedIds, ← List.length_map (·.1), hc.rows.map_fst, List.length_map]

theorem Sane.value_le (hs : s.Sane) {id : TypeId} {a : NamedType} (ha : s.named? id = some a) :
    id.value < s.named.length + 1 := by
  rw [hs.length_named]
  exact Nat.lt_succ_of_le (named_le hs.numbered.named ha)

theorem Sane.container (hs : s.Sane) {id j : TypeId} {d : Documented} (hd : s.named? id = some (.documented d))
    (hj : d.container = some j) : ∃ e, s.named? j = some (.documented e) := by
  obtain ⟨-, c, f, hc⟩ := hs
  exact hc.container_documented hd hj

/-- The types around one are the same, and their number is below every bound that leaves room for its id. -/
theorem Continues.containersFrom (h : s.Continues t) (hs : s.Sane) (hn : s.Nested) {n m : Nat} {id : TypeId}
    {d : Documented} (hd : s.named? id = some (.documented d)) (hbound : id.value < n) (hbound' : id.value < m) :
    ∃ ds ds', s.containersFrom n (some id) = .ok ds ∧ t.containersFrom m (some id) = .ok ds' ∧
      ds'.map (fun p => (p.1, p.2.fullName, p.2.home)) = ds.map fun p => (p.1, p.2.fullName, p.2.home) := by
  induction n generalizing m id d with
  | zero => omega
  | succ n ih =>
    obtain ⟨m, rfl⟩ := Nat.exists_eq_add_of_lt hbound'
    obtain ⟨ps, hd'⟩ := h.documented? hd
    unfold Session.containersFrom
    rw [documented_ok.mpr hd, documented_ok.mpr hd', ok_bind, ok_bind]
    dsimp only
    cases hc : d.container with
    | none =>
      have hnone (u : Session) (k : Nat) : u.containersFrom k none = .ok [] := by cases k <;> rfl
      rw [hnone, hnone]
      exact ⟨_, _, rfl, rfl, rfl⟩
    | some j =>
      obtain ⟨e, he⟩ := hs.container hd hc
      have hlt := hn id d hd j hc
      obtain ⟨ds, ds', ha, hb, hds⟩ := ih (m := id.value + m) he (by omega) (by omega)
      rw [ha, hb]
      refine ⟨_, _, rfl, rfl, ?_⟩
      rw [List.map_cons, List.map_cons, hds]

theorem Continues.visibleFrom (h : s.Continues t) (hs : s.Sane) (ht : t.Sane) (hn : s.Nested) {id : TypeId}
    (hd : s.isDocumented id = true) : t.visibleFrom id = s.visibleFrom id := by
  obtain ⟨d, hd⟩ := isDocumented_iff.mp hd
  obtain ⟨ps, hd'⟩ := h.documented? hd
  obtain ⟨ds, ds', ha, hb, hds⟩ := h.containersFrom hs hn hd (hs.value_le hd) (ht.value_le hd')
  exact visibleFrom_of_containers ha hb hds (namespaceChain_of_namespaces h.namespaces)

theorem Continues.contexts (h : s.Continues t) (hs : s.Sane) (ht : t.Sane) (hn : s.Nested) (scope : Scope)
    (d : Descriptor) : scope.contexts t d = scope.contexts s d := by
  unfold Scope.contexts
  rw [h.isDocumented hs.numbered, h.globalContext]
  by_cases hd : s.isDocumented scope.container = true
  · rw [h.visibleFrom hs ht hn hd]
  · split
    · rfl
    · dsimp only
      rw [if_neg hd, if_neg hd]

end Session

end TypeCatalog
