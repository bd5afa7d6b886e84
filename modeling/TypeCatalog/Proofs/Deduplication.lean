import TypeCatalog.Proofs.Alongside
import TypeCatalog.Proofs.Scanning
import TypeCatalog.Proofs.TupleTrace

namespace TypeCatalog

/-! The rows of a staged tree -/

/-- The row that a target found in `o` has got by the time of `t`. -/
structure Resolved.Became (o t : Session) (r : Resolved) (id : TypeId) : Prop where
  existing : ∀ i, r.target = .existing i → id = i
  parameter : ∀ declaring index name, r.target = .parameter declaring index name →
    o.named? id = none ∧ t.named? id = some (.parameter { name, declaring, index })
  identity : ∃ a, t.named? id = some a ∧ a.identity = r.identity o

namespace Resolved

variable {o s t : Session} {r : Resolved} {id : TypeId}

theorem Became.mono (h : r.Became o s id) (hg : s.Grows t) : r.Became o t id := by
  obtain ⟨a, ha, hidentity⟩ := h.identity
  obtain ⟨b, hb, hab⟩ := hg.named? ha
  refine ⟨h.existing, ?_, b, hb, hab.identity.trans hidentity⟩
  intro declaring index name htarget
  obtain ⟨hnew, hrow⟩ := h.parameter declaring index name htarget
  exact ⟨hnew, hg.parameter? hrow⟩

theorem became_commit (hs : s.Numbered) (hr : r.Valid o) (hg : o.Grows s) (h : r.commit s = .ok (id, t)) :
    r.Became o t id where
  existing i hi := by
    obtain ⟨hid, -, -⟩ | ⟨hid, -, -⟩ | ⟨declaring, index, name, hid, -⟩ := commit_ok h
    · cases hid.symm.trans hi
      rfl
    · cases hid.symm.trans hi
      rfl
    · cases hid.symm.trans hi
  parameter declaring index name htarget := by
    obtain ⟨hid, -, -⟩ | ⟨hid, -, -⟩ | ⟨declaring', index', name', hid, hadd⟩ := commit_ok h
    · cases hid.symm.trans htarget
    · cases hid.symm.trans htarget
    · cases hid.symm.trans htarget
      obtain ⟨hnew, hrow⟩ := Session.named?_addNamed hs hadd
      refine ⟨?_, hrow⟩
      by_contra hold
      obtain ⟨a, ha⟩ := Option.ne_none_iff_exists'.mp hold
      obtain ⟨b, hb, -⟩ := hg.named? ha
      cases hnew.symm.trans hb
  identity := by
    rw [← identity_grows hr hg]
    exact identity_commit hs (hr.mono hg) h

end Resolved

namespace Binding

open Descriptor Resolved

mutual

/-- The reference rows of a binding below `parent`, numbered in pre-order from `n + 1` on. -/
def Staged (o t : Session) (parent : Option ReferenceId) (n : Nat) : Binding → List Reference → Prop
  | .mk r rank bs, rows =>
    ∃ named below, rows = { id := ⟨n + 1⟩, named, rank, parent } :: below ∧ r.Became o t named ∧
      StagedAll o t ⟨n + 1⟩ (n + 1) bs below

def StagedAll (o t : Session) (parent : ReferenceId) (n : Nat) : List Binding → List Reference → Prop
  | [], rows => rows = []
  | b :: bs, rows =>
    ∃ first rest, rows = first ++ rest ∧ Staged o t (some parent) n b first ∧
      StagedAll o t parent (n + first.length) bs rest

end

mutual

theorem Staged.mono {o s t : Session} (hg : s.Grows t) {parent : Option ReferenceId} {n : Nat} (b : Binding)
    {rows : List Reference} (h : b.Staged o s parent n rows) : b.Staged o t parent n rows := by
  match b with
  | .mk r rank bs =>
    obtain ⟨named, below, rfl, hr, hbs⟩ := h
    exact ⟨named, below, rfl, hr.mono hg, StagedAll.mono hg bs hbs⟩

theorem StagedAll.mono {o s t : Session} (hg : s.Grows t) {parent : ReferenceId} {n : Nat} (bs : List Binding)
    {rows : List Reference} (h : StagedAll o s parent n bs rows) : StagedAll o t parent n bs rows := by
  match bs with
  | [] => exact h
  | b :: bs =>
    obtain ⟨first, rest, rfl, hb, hbs⟩ := h
    exact ⟨first, rest, rfl, Staged.mono hg b hb, StagedAll.mono hg bs hbs⟩

end

mutual

theorem Staged.planted {o t : Session} {parent : Option ReferenceId} {n : Nat} (b : Binding) {d : Descriptor}
    {rows : List Reference} (hb : b.Fits o d) (h : b.Staged o t parent n rows) : d.Planted parent n rows := by
  match b, d with
  | .mk r rank bs, .mk _ _ rank' _ as =>
    obtain ⟨rfl, -, hbs⟩ := hb
    obtain ⟨named, below, rfl, -, h⟩ := h
    exact ⟨named, below, rfl, StagedAll.planted bs hbs h⟩

theorem StagedAll.planted {o t : Session} {parent : ReferenceId} {n : Nat} (bs : List Binding)
    {ds : List Descriptor} {rows : List Reference} (hb : FitsAll o bs ds) (h : StagedAll o t parent n bs rows) :
    PlantedAll parent n ds rows := by
  match bs, ds with
  | [], [] => exact h
  | [], d :: ds => exact hb.elim
  | b :: bs, [] => exact hb.elim
  | b :: bs, d :: ds =>
    obtain ⟨first, rest, rfl, hfirst, hrest⟩ := h
    exact ⟨first, rest, rfl, Staged.planted b hb.1 hfirst, StagedAll.planted bs hb.2 hrest⟩

end

theorem Staged.root {o t : Session} {parent : Option ReferenceId} {n : Nat} {b : Binding} {rows : List Reference}
    (h : b.Staged o t parent n rows) : ∃ first below, rows = first :: below ∧ first.id = ⟨n + 1⟩ := by
  cases b with
  | mk r rank bs =>
    obtain ⟨named, below, rfl, -⟩ := h
    exact ⟨_, below, rfl, rfl⟩

theorem stages_became {o s : Session} {r : Resolved} (hr : r.Valid o) (hg : o.Grows s) :
    Stages (Act.perform .catalog r.commit) s fun named t rows => rows = [] ∧ r.Became o t named := by
  intro hs
  refine (stages_commit (hr.mono hg) hs).mono ?_ fun _ _ h => h
  rintro named t ⟨rows, hadds, hrows, hcommit, -⟩
  exact ⟨rows, hadds, hrows, became_commit hs hr hg hcommit⟩

mutual

theorem stages_staged (b : Binding) (d : Descriptor) (o s : Session) (parent : Option ReferenceId)
    (hb : b.Fits o d) (hg : o.Grows s) (hp : ∀ p, parent = some p → p ∈ s.references.map (·.id)) :
    Stages (b.stage parent) s fun id t rows => id = ⟨s.referenceIds.used + 1⟩ ∧
      b.Staged o t parent s.referenceIds.used rows := by
  match b, d with
  | .mk r rank bs, .mk name form rank' e as =>
    obtain ⟨-, hr, hbs⟩ := hb
    unfold stage
    apply stages_bind (stages_became hr hg)
    rintro named t _ hgt ht ⟨rfl, hnamed⟩
    have hrefs : t.references = s.references := by simpa using ht.references
    have hused : t.referenceIds.used = s.referenceIds.used := by simpa using ht.used
    obtain ⟨a, ha, -⟩ := hnamed.identity
    apply stages_bind (stages_reference ⟨a, ha⟩ (by rw [hrefs]; exact hp))
    rintro id u _ hgu hu ⟨rfl, rfl, -⟩
    have hparent : (⟨t.referenceIds.used + 1⟩ : ReferenceId) ∈ u.references.map (·.id) := by
      rw [hu.references]
      simp
    apply stages_bind (stages_stageAll_staged bs as o u _ hbs ((hg.trans hgt).trans hgu) hparent)
    rintro ⟨⟩ v below hgv hv hbelow
    rw [hu.used, hused] at hbelow
    refine stages_pure ⟨by rw [hused], named, below, ?_, hnamed.mono (hgu.trans hgv), hbelow⟩
    simp [hused]

theorem stages_stageAll_staged (bs : List Binding) (ds : List Descriptor) (o s : Session) (parent : ReferenceId)
    (hb : FitsAll o bs ds) (hg : o.Grows s) (hp : parent ∈ s.references.map (·.id)) :
    Stages (stageAll parent bs) s fun _ t rows => StagedAll o t parent s.referenceIds.used bs rows := by
  match bs, ds with
  | [], _ =>
    unfold stageAll
    exact stages_pure rfl
  | b :: bs, [] => exact hb.elim
  | b :: bs, d :: ds =>
    unfold stageAll
    apply stages_bind (stages_staged b d o s (some parent) hb.1 hg (by rintro p ⟨⟩; exact hp))
    rintro id t first hgt ht ⟨-, hfirst⟩
    have hp' : parent ∈ t.references.map (·.id) := by
      rw [ht.references, List.map_append]
      exact List.mem_append_left _ hp
    have hrest := stages_stageAll_staged bs ds o t parent hb.2 (hg.trans hgt) hp'
    rw [ht.used] at hrest
    intro hn
    refine (hrest hn).mono ?_ fun _ _ h => h
    rintro ⟨⟩ u ⟨rest, hadds, hrest⟩
    exact ⟨rest, hadds, first, rest, rfl, hfirst.mono (hadds.steps.grows hn), hrest⟩

end

end Binding

namespace Session

open Binding Resolved

mutual

/-- A tuple below `r` is the oldest one with the elements that the references below it name. -/
def Pictures (s : Session) : Descriptor → Reference → Prop
  | .mk _ form _ _ as, r =>
    (form = .tuple →
      s.FirstTuple as ((s.referenceChildren r.id).map fun c => s.identityOf c.named) r.named) ∧
    PicturesAll s as (s.referenceChildren r.id)

def PicturesAll (s : Session) : List Descriptor → List Reference → Prop
  | d :: ds, r :: rs => Pictures s d r ∧ PicturesAll s ds rs
  | _, _ => True

end

mutual

theorem pictures_of_staged {o t : Session} (ho : o.Sane) (ht : t.Sane) (hg : o.Grows t)
    {parent : Option ReferenceId} {n : Nat} (b : Binding) {d : Descriptor} {root : Reference}
    {below : List Reference} (hb : b.Fits o d) (hd : b.Tells o d) (h : b.Staged o t parent n (root :: below))
    (hn : ∀ p, parent = some p → p.value ≤ n) (hh : t.Holds n (root :: below)) : t.Pictures d root := by
  match b, d with
  | .mk r rank bs, .mk _ form _ _ as =>
    obtain ⟨-, -, hbs⟩ := hb
    obtain ⟨htells, hds⟩ := hd
    obtain ⟨named, below', heq, hnamed, h⟩ := h
    obtain ⟨rfl, rfl⟩ := List.cons.inj heq
    obtain ⟨hh, hc⟩ := hh.below hn
    obtain ⟨hall, hidentities⟩ := picturesAll_of_staged ho ht hg bs hbs hds h (Nat.le_refl _) hh
    unfold Pictures
    dsimp only
    rw [hc]
    refine ⟨fun hform => ?_, hall⟩
    obtain ⟨-, id, hid, hfirst⟩ := htells hform
    rw [hidentities, hnamed.existing id hid]
    exact hfirst.carried ho ht hg.carries

theorem picturesAll_of_staged {o t : Session} (ho : o.Sane) (ht : t.Sane) (hg : o.Grows t) {parent : ReferenceId}
    {n : Nat} (bs : List Binding) {ds : List Descriptor} {rows : List Reference} (hb : FitsAll o bs ds)
    (hd : TellsAll o ds bs) (h : StagedAll o t parent n bs rows) (hn : parent.value ≤ n) (hh : t.Holds n rows) :
    t.PicturesAll ds (rows.filter (·.parent == some parent)) ∧
      (rows.filter (·.parent == some parent)).map (fun c => t.identityOf c.named) =
        (bs.map Binding.resolved).map (Resolved.identity o) := by
  match bs, ds with
  | [], [] =>
    cases h
    exact ⟨trivial, rfl⟩
  | [], d :: ds => exact hb.elim
  | b :: bs, [] => exact hb.elim
  | .mk r rank bs' :: bs, .mk name form rank' e as :: ds =>
    obtain ⟨first, rest, rfl, hfirst, hrest⟩ := h
    have hplanted := hfirst.planted _ hb.1
    obtain ⟨hhfirst, hhrest⟩ := hh.append hn hplanted (hrest.planted bs hb.2)
    obtain ⟨hall, hidentities⟩ := picturesAll_of_staged ho ht hg bs hb.2 hd.2 hrest (by omega) hhrest
    have hself := hfirst
    obtain ⟨named, below, rfl, hnamed, -⟩ := hself
    rw [List.filter_append, filter_parent_planted hn hplanted]
    have hpicture := pictures_of_staged ho ht hg (.mk r rank bs') hb.1 hd.1 hfirst (by rintro p ⟨⟩; exact hn) hhfirst
    refine ⟨⟨hpicture, hall⟩, ?_⟩
    obtain ⟨a, ha, hidentity⟩ := hnamed.identity
    rw [List.map_append, hidentities, List.map_singleton, List.singleton_append, identityOf_named ha, hidentity]
    rfl

end

variable {s t : Session} {d : Descriptor} {r : Reference} {id : TypeId}

/-! Reading the tuples of a tree -/

/-- The nodes of a descriptor with the references that stand at the same places below `r`. -/
inductive Node (s : Session) (d : Descriptor) (r : Reference) : Descriptor → Reference → Prop
  | root : Node s d r d r
  | child {d' e : Descriptor} {r' c : Reference} {i : Nat} (above : Node s d r d' r')
      (hd : d'.arguments[i]? = some e) (hr : (s.referenceChildren r'.id)[i]? = some c) : Node s d r e c

/-- An element of a tuple is what is written at its place, and its type is taken for the one that the reference
there names. -/
structure Portrays (s : Session) (i : Nat) (row : TupleElement) (e : Descriptor) (c : Reference) : Prop where
  name : row.name = e.elementName.getD ("Item" ++ toString (i + 1))
  rank : row.rank = e.rank
  type : ∃ a b, s.named? row.elementType = some a ∧ s.named? c.named = some b ∧ a.sameIdentity b = true

/-- The row `id` is a tuple with the elements that are written in `d`, in their order. -/
def Represents (s : Session) (d : Descriptor) (r : Reference) (id : TypeId) : Prop :=
  ∃ x rows, s.named? id = some (.tuple x) ∧ s.tupleElements id = .ok rows ∧
    rows.map (·.ordinal) = List.range d.argumentCount ∧ (s.referenceChildren r.id).length = d.argumentCount ∧
    ∀ i row e c, rows[i]? = some row → d.arguments[i]? = some e → (s.referenceChildren r.id)[i]? = some c →
      s.Portrays i row e c

theorem PicturesAll.get {ds : List Descriptor} {rs : List Reference} (h : s.PicturesAll ds rs) {i : Nat}
    (hd : ds[i]? = some d) (hr : rs[i]? = some r) : s.Pictures d r := by
  induction i generalizing ds rs with
  | zero =>
    cases ds with
    | nil => cases hd
    | cons d ds =>
      cases rs with
      | nil => cases hr
      | cons r rs =>
        cases hd
        cases hr
        exact h.1
  | succ i ih =>
    cases ds with
    | nil => cases hd
    | cons d ds =>
      cases rs with
      | nil => cases hr
      | cons r rs => exact ih h.2 hd hr

theorem Pictures.node {d' : Descriptor} {r' : Reference} (h : s.Pictures d r) (hn : s.Node d r d' r') :
    s.Pictures d' r' := by
  induction hn with
  | root => exact h
  | @child d' _ _ _ _ _ hd hr ih =>
    cases d' with
    | mk name form rank e as => exact ih.2.get hd hr

theorem fit_iff {n : Nat} {rows : List TupleElement} {ds : List Descriptor} {cs : List Reference}
    (hcs : ∀ c ∈ cs, ∃ b, s.named? c.named = some b) :
    s.Fit (fun i j => i.same j = true) n (rows.map TupleElement.content) ds (cs.map fun c => s.identityOf c.named) ↔
      rows.length = ds.length ∧ cs.length = ds.length ∧
        ∀ i row e c, rows[i]? = some row → ds[i]? = some e → cs[i]? = some c → s.Portrays (n + i) row e c := by
  -- the elements count from `n`, so that the rest of the lists is a case of the statement again
  induction ds generalizing n rows cs with
  | nil =>
    constructor
    · intro h
      cases rows with
      | cons row rows => cases h
      | nil =>
        cases cs with
        | cons c cs => cases h
        | nil => exact ⟨rfl, rfl, by simp⟩
    · rintro ⟨hrows, hcs, -⟩
      rw [List.length_eq_zero_iff.mp hrows, List.length_eq_zero_iff.mp hcs]
      exact .nil
  | cons d ds ih =>
    cases rows with
    | nil => exact ⟨by rintro ⟨⟩, by rintro ⟨⟨⟩, -⟩⟩
    | cons row rows =>
      cases cs with
      | nil => exact ⟨by rintro ⟨⟩, by rintro ⟨-, ⟨⟩, -⟩⟩
      | cons c cs =>
        obtain ⟨⟨b, hb⟩, hrest⟩ := List.forall_mem_cons.mp hcs
        constructor
        · rintro (_ | ⟨name, rank, type, same, rest⟩)
          obtain ⟨hrows, hlength, hall⟩ := (ih hrest).mp rest
          refine ⟨congrArg Nat.succ hrows, congrArg Nat.succ hlength, ?_⟩
          rintro (_ | i) row' e c' hrow he hc
          · cases hrow
            cases he
            cases hc
            refine ⟨name, rank, _, b, type, hb, ?_⟩
            rwa [NamedType.sameIdentity_eq, ← identityOf_named hb]
          · have helement := hall i row' e c' hrow he hc
            rwa [Nat.add_right_comm] at helement
        · rintro ⟨hrows, hlength, hall⟩
          have hfirst := hall 0 row d c rfl rfl rfl
          obtain ⟨a, b', ha, hb', hab⟩ := hfirst.type
          refine .cons hfirst.name hfirst.rank ha ?_ ((ih hrest).mpr ⟨Nat.succ.inj hrows, Nat.succ.inj hlength, ?_⟩)
          · dsimp only
            rwa [identityOf_named hb', ← NamedType.sameIdentity_eq]
          · intro i row' e c' hrow he hc
            have helement := hall (i + 1) row' e c' hrow he hc
            rwa [← Nat.add_assoc, Nat.add_right_comm] at helement

theorem Sane.reference_named (hs : s.Sane) (hr : r ∈ s.references) : ∃ b, s.named? r.named = some b := by
  obtain ⟨-, c, f, hc⟩ := hs
  obtain ⟨older, -, hall⟩ := hc.references
  refine hc.mem_named.mpr (hc.coherent.linked.reference r ?_).1
  rw [hall]
  exact List.mem_append_right _ hr

theorem Tidy.represents_iff (h : s.Tidy) (hs : s.Sane) :
    s.Represents d r id ↔
      s.HasElements d.arguments ((s.referenceChildren r.id).map fun c => s.identityOf c.named) id := by
  have hr : ∀ c ∈ s.referenceChildren r.id, ∃ b, s.named? c.named = some b :=
    fun c hc => hs.reference_named (List.mem_filter.mp hc).1
  constructor
  · rintro ⟨x, rows, -, hrows, hordinals, hlength, hall⟩
    refine ⟨rows, hrows, (fit_iff hr).mpr ⟨?_, hlength, ?_⟩⟩
    · simpa [Descriptor.argumentCount] using congrArg List.length hordinals
    · simpa using hall
  · rintro ⟨rows, hrows, hfit⟩
    obtain ⟨⟨x, hx⟩, -⟩ := hs.tupleElements_iff.mp hrows
    obtain ⟨hcount, hlength, hall⟩ := (fit_iff hr).mp hfit
    refine ⟨x, rows, hx, hrows, ?_, hlength, by simpa using hall⟩
    rw [h.ordinals id rows hrows, hcount]
    rfl

theorem Sane.parent_le (hs : s.Sane) (hr : r ∈ s.references) {p : ReferenceId} (hp : r.parent = some p) :
    p.value ≤ s.referenceIds.used := by
  obtain ⟨-, c, f, hc⟩ := hs
  obtain ⟨older, -, hall⟩ := hc.references
  have hmem : r ∈ f.references := hall ▸ List.mem_append_right _ hr
  have hle := (hc.regular.references.mem_iff.mp ((hc.coherent.linked.reference r hmem).2 p hp).1).2
  rwa [List.length_map, ← hc.referenceIds] at hle

theorem Pictures.first (h : s.Pictures d r) (hs : s.Sane) (htidy : s.Tidy) (hd : d.isTuple = true) :
    s.Represents d r r.named ∧ ∀ j, s.Represents d r j → r.named.value ≤ j.value := by
  cases d with
  | mk name form rank e as =>
    have hfirst := h.1 (beq_iff_eq.mp hd)
    exact ⟨(htidy.represents_iff hs).mpr hfirst.has, fun j hj => hfirst.least j ((htidy.represents_iff hs).mp hj)⟩

end Session

namespace Binding

open Session

variable {s t : Session} {rows : List Reference}

theorem Step.addsNoTuple (h : Step s t) : s.AddsNoTuple t := by
  cases h with
  | commit _ h => exact .commit h
  | reference _ _ h =>
    obtain ⟨-, rfl, rfl⟩ := addReference_ok h
    exact .of_named rfl

theorem Steps.tidy (h : Steps s t) (hs : s.Sane) (htidy : s.Tidy) : t.Tidy := by
  have hadds : s.AddsNoTuple t := by
    induction h with
    | refl => exact .refl s
    | tail _ hstep ih => exact ih.trans hstep.addsNoTuple
  exact htidy.kept hs (h.sane hs) (h.grows hs.numbered) hadds

theorem Adds.holds (h : Adds s t rows) (hs : s.Sane) : t.Holds s.referenceIds.used rows := by
  intro q hq _
  have hold : s.references.filter (·.parent == some q) = [] := by
    apply filter_parent_eq_nil
    intro r hr hp
    have hle := hs.parent_le hr hp
    omega
  unfold referenceChildren
  rw [h.references, List.filter_append, hold, List.nil_append]

theorem Adds.reference? {first : Reference} {below : List Reference} (h : Adds s t (first :: below)) (hs : s.Numbered)
    (hid : first.id = ⟨s.referenceIds.used + 1⟩) : t.reference? ⟨s.referenceIds.used + 1⟩ = some first := by
  have hnone : s.references.find? (·.id == ⟨s.referenceIds.used + 1⟩) = none := by
    rw [List.find?_eq_none]
    intro r hr hrid
    have hle := hs.references.bounded r.id (List.mem_map_of_mem hr)
    rw [beq_iff_eq.mp hrid] at hle
    dsimp only at hle
    omega
  unfold Session.reference?
  rw [h.references, List.find?_append, hnone, Option.none_or, List.find?_cons_of_pos (by simp [hid])]

end Binding

/-- Resolving finds or adds the oldest tuple at every place. -/
theorem Analysis.leads_resolve_tuples {chain : Chain} {a : Analysis} {s : Session} (hs : s.Sane) (htidy : s.Tidy) :
    (a.resolve chain).Leads s
      (fun root t => (t.Sane ∧ t.Tidy) ∧ ∃ first, t.reference? root = some first ∧ t.Mirrors a.root first ∧
        t.Pictures a.root first)
      fun _ t => t.Sane ∧ t.Tidy := by
  unfold resolve
  apply Act.leads_get_bind
  dsimp only
  split
  · apply Act.leads_bind
    exact Act.leads_throw ⟨hs, htidy⟩
  · split
    · apply Act.leads_bind
      exact Act.leads_throw ⟨hs, htidy⟩
    · apply Act.leads_bind
      refine (Chain.tracks_resolve chain a.scope s a.root hs htidy).mono ?_ fun _ _ h => h
      rintro r t ⟨⟨ht, httidy, -⟩, hr, hdescribes⟩
      apply Act.leads_bind
      refine (Chain.tracks_bindTree chain a.scope t r a.root hr hdescribes ht httidy).mono ?_ fun _ _ h => h
      rintro b u ⟨⟨hu, hutidy, -⟩, hfits, htells, -⟩
      refine (Binding.stages_staged b a.root u u none hfits (.refl u) (by simp) hu.numbered).mono ?_ ?_
      · rintro root v ⟨rows, hadds, rfl, hstaged⟩
        have hv := hadds.steps.sane hu
        obtain ⟨first, below, rfl, hid⟩ := hstaged.root
        have hholds := hadds.holds hu
        refine ⟨⟨hv, hadds.steps.tidy hu hutidy⟩, first, hadds.reference? hu.numbered hid, ?_, ?_⟩
        · exact Session.mirrors_of_planted (hstaged.planted b hfits) (by simp) hholds
        · exact Session.pictures_of_staged hu hv (hadds.steps.grows hu.numbered) b hfits htells hstaged (by simp) hholds
      · rintro e v ⟨hrun, -⟩
        exact ⟨hrun.sane hu, hrun.tidy hu hutidy⟩

namespace Session

variable {s t : Session}

/-! Tuples over any work -/

theorem Tidy.run (h : s.Tidy) (hs : s.Sane) {r : Request} (hr : r.Grounded s) : (r.run s).2.Tidy := by
  obtain ⟨ht, hg⟩ := hs.run hr
  have hkept (hadds : s.AddsNoTuple (r.run s).2) : (r.run s).2.Tidy := h.kept hs ht hg hadds
  cases r with
  | catalog u =>
    have hk : Act.Keeps s.AddsNoTuple (Act.perform id u.catalog) :=
      Act.keeps_perform fun _ _ _ hs ht => Declarations.preserves_addsNoTuple.catalog hs ht
    exact hkept (hk s (.refl s)).left
  | analyze u container allowCreate c =>
    exact hkept (Analysis.keeps_ofNode (fun _ _ _ _ hs ht => hs.trans (.ensureParameters ht)) s (.refl s)).left
  | resolve chain a =>
    exact ((Analysis.leads_resolve_tuples hs h).mono (fun _ _ h => h.1.2) fun _ _ h => h.2).left
  | use owner reference role member =>
    have hk : Act.Keeps s.AddsNoTuple (Act.perform id (·.addUsage owner reference role member)) := by
      refine Act.keeps_perform fun _ _ _ hs ht => hs.trans ?_
      obtain ⟨-, rfl, rfl⟩ := addUsage_ok ht
      exact .of_named rfl
    exact hkept (hk s (.refl s)).left
  | save =>
    have hk : Act.Keeps s.AddsNoTuple (Act.perform id Session.save) :=
      Act.keeps_perform fun _ _ _ hs ht => hs.trans (.save ht)
    exact hkept (hk s (.refl s)).left

theorem tidy_withGlobal (hs : s.named = []) (h : s.withGlobal = .ok t) (ht : t.Sane) : t.Tidy := by
  obtain ⟨-, id, u, hu, rfl⟩ := withGlobal_ok h
  have hnone (i : TypeId) (rows : List TupleElement) :
      tupleElements { u with globalNamespace := id } i ≠ .ok rows := by
    intro hi
    obtain ⟨⟨r, hr⟩, -⟩ := ht.tupleElements_iff.mp hi
    have hold := AddsNoTuple.ensureNamespace hu i r hr
    unfold named? at hold
    rw [hs] at hold
    cases hold
  exact ⟨fun i j rows rows' hi => absurd hi (hnone i rows), fun i rows hi => absurd hi (hnone i rows)⟩

theorem Ledger.reopened {c f : Contents} {ns : List Namespace} (hs : s.Ledger c f)
    (ht : t.Ledger c { c with namespaces := ns }) {id : TypeId} {a : NamedType} (ha : t.named? id = some a) :
    ∃ b, s.named? id = some b ∧ b.identity = a.identity ∧ b.tuple? = a.tuple? := by
  obtain ⟨a', ha', halike⟩ := ht.rows.of_mem (ht.named?_eq.mp ha)
  obtain ⟨old, new, hall, -, hold⟩ := hs.pending.named
  obtain ⟨b', hb', hawaits⟩ := hold.mem ha'
  have hmem : (id, b') ∈ f.named := hall ▸ List.mem_append_left new hb'
  obtain ⟨b, hb, halike'⟩ := hs.rows.mem hmem
  refine ⟨b, hs.named?_eq.mpr hb, ?_, ?_⟩
  · rw [halike'.identity, hawaits.identity, halike.identity]
  · rw [halike'.tuple?, hawaits.tuple?, halike.tuple?]

theorem Tidy.reopen (h : s.Tidy) (hs : s.Sane) {store : Store} (hstore : s.store = some store) {path : Option Path}
    {readOnly : Bool} (ho : openStore { store with path, readOnly } = .ok t) : t.Tidy := by
  have ht := hs.reopen hstore ho
  have hsane := hs
  obtain ⟨-, c, f, hc⟩ := hs
  obtain ⟨-, -, ns, hl⟩ := hc.toLedger.reopen hstore ho
  have hprefix : t.elements <+: s.elements := by
    obtain ⟨new, hall, -⟩ := hc.pending.elements
    exact ⟨new, by rw [hl.elements, hc.elements, hall]⟩
  -- what was not saved is lost, but the elements of a tuple are stored with it
  refine h.of_shown fun i rows hi => ?_
  obtain ⟨⟨r, hr⟩, rfl⟩ := ht.tupleElements_iff.mp hi
  obtain ⟨b, hb, -, htuple⟩ := hc.reopened hl hr
  have hsr : s.named? i = some (.tuple r) := by
    cases b with
    | tuple q =>
      cases htuple
      exact hb
    | documented d => cases htuple
    | external x => cases htuple
    | parameter p => cases htuple
  refine ⟨hsane.tupleElements_iff.mpr ⟨⟨r, hsr⟩, (ht.filter_eq hsane hprefix hr hsr).symm⟩, ?_⟩
  intro e _ a ha
  obtain ⟨b, hb, hidentity, -⟩ := hc.reopened hl ha
  exact ⟨b, hb, hidentity⟩

theorem Worked.tidy (h : s.Worked) : s.Tidy :=
  h.invariant (fun _ _ hs h ht => tidy_withGlobal hs h ht) (fun _ _ hs hr ih => ih.run hs hr)
    fun _ _ _ _ _ hs ih hstore ho => ih.reopen hs hstore ho

/-- Tuples are kept once and say what was written. No two of them have elements that agree, whatever work
a session has done. Wherever a type that was resolved has a tuple in it, its reference names the oldest tuple
with as many elements, of the names and ranks that were written, and of types that are taken for those that the
references below it name. -/
theorem tuples_deduplicated (hs : s.Worked) :
    (∀ i x, s.named? i = some (.tuple x) → ∃ rows, s.tupleElements i = .ok rows ∧ rows.map (·.id) = x.elements) ∧
    (∀ i j rows rows', s.tupleElements i = .ok rows → s.tupleElements j = .ok rows' →
      List.Forall₂ s.Agree rows rows' → i = j) ∧
    ∀ chain a root t, (Analysis.resolve chain a).outcome s = (.ok root, t) →
      ∃ first, t.reference? root = some first ∧ t.Mirrors a.root first ∧
        ∀ d r, t.Node a.root first d r → d.isTuple = true →
          t.Represents d r r.named ∧ ∀ j, t.Represents d r j → r.named.value ≤ j.value := by
  refine ⟨?_, hs.tidy.distinct, ?_⟩
  · intro i x hx
    exact ⟨_, hs.sane.tupleElements_iff.mpr ⟨⟨x, hx⟩, rfl⟩, (hs.sane.tuple_elements hx).symm⟩
  · intro chain a root t hrun
    obtain ⟨⟨ht, htidy⟩, first, hfirst, hmirrors, hpictures⟩ :=
      (Act.leads_iff.mp (Analysis.leads_resolve_tuples hs.sane hs.tidy)).1 root t hrun
    refine ⟨first, hfirst, hmirrors, ?_⟩
    intro d r hnode hd
    exact (hpictures.node hnode).first ht htidy hd

end Session

namespace Sample

def declared : Session := ((Request.catalog unit).run memory).2

/-- After `(int count, List<(T, int[])> rest)` was resolved in `Box`. -/
def tupled : Session := ((Request.resolve .standard (analysis descriptor true)).run declared).2

theorem worked_tupled : tupled.Worked :=
  .request (.request (.inMemory inMemory_eq) trivial) trivial

theorem tuples_deduplicated_nested :
    tupled.Worked ∧ tupled.stats.tuples = 2 ∧
      ∃ t first, ((analysis descriptor true).resolve .standard).outcome tupled = (.ok ⟨7⟩, t) ∧
        t.stats.tuples = 2 ∧ t.reference? ⟨7⟩ = some first ∧ t.Represents descriptor first first.named := by
  refine ⟨worked_tupled, by decide +kernel, ?_⟩
  have hroot : (((analysis descriptor true).resolve .standard).outcome tupled).1 = .ok ⟨7⟩ := by decide +kernel
  have htuples : (((analysis descriptor true).resolve .standard).outcome tupled).2.stats.tuples = 2 := by
    decide +kernel
  generalize hrun : ((analysis descriptor true).resolve .standard).outcome tupled = run at hroot htuples
  obtain ⟨_, t⟩ := run
  subst hroot
  obtain ⟨-, -, hall⟩ := Session.tuples_deduplicated worked_tupled
  obtain ⟨first, hfirst, -, hnodes⟩ := hall .standard (analysis descriptor true) ⟨7⟩ t hrun
  exact ⟨t, first, rfl, htuples, hfirst, (hnodes descriptor first .root rfl).1⟩

end Sample

end TypeCatalog
