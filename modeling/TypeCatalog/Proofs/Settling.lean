import TypeCatalog.Proofs.Pursuit

namespace TypeCatalog

open Act Session Resolved

/-! Places in a tree -/

/-- The node that positions lead to, from the root down. -/
def Descriptor.at? : Descriptor → List Nat → Option Descriptor
  | d, [] => some d
  | d, i :: p => d.arguments[i]?.bind fun e => at? e p

def Binding.at? : Binding → List Nat → Option Resolved
  | .mk r _ _, [] => some r
  | .mk _ _ bs, i :: p => bs[i]?.bind fun b => at? b p

def Session.referenceAt? (s : Session) : Reference → List Nat → Option Reference
  | r, [] => some r
  | r, i :: p => (s.referenceChildren r.id)[i]?.bind fun c => referenceAt? s c p

namespace Binding

variable {s o t : Session} {P : Descriptor → Resolved → Prop} {d e : Descriptor} {b : Binding} {r : Resolved}
  {p : List Nat}

theorem AllOf.get {ds : List Descriptor} {bs : List Binding} (h : AllOf P ds bs) {i : Nat} (hd : ds[i]? = some d)
    (hb : bs[i]? = some b) : b.All P d := by
  induction i generalizing ds bs with
  | zero =>
    cases ds with
    | nil => cases hd
    | cons d ds =>
      cases bs with
      | nil => cases hb
      | cons b bs =>
        cases hd
        cases hb
        exact h.1
  | succ i ih =>
    cases ds with
    | nil => cases hd
    | cons d ds =>
      cases bs with
      | nil => cases hb
      | cons b bs => exact ih h.2 hd hb

theorem All.at (h : b.All P d) (hd : d.at? p = some e) (hb : b.at? p = some r) : P e r := by
  induction p generalizing b d with
  | nil =>
    cases d
    cases b
    cases hd
    cases hb
    exact h.1
  | cons i p ih =>
    cases d
    cases b
    obtain ⟨d', hd', hd⟩ := Option.bind_eq_some_iff.mp hd
    obtain ⟨b', hb', hb⟩ := Option.bind_eq_some_iff.mp hb
    exact ih (h.2.get hd' hb') hd hb

mutual

theorem all_of_at (d : Descriptor) (b : Binding) (h : ∀ p e r, d.at? p = some e → b.at? p = some r → P e r) :
    b.All P d := by
  match d, b with
  | .mk name form rank e as, .mk r rank' bs =>
    refine ⟨h [] _ r rfl rfl, allOf_of_at as bs fun i d b p e r hd hb hde hbr => h (i :: p) e r ?_ ?_⟩
    · exact Option.bind_eq_some_iff.mpr ⟨d, hd, hde⟩
    · exact Option.bind_eq_some_iff.mpr ⟨b, hb, hbr⟩

theorem allOf_of_at (ds : List Descriptor) (bs : List Binding)
    (h : ∀ (i : Nat) d b p e r, ds[i]? = some d → bs[i]? = some b → d.at? p = some e → b.at? p = some r → P e r) :
    AllOf P ds bs := by
  match ds, bs with
  | [], _ => trivial
  | d :: ds, [] => trivial
  | d :: ds, b :: bs =>
    exact ⟨all_of_at d b fun p e r => h 0 d b p e r rfl rfl, allOf_of_at ds bs fun i => h (i + 1)⟩

end

theorem FitsAll.get {ds : List Descriptor} {bs : List Binding} (h : FitsAll s bs ds) {i : Nat}
    (hd : ds[i]? = some d) : ∃ b, bs[i]? = some b ∧ b.Fits s d := by
  induction i generalizing ds bs with
  | zero =>
    cases ds with
    | nil => cases hd
    | cons d ds =>
      cases bs with
      | nil => exact h.elim
      | cons b bs =>
        cases hd
        exact ⟨b, rfl, h.1⟩
  | succ i ih =>
    cases ds with
    | nil => cases hd
    | cons d ds =>
      cases bs with
      | nil => exact h.elim
      | cons b bs => exact ih h.2 hd

theorem Fits.at (h : b.Fits s d) (hd : d.at? p = some e) : ∃ r, b.at? p = some r := by
  induction p generalizing b d with
  | nil =>
    cases b
    exact ⟨_, rfl⟩
  | cons i p ih =>
    cases d
    cases b
    obtain ⟨d', hd', hd⟩ := Option.bind_eq_some_iff.mp hd
    obtain ⟨b', hb', hfits⟩ := h.2.2.get hd'
    obtain ⟨r, hr⟩ := ih hfits hd
    exact ⟨r, Option.bind_eq_some_iff.mpr ⟨b', hb', hr⟩⟩

/-- The references of the bindings below a parent come one after another, each with its own below it. -/
theorem StagedAll.get {parent : ReferenceId} {n : Nat} {bs : List Binding} {ds : List Descriptor}
    {rows : List Reference} (h : StagedAll o t parent n bs rows) (hb : FitsAll o bs ds) (hn : parent.value ≤ n)
    (hh : t.Holds n rows) {i : Nat} (hi : bs[i]? = some b) : ∃ d c m below,
      (rows.filter (·.parent == some parent))[i]? = some c ∧ b.Fits o d ∧ b.Staged o t (some parent) m (c :: below) ∧
        parent.value ≤ m ∧ t.Holds m (c :: below) := by
  induction bs generalizing ds n rows i with
  | nil => cases hi
  | cons b' bs ih =>
    cases ds with
    | nil => exact hb.elim
    | cons d ds =>
      obtain ⟨first, rest, rfl, hfirst, hrest⟩ := h
      have hplanted := hfirst.planted _ hb.1
      obtain ⟨hhfirst, hhrest⟩ := hh.append hn hplanted (hrest.planted bs hb.2)
      obtain ⟨c, below, rfl, -⟩ := hfirst.root
      rw [List.filter_append]
      cases d with
      | mk name form rank e as =>
        rw [filter_parent_planted hn hplanted]
        cases i with
        | zero =>
          cases hi
          exact ⟨_, c, n, below, rfl, hb.1, hfirst, hn, hhfirst⟩
        | succ i => exact ih hrest hb.2 (by omega) hhrest hi

theorem Staged.at {parent : Option ReferenceId} {n : Nat} {root : Reference} {below : List Reference}
    (h : b.Staged o t parent n (root :: below)) (hb : b.Fits o d) (hn : ∀ q, parent = some q → q.value ≤ n)
    (hh : t.Holds n (root :: below)) (hp : b.at? p = some r) :
    ∃ c, t.referenceAt? root p = some c ∧ r.Became o t c.named := by
  induction p generalizing b d parent n root below with
  | nil =>
    cases b
    cases hp
    obtain ⟨named, below', heq, hbecame, -⟩ := h
    obtain ⟨rfl, rfl⟩ := List.cons.inj heq
    exact ⟨_, rfl, hbecame⟩
  | cons i p ih =>
    cases b
    cases d
    obtain ⟨named, below', heq, -, hall⟩ := h
    obtain ⟨rfl, rfl⟩ := List.cons.inj heq
    obtain ⟨hh, hchildren⟩ := hh.below hn
    obtain ⟨b', hb', hp⟩ := Option.bind_eq_some_iff.mp hp
    obtain ⟨d', c, m, below, hc, hfits, hstaged, hle, hholds⟩ := hall.get hb.2.2 (Nat.le_refl _) hh hb'
    obtain ⟨c', hc', hbecame⟩ := ih hstaged hfits (by rintro q ⟨⟩; exact hle) hholds hp
    refine ⟨c', Option.bind_eq_some_iff.mpr ⟨c, ?_, hc'⟩, hbecame⟩
    rw [hchildren]
    exact hc

end Binding

/-! What staging teaches -/

namespace Binding

variable {chain : Chain} {scope : Scope} {Q : Descriptor → TypeId → Prop}

mutual

/-- Staging a tree teaches external types what its nodes tell. -/
theorem stages_learns (b : Binding) (d : Descriptor) (s : Session) (parent : Option ReferenceId) (hs : s.Sane)
    (hn : s.Nested) (hb : b.Fits s d) (hapt : b.All (chain.Apt scope Q s) d) (hown : b.All (Owns Q) d)
    (hp : ∀ p, parent = some p → p ∈ s.references.map (·.id)) :
    Stages (b.stage parent) s fun _ t _ => LearnsFrom Q scope s t := by
  match b, d with
  | .mk r rank bs, .mk name form rank' e as =>
    obtain ⟨-, hr, hbs⟩ := hb
    unfold stage
    apply stages_bind (stages_commit hr)
    rintro named t _ hgt ht ⟨rfl, hcommit, hnamed⟩
    have hst := ht.steps.advances hs hn
    have hlearns := learnsFrom_commit hapt.1 hown.1 hst hcommit
    have hrefs : t.references = s.references := by simpa using ht.references
    apply stages_bind (stages_reference hnamed (by rw [hrefs]; exact hp))
    rintro id u _ - hu ⟨rfl, rfl, hsame⟩
    have htu := hu.steps.advances hst.after hst.nested_after
    have hsu := hst.trans htu
    have hlearns : LearnsFrom Q scope s u := hlearns.trans (.of_appended htu (by rw [hsame])) hst htu
    have hall := hapt.2.imp (fun _ _ h => h.advances hsu hlearns) as
    have hparent : (⟨t.referenceIds.used + 1⟩ : ReferenceId) ∈ u.references.map (·.id) := by
      rw [hu.references]
      simp
    apply stages_bind (stages_stageAll_learns bs as u _ hsu.after hsu.nested_after (hbs.mono hsu.grows) hall hown.2
      hparent)
    rintro ⟨⟩ v below - hv hlearns'
    exact stages_pure (hlearns.trans hlearns' hsu (hv.steps.advances hsu.after hsu.nested_after))

theorem stages_stageAll_learns (bs : List Binding) (ds : List Descriptor) (s : Session) (parent : ReferenceId)
    (hs : s.Sane) (hn : s.Nested) (hb : FitsAll s bs ds) (hapt : AllOf (chain.Apt scope Q s) ds bs)
    (hown : AllOf (Owns Q) ds bs) (hp : parent ∈ s.references.map (·.id)) :
    Stages (stageAll parent bs) s fun _ t _ => LearnsFrom Q scope s t := by
  match bs, ds with
  | [], _ =>
    unfold stageAll
    exact stages_pure (.refl s)
  | b :: bs, [] => exact hb.elim
  | b :: bs, d :: ds =>
    unfold stageAll
    apply stages_bind (stages_learns b d s (some parent) hs hn hb.1 hapt.1 hown.1 (by rintro p ⟨⟩; exact hp))
    intro id t first hgt ht hlearns
    have hst := ht.steps.advances hs hn
    have hp' : parent ∈ t.references.map (·.id) := by
      rw [ht.references, List.map_append]
      exact List.mem_append_left _ hp
    have hall := hapt.2.imp (fun _ _ h => h.advances hst hlearns) ds
    have hrest := stages_stageAll_learns bs ds t parent hst.after hst.nested_after (hb.2.mono hgt) hall hown.2 hp'
    intro htn
    refine (hrest htn).mono ?_ fun _ _ h => h
    rintro ⟨⟩ u ⟨rest, hadds, hlearns'⟩
    exact ⟨rest, hadds, hlearns.trans hlearns' hst (hadds.steps.advances hst.after hst.nested_after)⟩

end

end Binding

/-! Room for more rows -/

namespace Session

variable {s t : Session}

/-- There are ids left for `n` more named types and references. -/
def Room (s : Session) (n : Nat) : Prop :=
  s.namedIds.used + n < RowId.largest ∧ s.referenceIds.used + n < RowId.largest

theorem draw_room {e : Entity} {c : Counter e} (h : c.used + 1 < RowId.largest) :
    draw c = .ok (⟨c.used + 1⟩, ⟨c.used + 1⟩) := by
  unfold draw Counter.next
  rw [if_pos h]
  rfl

theorem addReference_room (h : s.referenceIds.used + 1 < RowId.largest) (named : TypeId) (rank : Nat)
    (parent : Option ReferenceId) : ∃ id t, s.addReference named rank parent = .ok (id, t) := by
  unfold addReference
  rw [draw_room h]
  exact ⟨_, _, rfl⟩

end Session

theorem Resolved.commit_room {s : Session} {r : Resolved} (hr : r.Valid s) (h : s.namedIds.used + 1 < RowId.largest) :
    ∃ id t, r.commit s = .ok (id, t) ∧ t.namedIds.used ≤ s.namedIds.used + 1 := by
  cases hc : r.commit s with
  | ok x =>
    obtain ⟨id, t⟩ := x
    refine ⟨id, t, rfl, ?_⟩
    obtain ⟨-, -, rfl⟩ | ⟨-, -, n, he⟩ | ⟨declaring, index, name, -, hadd⟩ := commit_ok hc
    · omega
    · obtain ⟨x, -, -, rfl⟩ := extendExternal_ok he
      exact Nat.le_succ _
    · obtain ⟨-, -, rfl⟩ := addNamed_ok hadd
      exact Nat.le_refl _
  | error e =>
    -- the only ways to fail are a type that is not external and a counter that is used up
    exfalso
    have hv := hr.target
    unfold commit at hc
    split at hc
    · next j hj =>
      split at hc
      · cases hc
      · next hl =>
        rw [hj] at hv
        obtain ⟨x, hx⟩ := hv.2 (by simpa using hl)
        obtain hc | ⟨y, -, hc⟩ := bind_eq_error.mp hc
        · exact absurd hx ((extendExternal_error hc).2 x)
        · cases hc
    · unfold addParameter addNamed at hc
      rw [draw_room h] at hc
      cases hc

namespace Binding

mutual

/-- Staging a tree that fits does not fail where there is room. -/
theorem stage_room (b : Binding) (d : Descriptor) (s : Session) (parent : Option ReferenceId) {m : Nat}
    (hs : s.Numbered) (hb : b.Fits s d) (hroom : s.Room (d.nodeCount + m)) :
    (b.stage parent).Leads s (fun _ t => t.Numbered ∧ s.Grows t ∧ t.Room m) fun _ _ => False := by
  match b, d with
  | .mk r rank bs, .mk name form rank' e as =>
    obtain ⟨-, hr, hbs⟩ := hb
    unfold Descriptor.nodeCount at hroom
    obtain ⟨hnamed, hreferences⟩ := hroom
    obtain ⟨id, t, hcommit, hused⟩ := commit_room hr (by omega)
    obtain ⟨-, hids⟩ := commit_references hcommit
    have hgt := grows_commit hs hcommit
    unfold stage
    apply leads_bind
    refine leads_perform ?_ fun _ he => by rw [hcommit] at he; cases he
    intro id' t' h
    cases hcommit.symm.trans h
    obtain ⟨root, u, hadd⟩ := addReference_room (s := t) (by rw [hids]; omega) id rank parent
    apply leads_bind
    refine leads_perform ?_ fun _ he => by rw [hadd] at he; cases he
    intro root' u' h
    cases hadd.symm.trans h
    have hgu := grows_addReference hadd
    have hu := (numbered_commit hs hcommit).addReference hadd
    have hroom : u.Room (Descriptor.nodeCountAll as + m) := by
      obtain ⟨-, -, rfl⟩ := addReference_ok hadd
      unfold Room
      dsimp only
      rw [hids]
      omega
    apply leads_bind
    refine (stageAll_room bs as u root hu ((hbs.mono hgt).mono hgu) hroom).mono ?_ fun _ _ h => h
    rintro ⟨⟩ v ⟨hv, hguv, hroom⟩
    exact leads_pure ⟨hv, (hgt.trans hgu).trans hguv, hroom⟩

theorem stageAll_room (bs : List Binding) (ds : List Descriptor) (s : Session) (parent : ReferenceId) {m : Nat}
    (hs : s.Numbered) (hb : FitsAll s bs ds) (hroom : s.Room (Descriptor.nodeCountAll ds + m)) :
    (stageAll parent bs).Leads s (fun _ t => t.Numbered ∧ s.Grows t ∧ t.Room m) fun _ _ => False := by
  match bs, ds with
  | [], [] =>
    unfold stageAll
    refine leads_pure ⟨hs, .refl s, ?_⟩
    simpa [Descriptor.nodeCountAll] using hroom
  | [], d :: ds => exact hb.elim
  | b :: bs, [] => exact hb.elim
  | b :: bs, d :: ds =>
    unfold Descriptor.nodeCountAll at hroom
    rw [Nat.add_assoc] at hroom
    unfold stageAll
    apply leads_bind
    refine (stage_room b d s (some parent) hs hb.1 hroom).mono ?_ fun _ _ h => h
    rintro id t ⟨ht, hgt, hroom⟩
    refine (stageAll_room bs ds t parent ht (hb.2.mono hgt) hroom).mono ?_ fun _ _ h => h
    rintro ⟨⟩ u ⟨hu, hgu, hroom⟩
    exact ⟨hu, hgt.trans hgu, hroom⟩

end

end Binding

end TypeCatalog
