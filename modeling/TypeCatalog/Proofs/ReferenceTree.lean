import Mathlib.Control.Monad.Basic
import TypeCatalog.Proofs.Resolution
import TypeCatalog.Resolve.Reference

namespace TypeCatalog

namespace Binding

mutual

/-- A binding has the shape of a descriptor and names what is there. -/
def Fits (s : Session) : Binding → Descriptor → Prop
  | .mk r rank bs, .mk _ _ rank' _ as => rank = rank' ∧ r.Valid s ∧ FitsAll s bs as

def FitsAll (s : Session) : List Binding → List Descriptor → Prop
  | [], [] => True
  | b :: bs, d :: ds => b.Fits s d ∧ FitsAll s bs ds
  | _, _ => False

end

mutual

theorem Fits.mono {s t : Session} {b : Binding} {d : Descriptor} (h : b.Fits s d) (hg : s.Grows t) :
    b.Fits t d := by
  cases b with
  | mk r rank bs =>
    cases d with
    | mk name form rank' e as => exact ⟨h.1, h.2.1.mono hg, FitsAll.mono h.2.2 hg⟩

theorem FitsAll.mono {s t : Session} {bs : List Binding} {ds : List Descriptor} (h : FitsAll s bs ds)
    (hg : s.Grows t) : FitsAll t bs ds := by
  cases bs with
  | nil => cases ds with
    | nil => trivial
    | cons d ds => exact h.elim
  | cons b bs => cases ds with
    | nil => exact h.elim
    | cons d ds => exact ⟨Fits.mono h.1 hg, FitsAll.mono h.2 hg⟩

end

end Binding

namespace Chain

open Find Resolved

mutual

theorem traced_bindTree (chain : Chain) (scope : Scope) (s : Session) (r : Resolved)
    (d : Descriptor) (hr : r.Valid s) :
    Traced chain scope (chain.bindTree scope r d) s fun b t => b.Fits t d := by
  cases d with
  | mk name form rank e as =>
    unfold bindTree
    dsimp only
    have hready : ValidAll s (if form == .tuple then r.elements else []) := by
      split
      · exact hr.elements
      · trivial
    apply traced_bind (traced_bindArguments chain scope s _ as hready)
    intro bs t _ hg hbs
    exact traced_pure ⟨rfl, hr.mono hg, hbs⟩

theorem traced_bindArguments (chain : Chain) (scope : Scope) (s : Session) (ready : List Resolved)
    (ds : List Descriptor) (hr : ValidAll s ready) :
    Traced chain scope (chain.bindArguments scope ready ds) s fun bs t => Binding.FitsAll t bs ds := by
  cases ds with
  | nil =>
    unfold bindArguments
    exact traced_pure trivial
  | cons d ds =>
    unfold bindArguments
    dsimp only
    -- an element that is ready is used as it is, any other is resolved first
    have hrest : ∀ (r : Resolved) (t : Session), s.Grows t → r.Valid t →
        Traced chain scope (do
          let child ← chain.bindTree scope r d
          let children ← chain.bindArguments scope ready.tail ds
          return child :: children) t fun bs t => Binding.FitsAll t bs (d :: ds) := by
      intro r t hg hv
      apply traced_bind (traced_bindTree chain scope t r d hv)
      intro b u _ hg' hb
      have htail : ValidAll u ready.tail := by
        cases ready with
        | nil => trivial
        | cons r rs => exact hr.2.mono (hg.trans hg')
      apply traced_bind (traced_bindArguments chain scope u ready.tail ds htail)
      intro bs v _ hg'' hbs
      exact traced_pure ⟨hb.mono hg'', hbs⟩
    cases ready with
    | nil =>
      apply traced_bind (traced_resolve chain scope s d)
      intro r t _ hg hv
      exact hrest r t hg hv
    | cons r rs => exact hrest r s (.refl s) hr.1

end

end Chain

namespace Find

variable {allowCreate : Bool} {s t : Session}

theorem Step.references_eq (h : Step allowCreate s t) :
    t.references = s.references ∧ t.referenceIds = s.referenceIds := by
  cases h with
  | load h =>
    obtain ⟨d, -, ⟨-, rfl⟩ | ⟨-, -, -, rfl⟩⟩ := Session.ensureParameters_ok h <;> exact ⟨rfl, rfl⟩
  | external _ _ h =>
    obtain ⟨-, rfl, rfl⟩ := Session.addNamed_ok h
    exact ⟨rfl, rfl⟩
  | commit _ _ h => exact Resolved.commit_references h
  | tuple _ _ h =>
    obtain ⟨-, -, rfl, rfl⟩ := Session.addTuple_ok h
    exact ⟨rfl, rfl⟩
  | save _ h =>
    obtain ⟨-, rfl⟩ | ⟨-, rfl⟩ | ⟨store, changes, database, -, -, -, -, rfl⟩ := Session.save_ok h <;>
      exact ⟨rfl, rfl⟩

theorem Steps.references_eq (h : Steps allowCreate s t) :
    t.references = s.references ∧ t.referenceIds = s.referenceIds := by
  induction h with
  | refl => exact ⟨rfl, rfl⟩
  | tail _ hstep ih => exact ⟨hstep.references_eq.1.trans ih.1, hstep.references_eq.2.trans ih.2⟩

end Find

namespace Descriptor

mutual

/-- The reference rows of a descriptor below `parent`, numbered in pre-order from `n + 1` on. -/
def Planted (parent : Option ReferenceId) (n : Nat) : Descriptor → List Reference → Prop
  | .mk _ _ rank _ as, rows =>
    ∃ named below, rows = { id := ⟨n + 1⟩, named, rank, parent } :: below ∧
      PlantedAll ⟨n + 1⟩ (n + 1) as below

def PlantedAll (parent : ReferenceId) (n : Nat) : List Descriptor → List Reference → Prop
  | [], rows => rows = []
  | d :: ds, rows =>
    ∃ first rest, rows = first ++ rest ∧ Planted (some parent) n d first ∧
      PlantedAll parent (n + first.length) ds rest

end

mutual

theorem Planted.ids {parent : Option ReferenceId} {n : Nat} {d : Descriptor} {rows : List Reference}
    (h : d.Planted parent n rows) : rows.map (·.id.value) = List.range' (n + 1) d.nodeCount := by
  cases d with
  | mk name form rank e as =>
    obtain ⟨named, below, rfl, h⟩ := h
    rw [List.map_cons, PlantedAll.ids h, nodeCount, Nat.add_comm 1, List.range'_succ]

theorem PlantedAll.ids {parent : ReferenceId} {n : Nat} {ds : List Descriptor}
    {rows : List Reference} (h : PlantedAll parent n ds rows) :
    rows.map (·.id.value) = List.range' (n + 1) (nodeCountAll ds) := by
  cases ds with
  | nil =>
    cases h
    rfl
  | cons d ds =>
    obtain ⟨first, rest, rfl, hd, hds⟩ := h
    have hfirst := Planted.ids hd
    have hlen : first.length = d.nodeCount := by simpa using congrArg List.length hfirst
    rw [List.map_append, hfirst, PlantedAll.ids hds, hlen, nodeCountAll, Nat.add_right_comm n,
      List.range'_append_1]

end

mutual

theorem Planted.ranks {parent : Option ReferenceId} {n : Nat} {d : Descriptor} {rows : List Reference}
    (h : d.Planted parent n rows) (depth : Nat) :
    rows.map (·.rank) = (d.preorder depth).map (·.2.rank) := by
  cases d with
  | mk name form rank e as =>
    obtain ⟨named, below, rfl, h⟩ := h
    rw [List.map_cons, PlantedAll.ranks h (depth + 1), preorder, List.map_cons]
    rfl

theorem PlantedAll.ranks {parent : ReferenceId} {n : Nat} {ds : List Descriptor}
    {rows : List Reference} (h : PlantedAll parent n ds rows) (depth : Nat) :
    rows.map (·.rank) = (preorderAll depth ds).map (·.2.rank) := by
  cases ds with
  | nil =>
    cases h
    rfl
  | cons d ds =>
    obtain ⟨first, rest, rfl, hd, hds⟩ := h
    rw [List.map_append, Planted.ranks hd depth, PlantedAll.ranks hds depth, preorderAll,
      List.map_append]

end

mutual

/-- A row stands below `parent` or below another row of the same tree. -/
theorem Planted.parents {parent : Option ReferenceId} {n : Nat} {d : Descriptor}
    {rows : List Reference} (h : d.Planted parent n rows) :
    ∀ r ∈ rows, r.parent = parent ∨
      ∃ q : ReferenceId, r.parent = some q ∧ n < q.value ∧ q.value ≤ n + rows.length := by
  cases d with
  | mk name form rank e as =>
    obtain ⟨named, below, rfl, h⟩ := h
    intro r hr
    rcases List.mem_cons.mp hr with rfl | hr
    · exact .inl rfl
    · refine .inr ?_
      rw [List.length_cons]
      rcases PlantedAll.parents h r hr with hp | ⟨q, hp, hn, hl⟩
      · exact ⟨⟨n + 1⟩, hp, by simp, by simp⟩
      · exact ⟨q, hp, by omega, by omega⟩

theorem PlantedAll.parents {parent : ReferenceId} {n : Nat} {ds : List Descriptor}
    {rows : List Reference} (h : PlantedAll parent n ds rows) :
    ∀ r ∈ rows, r.parent = some parent ∨
      ∃ q : ReferenceId, r.parent = some q ∧ n < q.value ∧ q.value ≤ n + rows.length := by
  cases ds with
  | nil =>
    cases h
    simp
  | cons d ds =>
    obtain ⟨first, rest, rfl, hd, hds⟩ := h
    intro r hr
    rw [List.length_append]
    rcases List.mem_append.mp hr with hr | hr
    · rcases Planted.parents hd r hr with hp | ⟨q, hp, hn, hl⟩
      · exact .inl hp
      · exact .inr ⟨q, hp, hn, by omega⟩
    · rcases PlantedAll.parents hds r hr with hp | ⟨q, hp, hn, hl⟩
      · exact .inl hp
      · exact .inr ⟨q, hp, by omega, by omega⟩

end

end Descriptor

namespace Session

mutual

/-- The references read from `r` downwards have the shape and the ranks of a descriptor. -/
def Mirrors (s : Session) : Descriptor → Reference → Prop
  | .mk _ _ rank _ as, r => r.rank = rank ∧ MirrorsAll s r.id as (s.referenceChildren r.id)

def MirrorsAll (s : Session) (parent : ReferenceId) : List Descriptor → List Reference → Prop
  | [], rs => rs = []
  | d :: ds, rs =>
    ∃ r rest, rs = r :: rest ∧ r.parent = some parent ∧ s.Mirrors d r ∧ s.MirrorsAll parent ds rest

end

/-- Nothing outside `rows` stands below one of the ids from `n + 1` on that `rows` takes up. -/
def Holds (s : Session) (n : Nat) (rows : List Reference) : Prop :=
  ∀ q : ReferenceId, n < q.value → q.value ≤ n + rows.length →
    s.referenceChildren q = rows.filter (·.parent == some q)

theorem filter_parent_eq_nil {rows : List Reference} {q : ReferenceId}
    (h : ∀ r ∈ rows, r.parent ≠ some q) : rows.filter (·.parent == some q) = [] := by
  rw [List.filter_eq_nil_iff]
  intro r hr
  simpa using h r hr

open Descriptor

theorem Holds.append {s : Session} {parent : ReferenceId} {n : Nat} {d : Descriptor}
    {ds : List Descriptor} {first rest : List Reference} (h : s.Holds n (first ++ rest))
    (hn : parent.value ≤ n) (hd : d.Planted (some parent) n first)
    (hds : PlantedAll parent (n + first.length) ds rest) :
    s.Holds n first ∧ s.Holds (n + first.length) rest := by
  constructor
  · intro q hq hl
    have hrest : rest.filter (·.parent == some q) = [] := by
      apply filter_parent_eq_nil
      intro r hr hp
      obtain hp' | ⟨p, hp', hlt, -⟩ := hds.parents r hr <;>
        · rw [hp, Option.some.injEq] at hp'
          subst hp'
          omega
    rw [h q hq (by rw [List.length_append]; omega), List.filter_append, hrest, List.append_nil]
  · intro q hq hl
    have hfirst : first.filter (·.parent == some q) = [] := by
      apply filter_parent_eq_nil
      intro r hr hp
      obtain hp' | ⟨p, hp', -, hle⟩ := hd.parents r hr <;>
        · rw [hp, Option.some.injEq] at hp'
          subst hp'
          omega
    rw [h q (by omega) (by rw [List.length_append]; omega), List.filter_append, hfirst,
      List.nil_append]

theorem Holds.below {s : Session} {n : Nat} {root : Reference} {below : List Reference}
    (h : s.Holds n (root :: below)) (hroot : ∀ p, root.parent = some p → p.value ≤ n) :
    s.Holds (n + 1) below ∧ s.referenceChildren ⟨n + 1⟩ = below.filter (·.parent == some ⟨n + 1⟩) := by
  have hskip (q : ReferenceId) (hq : n < q.value) (hl : q.value ≤ n + 1 + below.length) :
      s.referenceChildren q = below.filter (·.parent == some q) := by
    rw [h q hq (by rw [List.length_cons]; omega), List.filter_cons_of_neg]
    intro hp
    have := hroot q (by simpa using hp)
    omega
  exact ⟨fun q hq hl => hskip q (by omega) hl, hskip ⟨n + 1⟩ (by simp) (by simp)⟩

/-- Of the rows of a tree only the first stands below the parent of the tree. -/
theorem filter_parent_planted {parent : ReferenceId} {n : Nat} {name : String} {form : NameForm}
    {rank : Nat} {e : Option String} {as : List Descriptor} {root : Reference}
    {below : List Reference} (hn : parent.value ≤ n)
    (h : (Descriptor.mk name form rank e as).Planted (some parent) n (root :: below)) :
    (root :: below).filter (·.parent == some parent) = [root] := by
  obtain ⟨named, below', heq, h⟩ := h
  obtain ⟨rfl, rfl⟩ := List.cons.inj heq
  rw [List.filter_cons_of_pos (by simp), filter_parent_eq_nil]
  intro r hr hp
  obtain hp' | ⟨q, hp', hlt, -⟩ := h.parents r hr <;>
    · rw [hp, Option.some.injEq] at hp'
      subst hp'
      simp only at *
      omega

mutual

theorem mirrors_of_planted {s : Session} {parent : Option ReferenceId} {n : Nat} {d : Descriptor}
    {root : Reference} {below : List Reference} (h : d.Planted parent n (root :: below))
    (hn : ∀ p, parent = some p → p.value ≤ n) (hh : s.Holds n (root :: below)) :
    s.Mirrors d root := by
  cases d with
  | mk name form rank e as =>
    obtain ⟨named, below', heq, h⟩ := h
    obtain ⟨rfl, rfl⟩ := List.cons.inj heq
    obtain ⟨hh, hc⟩ := hh.below hn
    refine ⟨rfl, ?_⟩
    dsimp only
    rw [hc]
    exact mirrorsAll_of_planted h (Nat.le_refl _) hh

theorem mirrorsAll_of_planted {s : Session} {parent : ReferenceId} {n : Nat} {ds : List Descriptor}
    {rows : List Reference} (h : PlantedAll parent n ds rows) (hn : parent.value ≤ n)
    (hh : s.Holds n rows) : s.MirrorsAll parent ds (rows.filter (·.parent == some parent)) := by
  cases ds with
  | nil =>
    cases h
    rfl
  | cons d ds =>
    obtain ⟨first, rest, rfl, hd, hds⟩ := h
    obtain ⟨hfirst, hrest⟩ := hh.append hn hd hds
    cases d with
    | mk name form rank e as =>
      have hd' := hd
      obtain ⟨named, below, rfl, -⟩ := hd'
      rw [List.filter_append, filter_parent_planted hn hd]
      refine ⟨_, _, rfl, rfl, ?_, mirrorsAll_of_planted hds (by omega) hrest⟩
      refine mirrors_of_planted hd ?_ hfirst
      rintro p ⟨⟩
      exact hn

end

mutual

/-- Reading down from the root gives the rows in the order in which they were added. -/
theorem referencesBelow_of_planted {s : Session} {parent : Option ReferenceId} {n depth : Nat}
    {d : Descriptor} {root : Reference} {below : List Reference}
    (h : d.Planted parent n (root :: below)) (hn : ∀ p, parent = some p → p.value ≤ n)
    (hh : s.Holds n (root :: below)) (hdepth : below.length ≤ depth) :
    s.referencesBelow depth root = root :: below := by
  cases d with
  | mk name form rank e as =>
    obtain ⟨named, below', heq, h⟩ := h
    obtain ⟨rfl, rfl⟩ := List.cons.inj heq
    obtain ⟨hh, hc⟩ := hh.below hn
    cases depth with
    | zero =>
      rw [List.length_eq_zero_iff.mp (Nat.le_zero.mp hdepth)]
      rfl
    | succ depth =>
      unfold referencesBelow
      dsimp only
      rw [hc, flatMap_of_planted h (Nat.le_refl _) hh hdepth]

theorem flatMap_of_planted {s : Session} {parent : ReferenceId} {n depth : Nat}
    {ds : List Descriptor} {rows : List Reference} (h : PlantedAll parent n ds rows)
    (hn : parent.value ≤ n) (hh : s.Holds n rows) (hdepth : rows.length ≤ depth + 1) :
    (rows.filter (·.parent == some parent)).flatMap (s.referencesBelow depth) = rows := by
  cases ds with
  | nil =>
    cases h
    rfl
  | cons d ds =>
    obtain ⟨first, rest, rfl, hd, hds⟩ := h
    obtain ⟨hfirst, hrest⟩ := hh.append hn hd hds
    rw [List.length_append] at hdepth
    cases d with
    | mk name form rank e as =>
      have hd' := hd
      obtain ⟨named, below, rfl, -⟩ := hd'
      rw [List.length_cons] at hdepth
      rw [List.filter_append, filter_parent_planted hn hd, List.flatMap_append,
        flatMap_of_planted hds (by omega) hrest (by omega), List.flatMap_singleton,
        referencesBelow_of_planted hd _ hfirst (by omega)]
      rintro p ⟨⟩
      exact hn

end

end Session

namespace Binding

open Resolved Descriptor

/-- What adding a reference tree does to a session, one operation at a time. -/
inductive Step : Session → Session → Prop
  | commit {s t : Session} {r : Resolved} {id : TypeId} (hr : r.Valid s)
      (h : r.commit s = .ok (id, t)) : Step s t
  | reference {s t : Session} {named : TypeId} {rank : Nat} {parent : Option ReferenceId}
      {id : ReferenceId} (hn : ∃ a, s.named? named = some a)
      (hp : ∀ p, parent = some p → p ∈ s.references.map (·.id))
      (h : s.addReference named rank parent = .ok (id, t)) : Step s t

abbrev Steps : Session → Session → Prop := Relation.ReflTransGen Step

theorem Step.numbered {s t : Session} (hs : s.Numbered) (h : Step s t) : t.Numbered := by
  cases h with
  | commit _ h => exact numbered_commit hs h
  | reference _ _ h => exact hs.addReference h

theorem Step.grows {s t : Session} (hs : s.Numbered) (h : Step s t) : s.Grows t := by
  cases h with
  | commit _ h => exact grows_commit hs h
  | reference _ _ h => exact Session.grows_addReference h

theorem Steps.numbered {s t : Session} (hs : s.Numbered) (h : Steps s t) : t.Numbered := by
  induction h with
  | refl => exact hs
  | tail _ hstep ih => exact hstep.numbered ih

theorem Steps.grows {s t : Session} (hs : s.Numbered) (h : Steps s t) : s.Grows t := by
  induction h with
  | refl => exact .refl s
  | tail hrun hstep ih => exact ih.trans (hstep.grows (Steps.numbered hs hrun))

/-- The session `t` is `s` with `rows` added to its references, all of which name a type of `t`. -/
structure Adds (s t : Session) (rows : List Reference) : Prop where
  steps : Steps s t
  references : t.references = s.references ++ rows
  used : t.referenceIds.used = s.referenceIds.used + rows.length
  named : ∀ r ∈ rows, ∃ a, t.named? r.named = some a

theorem Adds.trans {s t u : Session} {rows more : List Reference} (hs : s.Numbered)
    (h : Adds s t rows) (k : Adds t u more) : Adds s u (rows ++ more) where
  steps := h.steps.trans k.steps
  references := by rw [k.references, h.references, List.append_assoc]
  used := by rw [k.used, h.used, List.length_append, Nat.add_assoc]
  named := by
    intro r hr
    rcases List.mem_append.mp hr with hr | hr
    · obtain ⟨a, ha⟩ := h.named r hr
      obtain ⟨b, hb, -⟩ := (k.steps.grows (h.steps.numbered hs)).named? ha
      exact ⟨b, hb⟩
    · exact k.named r hr

/-- Staging a tree fails only when the ids run out. -/
def Stages (a : Act ResolveError α) (s : Session) (good : α → Session → List Reference → Prop) : Prop :=
  s.Numbered → a.Leads s (fun x t => ∃ rows, Adds s t rows ∧ good x t rows)
    fun e t => Steps s t ∧ e = .catalog (.exhausted .counter)

section

variable {α β : Type} {s : Session} {good : α → Session → List Reference → Prop}

theorem stages_pure {x : α} (h : good x s []) : Stages (pure x) s good :=
  fun _ => Act.leads_pure ⟨[], ⟨.refl, by simp, by simp, by simp⟩, h⟩

theorem stages_bind {a : Act ResolveError β} {f : β → Act ResolveError α}
    {m : β → Session → List Reference → Prop} (ha : Stages a s m)
    (hf : ∀ x t rows, s.Grows t → Adds s t rows → m x t rows →
      Stages (f x) t fun y u more => good y u (rows ++ more)) :
    Stages (a >>= f) s good := by
  intro hs
  apply Act.leads_bind
  refine (ha hs).mono ?_ fun _ _ h => h
  rintro x t ⟨rows, hadds, hx⟩
  have ht := hadds.steps.numbered hs
  refine (hf x t rows (hadds.steps.grows hs) hadds hx ht).mono ?_ ?_
  · rintro y u ⟨more, hmore, hy⟩
    exact ⟨rows ++ more, hadds.trans hs hmore, hy⟩
  · rintro e u ⟨hrun, he⟩
    exact ⟨hadds.steps.trans hrun, he⟩

theorem stages_commit {r : Resolved} (hr : r.Valid s) :
    Stages (Act.perform .catalog r.commit) s fun named t rows =>
      rows = [] ∧ r.commit s = .ok (named, t) ∧ ∃ a, t.named? named = some a := by
  intro hs
  refine Act.leads_perform ?_ fun e he => ⟨.refl, by rw [commit_error hr he]⟩
  intro named t ht
  obtain ⟨hrefs, hids⟩ := commit_references ht
  refine ⟨[], ⟨.single (.commit hr ht), ?_, ?_, by simp⟩, rfl, ht, named?_commit hs hr ht⟩
  · simpa using hrefs
  · simp [hids]

theorem stages_reference {named : TypeId} {rank : Nat} {parent : Option ReferenceId}
    (hn : ∃ a, s.named? named = some a) (hp : ∀ p, parent = some p → p ∈ s.references.map (·.id)) :
    Stages (Act.perform .catalog (·.addReference named rank parent)) s fun id t rows =>
      id = ⟨s.referenceIds.used + 1⟩ ∧
        rows = [{ id := ⟨s.referenceIds.used + 1⟩, named, rank, parent }] ∧ t.named = s.named := by
  intro _
  refine Act.leads_perform ?_ fun e he => ⟨.refl, by rw [Session.addReference_error he]⟩
  intro id t ht
  have hstep : Step s t := .reference hn hp ht
  obtain ⟨-, rfl, rfl⟩ := Session.addReference_ok ht
  refine ⟨_, ⟨.single hstep, rfl, rfl, ?_⟩, rfl, rfl, rfl⟩
  intro r hr
  rw [List.mem_singleton.mp hr]
  exact hn

end

mutual

theorem stages_stage (b : Binding) (d : Descriptor) (s : Session) (parent : Option ReferenceId)
    (hb : b.Fits s d) (hp : ∀ p, parent = some p → p ∈ s.references.map (·.id)) :
    Stages (b.stage parent) s fun id _ rows => id = ⟨s.referenceIds.used + 1⟩ ∧
      d.Planted parent s.referenceIds.used rows := by
  cases b with
  | mk r rank bs =>
    cases d with
    | mk name form rank' e as =>
      obtain ⟨rfl, hr, hbs⟩ := hb
      unfold stage
      apply stages_bind (stages_commit hr)
      rintro named t _ hgt ht ⟨rfl, -, hnamed⟩
      have hrefs : t.references = s.references := by simpa using ht.references
      have hused : t.referenceIds.used = s.referenceIds.used := by simpa using ht.used
      apply stages_bind (stages_reference hnamed (by rw [hrefs]; exact hp))
      rintro id u _ hgu hu ⟨rfl, rfl, -⟩
      apply stages_bind (stages_stageAll bs as u _ ((hbs.mono hgt).mono hgu) _)
      · rintro ⟨⟩ v below _ hv hbelow
        refine stages_pure ⟨by rw [hused], named, below, ?_, ?_⟩
        · simp [hused]
        · have hu' := hu.used
          rw [hused] at hu' hbelow
          rw [hu'] at hbelow
          exact hbelow
      · rw [hu.references]
        simp

theorem stages_stageAll (bs : List Binding) (ds : List Descriptor) (s : Session)
    (parent : ReferenceId) (hb : FitsAll s bs ds) (hp : parent ∈ s.references.map (·.id)) :
    Stages (stageAll parent bs) s fun _ _ rows =>
      PlantedAll parent s.referenceIds.used ds rows := by
  cases bs with
  | nil => cases ds with
    | nil =>
      unfold stageAll
      exact stages_pure rfl
    | cons d ds => exact hb.elim
  | cons b bs => cases ds with
    | nil => exact hb.elim
    | cons d ds =>
      unfold stageAll
      apply stages_bind (stages_stage b d s (some parent) hb.1 _)
      · rintro id t first hg ht ⟨-, hfirst⟩
        have hp' : parent ∈ t.references.map (·.id) := by
          rw [ht.references, List.map_append]
          exact List.mem_append_left _ hp
        have hrest := stages_stageAll bs ds t parent (FitsAll.mono hb.2 hg) hp'
        rw [ht.used] at hrest
        intro hn
        refine (hrest hn).mono ?_ fun _ _ h => h
        rintro x u ⟨rest, hadds, hrest⟩
        exact ⟨rest, hadds, first, rest, rfl, hfirst, hrest⟩
      · rintro p ⟨⟩
        exact hp

end

end Binding

namespace Analysis

variable {chain : Chain} {a : Analysis} {s : Session}

/-- A resolution first resolves every node, then adds the rows of the tree. It stops before the first
or within the first, or it runs out of ids. -/
theorem leads_resolve (hs : s.Numbered) :
    (a.resolve chain).Leads s
      (fun root t => ∃ u rows, Find.Steps a.allowCreate s u ∧ Binding.Adds u t rows ∧
        root = ⟨u.referenceIds.used + 1⟩ ∧ a.root.Planted none u.referenceIds.used rows)
      fun e t =>
        (t = s ∧ (s.isDocumented a.container = false ∨ s.sourceFile? a.file = none) ∧
          ∃ reason, e = .invalidAnalysis reason) ∨
        (Find.Steps a.allowCreate s t ∧ Find.Fails chain a.scope t e) ∨
        ∃ u, Find.Steps a.allowCreate s u ∧ Binding.Steps u t ∧ e = .catalog (.exhausted .counter) := by
  unfold resolve
  apply Act.leads_get_bind
  dsimp only
  split
  · next h =>
    apply Act.leads_bind
    exact Act.leads_throw (.inl ⟨rfl, .inl (by simpa using h), _, rfl⟩)
  · split
    · next h =>
      apply Act.leads_bind
      exact Act.leads_throw (.inl ⟨rfl, .inr (Option.isNone_iff_eq_none.mp h), _, rfl⟩)
    · apply Act.leads_bind
      refine (Chain.traced_resolve chain a.scope s a.root hs).mono ?_ fun e t h => .inr (.inl h)
      rintro r t ⟨hst, hr⟩
      have ht := hst.numbered hs
      apply Act.leads_bind
      refine (Chain.traced_bindTree chain a.scope t r a.root hr ht).mono ?_ ?_
      · rintro b u ⟨htu, hb⟩
        refine (Binding.stages_stage b a.root u none hb (by simp) (htu.numbered ht)).mono ?_ ?_
        · rintro root v ⟨rows, hadds, hroot, hrows⟩
          exact ⟨u, rows, hst.trans htu, hadds, hroot, hrows⟩
        · rintro e v ⟨hrun, he⟩
          exact .inr (.inr ⟨u, hst.trans htu, hrun, he⟩)
      · rintro e u ⟨htu, he⟩
        exact .inr (.inl ⟨hst.trans htu, he⟩)

/-- Resolving adds one reference row for every node of the descriptor, with consecutive ids in
pre-order. What is then read from the root downwards has the shape of the descriptor, and no earlier
row stands below a new one. -/
theorem resolve_plants_descriptor {root : ReferenceId} {t : Session} (hs : s.Numbered)
    (hparents : ∀ r ∈ s.references, ∀ p, r.parent = some p → p ∈ s.references.map (·.id))
    (h : (a.resolve chain).outcome s = (.ok root, t)) :
    ∃ first below, t.references = s.references ++ first :: below ∧
      (first :: below).map (·.id.value) = List.range' (s.referenceIds.used + 1) a.root.nodeCount ∧
      (first :: below).map (·.rank) = (a.root.preorder 0).map (·.2.rank) ∧
      first.id = root ∧ first.parent = none ∧
      t.Mirrors a.root first ∧ t.referenceTree root = first :: below ∧
      (∀ r ∈ first :: below, ∃ b, t.named? r.named = some b) ∧
      ∀ r ∈ first :: below, ∀ q ∈ s.references, q.parent ≠ some r.id := by
  obtain ⟨u, rows, hsu, hut, rfl, hrows⟩ := (Act.leads_iff.mp (leads_resolve hs)).1 root t h
  obtain ⟨hrefs, hids⟩ := hsu.references_eq
  have href := hut.references
  rw [hrefs] at href
  rw [hids] at hrows ⊢
  have hlast : ∀ r ∈ s.references, ∀ p, r.parent = some p → p.value ≤ s.referenceIds.used :=
    fun r hr p hp => hs.references.bounded p (hparents r hr p hp)
  have hholds : t.Holds s.referenceIds.used rows := by
    intro q hq _
    have hold : s.references.filter (·.parent == some q) = [] := by
      apply Session.filter_parent_eq_nil
      intro r hr hp
      have := hlast r hr q hp
      omega
    unfold Session.referenceChildren
    rw [href, List.filter_append, hold, List.nil_append]
  have hall := hrows
  obtain ⟨first, below, rfl, hid, hparent⟩ : ∃ first below, rows = first :: below ∧
      first.id = ⟨s.referenceIds.used + 1⟩ ∧ first.parent = none := by
    cases hd : a.root with
    | mk name form rank e as =>
      rw [hd] at hrows
      obtain ⟨named, below, rfl, -⟩ := hrows
      exact ⟨_, below, rfl, rfl, rfl⟩
  have hfind : t.reference? ⟨s.referenceIds.used + 1⟩ = some first := by
    unfold Session.reference?
    have hnone : s.references.find? (·.id == ⟨s.referenceIds.used + 1⟩) = none := by
      rw [List.find?_eq_none]
      intro r hr hrid
      have hrid : r.id = ⟨s.referenceIds.used + 1⟩ := by simpa using hrid
      have := hs.references.bounded r.id (List.mem_map_of_mem hr)
      rw [hrid] at this
      dsimp only at this
      omega
    rw [href, List.find?_append, hnone, Option.none_or, List.find?_cons_of_pos (by simp [hid])]
  refine ⟨first, below, href, hall.ids, hall.ranks 0, hid, hparent, ?_, ?_, hut.named, ?_⟩
  · exact Session.mirrors_of_planted hall (by simp) hholds
  · unfold Session.referenceTree
    rw [hfind]
    apply Session.referencesBelow_of_planted hall (by simp) hholds
    rw [href, List.length_append, List.length_cons]
    omega
  · intro r hr q hq hp
    have hid := hall.ids
    have hmem : r.id.value ∈ (first :: below).map (·.id.value) := List.mem_map_of_mem hr
    rw [hid, List.mem_range'_1] at hmem
    have := hlast q hq r.id hp
    omega

end Analysis

namespace Sample

/-- A catalog with one generic type, one external type and one reference. -/
def session : Session where
  store := none
  namespaces := [{ id := ⟨1⟩, name := "", parent := none }]
  files := [{ id := ⟨1⟩, path := ⟨"Box.cs"⟩, usings := [] }]
  named := [(⟨1⟩, .documented {
      name := "Box", fullName := "Box", home := ⟨1⟩, container := none, declKind := .class
      access := .public, file := ⟨1⟩, arity := 1
      parameters := some [{ ordinal := 0, name := "T", variance := .invariant }] }),
    (⟨2⟩, .external { name := "int", arity := 0, access := .external, namespaces := ⟨["System"]⟩ })]
  references := [{ id := ⟨1⟩, named := ⟨2⟩, rank := 0, parent := none }]
  namespaceIds := ⟨1⟩
  fileIds := ⟨1⟩
  namedIds := ⟨2⟩
  referenceIds := ⟨1⟩

theorem numbered_session : session.Numbered where
  namespaces := ⟨by decide, by decide⟩
  files := ⟨by decide, by decide⟩
  named := ⟨by decide, by decide⟩
  elements := .nil
  references := ⟨by decide, by decide⟩
  usages := .nil

/-- The type `(int count, List<(T, int[])> rest)`. -/
def descriptor : Descriptor :=
  .mk "(int count, List<(T, int[])> rest)" .tuple 0 none
    [.mk "int" .keyword 0 (some "count") [],
     .mk "List" (.searched []) 0 (some "rest")
      [.mk "(T, int[])" .tuple 0 none
        [.mk "T" (.searched []) 0 none [], .mk "int" .keyword 1 none []]]]

/-- A use of a type in the declaration of `Box`. -/
def analysis (root : Descriptor) (allowCreate : Bool) : Analysis where
  root
  container := ⟨1⟩
  file := ⟨1⟩
  fileContexts := []
  parameters := []
  allowCreate

theorem resolve_plants_nested_tuples :
    ∃ t first below, ((analysis descriptor true).resolve .standard).outcome session = (.ok ⟨2⟩, t) ∧
      t.references = session.references ++ first :: below ∧
      (first :: below).map (·.id.value) = [2, 3, 4, 5, 6, 7] ∧
      t.Mirrors descriptor first := by
  have hroot : (((analysis descriptor true).resolve .standard).outcome session).1 = .ok ⟨2⟩ := by
    decide +kernel
  have hparents : ∀ r ∈ session.references, ∀ p, r.parent = some p →
      p ∈ session.references.map (·.id) := by simp [session]
  generalize hrun : ((analysis descriptor true).resolve .standard).outcome session = run at hroot
  obtain ⟨_, t⟩ := run
  subst hroot
  obtain ⟨first, below, hrefs, hids, -, -, -, hmirrors, -⟩ :=
    Analysis.resolve_plants_descriptor numbered_session hparents hrun
  exact ⟨t, first, below, rfl, hrefs, hids, hmirrors⟩

end Sample

end TypeCatalog
