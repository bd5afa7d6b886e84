import TypeCatalog.Proofs.AppendOnly

namespace TypeCatalog

open Act Session

/-- A new tuple type is written at once, with all that waits. -/
def Session.Flushes (s t : Session) : Prop :=
  ∃ name es id u n, s.addTuple name es = .ok (id, u) ∧ u.save = .ok (n, t)

namespace Scan

/-- What the second pass of a scan does to a session, one piece at a time. Only a new tuple type is written, if
that does not fail. A reference tree is added as a whole, unless the ids run out. -/
inductive Step (s t : Session) : Prop
  | load {id : TypeId} {ps : List TypeParameter} (h : s.ensureParameters id = .ok (ps, t))
  | external {name : String} {arity : Nat} {names : NameSet} {id : TypeId} (hn : names.Ascending)
      (h : s.addExternal name arity names = .ok (id, t))
  | commit {r : Resolved} {id : TypeId} (h : r.commit s = .ok (id, t))
  | tuple {name : String} {es : List NewElement} {id : TypeId} (h : s.addTuple name es = .ok (id, t))
  | flush (h : s.Flushes t)
  | stage {b : Binding} {x : Except ResolveError ReferenceId} (h : (b.stage none).outcome s = (x, t))
  | use {owner : TypeId} {reference : ReferenceId} {role : Role} {member : Option String} {id : UsageId}
      (h : s.addUsage owner reference role member = .ok (id, t))

abbrev Steps : Session → Session → Prop := Relation.ReflTransGen Step

end Scan

namespace Session

variable {s t u : Session} {n : Nat}

theorem commit_rest {r : Resolved} {id : TypeId} (h : r.commit s = .ok (id, t)) :
    t.store = s.store ∧ t.files = s.files := by
  obtain ⟨-, -, rfl⟩ | ⟨-, -, n, he⟩ | ⟨declaring, index, name, -, ha⟩ := Resolved.commit_ok h
  · exact ⟨rfl, rfl⟩
  · obtain ⟨x, -, -, rfl⟩ := extendExternal_ok he
    exact ⟨rfl, rfl⟩
  · obtain ⟨-, rfl, rfl⟩ := addNamed_ok ha
    exact ⟨rfl, rfl⟩

/-- Work that adds no file, and references only at the top or below an id that comes after `n`. -/
structure Proceeds (n : Nat) (s t : Session) : Prop where
  mutated : s.Mutated t
  files : t.files = s.files
  used : s.referenceIds.used ≤ t.referenceIds.used
  references : ∃ new, t.references = s.references ++ new ∧ ∀ r ∈ new, ∀ p, r.parent = some p → n < p.value

namespace Proceeds

theorem of_eq (hm : s.Mutated t) (hf : t.files = s.files) (hr : t.references = s.references)
    (hi : t.referenceIds = s.referenceIds) : Proceeds n s t :=
  ⟨hm, hf, by rw [hi], [], by rw [hr, List.append_nil], by simp⟩

theorem refl (n : Nat) (s : Session) : Proceeds n s s := of_eq .refl rfl rfl rfl

theorem trans (h : Proceeds n s t) (k : Proceeds n t u) : Proceeds n s u := by
  obtain ⟨new, hnew, hparent⟩ := h.references
  obtain ⟨new', hnew', hparent'⟩ := k.references
  refine ⟨h.mutated.trans k.mutated, k.files.trans h.files, h.used.trans k.used, new ++ new', ?_, ?_⟩
  · rw [hnew', hnew, List.append_assoc]
  · intro r hr
    rcases List.mem_append.mp hr with hr | hr
    · exact hparent r hr
    · exact hparent' r hr

theorem mono {m : Nat} (h : Proceeds n s t) (hm : m ≤ n) : Proceeds m s t := by
  obtain ⟨new, hnew, hparent⟩ := h.references
  exact ⟨h.mutated, h.files, h.used, new, hnew, fun r hr p hp => Nat.lt_of_le_of_lt hm (hparent r hr p hp)⟩

theorem commit {r : Resolved} {id : TypeId} (h : r.commit s = .ok (id, t)) : Proceeds n s t := by
  obtain ⟨hr, hi⟩ := Resolved.commit_references h
  exact of_eq (mutated_commit h) (commit_rest h).2 hr hi

theorem addReference {named : TypeId} {rank : Nat} {parent : Option ReferenceId} {id : ReferenceId}
    (hp : ∀ p, parent = some p → n < p.value) (h : s.addReference named rank parent = .ok (id, t)) :
    Proceeds n s t := by
  have hm : s.Mutated t := .single (.addReference h)
  obtain ⟨-, rfl, rfl⟩ := addReference_ok h
  refine ⟨hm, rfl, Nat.le_succ _, _, rfl, ?_⟩
  intro r hr
  rw [List.mem_singleton.mp hr]
  exact hp

end Proceeds

end Session

namespace Binding

mutual

theorem stage_proceeds {n : Nat} (b : Binding) {s : Session} {parent : Option ReferenceId}
    (hn : n ≤ s.referenceIds.used) (hp : ∀ p, parent = some p → n < p.value) :
    (b.stage parent).Leads s (fun id t => (Proceeds n s t ∧ t.store = s.store) ∧ n < id.value)
      fun _ t => Proceeds n s t ∧ t.store = s.store := by
  match b with
  | .mk r rank children =>
    unfold stage
    refine leads_bind (leads_perform ?_ fun _ _ => ⟨.refl n s, rfl⟩)
    intro named u hu
    have hsu : Proceeds n s u ∧ u.store = s.store := ⟨.commit hu, (commit_rest hu).1⟩
    refine leads_bind (leads_perform ?_ fun _ _ => hsu)
    intro id v hv
    have huv := Proceeds.addReference hp hv
    obtain ⟨-, rfl, rfl⟩ := addReference_ok hv
    have hid : n < u.referenceIds.used + 1 := Nat.lt_succ_of_le (hn.trans hsu.1.used)
    refine leads_bind ((stageAll_proceeds children (Nat.le_of_lt hid) hid).mono ?_ ?_)
    · rintro - w ⟨hvw, hstore⟩
      exact leads_pure ⟨⟨(hsu.1.trans huv).trans hvw, hstore.trans hsu.2⟩, hid⟩
    · rintro - w ⟨hvw, hstore⟩
      exact ⟨(hsu.1.trans huv).trans hvw, hstore.trans hsu.2⟩

theorem stageAll_proceeds {n : Nat} (bs : List Binding) {s : Session} {parent : ReferenceId}
    (hn : n ≤ s.referenceIds.used) (hp : n < parent.value) :
    (stageAll parent bs).Leads s (fun _ t => Proceeds n s t ∧ t.store = s.store)
      fun _ t => Proceeds n s t ∧ t.store = s.store := by
  match bs with
  | [] =>
    unfold stageAll
    exact leads_pure ⟨.refl n s, rfl⟩
  | b :: bs =>
    unfold stageAll
    have hparent : ∀ p, some parent = some p → n < p.value := by
      rintro p ⟨⟩
      exact hp
    refine leads_bind ((stage_proceeds b hn hparent).mono ?_ fun _ _ h => h)
    rintro - t ⟨⟨hst, hstore⟩, -⟩
    refine (stageAll_proceeds bs (hn.trans hst.used) hp).mono ?_ ?_
    · rintro - u ⟨htu, hstore'⟩
      exact ⟨hst.trans htu, hstore'.trans hstore⟩
    · rintro - u ⟨htu, hstore'⟩
      exact ⟨hst.trans htu, hstore'.trans hstore⟩

end

/-- A whole tree hangs below no row that was there. -/
theorem stage_proceeds_none {b : Binding} {s t : Session} {x : Except ResolveError ReferenceId}
    (h : (b.stage none).outcome s = (x, t)) : Proceeds s.referenceIds.used s t ∧ t.store = s.store := by
  have hnone : ∀ p, (none : Option ReferenceId) = some p → s.referenceIds.used < p.value := by
    rintro p ⟨⟩
  obtain ⟨hok, herror⟩ := leads_iff.mp (b.stage_proceeds (Nat.le_refl s.referenceIds.used) hnone)
  cases x with
  | ok id => exact (hok id t h).1
  | error e => exact herror e t h

end Binding

namespace Scan

variable {s t v : Session}

theorem Step.proceeds (h : Step s t) : Proceeds s.referenceIds.used s t := by
  cases h with
  | load h =>
    refine .of_eq (.single (.ensureParameters h)) ?_ ?_ ?_ <;>
      obtain ⟨d, -, ⟨-, rfl⟩ | ⟨-, -, -, rfl⟩⟩ := ensureParameters_ok h <;> rfl
  | external hn h =>
    have hm : s.Mutated t := .single (.addExternal hn h)
    obtain ⟨-, rfl, rfl⟩ := addNamed_ok h
    exact .of_eq hm rfl rfl rfl
  | commit h => exact .commit h
  | tuple h =>
    have hm : s.Mutated t := .single (.addTuple h)
    obtain ⟨-, -, rfl, rfl⟩ := addTuple_ok h
    exact .of_eq hm rfl rfl rfl
  | flush h =>
    obtain ⟨name, es, id, u, n, ha, hs⟩ := h
    have hm : s.Mutated t := .tail (.single (.addTuple ha)) (.save hs)
    obtain ⟨-, -, rfl, rfl⟩ := addTuple_ok ha
    obtain ⟨-, rfl⟩ | ⟨-, rfl⟩ | ⟨store, changes, database, -, -, -, -, rfl⟩ := save_ok hs <;>
      exact .of_eq hm rfl rfl rfl
  | stage h => exact (Binding.stage_proceeds_none h).1
  | use h =>
    have hm : s.Mutated t := .single (.addUsage h)
    obtain ⟨-, rfl, rfl⟩ := addUsage_ok h
    exact .of_eq hm rfl rfl rfl

theorem Step.store (h : Step s t) : t.store = s.store ∨ s.Flushes t := by
  cases h with
  | load h =>
    obtain ⟨d, -, ⟨-, rfl⟩ | ⟨-, -, -, rfl⟩⟩ := ensureParameters_ok h
    · exact .inl rfl
    · exact .inl rfl
  | external _ h =>
    obtain ⟨-, rfl, rfl⟩ := addNamed_ok h
    exact .inl rfl
  | commit h => exact .inl (commit_rest h).1
  | tuple h =>
    obtain ⟨-, -, rfl, rfl⟩ := addTuple_ok h
    exact .inl rfl
  | flush h => exact .inr h
  | stage h => exact .inl (Binding.stage_proceeds_none h).2
  | use h =>
    obtain ⟨-, rfl, rfl⟩ := addUsage_ok h
    exact .inl rfl

theorem Steps.proceeds (h : Steps s t) : Proceeds s.referenceIds.used s t := by
  induction h with
  | refl => exact .refl _ s
  | tail _ hstep ih => exact ih.trans (hstep.proceeds.mono ih.used)

/-! The second pass is made of steps -/

theorem preserves_steps : Find.Preserves (Steps s) where
  load _ _ _ _ hs h := hs.tail (.load h)
  external _ _ _ _ _ _ hs hn h := hs.tail (.external hn h)
  commit _ _ _ _ hs h := hs.tail (.commit h)

theorem keeps_tuple {scope : Scope} {d : Descriptor} {rs : List Resolved} : Keeps (Steps s) (Find.tuple scope d rs) := by
  unfold Find.tuple
  refine keeps_bind keeps_get fun o => keeps_bind keeps_query fun found => ?_
  split
  · exact keeps_pure
  · split
    · refine keeps_bind preserves_steps.commitElements fun x => ?_
      intro t ht
      refine leads_bind (leads_perform ?_ fun _ _ => ht)
      intro id u hu
      refine leads_bind (leads_perform ?_ fun _ _ => ht.tail (.tuple hu))
      intro n w hw
      exact leads_pure (ht.tail (.flush ⟨_, _, id, u, n, hu, hw⟩))
    · exact keeps_pure

end Scan

namespace Chain

open Scan

variable {s : Session} (chain : Chain) (scope : Scope)

mutual

theorem keeps_resolve (d : Descriptor) : Keeps (Steps s) (chain.resolve scope d) := by
  match d with
  | .mk name form rank e as =>
    unfold resolve
    dsimp only
    -- the last step only returns what was found or throws
    have hrest (found : Option Resolved) : Keeps (Steps s) (match found with
        | some r => pure r
        | none => throw (.unresolved (Descriptor.mk name form rank e as).display) : Act ResolveError Resolved) := by
      cases found with
      | some r => exact keeps_pure
      | none => exact keeps_throw
    split
    · split
      · exact keeps_bind keeps_pure hrest
      · exact keeps_bind (keeps_resolveAll as) fun rs => keeps_bind keeps_tuple hrest
    · exact keeps_bind preserves_steps.first hrest

theorem keeps_resolveAll (ds : List Descriptor) : Keeps (Steps s) (chain.resolveAll scope ds) := by
  match ds with
  | [] =>
    unfold resolveAll
    exact keeps_pure
  | d :: ds =>
    unfold resolveAll
    exact keeps_bind (keeps_resolve d) fun r => keeps_bind (keeps_resolveAll ds) fun rs => keeps_pure

end

mutual

theorem keeps_bindTree (d : Descriptor) (r : Resolved) : Keeps (Steps s) (chain.bindTree scope r d) := by
  match d with
  | .mk name form rank e as =>
    unfold bindTree
    exact keeps_bind (keeps_bindArguments as _) fun bs => keeps_pure

theorem keeps_bindArguments (ds : List Descriptor) (ready : List Resolved) :
    Keeps (Steps s) (chain.bindArguments scope ready ds) := by
  match ds with
  | [] =>
    unfold bindArguments
    exact keeps_pure
  | d :: ds =>
    unfold bindArguments
    have hrest (r : Resolved) : Keeps (Steps s) (do
        let child ← chain.bindTree scope r d
        let children ← chain.bindArguments scope ready.tail ds
        return child :: children) :=
      keeps_bind (keeps_bindTree d r) fun b => keeps_bind (keeps_bindArguments ds _) fun bs => keeps_pure
    cases ready with
    | nil => exact keeps_bind (keeps_resolve chain scope d) hrest
    | cons r rs => exact keeps_bind keeps_pure hrest

end

end Chain

namespace Scan

variable {s t v : Session} {allowCreate : Bool}

theorem keeps_resolve (chain : Chain) (a : Analysis) : Keeps (Steps s) (a.resolve chain) := by
  unfold Analysis.resolve
  refine keeps_bind keeps_get fun o => ?_
  dsimp only
  split
  · exact fun t ht => leads_bind (leads_throw ht)
  · split
    · exact fun t ht => leads_bind (leads_throw ht)
    · refine keeps_bind (chain.keeps_resolve _ _) fun r => keeps_bind (chain.keeps_bindTree _ _ r) fun b => ?_
      exact fun t ht => leads_iff.mpr ⟨fun _ _ h => ht.tail (.stage h), fun _ _ h => ht.tail (.stage h)⟩

end Scan

theorem Session.Flushes.adds {s t : Session} (hs : s.Numbered) (h : s.Flushes t) :
    ∃ i r, s.named? i = none ∧ t.named? i = some (.tuple r) := by
  obtain ⟨name, es, id, u, n, ha, hsave⟩ := h
  have hadded : s.named? id = none ∧ ∃ r, u.named = s.named ++ [(id, .tuple r)] := by
    obtain ⟨-, -, rfl, rfl⟩ := addTuple_ok ha
    exact ⟨named?_next hs, _, rfl⟩
  obtain ⟨hnone, r, hr⟩ := hadded
  refine ⟨id, r, hnone, (grows_save hsave).carries.tuple ?_⟩
  rw [named?_concat hr, hnone, Option.none_or, if_pos rfl]

namespace Scan

variable {s t v : Session} {allowCreate : Bool}

/-- A pass that makes no tuple type writes nothing. -/
theorem Steps.store (h : Steps s t) (hs : s.Arises) (ha : s.AddsNoTuple t) : t.store = s.store := by
  induction h with
  | refl => rfl
  | @tail t u hrun hstep ih =>
    obtain ⟨harises, hst⟩ := hs.mutated (Steps.proceeds hrun).mutated
    obtain ⟨-, c, f, hj⟩ := harises.orderly
    have hg : t.Grows u := (harises.mutated hstep.proceeds.mutated).2.toGrows
    obtain hstore | hflush := hstep.store
    · exact hstore.trans (ih fun i r hr => ha i r (hg.carries.tuple hr))
    · obtain ⟨i, r, hnone, hr⟩ := hflush.adds hj.toJournal.numbered
      obtain ⟨b, hb, -⟩ := hst.toGrows.named? (ha i r hr)
      rw [hnone] at hb
      cases hb

end Scan

end TypeCatalog
