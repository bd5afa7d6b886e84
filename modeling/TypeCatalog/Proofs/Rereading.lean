import TypeCatalog.Proofs.Answering

namespace TypeCatalog

open Act Session Resolved

theorem Session.Loads.learnsFrom {s t : Session} {Q : Descriptor → TypeId → Prop} {scope : Scope} (h : s.Loads t)
    (ha : s.Advances t) : LearnsFrom Q scope s t := by
  refine .of_external ha ?_
  rintro j x ⟨a, hold⟩ hx
  obtain ⟨b, hb, hab⟩ := h.named.find?_fst (find?_of_named?.mp hold)
  cases (find?_of_named?.mpr hb).symm.trans hx
  cases hab with
  | same => exact hold

namespace Find

variable {s t : Session} {scope : Scope} {d : Descriptor} {allowCreate : Bool}

/-- A part of a resolution that reads type parameters at most and does not fail. -/
def Reads {α : Type} (a : Act ResolveError α) (s : Session) (good : α → Session → Prop) : Prop :=
  s.Sane → s.Nested → a.Leads s (fun x t => (s.Loads t ∧ s.Advances t) ∧ good x t) fun _ _ => False

section

variable {α β : Type} {good : α → Session → Prop}

theorem reads_pure {x : α} (h : s.Sane → good x s) : Reads (pure x) s good :=
  fun hs hn => leads_pure ⟨⟨.refl s, .refl hs hn⟩, h hs⟩

theorem reads_bind {m : β → Session → Prop} {a : Act ResolveError β} {f : β → Act ResolveError α}
    (ha : Reads a s m) (hf : ∀ x t, s.Loads t → s.Advances t → m x t → Reads (f x) t good) :
    Reads (a >>= f) s good := by
  intro hs hn
  apply leads_bind
  refine (ha hs hn).mono ?_ fun _ _ h => h
  rintro x t ⟨⟨hloads, hst⟩, hx⟩
  refine (hf x t hloads hst hx hst.after hst.nested_after).mono ?_ fun _ _ h => h
  rintro y u ⟨⟨hloads', htu⟩, hy⟩
  exact ⟨⟨hloads.trans hloads', hst.trans htu⟩, hy⟩

theorem reads_get_bind {f : Session → Act ResolveError α} (h : Reads (f s) s good) : Reads (get >>= f) s good :=
  fun hs hn => leads_get_bind (h hs hn)

theorem reads_query {q : Session → Except CatalogError α} (h : s.Sane → ∃ x, q s = .ok x ∧ good x s) :
    Reads (query .catalog q) s good := by
  intro hs hn
  obtain ⟨x, hx, hgood⟩ := h hs
  refine leads_query (fun y hy => ?_) fun e he => ?_
  · rw [hx] at hy
    cases hy
    exact ⟨⟨.refl s, .refl hs hn⟩, hgood⟩
  · rw [hx] at he
    cases he

theorem Reads.mono {a : Act ResolveError α} {good' : α → Session → Prop} (h : Reads a s good)
    (hg : ∀ x t, s.Loads t → s.Advances t → good x t → good' x t) : Reads a s good' := by
  intro hs hn
  refine (h hs hn).mono ?_ fun _ _ h => h
  rintro x t ⟨hkept, hx⟩
  exact ⟨hkept, hg x t hkept.1 hkept.2 hx⟩

end

/-- Reading type parameters does not fail, and gives those that are declared. -/
theorem reads_ensureParameters {id : TypeId} {e : Documented} (hd : s.named? id = some (.documented e)) :
    Reads (perform .catalog (·.ensureParameters id)) s fun ps t => t.Declares id ps := by
  intro hs hn
  obtain ⟨c, f, hl⟩ := hs.ledger
  obtain ⟨ps, t, ht, -⟩ := hl.ensureParameters hd
  refine leads_perform ?_ ?_
  · intro qs u hu
    obtain ⟨hu', hc⟩ := hs.ensureParameters hu
    refine ⟨⟨loads_ensureParameters hs.numbered hu, hs, hn, hu', ?_, hc⟩, hc.declares id qs ⟨u, hu⟩⟩
    exact grows_ensureParameters hs.numbered hu
  · intro e he
    rw [ht] at he
    cases he

/-- The name is in the list that is searched here, or the search goes on outside. -/
theorem reads_among {name : String} {id : TypeId} {e : Documented} {ps : List TypeParameter} {n : Nat}
    (hd : s.named? id = some (.documented e)) (hps : s.Searches id e ps)
    (hrest : Reads (parameterFrom name n e.container) s fun x t => t.Offers name e.container x) :
    Reads (match ps.find? (·.name == name) with
      | some p => pure (some (Target.parameter id p.ordinal p.name))
      | none => parameterFrom name n e.container) s fun x t => t.Offers name (some id) x := by
  split
  · next p hp => exact reads_pure fun _ => .found hd hps hp
  · next hp =>
    refine hrest.mono ?_
    intro x t _ hst hx
    obtain ⟨ps', hd'⟩ := hst.continues.documented? hd
    exact .outer hd' (hps.continues hst.continues ps') hp hx

/-- A type parameter is searched from the inside out; there is always room to come to the end. -/
theorem reads_parameterFrom {name : String} {n : Nat} {id? : Option TypeId}
    (hid : ∀ id, id? = some id → (∃ e, s.named? id = some (.documented e)) ∧ id.value < n) :
    Reads (parameterFrom name n id?) s fun x t => t.Offers name id? x := by
  -- the steps never run out, since the id falls with every type on the way out
  induction n generalizing s id? with
  | zero =>
    cases id? with
    | none => exact reads_pure fun _ => .nowhere
    | some id => exact absurd (hid id rfl).2 (Nat.not_lt_zero _)
  | succ n ih =>
    cases id? with
    | none => exact reads_pure fun _ => .nowhere
    | some id =>
      obtain ⟨⟨e, hd⟩, hbound⟩ := hid id rfl
      have houter {u : Session} {qs : Option (List TypeParameter)}
          (hd : u.named? id = some (.documented { e with parameters := qs })) :
          Reads (parameterFrom name n e.container) u fun x t => t.Offers name e.container x := by
        intro hu hn
        refine ih ?_ hu hn
        intro j hj
        have hlt := hn id _ hd j hj
        exact ⟨hu.container hd hj, by omega⟩
      unfold parameterFrom
      apply reads_bind (m := fun x t => e = x ∧ s = t)
      · exact reads_query fun _ => ⟨e, documented_ok.mpr hd, rfl, rfl⟩
      · rintro _ _ - - ⟨rfl, rfl⟩
        dsimp only
        split
        · next ha =>
          apply reads_bind (reads_ensureParameters hd)
          intro ps u _ hsu hps
          obtain ⟨qs, hd'⟩ := hsu.continues.documented? hd
          refine reads_among (e := { e with parameters := qs }) hd' ?_ (houter hd')
          unfold Searches
          rwa [if_pos ha]
        · next ha =>
          have hnone : s.Searches id e [] := by
            unfold Searches
            rw [if_neg ha]
          exact reads_among hd hnone (houter hd)

theorem reads_contexts {m : Option (List Context) → Session → Prop}
    (h : ∀ contexts, scope.contexts s d = .ok contexts → m contexts s) :
    Reads (query .catalog (scope.contexts · d)) s m := by
  refine reads_query fun hs => ?_
  obtain ⟨-, c, f, hc⟩ := hs
  obtain ⟨contexts, hcontexts⟩ := hc.contexts_ok scope d
  exact ⟨contexts, hcontexts, h contexts hcontexts⟩

/-- The resolvers that look for what is declared. -/
theorem reads_plain {Q : Descriptor → TypeId → Prop} {r : Resolver} (hr : r ≠ .external) :
    Reads (plain { scope with allowCreate } d r) s fun x t =>
      (∀ y, x = some y → y.Answers Q (Finds t scope d r) scope t d) ∧
      (x = none → Misses t scope d r) := by
  cases r with
  | external => exact absurd rfl hr
  | tuple => exact reads_pure fun _ => ⟨by rintro y ⟨⟩, fun _ => .tuple⟩
  | documented =>
    unfold plain
    apply reads_bind (m := fun contexts t => t = s ∧ scope.contexts s d = .ok contexts)
    · exact reads_contexts fun contexts hc => ⟨rfl, hc⟩
    · rintro contexts t - - ⟨rfl, hc⟩
      apply reads_get_bind
      refine reads_pure fun ht => ⟨?_, fun hnone => .documented hc (Option.map_eq_none_iff.mp hnone)⟩
      intro y hy
      obtain ⟨id, hid, rfl⟩ := Option.map_eq_some_iff.mp hy
      obtain ⟨e, he⟩ := named?_documented ht hid
      refine answers_of_declared (valid_named he) ⟨_, .documented hc hid, reading_eq_some.mpr ⟨_, he, rfl⟩⟩ rfl ?_
      rintro _ ⟨⟩
      exact ⟨_, he, .inl rfl⟩
  | parameter =>
    unfold plain parameter
    apply reads_get_bind
    split
    · next h =>
      intro hs
      obtain ⟨hd, hm⟩ := Bool.and_eq_true_iff.mp h
      obtain ⟨e, he⟩ := isDocumented_iff.mp hd
      refine reads_bind (reads_parameterFrom ?_) ?_ hs
      · rintro id ⟨⟩
        exact ⟨⟨e, he⟩, hs.value_le he⟩
      · intro x t _ hst hx
        refine reads_pure fun _ => ⟨?_, fun hnone => ?_⟩
        · intro y hy
          obtain ⟨target, rfl, rfl⟩ := Option.map_eq_some_iff.mp hy
          obtain ⟨declaring, index, name, rfl, hv⟩ := hx.target rfl
          have hd' : t.isDocumented scope.container = true := by
            rw [hst.continues.isDocumented hs.numbered]
            exact hd
          exact answers_of_declared ⟨hv, trivial⟩ ⟨_, .parameter hd' hm hx, rfl⟩ rfl (by rintro id ⟨⟩)
        · rw [Option.map_eq_none_iff.mp hnone] at hx
          exact .parameter hx
    · next h => exact reads_pure fun _ => ⟨by rintro y ⟨⟩, fun _ => .barred (Bool.eq_false_iff.mpr h)⟩

/-- An external type that suits is found, and nothing is created. -/
theorem leads_external (hs : s.Sane) {contexts : Option (List Context)} (hc : scope.contexts s d = .ok contexts) :
    (external { scope with allowCreate } d contexts).Leads s
      (fun x t => (∃ id, s.Oldest scope d id ∧ x = some (.mk (.existing id) (scope.effective s d) []) ∧ t = s) ∨
        (∀ j, ¬ s.Suits scope d j) ∧ (allowCreate = false ∧ x = none ∧ t = s ∨ allowCreate = true ∧
          ∃ id, s.addExternal d.split.2 d.argumentCount (scope.effective s d) = .ok (id, t) ∧ x = some (.named id)))
      fun _ _ => ∀ j, ¬ s.Suits scope d j := by
  have heffective : effectiveNamespaces d contexts = scope.effective s d := by
    unfold Scope.effective
    rw [hc]
  have hwitnesses : witnesses (effectiveNamespaces d contexts) contexts = scope.witnesses s d := by
    unfold Scope.witnesses
    rw [hc]
  unfold external
  apply leads_get_bind
  dsimp only
  rw [hwitnesses, heffective]
  split
  · next id hid => exact leads_pure (.inl ⟨id, (find?_suits hs.numbered).mp hid, rfl, rfl⟩)
  · next hnone =>
    have hnot := find?_suits_none hs.numbered hnone
    split
    · next ha =>
      apply leads_bind
      refine leads_perform ?_ fun _ _ => hnot
      intro id t ht
      exact leads_pure (.inr ⟨hnot, .inr ⟨ha, id, ht, rfl⟩⟩)
    · next ha => exact leads_pure (.inr ⟨hnot, .inl ⟨Bool.eq_false_iff.mpr ha, rfl, rfl⟩⟩)

theorem answers_oldest {Q : Descriptor → TypeId → Prop} {id : TypeId} (h : s.Oldest scope d id) {learned : NameSet}
    (hl : ∀ n ∈ learned.names, n ∈ (scope.effective s d).names) :
    (Resolved.mk (.existing id) learned []).Answers Q (Finds s scope d .external) scope s d where
  valid := by
    obtain ⟨x, hx, -⟩ := h.suits
    exact ⟨⟨⟨_, hx⟩, fun _ => ⟨x, hx⟩⟩, trivial⟩
  reading := ⟨_, .external h.suits, h.suits.reading⟩
  learned := hl
  external := by
    rintro _ x ⟨⟩ -
    refine ⟨h.suits, fun j hj hlt => ?_⟩
    have hle := h.least j hj
    omega
  parameter := by
    rintro _ p ⟨⟩ hp
    obtain ⟨x, hx, -⟩ := h.suits
    cases hx.symm.trans hp

variable {Q : Descriptor → TypeId → Prop}

theorem reads_external {id : TypeId} (h : s.Suits scope d id) :
    Reads (plain { scope with allowCreate } d .external) s fun x t =>
      ∃ y, x = some y ∧ y.Answers Q (Finds t scope d .external) scope t d := by
  unfold plain
  apply reads_bind (m := fun contexts t => t = s ∧ scope.contexts s d = .ok contexts)
  · exact reads_contexts fun contexts hc => ⟨rfl, hc⟩
  · rintro contexts t - - ⟨rfl, hc⟩ ht hn
    refine (leads_external ht hc).mono ?_ fun _ _ hnot => hnot id h
    rintro x u (⟨i, hi, rfl, rfl⟩ | ⟨hnot, -⟩)
    · exact ⟨⟨.refl u, .refl ht hn⟩, _, rfl, answers_oldest hi fun _ hn => hn⟩
    · exact absurd h (hnot id)

theorem reads_first {rs : List Resolver} {R : Reading} (h : First s scope d rs R) :
    Reads (first { scope with allowCreate } d rs) s fun x t =>
      ∃ y, x = some y ∧ y.Answers Q (First t scope d rs) scope t d := by
  induction rs generalizing s with
  | nil => cases h
  | cons r rs ih =>
    unfold first
    -- a reading that the external resolver gives is there already, so nothing is created for it
    by_cases hr : r = .external
    · subst hr
      cases h with
      | here h =>
        cases h with
        | external h =>
          apply reads_bind (reads_external (Q := Q) h)
          rintro _ t - - ⟨y, rfl, hy⟩
          exact reads_pure fun _ => ⟨y, rfl, hy.imp fun _ => .here⟩
      | next h => cases h
    · apply reads_bind (reads_plain (Q := Q) hr)
      rintro x t hloads hst ⟨hsome, hnone⟩
      cases x with
      | some y =>
        exact reads_pure fun _ => ⟨y, rfl, (hsome y rfl).imp fun _ => .here⟩
      | none =>
        cases h with
        | here h =>
          exact (Finds.not_misses (h.continues hst.continues hst.before hst.after hst.nested) (hnone rfl)).elim
        | next _ rest =>
          refine (ih (rest.continues hst.continues hst.before hst.after hst.nested)).mono ?_
          rintro _ u - htu ⟨y, rfl, hy⟩
          refine ⟨y, rfl, hy.imp fun _ => .next ?_⟩
          exact (hnone rfl).continues htu.continues htu.before htu.after htu.nested

theorem reads_tuple {rs : List Resolved} {id : TypeId} (hv : ValidAll s rs) (hl : rs.length = d.arguments.length)
    (h : s.FirstTuple d.arguments (rs.map (identity s)) id) :
    Reads (tuple { scope with allowCreate } d rs) s fun x t => t = s ∧ x = some (.mk (.existing id) .empty rs) := by
  unfold tuple
  apply reads_get_bind
  dsimp only
  apply reads_bind (m := fun found t => t = s ∧ found = some id)
  · refine reads_query fun hs => ⟨some id, ?_, rfl, rfl⟩
    have hsane := hs
    obtain ⟨-, c, f, hc⟩ := hs
    obtain ⟨found, hfound⟩ := firstTuple_succeeds hc hv (tupleCandidates_named hc)
    rw [hfound]
    cases found with
    | some i => rw [(firstTuple_first hsane hv hl hfound).unique h]
    | none => exact absurd h.has (firstTuple_none hsane hv hl hfound id)
  · rintro _ t - - ⟨rfl, rfl⟩
    exact reads_pure fun _ => ⟨rfl, rfl⟩

end Find

namespace Chain

open Find

mutual

/-- All that is written is recognised. -/
def Knows (chain : Chain) (scope : Scope) (s : Session) : Descriptor → Prop
  | .mk name form rank e as => (∃ R, chain.Sees scope s (.mk name form rank e as) R) ∧ KnowsAll chain scope s as

def KnowsAll (chain : Chain) (scope : Scope) (s : Session) : List Descriptor → Prop
  | [] => True
  | d :: ds => Knows chain scope s d ∧ KnowsAll chain scope s ds

end

mutual

theorem Knows.continues {chain : Chain} {scope : Scope} {s t : Session} (hc : s.Continues t) (hs : s.Sane) (ht : t.Sane)
    (hn : s.Nested) (d : Descriptor) (h : chain.Knows scope s d) : chain.Knows scope t d := by
  match d with
  | .mk name form rank e as =>
    obtain ⟨⟨R, hR⟩, has⟩ := h
    exact ⟨⟨R, (Sees.continues hc hs ht hn _ hR).1⟩, KnowsAll.continues hc hs ht hn as has⟩

theorem KnowsAll.continues {chain : Chain} {scope : Scope} {s t : Session} (hc : s.Continues t) (hs : s.Sane)
    (ht : t.Sane) (hn : s.Nested) (ds : List Descriptor) (h : chain.KnowsAll scope s ds) :
    chain.KnowsAll scope t ds := by
  match ds with
  | [] => trivial
  | d :: ds => exact ⟨Knows.continues hc hs ht hn d h.1, KnowsAll.continues hc hs ht hn ds h.2⟩

end

variable {Q : Descriptor → TypeId → Prop}

mutual

theorem reads_resolve (chain : Chain) (scope : Scope) (allowCreate : Bool) (s : Session) (d : Descriptor) {R : Reading}
    (h : chain.Sees scope s d R) :
    Reads (chain.resolve { scope with allowCreate } d) s fun r t => r.All (chain.Apt scope Q t) d := by
  match d with
  | .mk name form rank e as =>
    unfold resolve
    dsimp only
    split
    · next hform =>
      obtain rfl : form = .tuple := beq_iff_eq.mp hform
      obtain ⟨hne, Rs, id, hRs, rfl, hfirst⟩ := h.1 rfl
      rw [if_neg (by simpa using hne)]
      apply reads_bind (reads_resolveAll chain scope allowCreate s as hRs)
      intro rs t _ hst hrs
      obtain ⟨hvalid, hlength⟩ := apt_all_valid hrs
      have hfirst' : t.FirstTuple as (rs.map (identity t)) id := by
        obtain ⟨Rs', hRs', hidentities⟩ := apt_all_sees hrs
        obtain ⟨hRs, hsame⟩ := SeesAll.continues hst.continues hst.before hst.after hst.nested as hRs
        rw [hidentities, SeesAll.unique as hRs' hRs, hsame]
        exact hfirst.carried hst.before hst.after hst.continues.carries
      apply reads_bind (reads_tuple (d := .mk name .tuple rank e as) hvalid hlength hfirst')
      rintro _ u - htu ⟨rfl, rfl⟩
      exact reads_pure fun hu => apt_tuple hu hne hrs hfirst'
    · next hform =>
      have hne : form ≠ .tuple := fun h => hform (beq_iff_eq.mpr h)
      apply reads_bind (reads_first (Q := Q) (h.2 hne))
      rintro _ t - - ⟨r, rfl, hr⟩
      refine reads_pure fun _ => ⟨hr.imp fun _ hR => ⟨fun h => absurd h hne, fun _ => hR⟩, fun h => absurd h hne⟩

theorem reads_resolveAll (chain : Chain) (scope : Scope) (allowCreate : Bool) (s : Session) (ds : List Descriptor)
    {Rs : List Reading} (h : chain.SeesAll scope s ds Rs) :
    Reads (chain.resolveAll { scope with allowCreate } ds) s fun rs t => AllOf (chain.Apt scope Q t) ds rs := by
  match ds with
  | [] =>
    unfold resolveAll
    exact reads_pure fun _ => rfl
  | d :: ds =>
    obtain ⟨R, rest, rfl, hd, hds⟩ := h
    unfold resolveAll
    apply reads_bind (reads_resolve chain scope allowCreate s d hd)
    intro r t _ hst hr
    have hds := (SeesAll.continues hst.continues hst.before hst.after hst.nested ds hds).1
    apply reads_bind (reads_resolveAll chain scope allowCreate t ds hds)
    intro rs u hloads htu hrs
    refine reads_pure fun _ => ⟨r, rs, rfl, ?_, hrs⟩
    exact hr.imp (fun _ _ h => h.advances htu (hloads.learnsFrom htu)) d

end

mutual

theorem reads_bindTree (chain : Chain) (scope : Scope) (allowCreate : Bool) (s : Session) (r : Resolved) (d : Descriptor)
    (hd : chain.Knows scope s d) (hr : r.All (chain.Apt scope Q s) d) :
    Reads (chain.bindTree { scope with allowCreate } r d) s fun b t =>
      b.All (chain.Apt scope Q t) d ∧ b.Fits t d := by
  match d with
  | .mk name form rank e as =>
    unfold bindTree
    dsimp only
    have hready : (if form == .tuple then r.elements else []) = [] ∨
        AllOf (chain.Apt scope Q s) as (if form == .tuple then r.elements else []) := by
      split
      · next hform => exact .inr (hr.2 (beq_iff_eq.mp hform))
      · exact .inl rfl
    apply reads_bind (reads_bindArguments chain scope allowCreate s _ as hd.2 hready)
    rintro bs t hloads hst ⟨hall, hfits⟩
    refine reads_pure fun _ => ⟨⟨hr.1.advances hst (hloads.learnsFrom hst), hall⟩, rfl, ?_, hfits⟩
    exact hr.1.valid.mono hst.grows

theorem reads_bindArguments (chain : Chain) (scope : Scope) (allowCreate : Bool) (s : Session) (ready : List Resolved)
    (ds : List Descriptor) (hd : chain.KnowsAll scope s ds)
    (hr : ready = [] ∨ AllOf (chain.Apt scope Q s) ds ready) :
    Reads (chain.bindArguments { scope with allowCreate } ready ds) s fun bs t =>
      Binding.AllOf (chain.Apt scope Q t) ds bs ∧ Binding.FitsAll t bs ds := by
  match ds with
  | [] =>
    unfold bindArguments
    exact reads_pure fun _ => ⟨trivial, trivial⟩
  | d :: ds =>
    unfold bindArguments
    dsimp only
    -- an element that is ready is used as it is, any other is resolved first
    have hrest (r : Resolved) (t : Session) (hloads : s.Loads t) (hst : s.Advances t)
        (hr : r.All (chain.Apt scope Q t) d) (htail : ready.tail = [] ∨ AllOf (chain.Apt scope Q s) ds ready.tail) :
        Reads (do
          let child ← chain.bindTree { scope with allowCreate } r d
          let children ← chain.bindArguments { scope with allowCreate } ready.tail ds
          return child :: children) t fun bs u =>
            Binding.AllOf (chain.Apt scope Q u) (d :: ds) bs ∧ Binding.FitsAll u bs (d :: ds) := by
      have hknows := Knows.continues hst.continues hst.before hst.after hst.nested d hd.1
      apply reads_bind (reads_bindTree chain scope allowCreate t r d hknows hr)
      rintro b u hloads' htu ⟨hb, hfits⟩
      have hsu := hst.trans htu
      have hknows := KnowsAll.continues hsu.continues hsu.before hsu.after hsu.nested ds hd.2
      have htail := htail.imp_right fun h =>
        h.imp (fun _ _ h => h.advances hsu ((hloads.trans hloads').learnsFrom hsu)) ds
      apply reads_bind (reads_bindArguments chain scope allowCreate u ready.tail ds hknows htail)
      rintro bs v hloads'' huv ⟨hbs, hfitsAll⟩
      refine reads_pure fun _ => ⟨⟨?_, hbs⟩, hfits.mono huv.grows, hfitsAll⟩
      exact hb.imp (fun _ _ h => h.advances huv (hloads''.learnsFrom huv)) d
    cases ready with
    | nil =>
      obtain ⟨R, hR⟩ : ∃ R, chain.Sees scope s d R := by
        cases d with
        | mk name form rank e as => exact hd.1.1
      apply reads_bind (reads_resolve chain scope allowCreate s d hR)
      intro r t hloads hst hr
      exact hrest r t hloads hst hr (.inl rfl)
    | cons r rs =>
      obtain hnil | ⟨_, _, heq, hr, hall⟩ := hr
      · cases hnil
      · cases heq
        intro hs hn
        exact hrest r s (.refl s) (.refl hs hn) hr (.inr hall) hs hn

end

end Chain

end TypeCatalog
