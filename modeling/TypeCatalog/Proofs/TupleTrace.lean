import TypeCatalog.Proofs.TupleSearch

namespace TypeCatalog

namespace Act

variable {ε α β : Type} {P : Session → Prop}

/-- A step that keeps what is so, also if it fails. -/
def Keeps (P : Session → Prop) (a : Act ε α) : Prop := ∀ s, P s → a.Leads s (fun _ t => P t) fun _ t => P t

theorem keeps_pure {x : α} : Keeps P (pure x : Act ε α) := fun _ h => leads_pure h

theorem keeps_throw {e : ε} : Keeps P (throw e : Act ε α) := fun _ h => leads_throw h

theorem keeps_get : Keeps P (get : Act ε Session) := fun _ h => leads_get h

theorem keeps_bind {a : Act ε β} {f : β → Act ε α} (ha : Keeps P a) (hf : ∀ x, Keeps P (f x)) : Keeps P (a >>= f) :=
  fun s h => leads_bind ((ha s h).mono (fun x t ht => hf x t ht) fun _ _ ht => ht)

theorem keeps_query {wrap : CatalogError → ε} {q : Session → Except CatalogError α} : Keeps P (query wrap q) :=
  fun _ h => leads_query (fun _ _ => h) fun _ _ => h

theorem keeps_perform {wrap : CatalogError → ε} {op : Session → Except CatalogError (α × Session)}
    (hop : ∀ s x t, P s → op s = .ok (x, t) → P t) : Keeps P (perform wrap op) :=
  fun s h => leads_perform (fun x t hx => hop s x t h hx) fun _ _ => h

end Act

namespace Find

open Act Session

/-- What a search preserves that makes no tuple type: that which every operation it is made of preserves. -/
structure Preserves (P : Session → Prop) : Prop where
  load : ∀ s id ps t, P s → s.ensureParameters id = .ok (ps, t) → P t
  external : ∀ s name arity names id t, P s → NameSet.Ascending names →
    s.addExternal name arity names = .ok (id, t) → P t
  commit : ∀ s (r : Resolved) id t, P s → r.commit s = .ok (id, t) → P t

theorem preserves_addsNoTuple {o : Session} : Preserves o.AddsNoTuple where
  load _ _ _ _ hs h := hs.trans (.ensureParameters h)
  external _ _ _ _ _ _ hs _ h := hs.trans (.addNamed rfl h)
  commit _ _ _ _ hs h := hs.trans (.commit h)

namespace Preserves

variable {P : Session → Prop} {scope : Scope} {d : Descriptor}

theorem parameterFrom (h : Preserves P) {name : String} {n : Nat} {id? : Option TypeId} :
    Keeps P (parameterFrom name n id?) := by
  induction n generalizing id? with
  | zero => cases id? <;> exact keeps_pure
  | succ n ih =>
    cases id? with
    | none => exact keeps_pure
    | some id =>
      unfold Find.parameterFrom
      refine keeps_bind keeps_query fun d => ?_
      dsimp only
      split
      · refine keeps_bind (keeps_perform fun s ps t hs ht => h.load s id ps t hs ht) fun ps => ?_
        split
        · exact keeps_pure
        · exact ih
      · refine keeps_bind keeps_pure fun ps => ?_
        split
        · exact keeps_pure
        · exact ih

theorem plain (h : Preserves P) {r : Resolver} : Keeps P (plain scope d r) := by
  cases r with
  | documented => exact keeps_bind keeps_query fun contexts => keeps_bind keeps_get fun s => keeps_pure
  | parameter =>
    refine keeps_bind keeps_get fun s => ?_
    split
    · exact keeps_bind h.parameterFrom fun target => keeps_pure
    · exact keeps_pure
  | external =>
    refine keeps_bind keeps_query fun contexts => keeps_bind keeps_get fun s => ?_
    dsimp only
    split
    · exact keeps_pure
    · split
      · refine keeps_bind (keeps_perform fun s id t hs ht => ?_) fun id => keeps_pure
        exact h.external s _ _ _ id t hs ascending_effectiveNamespaces ht
      · exact keeps_pure
  | tuple => exact keeps_pure

theorem first (h : Preserves P) {rs : List Resolver} : Keeps P (first scope d rs) := by
  induction rs with
  | nil => exact keeps_pure
  | cons r rs ih =>
    unfold Find.first
    refine keeps_bind h.plain fun found => ?_
    cases found with
    | none => exact ih
    | some x => exact keeps_pure

theorem commitElements (h : Preserves P) {n : Nat} {ds : List Descriptor} {rs : List Resolved} :
    Keeps P (commitElements n ds rs) := by
  induction ds generalizing n rs with
  | nil => exact keeps_pure
  | cons d ds ih =>
    cases rs with
    | nil => exact keeps_pure
    | cons r rs =>
      refine keeps_bind (keeps_perform fun s id t hs ht => h.commit s r id t hs ht) fun id => ?_
      exact keeps_bind ih fun x => keeps_pure

end Preserves

end Find

open Act in
theorem Analysis.keeps_ofNode {P : Session → Prop}
    (hP : ∀ s id ps t, P s → s.ensureParameters id = .ok (ps, t) → P t) {u : SourceUnit} {container : TypeId}
    {allowCreate : Bool} {c : Cursor} : Keeps P (ofNode u container allowCreate c) := by
  unfold ofNode
  refine keeps_bind keeps_get fun s => ?_
  split
  · exact keeps_throw
  · refine keeps_bind ?_ fun parameters => keeps_bind keeps_get fun s => ?_
    · unfold containerParameters
      refine keeps_bind keeps_get fun s => ?_
      split
      · split
        · exact keeps_perform fun s ps t hs ht => hP s container ps t hs ht
        · exact keeps_pure
      · exact keeps_throw
      · exact keeps_throw
    · split
      · exact keeps_throw
      · split
        · exact keeps_throw
        · exact keeps_pure

namespace Resolved

mutual

/-- A tuple was found to be the oldest one with the elements that were found for it, and so on below. -/
def Describes (s : Session) : Descriptor → Resolved → Prop
  | .mk _ form _ _ as, r => form = .tuple →
    (∃ id, r.target = .existing id ∧ s.FirstTuple as (r.elements.map (identity s)) id) ∧ DescribesAll s as r.elements

def DescribesAll (s : Session) : List Descriptor → List Resolved → Prop
  | [], rs => rs = []
  | d :: ds, rs => ∃ r rest, rs = r :: rest ∧ Describes s d r ∧ DescribesAll s ds rest

end

mutual

theorem Describes.grows {s t : Session} (hs : s.Sane) (ht : t.Sane) (hg : s.Grows t) (d : Descriptor) {r : Resolved}
    (hr : r.Valid s) (h : r.Describes s d) : r.Describes t d := by
  match d with
  | .mk _ form _ _ as =>
    intro hform
    obtain ⟨⟨id, hid, hfirst⟩, hall⟩ := h hform
    refine ⟨⟨id, hid, ?_⟩, DescribesAll.grows hs ht hg as hr.elements hall⟩
    rw [map_identity_grows hr.elements hg]
    exact hfirst.carried hs ht hg.carries

theorem DescribesAll.grows {s t : Session} (hs : s.Sane) (ht : t.Sane) (hg : s.Grows t) (ds : List Descriptor)
    {rs : List Resolved} (hr : ValidAll s rs) (h : DescribesAll s ds rs) : DescribesAll t ds rs := by
  match ds with
  | [] => exact h
  | d :: ds =>
    obtain ⟨r, rest, rfl, hd, hds⟩ := h
    exact ⟨r, rest, rfl, Describes.grows hs ht hg d hr.1 hd, DescribesAll.grows hs ht hg ds hr.2 hds⟩

end

variable {s t : Session}

theorem DescribesAll.length {ds : List Descriptor} {rs : List Resolved} (h : DescribesAll s ds rs) :
    rs.length = ds.length := by
  induction ds generalizing rs with
  | nil =>
    cases h
    rfl
  | cons d ds ih =>
    obtain ⟨r, rest, rfl, -, hds⟩ := h
    rw [List.length_cons, List.length_cons, ih hds]

/-- A tuple has its row, so committing leaves it as it was found. -/
theorem Describes.committed {d : Descriptor} {r : Resolved} {id : TypeId} (h : r.Describes t d)
    (hc : r.commit s = .ok (id, t)) : (Resolved.mk (.existing id) .empty r.elements).Describes t d := by
  cases d with
  | mk name form rank e as =>
    intro hform
    obtain ⟨⟨i, hi, hfirst⟩, hall⟩ := h hform
    refine ⟨⟨id, rfl, ?_⟩, hall⟩
    obtain ⟨hid, -, -⟩ | ⟨hid, -, -⟩ | ⟨declaring, index, name, hid, -⟩ := commit_ok hc
    · cases hi.symm.trans hid
      exact hfirst
    · cases hi.symm.trans hid
      exact hfirst
    · cases hi.symm.trans hid

end Resolved

namespace Find

open Act Session Resolved

variable {α β : Type} {chain : Chain} {scope : Scope} {s : Session} {good : α → Session → Prop}

/-- A part of a resolution that leaves a tidy session and gives what is `good`. -/
def Tracks (a : Act ResolveError α) (s : Session) (good : α → Session → Prop) : Prop :=
  s.Sane → s.Tidy → a.Leads s (fun x t => (t.Sane ∧ t.Tidy ∧ s.Grows t) ∧ good x t) fun _ t => t.Sane ∧ t.Tidy

theorem tracks_pure {x : α} (h : good x s) : Tracks (pure x) s good :=
  fun hs ht => leads_pure ⟨⟨hs, ht, .refl s⟩, h⟩

theorem tracks_throw {e : ResolveError} : Tracks (throw e : Act ResolveError α) s good :=
  fun hs ht => leads_throw ⟨hs, ht⟩

theorem tracks_bind {m : β → Session → Prop} {a : Act ResolveError β} {f : β → Act ResolveError α}
    (ha : Tracks a s m) (hf : ∀ x t, s.Sane → t.Sane → s.Grows t → m x t → Tracks (f x) t good) :
    Tracks (a >>= f) s good := by
  intro hs htidy
  apply leads_bind
  refine (ha hs htidy).mono ?_ fun _ _ h => h
  rintro x t ⟨⟨ht, htidy, hg⟩, hx⟩
  refine (hf x t hs ht hg hx ht htidy).mono ?_ fun _ _ h => h
  rintro y u ⟨⟨hu, hutidy, hg'⟩, hy⟩
  exact ⟨⟨hu, hutidy, hg.trans hg'⟩, hy⟩

theorem tracks_get_bind {f : Session → Act ResolveError α} (h : Tracks (f s) s good) : Tracks (get >>= f) s good :=
  fun hs ht => leads_get_bind (h hs ht)

theorem tracks_query {q : Session → Except CatalogError α} (hd : s.Sane → ∀ x, q s = .ok x → good x s) :
    Tracks (query .catalog q) s good :=
  fun hs ht => leads_query (fun x hx => ⟨⟨hs, ht, .refl s⟩, hd hs x hx⟩) fun _ _ => ⟨hs, ht⟩

theorem Traced.tracks {a : Act ResolveError α} (h : Traced chain scope a s good) (hk : Keeps s.AddsNoTuple a) :
    Tracks a s good := by
  intro hs htidy
  refine ((h hs.numbered).and (hk s (.refl s))).mono ?_ ?_
  · rintro x t ⟨⟨hrun, hx⟩, hadds⟩
    have ht := hrun.sane hs
    have hg := hrun.grows hs.numbered
    exact ⟨⟨ht, htidy.kept hs ht hg hadds, hg⟩, hx⟩
  · rintro e t ⟨⟨hrun, -⟩, hadds⟩
    have ht := hrun.sane hs
    exact ⟨ht, htidy.kept hs ht (hrun.grows hs.numbered) hadds⟩

theorem tracks_first {d : Descriptor} {rs : List Resolver} :
    Tracks (first scope d rs) s fun x t => ∀ r, x = some r → r.Valid t := by
  have htraced : Traced ⟨rs⟩ scope (first scope d rs) s fun x t => ∀ r, x = some r → r.Valid t :=
    traced_first.mono fun _ _ _ h => h.1
  exact htraced.tracks preserves_addsNoTuple.first

theorem Tracks.keeps {a : Act ResolveError α} (h : Tracks a s good) (hk : Keeps s.AddsNoTuple a) :
    Tracks a s fun x t => good x t ∧ s.AddsNoTuple t := by
  intro hs htidy
  refine ((h hs htidy).and (hk s (.refl s))).mono ?_ fun _ _ h => h.1
  rintro x t ⟨⟨hkept, hx⟩, hadds⟩
  exact ⟨hkept, hx, hadds⟩

/-- Committed elements are as they were found, and make up the rows of a tuple. -/
structure Committed (n : Nat) (ds : List Descriptor) (is : List Identity) (x : List NewElement × List Resolved)
    (t : Session) : Prop where
  fit : t.Fit Eq n x.1 ds is
  valid : ValidAll t x.2
  identities : x.2.map (identity t) = is
  describes : DescribesAll t ds x.2

theorem tracks_commit (ha : scope.allowCreate = true) {r : Resolved} (hr : r.Valid s) :
    Tracks (perform .catalog r.commit) s fun id t => r.commit s = .ok (id, t) ∧
      ∃ a, t.named? id = some a ∧ a.identity = r.identity s := by
  intro hs
  have htraced : Traced ⟨[]⟩ scope (perform .catalog r.commit) s fun id t => r.commit s = .ok (id, t) ∧
      ∃ a, t.named? id = some a ∧ a.identity = r.identity s :=
    traced_perform (fun id t ht => ⟨.commit ha hr ht, ht, identity_commit hs.numbered hr ht⟩)
      fun e he => .commit hr he
  exact htraced.tracks (keeps_perform fun u id t hu ht => hu.trans (.commit ht)) hs

theorem tracks_commitElements (ha : scope.allowCreate = true) {n : Nat} {ds : List Descriptor} {rs : List Resolved}
    (hr : ValidAll s rs) (hd : DescribesAll s ds rs) :
    Tracks (commitElements n ds rs) s (Committed n ds (rs.map (identity s))) := by
  induction ds generalizing s n rs with
  | nil =>
    cases hd
    exact tracks_pure ⟨.nil, trivial, rfl, rfl⟩
  | cons d ds ih =>
    obtain ⟨r, rs, rfl, hd, hds⟩ := hd
    unfold commitElements
    apply tracks_bind (tracks_commit ha hr.1)
    rintro id t hs ht hg ⟨hcommit, a, hid, hidentity⟩
    apply tracks_bind (ih (hr.2.mono hg) (hds.grows hs ht hg ds hr.2))
    rintro ⟨rows, done⟩ u _ hu hg' ⟨hfit, hvalid, hidentities, hdescribes⟩
    rw [map_identity_grows hr.2 hg] at hfit hidentities
    obtain ⟨b, hb, hab⟩ := hg'.named? hid
    have hvalidFirst : (Resolved.mk (.existing id) .empty r.elements).Valid t :=
      ⟨(valid_named hid).target, hr.1.elements.mono hg⟩
    refine tracks_pure ⟨.cons rfl rfl hb (hab.identity.trans hidentity) hfit, ⟨hvalidFirst.mono hg', hvalid⟩, ?_, ?_⟩
    · rw [List.map_cons, List.map_cons, hidentities]
      congr 1
      exact (identityOf_named hb).trans (hab.identity.trans hidentity)
    · refine ⟨_, _, rfl, ?_, hdescribes⟩
      exact ((hd.grows hs ht hg d hr.1).committed hcommit).grows ht hu hg' d hvalidFirst

theorem tracks_addTuple (ha : scope.allowCreate = true) {name : String} {es : List NewElement} {ds : List Descriptor}
    {is : List Identity} (hfit : s.Fit Eq 0 es ds is) (hnone : ∀ j, ¬ s.HasElements ds is j) :
    Tracks (perform .catalog (·.addTuple name es)) s fun id t => t.FirstTuple ds is id := by
  intro hs htidy
  refine leads_perform ?_ fun _ _ => ⟨hs, htidy⟩
  intro id t ht
  have hsane : t.Sane := Step.sane hs (.tuple ha hfit.named ht)
  obtain ⟨htidy, hfirst⟩ := htidy.addTuple hs hsane ht hfit hnone
  exact ⟨⟨hsane, htidy, grows_addTuple ht⟩, hfirst⟩

theorem tracks_save (ha : scope.allowCreate = true) :
    Tracks (perform .catalog (·.save)) s fun _ _ => True := by
  have htraced : Traced ⟨[]⟩ scope (perform .catalog (·.save)) s fun _ _ => True :=
    traced_perform (fun n t ht => ⟨.save ha ht, trivial⟩) fun e he => .save he
  exact htraced.tracks (keeps_perform fun u n t hu ht => hu.trans (.save ht))

/-- A tuple is the oldest one with its elements, whether it was there or is new. -/
theorem tracks_tuple {d : Descriptor} {rs : List Resolved} (hr : ValidAll s rs) (hd : DescribesAll s d.arguments rs) :
    Tracks (tuple scope d rs) s fun found t => ∀ r, found = some r → r.Valid t ∧
      (∃ id, r.target = .existing id ∧ t.FirstTuple d.arguments (r.elements.map (identity t)) id) ∧
      DescribesAll t d.arguments r.elements := by
  unfold tuple
  apply tracks_get_bind
  dsimp only
  apply tracks_bind (m := fun found t => t = s ∧
    firstTuple s d.arguments rs (s.tupleCandidates d.argumentCount) = .ok found)
  · exact tracks_query fun _ found hfound => ⟨rfl, hfound⟩
  · rintro found t hs - - ⟨rfl, hfound⟩
    cases found with
    | some id =>
      have hfirst := firstTuple_first hs hr hd.length hfound
      obtain ⟨q, hq⟩ := hfirst.has.named hs
      refine tracks_pure ?_
      rintro r ⟨⟩
      exact ⟨⟨(valid_named hq).target, hr⟩, ⟨id, rfl, hfirst⟩, hd⟩
    | none =>
      dsimp only
      split
      · next ha =>
        apply tracks_bind ((tracks_commitElements ha hr hd).keeps preserves_addsNoTuple.commitElements)
        rintro ⟨rows, done⟩ u _ hu hg ⟨⟨hfit, hvalid, hidentities, hdescribes⟩, hadds⟩
        -- committing gives rows of the identities that were compared, so the search would still find nothing
        have hnone (j : TypeId) : ¬ u.HasElements d.arguments (rs.map (identity t)) j := by
          intro hj
          refine firstTuple_none hs hr hd.length hfound j (hj.of_carried hs hg.carries ?_)
          exact fun _ => hadds.tupleElements hs hu hg
        apply tracks_bind (tracks_addTuple ha hfit hnone)
        intro id v _ hv hg' hfirst
        apply tracks_bind (tracks_save ha)
        intro _ w _ hw hg'' _
        refine tracks_pure ?_
        rintro r ⟨⟩
        have hgrows := hg'.trans hg''
        obtain ⟨q, hq⟩ := (hfirst.carried hv hw hg''.carries).has.named hw
        refine ⟨⟨(valid_named hq).target, hvalid.mono hgrows⟩, ⟨id, rfl, ?_⟩, hdescribes.grows hu hw hgrows _ hvalid⟩
        show w.FirstTuple d.arguments (done.map (identity w)) id
        rw [map_identity_grows hvalid hgrows, hidentities]
        exact hfirst.carried hv hw hg''.carries
      · exact tracks_pure (by rintro r ⟨⟩)

end Find

namespace Chain

open Find Resolved

mutual

theorem tracks_resolve (chain : Chain) (scope : Scope) (s : Session) (d : Descriptor) :
    Tracks (chain.resolve scope d) s fun r t => r.Valid t ∧ r.Describes t d := by
  match d with
  | .mk name form rank e as =>
    unfold resolve
    dsimp only
    split
    · split
      · exact tracks_throw
      · apply tracks_bind (tracks_resolveAll chain scope s as)
        rintro rs t _ _ _ ⟨hrs, hdescribes⟩
        apply tracks_bind (tracks_tuple (d := .mk name form rank e as) hrs hdescribes)
        intro found u _ _ _ hfound
        split
        · next r =>
          obtain ⟨hr, hfirst, hall⟩ := hfound r rfl
          exact tracks_pure ⟨hr, fun _ => ⟨hfirst, hall⟩⟩
        · exact tracks_throw
    · next hform =>
      apply tracks_bind tracks_first
      intro found u _ _ _ hvalid
      split
      · next r =>
        refine tracks_pure ⟨hvalid r rfl, fun htuple => absurd ?_ hform⟩
        subst htuple
        rfl
      · exact tracks_throw

theorem tracks_resolveAll (chain : Chain) (scope : Scope) (s : Session) (ds : List Descriptor) :
    Tracks (chain.resolveAll scope ds) s fun rs t => ValidAll t rs ∧ DescribesAll t ds rs := by
  match ds with
  | [] =>
    unfold resolveAll
    exact tracks_pure ⟨trivial, rfl⟩
  | d :: ds =>
    unfold resolveAll
    apply tracks_bind (tracks_resolve chain scope s d)
    rintro r t _ _ _ ⟨hr, hd⟩
    apply tracks_bind (tracks_resolveAll chain scope t ds)
    rintro rs u ht hu hg ⟨hrs, hds⟩
    exact tracks_pure ⟨⟨hr.mono hg, hrs⟩, r, rs, rfl, hd.grows ht hu hg d hr, hds⟩

end

end Chain

namespace Binding

open Resolved

def resolved : Binding → Resolved
  | .mk r _ _ => r

mutual

/-- A tuple names the oldest one with the elements that its children name, and so on below. -/
def Tells (s : Session) : Descriptor → Binding → Prop
  | .mk _ form _ _ as, .mk r _ bs =>
    (form = .tuple → bs.map resolved = r.elements ∧
      ∃ id, r.target = .existing id ∧ s.FirstTuple as ((bs.map resolved).map (identity s)) id) ∧ TellsAll s as bs

def TellsAll (s : Session) : List Descriptor → List Binding → Prop
  | d :: ds, b :: bs => Tells s d b ∧ TellsAll s ds bs
  | _, _ => True

end

theorem Fits.resolved {s : Session} {b : Binding} {d : Descriptor} (h : b.Fits s d) : b.resolved.Valid s := by
  cases b
  cases d
  exact h.2.1

theorem FitsAll.resolved {s : Session} {bs : List Binding} {ds : List Descriptor} (h : FitsAll s bs ds) :
    ValidAll s (bs.map Binding.resolved) := by
  induction bs generalizing ds with
  | nil => trivial
  | cons b bs ih =>
    cases ds with
    | nil => exact h.elim
    | cons d ds => exact ⟨h.1.resolved, ih h.2⟩

mutual

theorem Tells.grows {s t : Session} (hs : s.Sane) (ht : t.Sane) (hg : s.Grows t) (d : Descriptor) {b : Binding}
    (hb : b.Fits s d) (h : b.Tells s d) : b.Tells t d := by
  match d, b with
  | .mk _ form _ _ as, .mk r _ bs =>
    obtain ⟨-, -, hbs⟩ := hb
    refine ⟨fun hform => ?_, TellsAll.grows hs ht hg as hbs h.2⟩
    obtain ⟨hsame, id, hid, hfirst⟩ := h.1 hform
    refine ⟨hsame, id, hid, ?_⟩
    rw [map_identity_grows hbs.resolved hg]
    exact hfirst.carried hs ht hg.carries

theorem TellsAll.grows {s t : Session} (hs : s.Sane) (ht : t.Sane) (hg : s.Grows t) (ds : List Descriptor)
    {bs : List Binding} (hb : FitsAll s bs ds) (h : TellsAll s ds bs) : TellsAll t ds bs := by
  match ds, bs with
  | [], _ => trivial
  | d :: ds, [] => trivial
  | d :: ds, b :: bs => exact ⟨Tells.grows hs ht hg d hb.1 h.1, TellsAll.grows hs ht hg ds hb.2 h.2⟩

end

end Binding

namespace Chain

open Find Resolved Binding

mutual

theorem tracks_bindTree (chain : Chain) (scope : Scope) (s : Session) (r : Resolved) (d : Descriptor)
    (hr : r.Valid s) (hd : r.Describes s d) :
    Tracks (chain.bindTree scope r d) s fun b t => b.Fits t d ∧ b.Tells t d ∧ b.resolved = r := by
  match d with
  | .mk name form rank e as =>
    unfold bindTree
    dsimp only
    by_cases hform : form = .tuple
    · obtain ⟨⟨id, hid, hfirst⟩, hall⟩ := hd hform
      rw [if_pos (beq_iff_eq.mpr hform)]
      apply tracks_bind (tracks_bindArguments chain scope s r.elements as hr.elements (.inr hall))
      rintro bs t hs ht hg ⟨hfits, htells, hready⟩
      refine tracks_pure ⟨⟨rfl, hr.mono hg, hfits⟩, ⟨fun _ => ⟨hready hall.length, id, hid, ?_⟩, htells⟩, rfl⟩
      rw [hready hall.length, map_identity_grows hr.elements hg]
      exact hfirst.carried hs ht hg.carries
    · rw [if_neg (fun h => hform (beq_iff_eq.mp h))]
      apply tracks_bind (tracks_bindArguments chain scope s [] as trivial (.inl rfl))
      rintro bs t hs ht hg ⟨hfits, htells, -⟩
      exact tracks_pure ⟨⟨rfl, hr.mono hg, hfits⟩, ⟨fun h => absurd h hform, htells⟩, rfl⟩

theorem tracks_bindArguments (chain : Chain) (scope : Scope) (s : Session) (ready : List Resolved)
    (ds : List Descriptor) (hr : ValidAll s ready) (hd : ready = [] ∨ DescribesAll s ds ready) :
    Tracks (chain.bindArguments scope ready ds) s fun bs t => FitsAll t bs ds ∧ TellsAll t ds bs ∧
      (ready.length = ds.length → bs.map Binding.resolved = ready) := by
  match ds with
  | [] =>
    unfold bindArguments
    refine tracks_pure ⟨trivial, trivial, fun hlength => ?_⟩
    rw [List.length_eq_zero_iff.mp hlength]
    rfl
  | d :: ds =>
    unfold bindArguments
    dsimp only
    -- an element that is ready is used as it is, any other is resolved first
    have hrest (r : Resolved) (t : Session) (hs : s.Sane) (ht : t.Sane) (hg : s.Grows t) (hv : r.Valid t)
        (hdescribes : r.Describes t d) (htail : ready.tail = [] ∨ DescribesAll s ds ready.tail) :
        Tracks (do
          let child ← chain.bindTree scope r d
          let children ← chain.bindArguments scope ready.tail ds
          return child :: children) t fun bs u => FitsAll u bs (d :: ds) ∧ TellsAll u (d :: ds) bs ∧
            (ready.tail.length = ds.length → bs.map Binding.resolved = r :: ready.tail) := by
      apply tracks_bind (tracks_bindTree chain scope t r d hv hdescribes)
      rintro b u _ hu hg' ⟨hb, htells, hresolved⟩
      have hvalid : ValidAll s ready.tail := by
        cases ready with
        | nil => trivial
        | cons r rs => exact hr.2
      have hgrows := hg.trans hg'
      have hall := htail.imp_right fun h => h.grows hs hu hgrows ds hvalid
      apply tracks_bind (tracks_bindArguments chain scope u ready.tail ds (hvalid.mono hgrows) hall)
      rintro bs v _ hv hg'' ⟨hbs, htellsAll, hready⟩
      refine tracks_pure ⟨⟨hb.mono hg'', hbs⟩, ⟨htells.grows hu hv hg'' d hb, htellsAll⟩, fun hlength => ?_⟩
      rw [List.map_cons, hresolved, hready hlength]
    cases ready with
    | nil =>
      apply tracks_bind (tracks_resolve chain scope s d)
      rintro r t hs ht hg ⟨hv, hdescribes⟩
      intro ht' htidy
      refine (hrest r t hs ht hg hv hdescribes (.inl rfl) ht' htidy).mono ?_ fun _ _ h => h
      rintro bs u ⟨hkept, hfits, htells, -⟩
      exact ⟨hkept, hfits, htells, by rintro ⟨⟩⟩
    | cons r rs =>
      obtain hnil | ⟨_, _, heq, hdescribes, hall⟩ := hd
      · cases hnil
      · cases heq
        intro hs htidy
        refine (hrest r s hs hs (.refl s) hr.1 hdescribes (.inr hall) hs htidy).mono ?_ fun _ _ h => h
        rintro bs u ⟨hkept, hfits, htells, hready⟩
        exact ⟨hkept, hfits, htells, fun hlength => hready (Nat.succ.inj hlength)⟩

end

end Chain

end TypeCatalog
