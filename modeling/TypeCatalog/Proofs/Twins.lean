import TypeCatalog.Proofs.Lockstep
import TypeCatalog.Proofs.Resolvable

namespace TypeCatalog

theorem RowsBecome.shown_alike {rows later later' : List (TypeId × NamedType)}
    (h : RowsBecome (fun _ => NamedType.Shown) (fun _ => False) rows later)
    (h' : RowsBecome (fun _ => NamedType.Shown) (fun _ => False) rows later') :
    RowsBecome (fun _ => NamedType.Alike) (fun _ => False) later later' := by
  have halike {later : List (TypeId × NamedType)} (h : RowsBecome (fun _ => NamedType.Shown) (fun _ => False) rows later) :
      RowsBecome (fun _ => NamedType.Alike) (fun _ => False) rows later := h.mono (fun _ _ _ h => h.alike) fun _ h => h
  exact (halike h).alike (halike h')

theorem ChangeSet.Completes.eq {x y : ChangeSet} {c f : Contents} (hx : x.Completes c f) (hy : y.Completes c f)
    (h : x.externalNamespaces = y.externalNamespaces) : x = y := by
  obtain ⟨old, hold, hrows⟩ := hx.named
  obtain ⟨old', hold', hrows'⟩ := hy.named
  have hlength : old.length = old'.length := by
    have hids := hrows.map_fst.trans hrows'.map_fst.symm
    simpa using congrArg List.length hids
  have hnamed := (List.append_inj (hold.symm.trans hold') hlength).2
  obtain ⟨ns, fs, ts, xs, es, rs, us⟩ := x
  obtain ⟨ns', fs', ts', xs', es', rs', us'⟩ := y
  cases List.append_cancel_left (hx.namespaces.symm.trans hy.namespaces)
  cases List.append_cancel_left (hx.files.symm.trans hy.files)
  cases hnamed
  cases h
  cases List.append_cancel_left (hx.elements.symm.trans hy.elements)
  cases List.append_cancel_left (hx.references.symm.trans hy.references)
  cases List.append_cancel_left (hx.usages.symm.trans hy.usages)
  rfl

namespace Session

variable {s s' t t' : Session} {c f : Contents}

theorem length_pendingRows {e : Entity} {α : Type} {what : String} {find : RowId e → Option α}
    {ids : List (RowId e)} {rows : List α} (h : pendingRows what find ids = .ok rows) :
    rows.length = ids.length := by
  unfold pendingRows at h
  induction ids generalizing rows with
  | nil =>
    cases h
    rfl
  | cons id ids ih =>
    rw [List.mapM_cons] at h
    obtain ⟨a, -, h⟩ := bind_eq_ok.mp h
    obtain ⟨as, has, h⟩ := bind_eq_ok.mp h
    cases h
    rw [List.length_cons, List.length_cons, ih has]

theorem changeSet_size {changes : ChangeSet} (h : s.changeSet = .ok changes) :
    changes.externalNamespaces = s.pending.externalNamespaces ∧ changes.size = s.pending.size := by
  unfold changeSet at h
  obtain ⟨ns, hns, h⟩ := bind_eq_ok.mp h
  obtain ⟨fs, hfs, h⟩ := bind_eq_ok.mp h
  obtain ⟨ts, hts, h⟩ := bind_eq_ok.mp h
  obtain ⟨es, hes, h⟩ := bind_eq_ok.mp h
  obtain ⟨rs, hrs, h⟩ := bind_eq_ok.mp h
  obtain ⟨us, hus, h⟩ := bind_eq_ok.mp h
  cases h
  refine ⟨rfl, ?_⟩
  unfold ChangeSet.size Pending.size Pending.counts
  simp only [List.foldr_cons, List.foldr_nil]
  rw [length_pendingRows hns, length_pendingRows hfs, length_pendingRows hts, length_pendingRows hes,
    length_pendingRows hrs, length_pendingRows hus]
  omega

theorem save_of_store {store : Store} {changes : ChangeSet} (hp : s.pending.isEmpty = false)
    (hstore : s.store = some store) (hc : s.changeSet = .ok changes) :
    s.save = if store.readOnly = true then .error (.database .readOnly)
      else match store.database.write changes with
        | .ok database => .ok (changes.size, { s with store := some { store with database }, pending := {} })
        | .error e => .error e := by
  unfold Session.save
  rw [hp, hstore, hc]
  dsimp only
  rw [if_neg Bool.false_ne_true, ok_bind]
  split
  · rfl
  · cases store.database.write changes <;> rfl

theorem save_of_none (hp : s.pending.isEmpty = false) (hstore : s.store = none) :
    s.save = .ok (s.pending.size, { s with pending := {} }) := by
  unfold Session.save
  rw [hp, hstore]
  rfl

theorem save_of_isEmpty (hp : s.pending.isEmpty = true) : s.save = .ok (0, s) := by
  unfold Session.save
  rw [hp]
  rfl

theorem ensureParameters_frame {id : TypeId} {ps : List TypeParameter} (h : s.ensureParameters id = .ok (ps, t)) :
    t.pending = s.pending ∧ t.globalNamespace = s.globalNamespace ∧ t.references = s.references ∧
      t.usages = s.usages ∧ t.store = s.store := by
  obtain ⟨d, -, ⟨-, rfl⟩ | ⟨-, -, -, rfl⟩⟩ := ensureParameters_ok h
  · exact ⟨rfl, rfl, rfl, rfl, rfl⟩
  · exact ⟨rfl, rfl, rfl, rfl, rfl⟩

/-- Two sessions with the same rows, of which the first has older references and usages at hand. They have
the same store or, if they are `apart`, the second has none and that of the first can be written. -/
structure Twin (apart : Prop) (rs : List Reference) (us : List Usage) (c f : Contents) (s s' : Session) : Prop where
  left : s.Ledger c f
  right : s'.Ledger c f
  pending : s'.pending = s.pending
  globalNamespace : s'.globalNamespace = s.globalNamespace
  references : s.references = rs ++ s'.references
  usages : s.usages = us ++ s'.usages
  store : s'.store = s.store ∨ apart ∧ s'.store = none ∧ ∃ store, s.store = some store ∧ store.readOnly = false

/-- Sessions that are twins with some rows. -/
def Twins (apart : Prop) (rs : List Reference) (us : List Usage) (s s' : Session) : Prop :=
  ∃ c f, Twin apart rs us c f s s'

namespace Twin

variable {apart : Prop} {rs : List Reference} {us : List Usage}

theorem alongside (h : Twin apart rs us c f s s') : s.Alongside s' where
  namespaces := by rw [h.left.namespaces, h.right.namespaces]
  globalNamespace := h.globalNamespace
  files := by rw [h.left.files, h.right.files]
  rows := h.left.named.shown_alike h.right.named
  elements := by rw [h.left.elements, h.right.elements]

theorem counter_eq {e : Entity} {i j : Counter e} {n : Nat} (hi : i.used = n) (hj : j.used = n) : j = i := by
  cases i
  cases j
  cases hi
  cases hj
  rfl

theorem namespaceIds (h : Twin apart rs us c f s s') : s'.namespaceIds = s.namespaceIds :=
  counter_eq h.left.namespaceIds h.right.namespaceIds

theorem fileIds (h : Twin apart rs us c f s s') : s'.fileIds = s.fileIds := counter_eq h.left.fileIds h.right.fileIds

theorem namedIds (h : Twin apart rs us c f s s') : s'.namedIds = s.namedIds := counter_eq h.left.namedIds h.right.namedIds

theorem elementIds (h : Twin apart rs us c f s s') : s'.elementIds = s.elementIds :=
  counter_eq h.left.elementIds h.right.elementIds

theorem referenceIds (h : Twin apart rs us c f s s') : s'.referenceIds = s.referenceIds :=
  counter_eq h.left.referenceIds h.right.referenceIds

theorem usageIds (h : Twin apart rs us c f s s') : s'.usageIds = s.usageIds := counter_eq h.left.usageIds h.right.usageIds

/-- An operation that begins by drawing an id does so on both sides. -/
theorem tally_draw {e : Entity} {α : Type} {i j : Counter e} {V : α → α → Prop}
    {g g' : RowId e × Counter e → Except CatalogError α} (hij : j = i)
    (hg : ∀ r, draw i = .ok r → Tally V (g r) (g' r)) : Tally V (draw i >>= g) (draw j >>= g') := by
  subst hij
  cases hd : draw j with
  | error d => rfl
  | ok r => exact hg r hd

theorem addNamespace (h : Twin apart rs us c f s s') (name : String) (parent : Option NamespaceId) :
    Tally (Both (Twins apart rs us)) (s.addNamespace name parent) (s'.addNamespace name parent) := by
  refine tally_draw h.namespaceIds fun r hr => ⟨rfl, c, _, { h with
    left := h.left.addNamespace (show s.addNamespace name parent = .ok (r.1, _) from ?_)
    right := h.right.addNamespace (show s'.addNamespace name parent = .ok (r.1, _) from ?_)
    pending := by rw [h.pending] }⟩
  · unfold Session.addNamespace
    rw [hr]
    rfl
  · unfold Session.addNamespace
    rw [h.namespaceIds, hr]
    rfl

theorem addSourceFile (h : Twin apart rs us c f s s') (path : Path) (usings : List NamespaceId) :
    Tally (Both (Twins apart rs us)) (s.addSourceFile path usings) (s'.addSourceFile path usings) := by
  refine tally_draw h.fileIds fun r hr => ⟨rfl, c, _, { h with
    left := h.left.addSourceFile (show s.addSourceFile path usings = .ok (r.1, _) from ?_)
    right := h.right.addSourceFile (show s'.addSourceFile path usings = .ok (r.1, _) from ?_)
    pending := by rw [h.pending] }⟩
  · unfold Session.addSourceFile
    rw [hr]
    rfl
  · unfold Session.addSourceFile
    rw [h.fileIds, hr]
    rfl

theorem addNamed (h : Twin apart rs us c f s s') {a : NamedType} (ha : a.WellFormed) :
    Tally (Both (Twins apart rs us)) (s.addNamed a) (s'.addNamed a) := by
  refine tally_draw h.namedIds fun r hr => ⟨rfl, c, _, { h with
    left := h.left.addNamed ha (show s.addNamed a = .ok (r.1, _) from ?_)
    right := h.right.addNamed ha (show s'.addNamed a = .ok (r.1, _) from ?_)
    pending := by rw [h.pending] }⟩
  · unfold Session.addNamed
    rw [hr]
    rfl
  · unfold Session.addNamed
    rw [h.namedIds, hr]
    rfl

theorem addReference (h : Twin apart rs us c f s s') (named : TypeId) (rank : Nat) (parent : Option ReferenceId) :
    Tally (Both (Twins apart rs us)) (s.addReference named rank parent) (s'.addReference named rank parent) := by
  refine tally_draw h.referenceIds fun r hr => ⟨rfl, c, _, { h with
    left := h.left.addReference (show s.addReference named rank parent = .ok (r.1, _) from ?_)
    right := h.right.addReference (show s'.addReference named rank parent = .ok (r.1, _) from ?_)
    pending := by rw [h.pending]
    references := by rw [h.references, List.append_assoc] }⟩
  · unfold Session.addReference
    rw [hr]
    rfl
  · unfold Session.addReference
    rw [h.referenceIds, hr]
    rfl

theorem addUsage (h : Twin apart rs us c f s s') (owner : TypeId) (reference : ReferenceId) (role : Role)
    (member : Option String) :
    Tally (Both (Twins apart rs us)) (s.addUsage owner reference role member) (s'.addUsage owner reference role member) := by
  refine tally_draw h.usageIds fun r hr => ⟨rfl, c, _, { h with
    left := h.left.addUsage (show s.addUsage owner reference role member = .ok (r.1, _) from ?_)
    right := h.right.addUsage (show s'.addUsage owner reference role member = .ok (r.1, _) from ?_)
    pending := by rw [h.pending]
    usages := by rw [h.usages, List.append_assoc] }⟩
  · unfold Session.addUsage
    rw [hr]
    rfl
  · unfold Session.addUsage
    rw [h.usageIds, hr]
    rfl

theorem addTuple (h : Twin apart rs us c f s s') (name : String) (es : List NewElement) :
    Tally (Both (Twins apart rs us)) (s.addTuple name es) (s'.addTuple name es) := by
  refine tally_draw h.namedIds fun r hr => ?_
  dsimp only
  rw [h.elementIds]
  cases hes : elementRows r.1 s.elementIds 0 es with
  | error e => rfl
  | ok q =>
    refine ⟨rfl, c, _, { h with
      left := h.left.addTuple (show s.addTuple name es = .ok (r.1, _) from ?_)
      right := h.right.addTuple (show s'.addTuple name es = .ok (r.1, _) from ?_)
      pending := by rw [h.pending] }⟩
    · unfold Session.addTuple
      rw [hr, ok_bind]
      dsimp only
      rw [hes]
      rfl
    · unfold Session.addTuple
      rw [h.namedIds, hr, ok_bind]
      dsimp only
      rw [h.elementIds, hes]
      rfl

theorem extendExternal (h : Twin apart rs us c f s s') (id : TypeId) (names : List String) :
    Tally (Both (Twins apart rs us)) (s.extendExternal id names) (s'.extendExternal id names) := by
  cases hs : s.extendExternal id names with
  | error e =>
    obtain ⟨rfl, hnone⟩ := extendExternal_error hs
    have hs' : s'.extendExternal id names = .error (.missingNamedType id) := by
      unfold Session.extendExternal
      split
      · next x hx =>
        have hsame := h.alongside.external? id
        rw [hx] at hsame
        obtain ⟨a, ha, hax⟩ := Option.bind_eq_some_iff.mp hsame.symm
        cases a with
        | external y => exact absurd ha (hnone y)
        | documented d => cases hax
        | parameter p => cases hax
        | tuple r => cases hax
      · rfl
    rw [hs']
    rfl
  | ok r =>
    obtain ⟨n, t⟩ := r
    cases hs' : s'.extendExternal id names with
    | error e =>
      obtain ⟨-, hnone⟩ := extendExternal_error hs'
      obtain ⟨x, hx, -⟩ := extendExternal_ok hs
      have hsame := h.alongside.external? id
      rw [hx] at hsame
      obtain ⟨a, ha, hax⟩ := Option.bind_eq_some_iff.mp hsame
      cases a with
      | external y => exact absurd ha (hnone y)
      | documented d => cases hax
      | parameter p => cases hax
      | tuple r => cases hax
    | ok r' =>
      obtain ⟨n', t'⟩ := r'
      obtain ⟨x, hx, hl⟩ := h.left.extendExternal hs
      obtain ⟨x', hx', hl'⟩ := h.right.extendExternal hs'
      have hsame := h.alongside.external? id
      rw [hx, hx'] at hsame
      cases hsame
      obtain ⟨y, hy, hn, rfl⟩ := extendExternal_ok hs
      obtain ⟨y', hy', hn', rfl⟩ := extendExternal_ok hs'
      rw [hx] at hy
      rw [hx'] at hy'
      cases hy
      cases hy'
      exact ⟨hn.trans hn'.symm, c, _, { h with
        left := hl
        right := hl'
        pending := by
          dsimp only
          rw [h.pending] }⟩

theorem ensureParameters (h : Twin apart rs us c f s s') (id : TypeId) :
    Tally (Both (Twins apart rs us)) (s.ensureParameters id) (s'.ensureParameters id) := by
  obtain ⟨e, hs, hs'⟩ | ⟨d, qs, hs, hs'⟩ := h.alongside.documented id
  · unfold Session.ensureParameters
    rw [hs, hs']
    rfl
  · obtain ⟨ps, t, he, hl, hmem⟩ := h.left.ensureParameters (documented_ok.mp hs)
    obtain ⟨ps', t', he', hl', hmem'⟩ := h.right.ensureParameters (documented_ok.mp hs')
    have hps : ps' = ps := by
      have hsame := h.left.sound.named.unique hmem hmem'
      cases hsame
      rfl
    obtain ⟨hpending, hglobal, hreferences, husages, hstore⟩ := ensureParameters_frame he
    obtain ⟨hpending', hglobal', hreferences', husages', hstore'⟩ := ensureParameters_frame he'
    rw [he, he']
    exact ⟨hps.symm, c, f, {
      left := hl
      right := hl'
      pending := by rw [hpending, hpending', h.pending]
      globalNamespace := by rw [hglobal, hglobal', h.globalNamespace]
      references := by rw [hreferences, hreferences', h.references]
      usages := by rw [husages, husages', h.usages]
      store := by
        rw [hstore, hstore']
        exact h.store }⟩

theorem saved (h : Twin apart rs us c f s s') {n : Nat} {x x' : Option Store}
    (hs : s.save = .ok (n, { s with store := x, pending := {} }))
    (hs' : s'.save = .ok (n, { s' with store := x', pending := {} }))
    (hstore : x' = x ∨ apart ∧ x' = none ∧ ∃ store, x = some store ∧ store.readOnly = false) :
    Tally (Both (Twins apart rs us)) s.save s'.save := by
  have hl := h.left.save hs
  have hl' := h.right.save hs'
  rw [hs, hs']
  exact ⟨rfl, f, f, { h with left := hl, right := hl', pending := rfl, store := hstore }⟩

/-- A session over a store and its twin count the same when they save, but only the store can refuse. -/
theorem save (h : Twin apart rs us c f s s') :
    Tally (Both (Twins apart rs us)) s.save s'.save ∨ ∃ e, s.save = .error e ∧ apart ∧ ¬ e.Halts := by
  cases hp : s.pending.isEmpty with
  | true =>
    rw [save_of_isEmpty hp, save_of_isEmpty (h.pending ▸ hp)]
    exact .inl ⟨rfl, c, f, h⟩
  | false =>
    have hp' : s'.pending.isEmpty = false := h.pending ▸ hp
    obtain ⟨changes, hc, hcompletes⟩ := h.left.changeSet_ok
    obtain ⟨changes', hc', hcompletes'⟩ := h.right.changeSet_ok
    obtain ⟨hwaiting, hsize⟩ := changeSet_size hc
    obtain ⟨hwaiting', -⟩ := changeSet_size hc'
    have hchanges := hcompletes.eq hcompletes' (by rw [hwaiting, hwaiting', h.pending])
    subst hchanges
    -- the twins share one store, or one of them has a store that may be written and the other has none
    rcases h.store with hstore | ⟨hapart, hnone, store, hstore, hwritable⟩
    · left
      cases hx : s.store with
      | none =>
        rw [hx] at hstore
        have hs' := save_of_none hp' hstore
        rw [h.pending] at hs'
        exact h.saved (save_of_none hp hx) hs' (.inl (hstore.trans hx.symm))
      | some store =>
        rw [hx] at hstore
        have hs := save_of_store hp hx hc
        have hs' := save_of_store hp' hstore hc'
        cases hro : store.readOnly with
        | true =>
          rw [hs, hs', hro]
          rfl
        | false =>
          rw [hro, if_neg Bool.false_ne_true] at hs hs'
          cases hw : store.database.write changes with
          | ok database =>
            rw [hw] at hs hs'
            exact h.saved hs hs' (.inl rfl)
          | error e =>
            rw [hw] at hs hs'
            rw [hs, hs']
            rfl
    · have hs := save_of_store hp hstore hc
      have hs' := save_of_none hp' hnone
      rw [hwritable, if_neg Bool.false_ne_true] at hs
      cases hw : store.database.write changes with
      | ok database =>
        left
        rw [hw] at hs
        rw [h.pending, ← hsize] at hs'
        exact h.saved hs hs' (.inr ⟨hapart, hnone, _, rfl, rfl⟩)
      | error e =>
        right
        rw [hw] at hs
        obtain ⟨d, rfl, hd⟩ := Database.rowsOnly_write e hw
        refine ⟨_, hs, hapart, ?_⟩
        rintro (heq | heq)
        · cases heq
        · cases heq
          exact hd rfl

end Twin

theorem simulation_twins {apart : Prop} {rs : List Reference} {us : List Usage} :
    Simulation (Twins apart rs us) fun e => apart ∧ ¬ e.Halts where
  alongside := fun ⟨_, _, h⟩ => h.alongside
  addNamespace := fun ⟨_, _, h⟩ => h.addNamespace
  addSourceFile := fun ⟨_, _, h⟩ => h.addSourceFile
  addNamed := fun ⟨_, _, h⟩ _ ha => h.addNamed ha
  addTuple := fun ⟨_, _, h⟩ => h.addTuple
  extendExternal := fun ⟨_, _, h⟩ => h.extendExternal
  addReference := fun ⟨_, _, h⟩ => h.addReference
  addUsage := fun ⟨_, _, h⟩ => h.addUsage
  ensureParameters := fun ⟨_, _, h⟩ => h.ensureParameters
  save := fun ⟨_, _, h⟩ => h.save

/-- A session whose changes are stored has a twin in every session that is opened on the store. -/
theorem Twin.reopen {rs : List Reference} {us : List Usage} {store : Store} {b : Session} (hb : b.Rooted)
    (h : Twin False rs us c f b s) (hp : s.pending.isEmpty = true) (hstore : s.store = some store)
    (ho : openStore store = .ok s') : Twins False b.references b.usages b s' := by
  have hcf := h.right.pending.eq_of_isEmpty hp h.right.storedRegular h.right.regular
  subst hcf
  obtain ⟨hholds, hlinked⟩ := h.right.holds store hstore
  obtain ⟨hbounded, hglobal⟩ := (openStore_iff hholds h.right.regular hlinked).mp ho
  have hroot : (opened store f).findNamespace "" = some b.globalNamespace := by
    have hsame : (opened store f).namespaces = b.namespaces := h.left.namespaces.symm
    unfold findNamespace
    rw [hsame]
    exact hb
  rw [withGlobal_eq hroot] at hglobal
  cases hglobal
  have hl := ledger_opened hholds h.right.sound hlinked hbounded
  exact ⟨f, f, {
    left := h.left
    right := { hl with }
    pending := by
      rw [← h.pending]
      exact (Pending.eq_empty hp).symm
    globalNamespace := rfl
    references := (List.append_nil _).symm
    usages := (List.append_nil _).symm
    store := .inl (hstore.symm.trans (h.store.resolve_right fun hapart => hapart.1)) }⟩

end Session

end TypeCatalog
