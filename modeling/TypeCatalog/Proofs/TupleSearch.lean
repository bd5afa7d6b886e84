import TypeCatalog.Proofs.Tuples

namespace TypeCatalog

/-- The part of an element that tells what is in a tuple. -/
def TupleElement.content (e : TupleElement) : NewElement := ⟨e.name, e.rank, e.elementType⟩

def Session.identityOf (s : Session) (id : TypeId) : Identity := ((s.named? id).map NamedType.identity).getD ⟨none, ""⟩

theorem Session.identityOf_named {s : Session} {id : TypeId} {a : NamedType} (h : s.named? id = some a) :
    s.identityOf id = a.identity := by
  unfold identityOf
  rw [h]
  rfl

/-- What a found target will be taken for once it has a row. -/
def Resolved.identity (s : Session) (r : Resolved) : Identity :=
  match r.target with
  | .existing id => s.identityOf id
  | .parameter _ _ name => ⟨none, name⟩

namespace Resolved

variable {s t : Session} {r : Resolved}

theorem identity_grows (hr : r.Valid s) (hg : s.Grows t) : r.identity t = r.identity s := by
  have hv := hr.target
  unfold identity
  cases htarget : r.target with
  | existing id =>
    rw [htarget] at hv
    obtain ⟨⟨a, ha⟩, -⟩ := hv
    obtain ⟨b, hb, hab⟩ := hg.named? ha
    dsimp only
    rw [Session.identityOf_named ha, Session.identityOf_named hb, hab.identity]
  | parameter declaring index name => rfl

theorem map_identity_grows {rs : List Resolved} (hr : ValidAll s rs) (hg : s.Grows t) :
    rs.map (identity t) = rs.map (identity s) := by
  induction rs with
  | nil => rfl
  | cons r rs ih => rw [List.map_cons, List.map_cons, identity_grows hr.1 hg, ih hr.2]

theorem sameIdentity_identity (hr : r.Valid s) {a : NamedType} :
    r.sameIdentity s a = .ok (a.identity.same (r.identity s)) := by
  have hv := hr.target
  unfold sameIdentity identity
  cases htarget : r.target with
  | existing id =>
    rw [htarget] at hv
    obtain ⟨⟨b, hb⟩, -⟩ := hv
    dsimp only
    unfold Session.requireNamed
    rw [hb, Session.identityOf_named hb, ← NamedType.sameIdentity_eq]
    rfl
  | parameter declaring index name => cases a <;> rfl

theorem identity_commit (hs : s.Numbered) (hr : r.Valid s) {id : TypeId} (h : r.commit s = .ok (id, t)) :
    ∃ a, t.named? id = some a ∧ a.identity = r.identity s := by
  have hv := hr.target
  have hg := grows_commit hs h
  have hexisting (htarget : r.target = .existing id) : ∃ a, t.named? id = some a ∧ a.identity = r.identity s := by
    rw [htarget] at hv
    obtain ⟨⟨a, ha⟩, -⟩ := hv
    obtain ⟨b, hb, hab⟩ := hg.named? ha
    refine ⟨b, hb, ?_⟩
    unfold identity
    rw [htarget]
    dsimp only
    rw [Session.identityOf_named ha, hab.identity]
  obtain ⟨htarget, -, -⟩ | ⟨htarget, -, -⟩ | ⟨declaring, index, name, htarget, ha⟩ := commit_ok h
  · exact hexisting htarget
  · exact hexisting htarget
  · refine ⟨_, (Session.named?_addNamed hs ha).2, ?_⟩
    unfold identity
    rw [htarget]
    rfl

end Resolved

namespace Session

open Find

variable {s t : Session} {alike : Identity → Identity → Prop} {n : Nat} {es : List NewElement}
  {ds : List Descriptor} {is : List Identity} {id : TypeId}

/-- Elements, from position `n` on, that have the names and ranks of descriptors and types whose identities
are `alike` to given ones. -/
inductive Fit (s : Session) (alike : Identity → Identity → Prop) :
    Nat → List NewElement → List Descriptor → List Identity → Prop
  | nil {n : Nat} : Fit s alike n [] [] []
  | cons {n : Nat} {e : NewElement} {es : List NewElement} {d : Descriptor} {ds : List Descriptor} {i : Identity}
      {is : List Identity} {a : NamedType} (name : e.name = d.elementNameAt n) (rank : e.rank = d.rank)
      (type : s.named? e.elementType = some a) (same : alike a.identity i) (rest : Fit s alike (n + 1) es ds is) :
      Fit s alike n (e :: es) (d :: ds) (i :: is)

theorem Fit.length (h : s.Fit alike n es ds is) : es.length = ds.length := by
  induction h with
  | nil => rfl
  | cons _ _ _ _ _ ih => rw [List.length_cons, List.length_cons, ih]

theorem Fit.named (h : s.Fit alike n es ds is) : ∀ e ∈ es, ∃ a, s.named? e.elementType = some a := by
  induction h with
  | nil => simp
  | cons _ _ type _ _ ih => exact List.forall_mem_cons.mpr ⟨⟨_, type⟩, ih⟩

theorem Fit.imp {alike' : Identity → Identity → Prop} (h : s.Fit alike n es ds is)
    (ht : ∀ e ∈ es, ∀ a, s.named? e.elementType = some a → ∃ b, t.named? e.elementType = some b ∧
      ∀ i, alike a.identity i → alike' b.identity i) : t.Fit alike' n es ds is := by
  induction h with
  | nil => exact .nil
  | @cons n e es d ds i is a name rank type same _ ih =>
    obtain ⟨b, hb, hab⟩ := ht e List.mem_cons_self a type
    exact .cons name rank hb (hab i same) (ih fun e' he' => ht e' (List.mem_cons_of_mem e he'))

theorem Fit.carried (h : s.Fit alike n es ds is) (hg : s.Carries t) : t.Fit alike n es ds is := by
  refine h.imp fun e _ a ha => ?_
  obtain ⟨b, hb, hidentity, -⟩ := hg.named _ a ha
  exact ⟨b, hb, fun i hi => hidentity ▸ hi⟩

/-- A tuple that has the elements of descriptors, with types of given identities. -/
def HasElements (s : Session) (ds : List Descriptor) (is : List Identity) (id : TypeId) : Prop :=
  ∃ rows, s.tupleElements id = .ok rows ∧
    s.Fit (fun i j => i.same j = true) 0 (rows.map TupleElement.content) ds is

/-- The oldest tuple with these elements. -/
structure FirstTuple (s : Session) (ds : List Descriptor) (is : List Identity) (id : TypeId) : Prop where
  has : s.HasElements ds is id
  least : ∀ j, s.HasElements ds is j → id.value ≤ j.value

theorem HasElements.carried (h : s.HasElements ds is id) (hs : s.Sane) (ht : t.Sane) (hg : s.Carries t) :
    t.HasElements ds is id := by
  obtain ⟨rows, hrows, hfit⟩ := h
  exact ⟨rows, hg.tupleElements hs ht hrows, hfit.carried hg⟩

theorem HasElements.of_carried (h : t.HasElements ds is id) (hs : s.Sane) (hg : s.Carries t)
    (hid : ∀ rows, t.tupleElements id = .ok rows → s.tupleElements id = .ok rows) : s.HasElements ds is id := by
  obtain ⟨rows, hrows, hfit⟩ := h
  have hold := hid rows hrows
  refine ⟨rows, hold, hfit.imp ?_⟩
  intro e he a ha
  obtain ⟨row, hrow, rfl⟩ := List.mem_map.mp he
  obtain ⟨-, rfl⟩ := hs.tupleElements_iff.mp hold
  obtain ⟨b, hb, hab⟩ := hg.identity_elementType hs (List.mem_filter.mp hrow).1 ha
  exact ⟨b, hb, fun i hi => hab ▸ hi⟩

theorem Sane.named_iff (hs : s.Sane) {j : TypeId} :
    (∃ a, s.named? j = some a) ↔ 0 < j.value ∧ j.value ≤ s.namedIds.used := by
  obtain ⟨-, c, f, hc⟩ := hs
  rw [hc.mem_named, hc.regular.named.mem_iff, List.length_map, hc.namedIds]

theorem HasElements.named (h : s.HasElements ds is id) (hs : s.Sane) : ∃ r, s.named? id = some (.tuple r) := by
  obtain ⟨rows, hrows, -⟩ := h
  exact (hs.tupleElements_iff.mp hrows).1

theorem FirstTuple.carried (h : s.FirstTuple ds is id) (hs : s.Sane) (ht : t.Sane) (hg : s.Carries t) :
    t.FirstTuple ds is id where
  has := h.has.carried hs ht hg
  least j hj := by
    obtain ⟨r, hr⟩ := hj.named ht
    -- an older row is the tuple that it was, a newer one has a higher id
    by_cases hold : ∃ a, s.named? j = some a
    · obtain ⟨a, ha⟩ := hold
      obtain rfl := hg.of_tuple ha hr
      refine h.least j (hj.of_carried hs hg ?_)
      intro rows hrows
      obtain ⟨-, rfl⟩ := ht.tupleElements_iff.mp hrows
      exact hs.tupleElements_iff.mpr ⟨⟨_, ha⟩, hs.filter_eq ht hg.elements ha hr⟩
    · obtain ⟨q, hq⟩ := h.has.named hs
      have hid := hs.named_iff.mp ⟨_, hq⟩
      have hnew := ht.named_iff.mp ⟨_, hr⟩
      rw [hs.named_iff] at hold
      omega

/-! The search -/

open Resolved in
theorem matchesFrom_iff {rows : List TupleElement} {rs : List Resolved} {b : Bool} (hr : ValidAll s rs)
    (hd : rows.length = ds.length) (hl : rs.length = ds.length) (h : matchesFrom s n rows ds rs = .ok b) :
    b = true ↔ s.Fit (fun i j => i.same j = true) n (rows.map TupleElement.content) ds (rs.map (identity s)) := by
  induction rows generalizing n ds rs with
  | nil =>
    obtain rfl := List.length_eq_zero_iff.mp hd.symm
    obtain rfl := List.length_eq_zero_iff.mp hl
    cases h
    exact ⟨fun _ => .nil, fun _ => rfl⟩
  | cons row rows ih =>
    cases ds with
    | nil => cases hd
    | cons d ds =>
      cases rs with
      | nil => cases hl
      | cons r rs =>
        unfold matchesFrom at h
        split at h
        · next hne =>
          cases h
          refine ⟨by simp, ?_⟩
          rintro (_ | ⟨hname, hrank, -, -, -⟩)
          simp only [TupleElement.content] at hname hrank
          simp [hname, hrank] at hne
        · next heq =>
          simp only [Bool.or_eq_true, bne_iff_ne, ne_eq, not_or, not_not] at heq
          obtain ⟨a, ha, h⟩ := bind_eq_ok.mp h
          have hnamed : s.named? row.elementType = some a := by
            unfold requireNamed at ha
            split at ha
            · next hfound =>
              cases ha
              exact hfound
            · cases ha
          rw [sameIdentity_identity hr.1, ok_bind] at h
          split at h
          · next hsame =>
            rw [ih hr.2 (Nat.succ.inj hd) (Nat.succ.inj hl) h]
            constructor
            · exact fun hrest => .cons heq.1 heq.2 hnamed hsame hrest
            · rintro (_ | ⟨-, -, -, -, hrest⟩)
              exact hrest
          · next hdiffer =>
            cases h
            refine ⟨by simp, ?_⟩
            rintro (_ | ⟨-, -, htype, hsame, -⟩)
            have heq := Option.some.inj (htype.symm.trans hnamed)
            subst heq
            exact absurd hsame hdiffer

open Resolved in
theorem tupleMatches_iff {rs : List Resolved} {b : Bool} (hr : ValidAll s rs) (hl : rs.length = ds.length)
    (h : tupleMatches s ds rs id = .ok b) : b = true ↔ s.HasElements ds (rs.map (identity s)) id := by
  obtain ⟨rows, hrows, h⟩ := bind_eq_ok.mp h
  have hiff : s.HasElements ds (rs.map (identity s)) id ↔
      s.Fit (fun i j => i.same j = true) 0 (rows.map TupleElement.content) ds (rs.map (identity s)) := by
    constructor
    · rintro ⟨rows', hrows', hfit⟩
      rw [hrows] at hrows'
      cases hrows'
      exact hfit
    · exact fun hfit => ⟨rows, hrows, hfit⟩
  rw [hiff]
  split at h
  · next hlength => exact matchesFrom_iff hr hlength hl h
  · next hlength =>
    cases h
    refine ⟨by simp, fun hfit => absurd ?_ hlength⟩
    simpa using hfit.length

open Resolved in
theorem firstTuple_spec {rs : List Resolved} (hr : ValidAll s rs) (hl : rs.length = ds.length) {ids : List TypeId}
    (hids : ids.Pairwise fun i j => i.value < j.value) {found : Option TypeId}
    (h : firstTuple s ds rs ids = .ok found) :
    (∀ i, found = some i → s.HasElements ds (rs.map (identity s)) i ∧
      ∀ j ∈ ids, s.HasElements ds (rs.map (identity s)) j → i.value ≤ j.value) ∧
    (found = none → ∀ j ∈ ids, ¬ s.HasElements ds (rs.map (identity s)) j) := by
  -- the candidates ascend, so the first with these elements is the oldest
  induction ids with
  | nil =>
    cases h
    exact ⟨by rintro i ⟨⟩, by simp⟩
  | cons id ids ih =>
    obtain ⟨hfirst, hids⟩ := List.pairwise_cons.mp hids
    obtain ⟨b, hb, h⟩ := bind_eq_ok.mp h
    have hmatch := tupleMatches_iff hr hl hb
    cases b with
    | true =>
      cases h
      refine ⟨?_, by rintro ⟨⟩⟩
      rintro i ⟨⟩
      refine ⟨hmatch.mp rfl, ?_⟩
      intro j hj _
      rcases List.mem_cons.mp hj with rfl | hj
      · exact Nat.le_refl _
      · exact Nat.le_of_lt (hfirst j hj)
    | false =>
      have hnot : ¬ s.HasElements ds (rs.map (identity s)) id := fun hhas => Bool.false_ne_true (hmatch.mpr hhas)
      obtain ⟨hsome, hnone⟩ := ih hids h
      constructor
      · intro i hi
        refine ⟨(hsome i hi).1, ?_⟩
        intro j hj hhas
        rcases List.mem_cons.mp hj with rfl | hj
        · exact absurd hhas hnot
        · exact (hsome i hi).2 j hj hhas
      · intro hi j hj
        rcases List.mem_cons.mp hj with rfl | hj
        · exact hnot
        · exact hnone hi j hj

theorem HasElements.candidate (h : s.HasElements ds is id) (hs : s.Sane) : id ∈ s.tupleCandidates ds.length := by
  obtain ⟨rows, hrows, hfit⟩ := h
  obtain ⟨⟨r, hr⟩, rfl⟩ := hs.tupleElements_iff.mp hrows
  have hlength := hfit.length
  have helements := hs.tuple_elements hr
  rw [List.length_map] at hlength
  refine List.mem_map.mpr ⟨(id, .tuple r), List.mem_filter.mpr ⟨?_, ?_⟩, rfl⟩
  · exact List.mem_of_find?_eq_some (find?_of_named?.mp hr)
  · show (r.elements.length == ds.length) = true
    rw [helements, List.length_map, hlength]
    exact beq_self_eq_true _

theorem ascending_tupleCandidates (hs : s.Numbered) {count : Nat} :
    (s.tupleCandidates count).Pairwise fun i j => i.value < j.value :=
  hs.named.ascending.sublist (List.filter_sublist.map _)

open Resolved in
theorem firstTuple_first (hs : s.Sane) {rs : List Resolved} (hr : ValidAll s rs) (hl : rs.length = ds.length)
    (h : firstTuple s ds rs (s.tupleCandidates ds.length) = .ok (some id)) :
    s.FirstTuple ds (rs.map (identity s)) id := by
  obtain ⟨hhas, hleast⟩ := (firstTuple_spec hr hl (ascending_tupleCandidates hs.numbered) h).1 id rfl
  exact ⟨hhas, fun j hj => hleast j (hj.candidate hs) hj⟩

open Resolved in
theorem firstTuple_none (hs : s.Sane) {rs : List Resolved} (hr : ValidAll s rs) (hl : rs.length = ds.length)
    (h : firstTuple s ds rs (s.tupleCandidates ds.length) = .ok none) (j : TypeId) :
    ¬ s.HasElements ds (rs.map (identity s)) j := by
  intro hj
  exact (firstTuple_spec hr hl (ascending_tupleCandidates hs.numbered) h).2 rfl j (hj.candidate hs) hj

/-! A new tuple -/

theorem map_content_numberedElements {k ordinal : Nat} :
    (numberedElements id k ordinal es).map TupleElement.content = es := by
  induction es generalizing k ordinal with
  | nil => rfl
  | cons e es ih => rw [numberedElements, List.map_cons, ih]; rfl

theorem tupleElements_addTuple (hs : s.Sane) (ht : t.Sane) {name : String} (ha : s.addTuple name es = .ok (id, t))
    (j : TypeId) (rows : List TupleElement) :
    t.tupleElements j = .ok rows ↔ j = id ∧ rows = numberedElements id s.elementIds.used 0 es ∨
      j ≠ id ∧ s.tupleElements j = .ok rows := by
  have hg := grows_addTuple ha
  have hnew : ¬ ∃ a, s.named? id = some a := by
    obtain ⟨-, -, rfl, -⟩ := addTuple_ok ha
    rw [hs.named_iff]
    dsimp only
    omega
  have hid : t.tupleElements id = .ok (numberedElements id s.elementIds.used 0 es) := by
    rw [ht.tupleElements_iff]
    -- elements belong to rows that are there, so none belongs to the new one yet
    have hnone : s.elements.filter (·.tuple == id) = [] := by
      rw [List.filter_eq_nil_iff]
      intro e he heq
      obtain ⟨-, c, f, hc⟩ := hs
      obtain ⟨r, hr⟩ := hc.regular.owner e (hc.elements ▸ he)
      rw [beq_iff_eq.mp heq] at hr
      exact hnew (hc.mem_named.mpr (List.mem_map_of_mem hr))
    rw [not_exists, ← Option.eq_none_iff_forall_ne_some] at hnew
    obtain ⟨-, -, rfl, rfl⟩ := addTuple_ok ha
    constructor
    · exact ⟨_, (named?_concat rfl _).trans (by rw [hnew, Option.none_or, if_pos rfl])⟩
    · dsimp only
      rw [List.filter_append, hnone, List.nil_append, filter_numberedElements_self]
  constructor
  · intro hj
    by_cases hji : j = id
    · subst hji
      rw [hid] at hj
      cases hj
      exact .inl ⟨rfl, rfl⟩
    · refine .inr ⟨hji, ?_⟩
      obtain ⟨⟨r, hr⟩, rfl⟩ := ht.tupleElements_iff.mp hj
      have hold : s.named? j = some (.tuple r) := by
        obtain ⟨-, -, rfl, rfl⟩ := addTuple_ok ha
        rw [named?_concat rfl, if_neg hji, Option.or_none] at hr
        exact hr
      exact hs.tupleElements_iff.mpr ⟨⟨r, hold⟩, hs.filter_eq ht hg.elements hold hr⟩
  · rintro (⟨rfl, rfl⟩ | ⟨-, hj⟩)
    · exact hid
    · exact hg.carries.tupleElements hs ht hj

theorem Fit.of_agree {rows rows' : List TupleElement} (h : List.Forall₂ s.Agree rows rows')
    (hfit : s.Fit Eq n (rows.map TupleElement.content) ds is) :
    s.Fit (fun i j => i.same j = true) n (rows'.map TupleElement.content) ds is := by
  induction h generalizing n ds is with
  | nil =>
    cases hfit
    exact .nil
  | cons hagree _ ih =>
    cases hfit with
    | cons name rank type same rest =>
      obtain ⟨a, b, ha, hb, hab⟩ := hagree.type
      have heq := Option.some.inj (type.symm.trans ha)
      subst heq
      subst same
      refine .cons (hagree.name.symm.trans name) (hagree.rank.symm.trans rank) hb ?_ (ih rest)
      rwa [Identity.same_comm, ← NamedType.sameIdentity_eq]

/-- A tuple that is added because there is none with its elements is the first one and leaves the session
tidy. -/
theorem Tidy.addTuple (h : s.Tidy) (hs : s.Sane) (ht : t.Sane) {name : String}
    (ha : s.addTuple name es = .ok (id, t)) (hfit : s.Fit Eq 0 es ds is) (hnone : ∀ j, ¬ s.HasElements ds is j) :
    t.Tidy ∧ t.FirstTuple ds is id := by
  have hg := grows_addTuple ha
  have hrows := tupleElements_addTuple hs ht ha
  have hold {j : TypeId} (hj : j ≠ id) (rows : List TupleElement) (h : t.tupleElements j = .ok rows) :
      s.tupleElements j = .ok rows := by
    rcases (hrows j rows).mp h with ⟨heq, -⟩ | ⟨-, h⟩
    · exact absurd heq hj
    · exact h
  -- what agrees with the new tuple has its elements, and nothing else has them
  have hleast : ∀ j, t.HasElements ds is j → j = id := by
    intro j hj
    by_contra hne
    exact hnone j (hj.of_carried hs hg.carries (hold hne))
  have hexact : t.Fit Eq 0 ((numberedElements id s.elementIds.used 0 es).map TupleElement.content) ds is := by
    rw [map_content_numberedElements]
    exact hfit.carried hg.carries
  have hself : t.tupleElements id = .ok (numberedElements id s.elementIds.used 0 es) := (hrows _ _).mpr (.inl ⟨rfl, rfl⟩)
  have hnew {j : TypeId} {rows : List TupleElement} (hj : t.tupleElements j = .ok rows)
      (hagree : List.Forall₂ t.Agree (numberedElements id s.elementIds.used 0 es) rows) : j = id :=
    hleast j ⟨rows, hj, .of_agree hagree hexact⟩
  refine ⟨⟨?_, ?_⟩, ⟨_, hself, ?_⟩, ?_⟩
  · intro i j rows rows' hi hj hagree
    by_cases hii : i = id
    · subst hii
      rw [hself] at hi
      cases hi
      exact (hnew hj hagree).symm
    · by_cases hjj : j = id
      · subst hjj
        rw [hself] at hj
        cases hj
        exact hnew hi (hagree.flip.imp fun _ _ hee => hee.symm)
      · have hsi := hold hii rows hi
        have hsj := hold hjj rows' hj
        refine h.distinct i j rows rows' hsi hsj (forall₂_of_mem hagree ?_)
        obtain ⟨-, rfl⟩ := hs.tupleElements_iff.mp hsi
        obtain ⟨-, rfl⟩ := hs.tupleElements_iff.mp hsj
        intro e he e' he' hee
        exact hee.imp (fun _ => hg.carries.identity_elementType hs (List.mem_filter.mp he).1)
          fun _ => hg.carries.identity_elementType hs (List.mem_filter.mp he').1
  · intro i rows hi
    rcases (hrows i rows).mp hi with ⟨rfl, rfl⟩ | ⟨-, hi⟩
    · rw [map_ordinal_numberedElements, length_numberedElements, List.range_eq_range']
    · exact h.ordinals i rows hi
  · exact hexact.imp fun e _ a ha => ⟨a, ha, fun i hi => hi ▸ a.identity.same_self⟩
  · intro j hj
    rw [hleast j hj]

end Session

end TypeCatalog
