import TypeCatalog.Proofs.Contents

namespace TypeCatalog

theorem Cell.nat_le {m n : Nat} (h : m ≤ n) : (Cell.nat m).le (.nat n) := by
  simp [Cell.nat, Cell.le, h]

namespace Database

variable {db : Database} {c : Contents}

/-- A table that is numbered in order is read as it is. -/
theorem ordered_counted {α : Type} {e : Entity} {t : Table} {xs : List α} {encode : α → Row}
    {id : α → RowId e} (hrows : db.rows t = xs.map encode)
    (hcell : ∀ x, (encode x).cell 0 = Encode.id (id x)) (h : Counted (xs.map id)) :
    db.ordered t [0] = xs.map encode := by
  rw [ordered_of_pairwise, hrows]
  rw [hrows, List.pairwise_map]
  refine (List.pairwise_map.mp h.ascending).imp ?_
  intro x y hxy
  rw [Row.before_singleton, hcell, hcell]
  exact .inl (Cell.nat_le (Nat.le_of_lt hxy))

/-- The rows that hang on one row of a table whose ids do not repeat. -/
theorem filter_flatMap_eq {α : Type} {e : Entity} {xs : List α} {id : α → RowId e} {below : α → List Row}
    (hbelow : ∀ x, ∀ row ∈ below x, row.cell 0 = Encode.id (id x)) (hn : (xs.map id).Nodup) {x : α}
    (hx : x ∈ xs) : (xs.flatMap below).filter (·.cell 0 == Encode.id (id x)) = below x := by
  have hne {y : α} (hy : id y ≠ id x) : (below y).filter (·.cell 0 == Encode.id (id x)) = [] := by
    rw [List.filter_eq_nil_iff]
    intro row hrow
    rw [hbelow y row hrow, beq_iff_eq, Encode.id_inj]
    exact hy
  have heq : (below x).filter (·.cell 0 == Encode.id (id x)) = below x := by
    rw [List.filter_eq_self]
    intro row hrow
    rw [hbelow x row hrow, beq_iff_eq]
  induction xs with
  | nil => simp at hx
  | cons y ys ih =>
    rw [List.map_cons, List.nodup_cons] at hn
    rw [List.flatMap_cons, List.filter_append]
    rcases List.mem_cons.mp hx with rfl | hx
    · have hrest : (ys.flatMap below).filter (·.cell 0 == Encode.id (id x)) = [] := by
        rw [List.filter_flatMap, List.flatMap_eq_nil_iff]
        intro z hz
        apply hne
        intro hzx
        exact hn.1 (hzx ▸ List.mem_map_of_mem hz)
      rw [heq, hrest, List.append_nil]
    · have hyx : id y ≠ id x := by
        intro hyx
        exact hn.1 (hyx ▸ List.mem_map_of_mem hx)
      rw [hne hyx, List.nil_append, ih hn.2 hx]

/-- Rows that are numbered in order below one row are read in that order. -/
theorem filter_ordered_eq {α : Type} {e : Entity} {t : Table} {xs : List α} {id : α → RowId e}
    {below : α → List Row} (hrows : db.rows t = xs.flatMap below)
    (hbelow : ∀ x, ∀ row ∈ below x, row.cell 0 = Encode.id (id x)) (hn : (xs.map id).Nodup) {x : α}
    (hx : x ∈ xs) {n : Nat} (hordinal : (below x).map (·.cell 1) = (List.range n).map .nat) :
    (db.ordered t [1]).filter (·.cell 0 == Encode.id (id x)) = below x := by
  have hfilter : (db.rows t).filter (·.cell 0 == Encode.id (id x)) = below x := by
    rw [hrows]
    exact filter_flatMap_eq hbelow hn hx
  rw [filter_ordered, hfilter]
  rw [hfilter]
  have hpair : ((below x).map (·.cell 1)).Pairwise fun a b => a.le b := by
    rw [hordinal, List.pairwise_map]
    exact List.pairwise_lt_range.imp fun h => Cell.nat_le (Nat.le_of_lt h)
  refine (List.pairwise_map.mp hpair).imp ?_
  intro r q hrq
  exact Row.before_singleton.mpr (.inl hrq)

theorem loadFile_eq (hh : db.Holds c) (hs : c.Regular) (hl : c.Linked) {f : SourceFile} (hf : f ∈ c.files) :
    db.loadFile (f.id.value, f.path.text) = .ok f := by
  have hcell : ∀ f : SourceFile, ∀ row ∈ Encode.usings f, row.cell 0 = Encode.id f.id := by
    intro f row hrow
    obtain ⟨⟨u, k⟩, _, rfl⟩ := List.mem_map.mp hrow
    rfl
  have hordinal : (Encode.usings f).map (·.cell 1) = (List.range f.usings.length).map .nat := by
    unfold Encode.usings
    rw [List.map_map, List.range_eq_range', ← List.zipIdx_map_snd 0 f.usings, List.map_map]
    rfl
  have hown : (db.ordered .fileUsings [1]).filter (·.cell 0 == .nat f.id.value) = Encode.usings f :=
    filter_ordered_eq hh.usings hcell hs.files.nodup hf hordinal
  have hread : (Encode.usings f).mapM (fun r => Decode.onlyNat "namespace_id" (r.cell 2)) =
      .ok (f.usings.zipIdx.map fun u => u.1.value) := by
    apply mapM_eq_ok
    rintro ⟨u, k⟩ hu
    have hu : u ∈ f.usings := List.fst_mem_of_mem_zipIdx hu
    exact Row.getNat_nat rfl (hs.namespaces.le_largest (hl.imported f hf u hu))
  have hback : (f.usings.zipIdx.map fun u => u.1.value).map (fun n => (⟨n⟩ : NamespaceId)) = f.usings := by
    rw [List.map_map]
    exact List.zipIdx_map_fst 0 f.usings
  unfold loadFile
  dsimp only
  rw [hown, hread]
  change Except.ok (SourceFile.mk f.id f.path
    ((f.usings.zipIdx.map fun u => u.1.value).map fun n => (⟨n⟩ : NamespaceId))) = _
  rw [hback]

/-- The type parameters of a documented type are read back if there are no more than 32 bits count. -/
theorem parametersOf_eq (hh : db.Holds c) (hs : c.Sound) {i : TypeId} {d : Documented}
    (hd : (i, .documented d) ∈ c.named) (ha : d.arity ≤ RowId.largest) {ps : List TypeParameter}
    (hps : d.parameters = some ps) : db.parametersOf i = .ok ps := by
  obtain ⟨ps', hps', hord⟩ := hs.documented i d hd
  rw [hps] at hps'
  cases hps'
  have hcell : ∀ r : TypeId × NamedType, ∀ row ∈ Encode.parameters r, row.cell 0 = Encode.id r.1 := by
    rintro ⟨i, a⟩ row hrow
    cases a with
    | documented d =>
      obtain ⟨p, _, rfl⟩ := List.mem_map.mp hrow
      rfl
    | external x => cases hrow
    | parameter p => cases hrow
    | tuple t => cases hrow
  have hrows : Encode.parameters (i, .documented d) = ps.map (Encode.parameter i) := by
    show (d.parameters.getD []).map _ = _
    rw [hps]
    rfl
  have hordinal : (Encode.parameters (i, .documented d)).map (·.cell 1) = (List.range d.arity).map .nat := by
    rw [hrows, List.map_map, ← hord, List.map_map]
    rfl
  have hown : (db.ordered .typeParameters [1]).filter (·.cell 0 == .nat i.value) =
      ps.map (Encode.parameter i) := by
    rw [← hrows]
    exact filter_ordered_eq hh.parameters hcell hs.named.nodup hd hordinal
  have hread : (ps.map (Encode.parameter i)).mapM Decode.rawParameter =
      .ok (ps.map fun p => (p.ordinal, p.name, TextForm.text p.variance)) := by
    apply mapM_eq_ok
    intro p hp
    apply Decode.rawParameter_encode
    have hp : p.ordinal ∈ List.range d.arity := hord ▸ List.mem_map_of_mem hp
    rw [List.mem_range] at hp
    omega
  unfold parametersOf
  dsimp only
  rw [hown, hread]
  change (ps.map _).mapM _ = _
  conv => rhs; rw [← List.map_id ps]
  apply mapM_eq_ok
  intro p _
  dsimp only
  rw [Decode.word_text]
  rfl

theorem exists_map_eq {α β : Type} {f : α → β} {ys : List β} (h : ∀ y ∈ ys, ∃ x, y = f x) :
    ∃ xs : List α, ys = xs.map f := by
  induction ys with
  | nil => exact ⟨[], rfl⟩
  | cons y ys ih =>
    obtain ⟨x, rfl⟩ := h y List.mem_cons_self
    obtain ⟨xs, rfl⟩ := ih fun z hz => h z (List.mem_cons_of_mem _ hz)
    exact ⟨x :: xs, rfl⟩

/-- The namespaces of an external type are read back, in whatever order they are stored. -/
theorem external_raw (hh : db.Holds c) (hs : c.Regular) {i : TypeId} {x : External}
    (hx : (i, .external x) ∈ c.named) : Decode.external db (NamedType.raw i (.external x)) = .ok x := by
  have hmem (row : Row) : row ∈ (db.rows .externalNamespaces).filter (·.cell 0 == .nat i.value) ↔
      ∃ n ∈ x.namespaces.names, row = Encode.externalNamespace i n := by
    rw [List.mem_filter, hh.external, beq_iff_eq]
    constructor
    · rintro ⟨⟨j, y, n, hy, hn, rfl⟩, hj⟩
      have hj : j = i := Encode.id_inj.mp hj
      subst hj
      have hxy := hs.named.unique hy hx
      rw [NamedType.external.injEq] at hxy
      subst hxy
      exact ⟨n, hn, rfl⟩
    · rintro ⟨n, hn, rfl⟩
      exact ⟨⟨i, x, n, hx, hn, rfl⟩, rfl⟩
  obtain ⟨names, hnames⟩ : ∃ names : List String, (db.rows .externalNamespaces).filter
      (·.cell 0 == .nat i.value) = names.map (Encode.externalNamespace i) := by
    apply exists_map_eq
    intro row hrow
    obtain ⟨n, _, hn⟩ := (hmem row).mp hrow
    exact ⟨n, hn⟩
  -- the rows come in the order of the table, and the set brings them into its own
  have hset : NameSet.ofList names = x.namespaces := by
    apply (NameSet.ascending_ofList names).ext (hs.external i x hx)
    intro n
    have hrow := hmem (Encode.externalNamespace i n)
    rw [hnames] at hrow
    have hinj : ∀ m, Encode.externalNamespace i n = Encode.externalNamespace i m ↔ n = m := by
      intro m
      simp [Encode.externalNamespace]
    simp only [List.mem_map, hinj, exists_eq_right'] at hrow
    rw [NameSet.mem_ofList, ← hrow]
    constructor
    · intro hn
      exact ⟨n, hn, rfl⟩
    · rintro ⟨m, hm, hmn⟩
      rw [← (hinj m).mp hmn.symm] at hm
      exact hm
  have hread : (names.map (Encode.externalNamespace i)).mapM
      (fun q => Decode.onlyText "namespace" (q.cell 1)) = .ok (names.map fun n => n) :=
    mapM_eq_ok fun n _ => rfl
  have hown : (db.rows .externalNamespaces).filter
      (·.cell 0 == .nat (NamedType.raw i (.external x)).id) = _ := hnames
  unfold Decode.external
  dsimp only
  rw [hown, hread, List.map_id']
  change (Decode.word Accessibility "accessibility" (TextForm.text x.access) >>= fun b =>
    Except.ok (External.mk x.name x.arity b (.ofList names))) = _
  rw [Decode.word_text, hset]
  rfl

theorem documented_raw (hs : c.Regular) (hl : c.Linked) {i : TypeId} {d : Documented}
    (hd : (i, .documented d) ∈ c.named) : Decode.documented (NamedType.raw i (.documented d)) =
      .ok { d with parameters := if d.arity = 0 then some [] else none } := by
  change (Decode.word DeclKind "decl_kind" (TextForm.text d.declKind) >>= fun k =>
    Decode.word Accessibility "accessibility" (TextForm.text d.access) >>= fun b =>
      Except.ok (Documented.mk d.name d.fullName d.home
        ((d.container.map fun j => j.value).bind RowId.ofNat?) k b d.file d.arity
        (if d.arity = 0 then some [] else none))) = _
  rw [Decode.word_text, Decode.word_text,
    RowId.bind_ofNat? fun j hj => hs.named.pos ((hl.named _ hd).2.2 j hj).1]
  rfl

theorem namedType_raw (hh : db.Holds c) (hs : c.Regular) (hl : c.Linked) {r : TypeId × NamedType}
    (hr : r ∈ c.named) : Decode.namedType db (r.2.raw r.1) = .ok (r.1, r.2.bare) := by
  obtain ⟨i, a⟩ := r
  cases a with
  | documented d =>
    change (Decode.documented (NamedType.raw i (.documented d)) >>= fun d =>
      Except.ok (i, NamedType.documented d)) = _
    rw [documented_raw hs hl hr]
    rfl
  | external x =>
    change (Decode.external db (NamedType.raw i (.external x)) >>= fun x =>
      Except.ok (i, NamedType.external x)) = _
    rw [external_raw hh hs hr]
    rfl
  | parameter p => rfl
  | tuple t => rfl

end Database

/-- A tuple with more elements. -/
def NamedType.addElements (ids : List ElementId) : NamedType → NamedType
  | .tuple t => .tuple { t with elements := t.elements ++ ids }
  | a => a

theorem NamedType.addElements_nil (a : NamedType) : a.addElements [] = a := by
  cases a with
  | tuple t => simp [addElements]
  | documented d => rfl
  | external x => rfl
  | parameter p => rfl

theorem NamedType.addElements_addElements (a : NamedType) (ids more : List ElementId) :
    (a.addElements ids).addElements more = a.addElements (ids ++ more) := by
  cases a with
  | tuple t => simp [addElements]
  | documented d => rfl
  | external x => rfl
  | parameter p => rfl

namespace Decode

variable {rows : List (TypeId × NamedType)}

theorem attach_eq {e : TupleElement} {t : Tuple} (hn : (rows.map (·.1)).Nodup)
    (ht : (e.tuple, .tuple t) ∈ rows) :
    attach rows e = .ok (rows.map fun r => (r.1, r.2.addElements (if r.1 = e.tuple then [e.id] else []))) := by
  have hfind : rows.find? (·.1 == e.tuple) = some (e.tuple, .tuple t) := find?_of_nodup hn ht
  unfold attach
  rw [hfind]
  change Except.ok _ = _
  congr 1
  apply List.map_congr_left
  rintro ⟨i, a⟩ hr
  dsimp only
  by_cases hi : i = e.tuple
  · subst hi
    have ha := List.inj_on_of_nodup_map hn hr ht rfl
    rw [Prod.mk.injEq] at ha
    rw [if_pos rfl, if_pos rfl, ha.2]
    rfl
  · rw [if_neg hi, if_neg hi, NamedType.addElements_nil]

/-- The elements of a tuple are attached in the order that they are read in. -/
theorem foldlM_attach {es : List TupleElement} (hn : (rows.map (·.1)).Nodup)
    (ht : ∀ e ∈ es, ∃ t, (e.tuple, .tuple t) ∈ rows) :
    es.foldlM attach rows =
      .ok (rows.map fun r => (r.1, r.2.addElements ((es.filter (·.tuple == r.1)).map (·.id)))) := by
  -- the rows change with every element, but their ids do not
  induction es generalizing rows with
  | nil =>
    change Except.ok rows = _
    congr 1
    conv => lhs; rw [← List.map_id rows]
    apply List.map_congr_left
    rintro ⟨i, a⟩ _
    exact Prod.ext rfl (NamedType.addElements_nil a).symm
  | cons e es ih =>
    obtain ⟨t, hte⟩ := ht e List.mem_cons_self
    rw [List.foldlM_cons, attach_eq hn hte]
    change es.foldlM attach _ = _
    rw [ih]
    · congr 1
      rw [List.map_map]
      apply List.map_congr_left
      rintro ⟨i, a⟩ _
      dsimp only [Function.comp_apply]
      rw [NamedType.addElements_addElements, List.filter_cons]
      by_cases hi : i = e.tuple
      · subst hi
        simp
      · have hne : (e.tuple == i) = false := beq_eq_false_iff_ne.mpr (Ne.symm hi)
        simp [hi, hne]
    · rw [List.map_map]
      exact hn
    · intro d hd
      obtain ⟨u, hu⟩ := ht d (List.mem_cons_of_mem e hd)
      exact ⟨_, List.mem_map.mpr ⟨_, hu, rfl⟩⟩

end Decode

namespace Database

variable {db : Database} {c : Contents}

theorem foldlM_attach_bare (hs : c.Regular) :
    c.elements.foldlM Decode.attach (c.named.map fun r => (r.1, r.2.bare)) =
      .ok (c.named.map fun r => (r.1, r.2.unloaded)) := by
  rw [Decode.foldlM_attach]
  · congr 1
    rw [List.map_map]
    apply List.map_congr_left
    rintro ⟨i, a⟩ hr
    cases a with
    | tuple t =>
      show (i, NamedType.tuple { t with elements := [] ++ _ }) = (i, NamedType.tuple t)
      rw [List.nil_append, ← hs.tuple i t hr]
    | documented d => rfl
    | external x => rfl
    | parameter p => rfl
  · rw [List.map_map]
    exact hs.named.nodup
  · intro e he
    obtain ⟨t, ht⟩ := hs.owner e he
    exact ⟨_, List.mem_map.mpr ⟨_, ht, rfl⟩⟩

theorem ordered_elements (hh : db.Holds c) (hs : c.Regular) :
    db.ordered .tupleElements [1, 2] = c.elements.map Encode.tupleElement := by
  rw [ordered_of_pairwise, hh.elements]
  rw [hh.elements, List.pairwise_map]
  refine hs.sorted.imp ?_
  intro d e hde
  rw [Row.before_iff]
  intro i hi
  rcases hde with hlt | ⟨heq, hlt⟩
  · have hne : (Encode.tupleElement d).cell 1 ≠ (Encode.tupleElement e).cell 1 := by
      intro h
      rw [Encode.id_inj.mp h] at hlt
      exact Nat.lt_irrefl _ hlt
    rw [List.find?_cons_of_pos (by simpa using hne)] at hi
    cases hi
    exact Cell.nat_le (Nat.le_of_lt hlt)
  · have hsame : (Encode.tupleElement d).cell 1 = (Encode.tupleElement e).cell 1 := congrArg Encode.id heq
    rw [List.find?_cons_of_neg (by simpa using hsame)] at hi
    have hi : i = 2 := by simpa using List.mem_of_find?_eq_some hi
    subst hi
    exact Cell.nat_le (Nat.le_of_lt hlt)

/-- The highest id of a table that is numbered without gaps. -/
theorem lastId_eq {α : Type} {e : Entity} {t : Table} {xs : List α} {encode : α → Row}
    {id : α → RowId e} (hrows : db.rows t = xs.map encode)
    (hcell : ∀ x, (encode x).cell 0 = Encode.id (id x)) (h : Counted (xs.map id)) :
    db.lastId t = xs.length := by
  have hids : (xs.map encode).filterMap (fun r => (r.cell 0).int?) = xs.map fun x => ((id x).value : Int) := by
    rw [List.filterMap_map, ← List.filterMap_eq_map]
    apply List.filterMap_congr
    intro x _
    dsimp only [Function.comp_apply]
    rw [hcell]
    rfl
  have hvalues : xs.map (fun x => ((id x).value : Int)) = (List.range' 1 xs.length).map Int.ofNat := by
    have hv := h.values
    rw [List.length_map] at hv
    rw [← hv, List.map_map, List.map_map]
    rfl
  have hroom := h.room
  rw [List.length_map] at hroom
  unfold lastId
  rw [hrows, hids, hvalues]
  -- an empty table has no highest id and counts as 0; otherwise the id has 32 bits and is not cut
  by_cases hxs : xs.length = 0
  · rw [hxs]
    rfl
  · have hmax : ((List.range' 1 xs.length).map Int.ofNat).max? = some (xs.length : Int) := by
      rw [List.max?_eq_some_iff]
      constructor
      · apply List.mem_map_of_mem
        rw [List.mem_range'_1]
        omega
      · intro n hn
        obtain ⟨m, hm, rfl⟩ := List.mem_map.mp hn
        rw [List.mem_range'_1] at hm
        exact Int.ofNat_le.mpr (by omega)
    rw [hmax]
    show ((xs.length : Int) % 4294967296).toNat = xs.length
    unfold RowId.largest at hroom
    omega

theorem decode_namespaces (hh : db.Holds c) (hs : c.Regular) (hl : c.Linked) :
    (db.ordered .namespaces [0]).mapM Decode.namespace = .ok c.namespaces := by
  rw [ordered_counted hh.namespaces (fun _ => rfl) hs.namespaces]
  conv => rhs; rw [← List.map_id c.namespaces]
  apply mapM_eq_ok
  intro n hn
  apply Decode.namespace_encode (hs.namespaces.le_largest (List.mem_map_of_mem hn))
  intro p hp
  have hmem := (hl.parent n hn p hp).1
  exact ⟨hs.namespaces.pos hmem, hs.namespaces.le_largest hmem⟩

theorem decode_fileHeads (hh : db.Holds c) (hs : c.Regular) :
    (db.ordered .sourceFiles [0]).mapM Decode.fileHead = .ok (c.files.map fun f => (f.id.value, f.path.text)) := by
  rw [ordered_counted hh.files (fun _ => rfl) hs.files]
  apply mapM_eq_ok
  intro f hf
  exact Decode.fileHead_encode (hs.files.le_largest (List.mem_map_of_mem hf))

theorem loadFiles_eq (hh : db.Holds c) (hs : c.Regular) (hl : c.Linked) :
    (c.files.map fun f => (f.id.value, f.path.text)).mapM db.loadFile = .ok c.files := by
  conv => rhs; rw [← List.map_id c.files]
  apply mapM_eq_ok
  intro f hf
  exact loadFile_eq hh hs hl hf

theorem decode_rawNamedTypes (hh : db.Holds c) (hs : c.Regular) (hl : c.Linked) {rows : List RawNamedType} :
    (db.ordered .namedTypes [0]).mapM Decode.rawNamedType = .ok rows ↔
      (∀ r ∈ c.named, r.2.number ≤ RowId.largest) ∧ rows = c.named.map fun r => r.2.raw r.1 := by
  rw [ordered_counted hh.named Encode.cell_zero_namedType hs.named]
  apply mapM_eq_ok_iff
  intro r hr q
  apply Decode.rawNamedType_encode (hs.named.le_largest (List.mem_map_of_mem hr))
  exact (hl.named r hr).mono (fun _ => hs.namespaces.le_largest) (fun _ => hs.files.le_largest)
    fun _ hj => hs.named.le_largest hj.1

theorem decode_tupleElements (hh : db.Holds c) (hs : c.Regular) (hl : c.Linked) {rows : List TupleElement} :
    (db.ordered .tupleElements [1, 2]).mapM Decode.tupleElement = .ok rows ↔
      (∀ e ∈ c.elements, e.ordinal ≤ RowId.largest ∧ e.rank ≤ RowId.largest) ∧ rows = c.elements := by
  rw [ordered_elements hh hs]
  conv => rhs; rw [← List.map_id c.elements]
  rw [mapM_eq_ok_iff (p := fun e => e.ordinal ≤ RowId.largest ∧ e.rank ≤ RowId.largest) (h := id)]
  · simp
  · intro e he q
    apply Decode.tupleElement_encode (hs.elements.le_largest (List.mem_map_of_mem he))
    · exact hs.named.le_largest (hl.element e he).1
    · exact hs.named.le_largest (hl.element e he).2

/-- A store is opened exactly if its numbers have 32 bits, and then its rows are read back. -/
theorem load_iff (hh : db.Holds c) (hs : c.Regular) (hl : c.Linked) {l : Loaded} :
    db.load = .ok l ↔ c.Bounded ∧ l = c.loaded := by
  have hnamed : (c.named.map fun r => r.2.raw r.1).mapM (Decode.namedType db) =
      .ok (c.named.map fun r => (r.1, r.2.bare)) :=
    mapM_eq_ok fun r hr => namedType_raw hh hs hl hr
  have hreference := lastId_eq hh.references (fun _ => rfl) hs.references
  have husage := lastId_eq hh.usages (fun _ => rfl) hs.usages
  unfold load
  rw [decode_namespaces hh hs hl, decode_fileHeads hh hs]
  simp only [bind_eq_ok, Except.ok.injEq, exists_eq_left', loadFiles_eq hh hs hl, decode_rawNamedTypes hh hs hl,
    decode_tupleElements hh hs hl]
  rw [hreference, husage]
  constructor
  · rintro ⟨rows, ⟨hb, rfl⟩, bare, hbare, es, ⟨he, rfl⟩, named, hn, h⟩
    rw [hnamed] at hbare
    cases hbare
    rw [foldlM_attach_bare hs] at hn
    cases hn
    cases h
    exact ⟨⟨hb, he⟩, rfl⟩
  · rintro ⟨hb, rfl⟩
    exact ⟨_, ⟨hb.named, rfl⟩, _, hnamed, _, ⟨hb.elements, rfl⟩, _, foldlM_attach_bare hs, rfl⟩

/-- The stored references below one are the rows below it. -/
theorem referenceChildren_eq (hh : db.Holds c) (hs : c.Regular) (hl : c.Linked)
    (hb : ∀ r ∈ c.references, r.rank ≤ RowId.largest) (parent : ReferenceId) :
    db.referenceChildren parent = .ok (c.references.filter (·.parent == some parent)) := by
  have hfilter : (c.references.map Encode.reference).filter (·.cell 3 == .nat parent.value) =
      (c.references.filter (·.parent == some parent)).map Encode.reference := by
    rw [List.filter_map]
    congr 1
    apply List.filter_congr
    intro r _
    dsimp only [Function.comp_apply]
    rw [Bool.eq_iff_iff, beq_iff_eq, beq_iff_eq]
    cases hp : r.parent with
    | none => simp [Encode.reference, Row.cell, hp, Encode.id?, Cell.ofOption, Cell.nat]
    | some p =>
      rw [Option.some.injEq, ← Encode.id_inj]
      show Encode.id? r.parent = _ ↔ _
      rw [hp]
      rfl
  unfold referenceChildren
  rw [ordered_counted hh.references (fun _ => rfl) hs.references, hfilter]
  conv => rhs; rw [← List.map_id (c.references.filter _)]
  apply mapM_eq_ok
  intro r hr
  have hr := (List.mem_filter.mp hr).1
  obtain ⟨hn, hp⟩ := hl.reference r hr
  apply Decode.reference_encode (hs.references.le_largest (List.mem_map_of_mem hr))
    (hs.named.le_largest hn) (hb r hr)
  intro p hpr
  have hmem := (hp p hpr).1
  exact ⟨hs.references.pos hmem, hs.references.le_largest hmem⟩

end Database

end TypeCatalog
