import TypeCatalog.Proofs.Contents

namespace TypeCatalog

/-- What every step of a fold that succeeds preserves. -/
theorem foldlM_induction {ε α β : Type} {f : β → α → Except ε β} {P : β → Prop} {xs : List α} {b b' : β}
    (hstep : ∀ b x b', P b → f b x = .ok b' → P b') (hb : P b) (h : xs.foldlM f b = .ok b') : P b' := by
  induction xs generalizing b with
  | nil =>
    cases h
    exact hb
  | cons x xs ih =>
    rw [List.foldlM_cons] at h
    obtain ⟨c, hc, h⟩ := bind_eq_ok.mp h
    exact ih (hstep b x c hb hc) h

namespace Database

variable {db db' : Database} {t u : Table}

theorem rows_setRows (rs : List Row) : (db.setRows t rs).rows t = rs := by cases t <;> rfl

theorem rows_setRows_of_ne (rs : List Row) (h : t ≠ u) : (db.setRows t rs).rows u = db.rows u := by
  cases t <;> cases u <;> first | rfl | exact absurd rfl h

theorem setRows_setRows (rs qs : List Row) : (db.setRows t rs).setRows t qs = db.setRows t qs := by
  cases t <;> rfl

theorem setRows_rows : db.setRows t (db.rows t) = db := by cases t <;> rfl

/-- The first cells of a table, which links refer to. -/
def ids (db : Database) (t : Table) : List Cell := (db.rows t).map (·.cell 0)

/-- The link that a cell may be leads to a row. -/
def linkHolds (db : Database) (p : Column × Cell) : Prop :=
  ∀ target, p.1.refers = some target → p.2 = .null ∨ p.2 ∈ db.ids target

theorem linksHold_iff {row : Row} : db.linksHold t row ↔ ∀ p ∈ t.columns.zip row, db.linkHolds p := by
  unfold linksHold linkHolds ids
  rw [List.all_eq_true]
  constructor
  · rintro h ⟨c, cell⟩ hmem target hrefers
    have h := h (c, cell) hmem
    dsimp only at h hrefers ⊢
    rw [hrefers] at h
    simpa using h
  · rintro h ⟨c, cell⟩ hmem
    have h := h (c, cell) hmem
    dsimp only at h ⊢
    cases hrefers : c.refers with
    | none => rfl
    | some target => simpa using h target hrefers

theorem linksHold.mono {row : Row} (h : db.linksHold t row) (hids : ∀ u, db.ids u ⊆ db'.ids u) :
    db'.linksHold t row := by
  rw [linksHold_iff] at *
  intro p hmem target hrefers
  exact (h p hmem target hrefers).imp_right fun hin => hids target hin

theorem insert_ok {row : Row} (h : db.insert t row = .ok db') :
    clash? t (db.rows t) row = none ∧ db' = db.setRows t (db.rows t ++ [row]) ∧ db'.linksHold t row := by
  unfold insert at h
  split at h
  · cases h
  · next hclash =>
    dsimp only at h
    split at h
    · next hlinks =>
      cases h
      exact ⟨hclash, rfl, hlinks⟩
    · cases h

theorem insertAll_ok {rs : List Row} (h : db.insertAll t rs = .ok db') :
    db' = db.setRows t (db.rows t ++ rs) := by
  unfold insertAll at h
  induction rs generalizing db with
  | nil =>
    cases h
    rw [List.append_nil, setRows_rows]
  | cons r rs ih =>
    rw [List.foldlM_cons] at h
    obtain ⟨grown, hr, h⟩ := bind_eq_ok.mp h
    obtain ⟨-, rfl, -⟩ := insert_ok hr
    rw [ih h, rows_setRows, setRows_setRows, List.append_assoc, List.singleton_append]

/-- Every link of a row led to a row when it was written: to a row of another table, or to a row of
the same table that is not newer. -/
def Linked (db : Database) : Prop :=
  ∀ t before row, before ++ [row] <+: db.rows t → (db.setRows t (before ++ [row])).linksHold t row

theorem Linked.insert {row : Row} (hl : db.Linked) (h : db.insert t row = .ok db') : db'.Linked := by
  obtain ⟨-, rfl, hrow⟩ := insert_ok h
  intro u before r hr
  by_cases hu : t = u
  · subst hu
    rw [rows_setRows] at hr
    rw [setRows_setRows]
    rcases List.prefix_concat_iff.mp hr with heq | hr
    · obtain ⟨rfl, hrow'⟩ := List.append_inj' heq rfl
      cases hrow'
      exact hrow
    · exact hl t before r hr
  · rw [rows_setRows_of_ne _ hu] at hr
    refine linksHold.mono (hl u before r hr) ?_
    intro v
    unfold ids
    by_cases hv : u = v
    · subst hv
      rw [rows_setRows, rows_setRows]
      exact fun _ h => h
    · rw [rows_setRows_of_ne _ hv, rows_setRows_of_ne _ hv]
      by_cases htv : t = v
      · subst htv
        rw [rows_setRows, List.map_append]
        exact List.subset_append_left _ _
      · rw [rows_setRows_of_ne _ htv]
        exact fun _ h => h

theorem Linked.insertAll {rs : List Row} (hl : db.Linked) (h : db.insertAll t rs = .ok db') : db'.Linked :=
  foldlM_induction (fun _ _ _ hb hstep => hb.insert hstep) hl h

theorem Linked.insertNew {row : Row} (hl : db.Linked) (h : db.insertNew t row = .ok db') : db'.Linked := by
  unfold Database.insertNew at h
  split at h
  · cases h
    exact hl
  · exact hl.insert h

theorem Linked.insertFile {f : SourceFile} (hl : db.Linked) (h : db.insertFile f = .ok db') : db'.Linked := by
  obtain ⟨mid, hmid, h⟩ := bind_eq_ok.mp h
  exact (hl.insert hmid).insertAll h

theorem Linked.insertNamedType {i : TypeId} {a : NamedType} (hl : db.Linked)
    (h : db.insertNamedType i a = .ok db') : db'.Linked := by
  obtain ⟨mid, hmid, h⟩ := bind_eq_ok.mp h
  have hl := hl.insert hmid
  cases a with
  | documented d => exact hl.insertAll h
  | external x => exact foldlM_induction (fun _ _ _ hb hstep => hb.insertNew hstep) hl h
  | parameter p =>
    cases h
    exact hl
  | tuple r =>
    cases h
    exact hl

theorem Linked.write {c : ChangeSet} (hl : db.Linked) (h : db.write c = .ok db') : db'.Linked := by
  unfold Database.write at h
  obtain ⟨db₁, h₁, h⟩ := bind_eq_ok.mp h
  obtain ⟨db₂, h₂, h⟩ := bind_eq_ok.mp h
  obtain ⟨db₃, h₃, h⟩ := bind_eq_ok.mp h
  obtain ⟨db₄, h₄, h⟩ := bind_eq_ok.mp h
  obtain ⟨db₅, h₅, h⟩ := bind_eq_ok.mp h
  obtain ⟨db₆, h₆, h⟩ := bind_eq_ok.mp h
  have hl := hl.insertAll h₁
  have hl := foldlM_induction (fun _ _ _ hb hstep => hb.insertFile hstep) hl h₂
  have hl := foldlM_induction (fun _ _ _ hb hstep => hb.insertNamedType hstep) hl h₃
  have hl := foldlM_induction (fun _ _ _ hb hstep => hb.insertNew hstep) hl h₄
  exact ((hl.insertAll h₅).insertAll h₆).insertAll h

@[simp] theorem linkHolds_integer {name : String} {cell : Cell} : db.linkHolds (.integer name, cell) := by
  rintro target ⟨⟩

@[simp] theorem linkHolds_text {name : String} {cell : Cell} : db.linkHolds (.text name, cell) := by
  rintro target ⟨⟩

@[simp] theorem linkHolds_optional {c : Column} {cell : Cell} :
    db.linkHolds (c.optional, cell) ↔ db.linkHolds (c, cell) := .rfl

@[simp] theorem linkHolds_null {c : Column} : db.linkHolds (c, .null) := fun _ _ => .inl rfl

@[simp] theorem linkHolds_id {name : String} {target : Table} {e : Entity} {i : RowId e} :
    db.linkHolds (.link name target, Encode.id i) ↔ Encode.id i ∈ db.ids target := by
  constructor
  · intro h
    exact (h target rfl).resolve_left (by simp [Encode.id, Cell.nat])
  · rintro h _ ⟨⟩
    exact .inr h

@[simp] theorem linkHolds_id? {name : String} {target : Table} {e : Entity} {o : Option (RowId e)} :
    db.linkHolds (.link name target, Encode.id? o) ↔ ∀ i, o = some i → Encode.id i ∈ db.ids target := by
  cases o with
  | none =>
    show db.linkHolds (.link name target, .null) ↔ _
    simp
  | some i =>
    show db.linkHolds (.link name target, Encode.id i) ↔ _
    simp

theorem linksHold_namespace {n : Namespace} : db.linksHold .namespaces (Encode.namespace n) ↔
    ∀ p, n.parent = some p → Encode.id p ∈ db.ids .namespaces := by
  simp [linksHold_iff, Table.columns, Encode.namespace]

theorem linksHold_file {f : SourceFile} : db.linksHold .sourceFiles (Encode.file f) := by
  simp [linksHold_iff, Table.columns, Encode.file]

theorem linksHold_using {i : FileId} {k : Nat} {n : NamespaceId} :
    db.linksHold .fileUsings [Encode.id i, .nat k, Encode.id n] ↔
      Encode.id i ∈ db.ids .sourceFiles ∧ Encode.id n ∈ db.ids .namespaces := by
  simp [linksHold_iff, Table.columns]

theorem linksHold_named {i : TypeId} {a : NamedType} : db.linksHold .namedTypes (Encode.namedType i a) ↔
    a.Links (Encode.id · ∈ db.ids .namespaces) (Encode.id · ∈ db.ids .sourceFiles)
      (Encode.id · ∈ db.ids .namedTypes) := by
  cases a with
  | documented d =>
    simp only [linksHold_iff, Table.columns, Encode.namedType, NamedType.Links, List.zip_cons_cons,
      List.zip_nil_left, List.forall_mem_cons, linkHolds_integer, linkHolds_text, linkHolds_optional,
      linkHolds_null, linkHolds_id, linkHolds_id?, List.not_mem_nil, false_implies, implies_true,
      and_true, true_and]
    exact and_congr_right fun _ => and_comm
  | external x => simp [linksHold_iff, Table.columns, Encode.namedType, NamedType.Links]
  | parameter p => simp [linksHold_iff, Table.columns, Encode.namedType, NamedType.Links]
  | tuple r => simp [linksHold_iff, Table.columns, Encode.namedType, NamedType.Links]

theorem linksHold_parameter {i : TypeId} {p : TypeParameter} :
    db.linksHold .typeParameters (Encode.parameter i p) ↔ Encode.id i ∈ db.ids .namedTypes := by
  simp [linksHold_iff, Table.columns, Encode.parameter]

theorem linksHold_externalNamespace {i : TypeId} {name : String} :
    db.linksHold .externalNamespaces (Encode.externalNamespace i name) ↔
      Encode.id i ∈ db.ids .namedTypes := by
  simp [linksHold_iff, Table.columns, Encode.externalNamespace]

theorem linksHold_element {e : TupleElement} : db.linksHold .tupleElements (Encode.tupleElement e) ↔
    Encode.id e.tuple ∈ db.ids .namedTypes ∧ Encode.id e.elementType ∈ db.ids .namedTypes := by
  simp [linksHold_iff, Table.columns, Encode.tupleElement]

theorem linksHold_reference {r : Reference} : db.linksHold .typeReferences (Encode.reference r) ↔
    Encode.id r.named ∈ db.ids .namedTypes ∧
      ∀ p, r.parent = some p → Encode.id p ∈ db.ids .typeReferences := by
  simp [linksHold_iff, Table.columns, Encode.reference]

theorem linksHold_usage {u : Usage} : db.linksHold .typeUsages (Encode.usage u) ↔
    Encode.id u.owner ∈ db.ids .namedTypes ∧ Encode.id u.reference ∈ db.ids .typeReferences := by
  simp [linksHold_iff, Table.columns, Encode.usage]

section

variable {α : Type} {e : Entity} {xs : List α} {encode : α → Row} {id : α → RowId e}

/-- The rows that links to a table may lead to. -/
theorem mem_ids (hrows : db.rows t = xs.map encode) (hcell : ∀ x, (encode x).cell 0 = Encode.id (id x))
    {i : RowId e} : Encode.id i ∈ db.ids t ↔ i ∈ xs.map id := by
  unfold ids
  rw [hrows, List.map_map, List.mem_map, List.mem_map]
  apply exists_congr
  intro x
  rw [Function.comp_apply, hcell, Encode.id_inj]

/-- The links of a row as they were when it was written. -/
theorem Linked.of_mem (hl : db.Linked) (hrows : db.rows t = xs.map encode) {x : α} (hx : x ∈ xs) :
    ∃ older newer, xs = older ++ x :: newer ∧
      (db.setRows t ((older ++ [x]).map encode)).linksHold t (encode x) := by
  obtain ⟨older, newer, rfl⟩ := List.append_of_mem hx
  refine ⟨older, newer, rfl, ?_⟩
  rw [List.map_append]
  apply hl t (older.map encode) (encode x)
  rw [hrows, List.map_append, List.map_cons]
  exact ⟨newer.map encode, by simp⟩

/-- In a table that is numbered in order, what was there when a row was written is not newer. -/
theorem le_of_mem_older {older newer : List α} {x : α} (h : Counted ((older ++ x :: newer).map id))
    {i : RowId e} (hi : i ∈ (older ++ [x]).map id) :
    i ∈ (older ++ x :: newer).map id ∧ i.value ≤ (id x).value := by
  rw [List.map_append] at hi
  rcases List.mem_append.mp hi with hi | hi
  · have hlt := h.ascending
    rw [List.map_append, List.map_cons, List.pairwise_append] at hlt
    refine ⟨?_, Nat.le_of_lt (hlt.2.2 i hi (id x) List.mem_cons_self)⟩
    rw [List.map_append]
    exact List.mem_append_left _ hi
  · rw [List.map_singleton, List.mem_singleton] at hi
    subst hi
    refine ⟨List.mem_map_of_mem ?_, Nat.le_refl _⟩
    exact List.mem_append_right _ List.mem_cons_self

end

/-- The rows of a database that was written row by row are linked. -/
theorem Holds.linked {c : Contents} (hh : db.Holds c) (hs : c.Regular) (hl : db.Linked) : c.Linked where
  -- links were checked when the row was written, so those within a table lead to older rows
  parent n hn p hp := by
    obtain ⟨older, newer, hns, hrow⟩ := hl.of_mem hh.namespaces hn
    have hmem := linksHold_namespace.mp hrow p hp
    rw [mem_ids (rows_setRows _) fun _ => rfl] at hmem
    have hcounted := hs.namespaces
    rw [hns] at hcounted ⊢
    exact le_of_mem_older hcounted hmem
  imported f hf u hu := by
    rw [← List.zipIdx_map_fst 0 f.usings] at hu
    obtain ⟨⟨u, k⟩, hk, rfl⟩ := List.mem_map.mp hu
    have hmem : [Encode.id f.id, .nat k, Encode.id u] ∈ c.files.flatMap Encode.usings := by
      rw [List.mem_flatMap]
      exact ⟨f, hf, List.mem_map.mpr ⟨_, hk, rfl⟩⟩
    have hrows : db.rows .fileUsings = (c.files.flatMap Encode.usings).map fun r => r := by
      rw [List.map_id']
      exact hh.usings
    obtain ⟨older, newer, -, hrow⟩ := hl.of_mem hrows hmem
    exact (mem_ids hh.namespaces fun _ => rfl).mp (linksHold_using.mp hrow).2
  named := by
    rintro ⟨i, a⟩ hr
    obtain ⟨older, newer, hnamed, hrow⟩ := hl.of_mem hh.named hr
    refine (linksHold_named.mp hrow).mono ?_ ?_ ?_
    · intro j hj
      exact (mem_ids hh.namespaces fun _ => rfl).mp hj
    · intro j hj
      exact (mem_ids hh.files fun _ => rfl).mp hj
    · intro j hj
      rw [mem_ids (rows_setRows _) Encode.cell_zero_namedType] at hj
      have hcounted := hs.named
      rw [hnamed] at hcounted ⊢
      exact le_of_mem_older hcounted hj
  element x hx := by
    obtain ⟨older, newer, -, hrow⟩ := hl.of_mem hh.elements hx
    obtain ⟨ht, he⟩ := linksHold_element.mp hrow
    exact ⟨(mem_ids hh.named Encode.cell_zero_namedType).mp ht, (mem_ids hh.named Encode.cell_zero_namedType).mp he⟩
  reference r hr := by
    obtain ⟨older, newer, hrefs, hrow⟩ := hl.of_mem hh.references hr
    obtain ⟨hn, hp⟩ := linksHold_reference.mp hrow
    refine ⟨(mem_ids hh.named Encode.cell_zero_namedType).mp hn, fun p hpr => ?_⟩
    have hmem := hp p hpr
    rw [mem_ids (rows_setRows _) fun _ => rfl] at hmem
    have hcounted := hs.references
    rw [hrefs] at hcounted ⊢
    exact le_of_mem_older hcounted hmem
  usage u hu := by
    obtain ⟨older, newer, -, hrow⟩ := hl.of_mem hh.usages hu
    obtain ⟨ho, hr⟩ := linksHold_usage.mp hrow
    exact ⟨(mem_ids hh.named Encode.cell_zero_namedType).mp ho, (mem_ids hh.references fun _ => rfl).mp hr⟩

end Database

/-- The rows that a named type has in the table of namespaces of external types. -/
def Encode.externals : TypeId × NamedType → List Row
  | (i, .external x) => x.namespaces.names.map (Encode.externalNamespace i)
  | _ => []

namespace Database

variable {db db' : Database}

/-- The rows of the table of namespaces of external types. -/
def Paired (rows : List Row) : Prop := ∀ row ∈ rows, ∃ i n, row = Encode.externalNamespace i n

theorem insertExternalNamespace_ok {i : TypeId} {n : String} (hp : Paired db.externalNamespaces)
    (h : db.insertExternalNamespace i n = .ok db') :
    ∃ rows, db' = { db with externalNamespaces := rows } ∧
      ∀ row, row ∈ rows ↔ row ∈ db.externalNamespaces ∨ row = Encode.externalNamespace i n := by
  unfold insertExternalNamespace insertNew at h
  split at h
  · next hclash =>
    cases h
    refine ⟨db.externalNamespaces, rfl, fun row => ?_⟩
    -- the clash is with a row of both the same cells, which is the row itself
    have hmem : Encode.externalNamespace i n ∈ db.externalNamespaces := by
      unfold clash? at hclash
      rw [Option.isSome_map, List.find?_isSome] at hclash
      obtain ⟨⟨key, k⟩, hkey, hrow⟩ := hclash
      have hkey : key = [0, 1] := by
        have := List.fst_mem_of_mem_zipIdx hkey
        simpa [Table.keys] using this
      subst hkey
      obtain ⟨q, hq, hagree⟩ := List.any_eq_true.mp hrow
      obtain ⟨j, m, rfl⟩ := hp q hq
      simp only [Row.agree, List.all_cons, List.all_nil, Bool.and_true, Bool.and_eq_true, beq_iff_eq] at hagree
      have hcells : Encode.externalNamespace i n = Encode.externalNamespace j m := by
        unfold Encode.externalNamespace
        have h₀ : Encode.id i = Encode.id j := hagree.1
        have h₁ : Cell.text n = Cell.text m := hagree.2
        rw [h₀, h₁]
      rw [hcells]
      exact hq
    constructor
    · exact .inl
    · rintro (h | rfl)
      · exact h
      · exact hmem
  · obtain ⟨-, rfl, -⟩ := insert_ok h
    refine ⟨db.externalNamespaces ++ [Encode.externalNamespace i n], rfl, fun row => ?_⟩
    rw [List.mem_append, List.mem_singleton]

theorem insertExternalNamespaces_ok {qs : List (TypeId × String)}
    (h : qs.foldlM (fun db q => db.insertExternalNamespace q.1 q.2) db = .ok db')
    (hp : Paired db.externalNamespaces) :
    ∃ rows, db' = { db with externalNamespaces := rows } ∧ Paired rows ∧
      ∀ row, row ∈ rows ↔ row ∈ db.externalNamespaces ∨
        row ∈ qs.map fun q => Encode.externalNamespace q.1 q.2 := by
  induction qs generalizing db with
  | nil =>
    cases h
    exact ⟨_, rfl, hp, by simp⟩
  | cons q qs ih =>
    rw [List.foldlM_cons] at h
    obtain ⟨mid, hmid, h⟩ := bind_eq_ok.mp h
    obtain ⟨rows, rfl, hrows⟩ := insertExternalNamespace_ok hp hmid
    have hp' : Paired rows := by
      intro row hrow
      rcases (hrows row).mp hrow with hrow | rfl
      · exact hp row hrow
      · exact ⟨_, _, rfl⟩
    obtain ⟨rows', rfl, hp'', hrows'⟩ := ih h hp'
    refine ⟨rows', rfl, hp'', fun row => ?_⟩
    rw [hrows', hrows, List.map_cons, List.mem_cons, or_assoc]

theorem insertFiles_ok {fs : List SourceFile} (h : fs.foldlM insertFile db = .ok db') :
    db' = { db with
      sourceFiles := db.sourceFiles ++ fs.map Encode.file
      fileUsings := db.fileUsings ++ fs.flatMap Encode.usings } := by
  induction fs generalizing db with
  | nil =>
    cases h
    simp
  | cons f fs ih =>
    rw [List.foldlM_cons] at h
    obtain ⟨mid, hmid, h⟩ := bind_eq_ok.mp h
    obtain ⟨first, hfirst, hmid⟩ := bind_eq_ok.mp hmid
    obtain ⟨-, rfl, -⟩ := insert_ok hfirst
    rw [insertAll_ok hmid] at h
    rw [ih h]
    simp [setRows, rows]

theorem insertNamedType_ok {i : TypeId} {a : NamedType} (hp : Paired db.externalNamespaces)
    (h : db.insertNamedType i a = .ok db') :
    ∃ rows, db' = { db with
        namedTypes := db.namedTypes ++ [Encode.namedType i a]
        typeParameters := db.typeParameters ++ Encode.parameters (i, a)
        externalNamespaces := rows } ∧ Paired rows ∧
      ∀ row, row ∈ rows ↔ row ∈ db.externalNamespaces ∨ row ∈ Encode.externals (i, a) := by
  obtain ⟨mid, hmid, h⟩ := bind_eq_ok.mp h
  obtain ⟨-, rfl, -⟩ := insert_ok hmid
  cases a with
  | documented d =>
    rw [insertAll_ok h]
    exact ⟨db.externalNamespaces, rfl, hp, by simp [Encode.externals]⟩
  | external x =>
    have h : (x.namespaces.names.map fun n => (i, n)).foldlM
        (fun db q => insertExternalNamespace db q.1 q.2)
        (db.setRows .namedTypes (db.rows .namedTypes ++ [Encode.namedType i (.external x)])) = .ok db' := by
      rw [List.foldlM_map]
      exact h
    obtain ⟨rows, rfl, hp', hrows⟩ := insertExternalNamespaces_ok h hp
    refine ⟨rows, ?_, hp', fun row => ?_⟩
    · simp [setRows, Database.rows, Encode.parameters]
    · rw [hrows, List.map_map]
      rfl
  | parameter p =>
    cases h
    exact ⟨db.externalNamespaces, by simp [setRows, Database.rows, Encode.parameters], hp, by simp [Encode.externals]⟩
  | tuple r =>
    cases h
    exact ⟨db.externalNamespaces, by simp [setRows, Database.rows, Encode.parameters], hp, by simp [Encode.externals]⟩

theorem insertNamedTypes_ok {rs : List (TypeId × NamedType)}
    (h : rs.foldlM (fun db r => db.insertNamedType r.1 r.2) db = .ok db')
    (hp : Paired db.externalNamespaces) :
    ∃ rows, db' = { db with
        namedTypes := db.namedTypes ++ rs.map fun r => Encode.namedType r.1 r.2
        typeParameters := db.typeParameters ++ rs.flatMap Encode.parameters
        externalNamespaces := rows } ∧ Paired rows ∧
      ∀ row, row ∈ rows ↔ row ∈ db.externalNamespaces ∨ row ∈ rs.flatMap Encode.externals := by
  induction rs generalizing db with
  | nil =>
    cases h
    exact ⟨_, by simp, hp, by simp⟩
  | cons r rs ih =>
    rw [List.foldlM_cons] at h
    obtain ⟨mid, hmid, h⟩ := bind_eq_ok.mp h
    obtain ⟨rows, rfl, hp', hrows⟩ := insertNamedType_ok hp hmid
    obtain ⟨rows', rfl, hp'', hrows'⟩ := ih h hp'
    refine ⟨rows', by simp, hp'', fun row => ?_⟩
    rw [hrows', hrows, List.flatMap_cons, List.mem_append, or_assoc]

/-- The rows of a database after a change set was written. -/
theorem write_ok {c : ChangeSet} (hp : Paired db.externalNamespaces) (h : db.write c = .ok db') :
    ∃ rows, db' = {
        namespaces := db.namespaces ++ c.namespaces.map Encode.namespace
        sourceFiles := db.sourceFiles ++ c.files.map Encode.file
        fileUsings := db.fileUsings ++ c.files.flatMap Encode.usings
        namedTypes := db.namedTypes ++ c.named.map fun r => Encode.namedType r.1 r.2
        typeParameters := db.typeParameters ++ c.named.flatMap Encode.parameters
        externalNamespaces := rows
        tupleElements := db.tupleElements ++ c.elements.map Encode.tupleElement
        typeReferences := db.typeReferences ++ c.references.map Encode.reference
        typeUsages := db.typeUsages ++ c.usages.map Encode.usage } ∧
      ∀ row, row ∈ rows ↔ row ∈ db.externalNamespaces ∨ row ∈ c.named.flatMap Encode.externals ∨
        row ∈ c.externalNamespaces.map fun q => Encode.externalNamespace q.1 q.2 := by
  unfold write at h
  obtain ⟨db₁, h₁, h⟩ := bind_eq_ok.mp h
  obtain ⟨db₂, h₂, h⟩ := bind_eq_ok.mp h
  obtain ⟨db₃, h₃, h⟩ := bind_eq_ok.mp h
  obtain ⟨db₄, h₄, h⟩ := bind_eq_ok.mp h
  obtain ⟨db₅, h₅, h⟩ := bind_eq_ok.mp h
  obtain ⟨db₆, h₆, h⟩ := bind_eq_ok.mp h
  cases insertAll_ok h₁
  cases insertFiles_ok h₂
  obtain ⟨rows, rfl, hp', hrows⟩ := insertNamedTypes_ok h₃ hp
  obtain ⟨rows', rfl, hp'', hrows'⟩ := insertExternalNamespaces_ok h₄ hp'
  cases insertAll_ok h₅
  cases insertAll_ok h₆
  refine ⟨rows', insertAll_ok h, fun row => ?_⟩
  rw [hrows', hrows, or_assoc]
  rfl

/-- An attempt to write fails because of a row at most. -/
def RowsOnly {α : Type} (x : Except CatalogError α) : Prop :=
  ∀ e, x = .error e → ∃ d, e = .database d ∧ d ≠ .readOnly

theorem RowsOnly.bind {α β : Type} {x : Except CatalogError α} {f : α → Except CatalogError β} (h : RowsOnly x)
    (hf : ∀ a, RowsOnly (f a)) : RowsOnly (x >>= f) := by
  intro e he
  obtain he | ⟨a, -, he⟩ := bind_eq_error.mp he
  · exact h e he
  · exact hf a e he

theorem rowsOnly_foldlM {α β : Type} {f : β → α → Except CatalogError β} {xs : List α}
    (hf : ∀ b x, RowsOnly (f b x)) {b : β} : RowsOnly (xs.foldlM f b) := by
  induction xs generalizing b with
  | nil => rintro e ⟨⟩
  | cons x xs ih =>
    rw [List.foldlM_cons]
    exact (hf b x).bind fun _ => ih

theorem rowsOnly_insert {row : Row} : RowsOnly (db.insert t row) := by
  intro e he
  unfold insert at he
  split at he
  · next d hd =>
    cases he
    refine ⟨d, rfl, ?_⟩
    rintro rfl
    obtain ⟨⟨key, n⟩, -, hd⟩ := Option.map_eq_some_iff.mp hd
    dsimp only at hd
    split at hd <;> cases hd
  · dsimp only at he
    split at he
    · cases he
    · cases he
      exact ⟨.foreignKey, rfl, by simp⟩

theorem rowsOnly_insertAll {rs : List Row} : RowsOnly (db.insertAll t rs) :=
  rowsOnly_foldlM fun _ _ => rowsOnly_insert

theorem rowsOnly_insertNew {row : Row} : RowsOnly (db.insertNew t row) := by
  unfold insertNew
  split
  · rintro e ⟨⟩
  · exact rowsOnly_insert

theorem rowsOnly_insertNamedType {i : TypeId} {a : NamedType} : RowsOnly (db.insertNamedType i a) := by
  unfold insertNamedType
  refine rowsOnly_insert.bind fun db => ?_
  cases a with
  | documented d => exact rowsOnly_insertAll
  | external x => exact rowsOnly_foldlM fun _ _ => rowsOnly_insertNew
  | parameter p => rintro e ⟨⟩
  | tuple r => rintro e ⟨⟩

theorem rowsOnly_write {c : ChangeSet} : RowsOnly (db.write c) := by
  unfold write
  refine rowsOnly_insertAll.bind fun db => ?_
  refine (rowsOnly_foldlM fun _ _ => rowsOnly_insert.bind fun _ => rowsOnly_insertAll).bind fun db => ?_
  refine (rowsOnly_foldlM fun _ _ => rowsOnly_insertNamedType).bind fun db => ?_
  refine (rowsOnly_foldlM fun _ _ => rowsOnly_insertNew).bind fun db => ?_
  exact rowsOnly_insertAll.bind fun db => rowsOnly_insertAll.bind fun db => rowsOnly_insertAll

end Database

end TypeCatalog
