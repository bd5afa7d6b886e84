import TypeCatalog.Proofs.Saving

namespace TypeCatalog

/-- Rows that agree on no key of their table. -/
def Table.Distinct (t : Table) (q r : Row) : Prop := ∀ key ∈ t.keys, Row.agree key r q = false

namespace Database

variable {db : Database} {t : Table}

theorem clash?_eq_none {rs : List Row} {row : Row} (h : ∀ q ∈ rs, t.Distinct q row) :
    clash? t rs row = none := by
  unfold clash?
  rw [Option.map_eq_none_iff, List.find?_eq_none]
  rintro ⟨key, n⟩ hkey
  have hmem := List.fst_mem_of_mem_zipIdx hkey
  simp only [List.any_eq_true, not_exists, not_and, Bool.not_eq_true]
  intro q hq
  exact h q hq key hmem

theorem insert_succeeds {row : Row} (hkeys : ∀ q ∈ db.rows t, t.Distinct q row)
    (hlinks : (db.setRows t (db.rows t ++ [row])).linksHold t row) :
    db.insert t row = .ok (db.setRows t (db.rows t ++ [row])) := by
  unfold insert
  rw [clash?_eq_none hkeys]
  exact if_pos hlinks

/-- Rows are accepted if they agree with none before them on a key, and if their links lead to rows of
other tables or to rows before them. -/
theorem insertAll_succeeds {rs : List Row} (hkeys : (db.rows t ++ rs).Pairwise t.Distinct)
    (hlinks : ∀ older r newer, rs = older ++ r :: newer →
      (db.setRows t (db.rows t ++ (older ++ [r]))).linksHold t r) :
    db.insertAll t rs = .ok (db.setRows t (db.rows t ++ rs)) := by
  induction rs generalizing db with
  | nil =>
    rw [List.append_nil, setRows_rows]
    rfl
  | cons r rs ih =>
    have hkeys' : ∀ q ∈ db.rows t, t.Distinct q r := by
      intro q hq
      exact (List.pairwise_append.mp hkeys).2.2 q hq r List.mem_cons_self
    have hgrown : (db.setRows t (db.rows t ++ [r])).rows t ++ rs = db.rows t ++ r :: rs := by
      rw [rows_setRows, List.append_assoc, List.singleton_append]
    unfold insertAll at ih ⊢
    rw [List.foldlM_cons, insert_succeeds hkeys' (hlinks [] r rs rfl), ok_bind, ih, hgrown, setRows_setRows]
    · rw [hgrown]
      exact hkeys
    · intro older q newer heq
      rw [setRows_setRows, rows_setRows, List.append_assoc, List.singleton_append]
      exact hlinks (r :: older) q newer (by rw [heq]; rfl)

theorem insertNew_succeeds {row : Row} (hlinks : (db.setRows t (db.rows t ++ [row])).linksHold t row) :
    ∃ db', db.insertNew t row = .ok db' := by
  unfold insertNew
  split
  · exact ⟨db, rfl⟩
  · next hclash =>
    refine ⟨db.setRows t (db.rows t ++ [row]), ?_⟩
    unfold insert
    split
    · next e he =>
      rw [he] at hclash
      exact absurd rfl hclash
    · exact if_pos hlinks

end Database

section

variable {α : Type} {e : Entity} {xs : List α} {encode : α → Row}

theorem Table.distinct_of_cell {t : Table} {q r : Row}
    (h : ∀ key ∈ t.keys, ∃ i ∈ key, r.cell i ≠ q.cell i) : t.Distinct q r := by
  intro key hkey
  obtain ⟨i, hi, hne⟩ := h key hkey
  unfold Row.agree
  rw [List.all_eq_false]
  exact ⟨i, hi, by simpa using hne⟩

theorem pairwise_of_counted {id : α → RowId e} (h : Counted (xs.map id)) :
    xs.Pairwise fun a b => Encode.id (id b) ≠ Encode.id (id a) := by
  refine (List.pairwise_map.mp h.ascending).imp ?_
  intro a b hlt heq
  rw [Encode.id_inj] at heq
  rw [heq] at hlt
  exact Nat.lt_irrefl _ hlt

theorem pairwise_distinct {t : Table} {id : α → RowId e} (hkeys : t.keys = [[0]])
    (hcell : ∀ x, (encode x).cell 0 = Encode.id (id x)) (h : Counted (xs.map id)) :
    (xs.map encode).Pairwise t.Distinct := by
  rw [List.pairwise_map]
  refine (pairwise_of_counted h).imp ?_
  intro a b hne
  apply Table.distinct_of_cell
  rw [hkeys]
  intro key hkey
  rw [List.mem_singleton.mp hkey]
  exact ⟨0, List.mem_cons_self, by rw [hcell, hcell]; exact hne⟩

theorem pairwise_distinct_text {t : Table} {id : α → RowId e} {name : α → String} (hkeys : t.keys = [[0], [1]])
    (hcell : ∀ x, (encode x).cell 0 = Encode.id (id x)) (htext : ∀ x, (encode x).cell 1 = .text (name x))
    (h : Counted (xs.map id)) (hn : (xs.map name).Nodup) : (xs.map encode).Pairwise t.Distinct := by
  rw [List.pairwise_map]
  refine ((pairwise_of_counted h).and (List.pairwise_map.mp hn)).imp ?_
  rintro a b ⟨hid, hname⟩
  apply Table.distinct_of_cell
  rw [hkeys]
  intro key hkey
  rcases List.mem_cons.mp hkey with rfl | hkey
  · exact ⟨0, List.mem_cons_self, by rw [hcell, hcell]; exact hid⟩
  · rw [List.mem_singleton.mp hkey]
    refine ⟨1, List.mem_cons_self, ?_⟩
    rw [htext, htext, Ne, Cell.text.injEq]
    exact Ne.symm hname

theorem pairwise_distinct_listed {t : Table} {id : α → RowId e} {rows : α → List Row} (hkeys : t.keys = [[0, 1]])
    (hcell : ∀ x, ∀ row ∈ rows x, row.cell 0 = Encode.id (id x)) (h : Counted (xs.map id))
    (hrows : ∀ x ∈ xs, (rows x).Pairwise fun q r => r.cell 1 ≠ q.cell 1) :
    (xs.flatMap rows).Pairwise t.Distinct := by
  rw [List.pairwise_flatMap]
  constructor
  · intro x hx
    refine (hrows x hx).imp ?_
    intro q r hne
    apply Table.distinct_of_cell
    rw [hkeys]
    intro key hkey
    rw [List.mem_singleton.mp hkey]
    exact ⟨1, List.mem_cons_of_mem _ List.mem_cons_self, hne⟩
  · refine (pairwise_of_counted h).imp ?_
    intro a b hne q hq r hr
    apply Table.distinct_of_cell
    rw [hkeys]
    intro key hkey
    rw [List.mem_singleton.mp hkey]
    refine ⟨0, List.mem_cons_self, ?_⟩
    rw [hcell a q hq, hcell b r hr]
    exact hne

end

namespace Contents

variable {c : Contents}

theorem Sound.distinct_usings (h : c.Sound) :
    (c.files.flatMap Encode.usings).Pairwise Table.fileUsings.Distinct := by
  apply pairwise_distinct_listed rfl _ h.files
  · intro f _
    unfold Encode.usings
    rw [List.pairwise_map, List.pairwise_iff_getElem]
    intro i j hi hj hlt
    simp [Row.cell, Cell.nat]
    omega
  · intro f row hrow
    obtain ⟨p, -, rfl⟩ := List.mem_map.mp hrow
    rfl

theorem Sound.distinct_parameters (h : c.Sound) :
    (c.named.flatMap Encode.parameters).Pairwise Table.typeParameters.Distinct := by
  apply pairwise_distinct_listed rfl _ h.named
  · rintro ⟨i, a⟩ ha
    cases a with
    | documented d =>
      obtain ⟨ps, hps, hord⟩ := h.documented i d ha
      have hlt : (ps.map (·.ordinal)).Pairwise (· < ·) := hord ▸ List.pairwise_lt_range
      show ((d.parameters.getD []).map _).Pairwise _
      rw [hps, Option.getD_some, List.pairwise_map]
      refine (List.pairwise_map.mp hlt).imp ?_
      intro p q hlt
      simp [Row.cell, Encode.parameter, Cell.nat]
      omega
    | external x => exact .nil
    | parameter p => exact .nil
    | tuple r => exact .nil
  · rintro ⟨i, a⟩ row hrow
    cases a with
    | documented d =>
      obtain ⟨p, -, rfl⟩ := List.mem_map.mp hrow
      rfl
    | external x => cases hrow
    | parameter p => cases hrow
    | tuple r => cases hrow

theorem Sound.distinct_elements (h : c.Sound) :
    (c.elements.map Encode.tupleElement).Pairwise Table.tupleElements.Distinct := by
  rw [List.pairwise_map]
  refine ((pairwise_of_counted h.elements).and h.sorted).imp ?_
  rintro a b ⟨hid, hsorted⟩
  apply Table.distinct_of_cell
  intro key hkey
  rcases List.mem_cons.mp hkey with rfl | hkey
  · exact ⟨0, List.mem_cons_self, hid⟩
  · rw [List.mem_singleton.mp hkey]
    rcases hsorted with hlt | ⟨-, hlt⟩
    · refine ⟨1, List.mem_cons_self, ?_⟩
      intro heq
      have heq : Encode.id b.tuple = Encode.id a.tuple := heq
      rw [Encode.id_inj] at heq
      rw [heq] at hlt
      exact Nat.lt_irrefl _ hlt
    · refine ⟨2, List.mem_cons_of_mem _ List.mem_cons_self, ?_⟩
      simp [Row.cell, Encode.tupleElement, Cell.nat]
      omega

end Contents

namespace Database

variable {db : Database}

theorem insertFile_succeeds {f : SourceFile}
    (hfile : ∀ q ∈ db.rows .sourceFiles, Table.sourceFiles.Distinct q (Encode.file f))
    (husings : (db.fileUsings ++ Encode.usings f).Pairwise Table.fileUsings.Distinct)
    (hlinks : ∀ u ∈ f.usings, Encode.id u ∈ db.ids .namespaces) :
    db.insertFile f = .ok { db with
      sourceFiles := db.sourceFiles ++ [Encode.file f]
      fileUsings := db.fileUsings ++ Encode.usings f } := by
  unfold insertFile
  rw [insert_succeeds hfile linksHold_file, ok_bind]
  refine insertAll_succeeds (t := .fileUsings) ?_ ?_
  · exact husings
  intro older row newer heq
  have hrow : row ∈ Encode.usings f := by
    rw [heq]
    exact List.mem_append_right _ List.mem_cons_self
  obtain ⟨⟨u, k⟩, hu, rfl⟩ := List.mem_map.mp hrow
  rw [linksHold_using]
  constructor
  · show Encode.id f.id ∈ ((db.sourceFiles ++ [Encode.file f]).map (·.cell 0))
    rw [List.map_append]
    exact List.mem_append_right _ List.mem_cons_self
  · exact hlinks u (List.fst_mem_of_mem_zipIdx hu)

theorem insertFiles_succeeds {fs : List SourceFile}
    (hfiles : (db.sourceFiles ++ fs.map Encode.file).Pairwise Table.sourceFiles.Distinct)
    (husings : (db.fileUsings ++ fs.flatMap Encode.usings).Pairwise Table.fileUsings.Distinct)
    (hlinks : ∀ f ∈ fs, ∀ u ∈ f.usings, Encode.id u ∈ db.ids .namespaces) :
    ∃ db', fs.foldlM insertFile db = .ok db' := by
  induction fs generalizing db with
  | nil => exact ⟨db, rfl⟩
  | cons f fs ih =>
    rw [List.flatMap_cons, ← List.append_assoc] at husings
    have hfile : ∀ q ∈ db.sourceFiles, Table.sourceFiles.Distinct q (Encode.file f) := by
      intro q hq
      exact (List.pairwise_append.mp hfiles).2.2 q hq _ List.mem_cons_self
    rw [List.foldlM_cons, insertFile_succeeds hfile (List.pairwise_append.mp husings).1
      (hlinks f List.mem_cons_self)]
    apply ih
    · rw [List.map_cons, List.append_cons] at hfiles
      exact hfiles
    · exact husings
    · intro g hg u hu
      exact hlinks g (List.mem_cons_of_mem f hg) u hu

theorem insertExternalNamespaces_succeeds {qs : List (TypeId × String)}
    (hp : Paired db.externalNamespaces) (h : ∀ q ∈ qs, Encode.id q.1 ∈ db.ids .namedTypes) :
    ∃ db', qs.foldlM (fun db q => db.insertExternalNamespace q.1 q.2) db = .ok db' := by
  induction qs generalizing db with
  | nil => exact ⟨db, rfl⟩
  | cons q qs ih =>
    have hlinks : (db.setRows .externalNamespaces (db.rows .externalNamespaces ++
        [Encode.externalNamespace q.1 q.2])).linksHold .externalNamespaces (Encode.externalNamespace q.1 q.2) := by
      rw [linksHold_externalNamespace]
      exact h q List.mem_cons_self
    obtain ⟨grown, hgrown⟩ := insertNew_succeeds hlinks
    have hgrown : db.insertExternalNamespace q.1 q.2 = .ok grown := hgrown
    obtain ⟨rows, rfl, hrows⟩ := insertExternalNamespace_ok hp hgrown
    rw [List.foldlM_cons, hgrown]
    apply ih
    · intro row hrow
      rcases (hrows row).mp hrow with hrow | rfl
      · exact hp row hrow
      · exact ⟨_, _, rfl⟩
    · intro r hr
      exact h r (List.mem_cons_of_mem q hr)

theorem insertNamedType_succeeds {i : TypeId} {a : NamedType} (hp : Paired db.externalNamespaces)
    (hnamed : ∀ q ∈ db.namedTypes, Table.namedTypes.Distinct q (Encode.namedType i a))
    (hparameters : (db.typeParameters ++ Encode.parameters (i, a)).Pairwise Table.typeParameters.Distinct)
    (hlinks : a.Links (Encode.id · ∈ db.ids .namespaces) (Encode.id · ∈ db.ids .sourceFiles)
      fun j => Encode.id j ∈ db.ids .namedTypes ∨ j = i) :
    ∃ db', db.insertNamedType i a = .ok db' := by
  -- the row is in its table by the time its own links and those of its parameters are checked
  have hid : Encode.id i ∈ ids (db.setRows .namedTypes (db.rows .namedTypes ++ [Encode.namedType i a]))
      .namedTypes := by
    show Encode.id i ∈ (db.namedTypes ++ [Encode.namedType i a]).map (·.cell 0)
    rw [List.map_append, ← Encode.cell_zero_namedType (i, a)]
    exact List.mem_append_right _ List.mem_cons_self
  have hfirst := insert_succeeds (t := .namedTypes) hnamed (linksHold_named.mpr (hlinks.mono
    (fun _ h => h) (fun _ h => h) (by
      rintro j (hj | rfl)
      · show Encode.id j ∈ (db.namedTypes ++ [Encode.namedType i a]).map (·.cell 0)
        rw [List.map_append]
        exact List.mem_append_left _ hj
      · exact hid)))
  unfold insertNamedType
  rw [hfirst, ok_bind]
  cases a with
  | documented d =>
    refine ⟨_, insertAll_succeeds hparameters ?_⟩
    intro older row newer heq
    have hrow : row ∈ (d.parameters.getD []).map (Encode.parameter i) := by
      rw [heq]
      exact List.mem_append_right _ List.mem_cons_self
    obtain ⟨p, -, rfl⟩ := List.mem_map.mp hrow
    rw [linksHold_parameter]
    exact hid
  | external x =>
    have hp : Paired (db.setRows .namedTypes (db.rows .namedTypes ++
        [Encode.namedType i (.external x)])).externalNamespaces := hp
    have hids : ∀ q ∈ x.namespaces.names.map fun n => (i, n), Encode.id q.1 ∈ ids
        (db.setRows .namedTypes (db.rows .namedTypes ++ [Encode.namedType i (.external x)])) .namedTypes := by
      intro q hq
      obtain ⟨n, -, rfl⟩ := List.mem_map.mp hq
      exact hid
    obtain ⟨db', hdb'⟩ := insertExternalNamespaces_succeeds hp hids
    rw [List.foldlM_map] at hdb'
    exact ⟨db', hdb'⟩
  | parameter p => exact ⟨_, rfl⟩
  | tuple r => exact ⟨_, rfl⟩

theorem insertNamedTypes_succeeds {rs : List (TypeId × NamedType)} (hp : Paired db.externalNamespaces)
    (hnamed : (db.namedTypes ++ rs.map fun r => Encode.namedType r.1 r.2).Pairwise Table.namedTypes.Distinct)
    (hparameters : (db.typeParameters ++ rs.flatMap Encode.parameters).Pairwise Table.typeParameters.Distinct)
    (hlinks : ∀ older r newer, rs = older ++ r :: newer →
      r.2.Links (Encode.id · ∈ db.ids .namespaces) (Encode.id · ∈ db.ids .sourceFiles)
        fun j => Encode.id j ∈ db.ids .namedTypes ∨ j ∈ (older ++ [r]).map (·.1)) :
    ∃ db', rs.foldlM (fun db r => db.insertNamedType r.1 r.2) db = .ok db' := by
  induction rs generalizing db with
  | nil => exact ⟨db, rfl⟩
  | cons r rs ih =>
    rw [List.flatMap_cons, ← List.append_assoc] at hparameters
    have hfirst : ∀ q ∈ db.namedTypes, Table.namedTypes.Distinct q (Encode.namedType r.1 r.2) := by
      intro q hq
      exact (List.pairwise_append.mp hnamed).2.2 q hq _ List.mem_cons_self
    have hself := (hlinks [] r rs rfl).mono (fun _ h => h) (fun _ h => h) fun j hj => by simpa using hj
    obtain ⟨grown, hgrown⟩ := insertNamedType_succeeds hp hfirst (List.pairwise_append.mp hparameters).1 hself
    rw [List.foldlM_cons, hgrown]
    obtain ⟨rows, rfl, hp', -⟩ := insertNamedType_ok hp hgrown
    apply ih hp'
    · rw [List.map_cons, List.append_cons] at hnamed
      exact hnamed
    · exact hparameters
    · intro older q newer heq
      refine (hlinks (r :: older) q newer (by rw [heq]; rfl)).mono (fun _ h => h) (fun _ h => h) ?_
      intro j hj
      show Encode.id j ∈ (db.namedTypes ++ [Encode.namedType r.1 r.2]).map (·.cell 0) ∨ _
      rw [List.map_append]
      rcases hj with hj | hj
      · exact .inl (List.mem_append_left _ hj)
      · rw [List.cons_append, List.map_cons, List.mem_cons] at hj
        rcases hj with rfl | hj
        · left
          rw [← Encode.cell_zero_namedType r]
          exact List.mem_append_right _ List.mem_cons_self
        · exact .inr hj

end Database

/-- What every catalog has that was written by scans: links lead to rows, no two namespaces have one name
and no two files one path, a namespace stands with those around it, and a type is declared in a declared
type. -/
structure Contents.Coherent (c : Contents) : Prop where
  linked : c.Linked
  names : (c.namespaces.map (·.name)).Nodup
  paths : (c.files.map (·.path.text)).Nodup
  outer : ∀ n ∈ c.namespaces, ∀ o ∈ Session.outerNamespaces n.name, o ∈ c.namespaces.map (·.name)
  container : ∀ i d, (i, .documented d) ∈ c.named → ∀ j, d.container = some j →
    ∃ e, (j, .documented e) ∈ c.named

namespace Database

section

variable {db : Database} {t : Table} {α : Type} {e : Entity} {id : α → RowId e}

/-- In a table that is numbered in order, a row that is not newer stands before a row or is that row. -/
theorem mem_of_le_newer {older newer : List α} {x : α} (h : Counted ((older ++ x :: newer).map id)) {i : RowId e}
    (hi : i ∈ (older ++ x :: newer).map id) (hle : i.value ≤ (id x).value) : i ∈ (older ++ [x]).map id := by
  rw [List.append_cons, List.map_append] at hi h
  rcases List.mem_append.mp hi with hi | hi
  · exact hi
  · have hlt := (List.pairwise_append.mp h.ascending).2.2 (id x)
      (List.mem_map_of_mem (List.mem_append_right _ List.mem_cons_self)) i hi
    omega

theorem insertRows_succeeds {encode : α → Row} {old new all : List α} (hrows : db.rows t = old.map encode)
    (hall : all = old ++ new) (hkeys : (all.map encode).Pairwise t.Distinct)
    (hlinks : ∀ older x newer, all = older ++ x :: newer →
      (db.setRows t ((older ++ [x]).map encode)).linksHold t (encode x)) :
    db.insertAll t (new.map encode) = .ok (db.setRows t (all.map encode)) := by
  have hgrown : db.rows t ++ new.map encode = all.map encode := by rw [hrows, hall, List.map_append]
  rw [insertAll_succeeds, hgrown]
  · rw [hgrown]
    exact hkeys
  · intro older row newer heq
    obtain ⟨before, rest, rfl, rfl, hrest⟩ := List.map_eq_append_iff.mp heq
    obtain ⟨x, after, rfl, rfl, rfl⟩ := List.map_eq_cons_iff.mp hrest
    have hx := hlinks (old ++ before) x after (by rw [hall, List.append_assoc])
    rw [List.append_assoc, List.map_append, List.map_append, List.map_singleton, ← hrows] at hx
    exact hx

end

section

variable {db : Database} {c f : Contents} {changes : ChangeSet}

theorem insertNamespaces_succeeds (hh : db.Holds c) (hc : changes.Completes c f) (hf : f.Sound) (hco : f.Coherent) :
    db.insertAll .namespaces (changes.namespaces.map Encode.namespace) =
      .ok (db.setRows .namespaces (f.namespaces.map Encode.namespace)) := by
  apply insertRows_succeeds hh.namespaces hc.namespaces
  · exact pairwise_distinct_text rfl (fun _ => rfl) (fun _ => rfl) hf.namespaces hco.names
  · intro older n newer heq
    rw [linksHold_namespace]
    intro p hp
    rw [mem_ids (rows_setRows _) fun _ => rfl]
    have hcounted := hf.namespaces
    obtain ⟨hmem, hle⟩ := hco.linked.parent n (heq ▸ List.mem_append_right _ List.mem_cons_self) p hp
    rw [heq] at hcounted hmem
    exact mem_of_le_newer hcounted hmem hle

theorem completeFiles_succeeds (hc : changes.Completes c f) (hf : f.Sound) (hco : f.Coherent)
    (hspaces : db.rows .namespaces = f.namespaces.map Encode.namespace)
    (hfiles : db.rows .sourceFiles = c.files.map Encode.file)
    (husings : db.rows .fileUsings = c.files.flatMap Encode.usings) :
    ∃ db', changes.files.foldlM insertFile db = .ok db' := by
  apply insertFiles_succeeds
  · show (db.rows .sourceFiles ++ _).Pairwise _
    rw [hfiles, ← List.map_append, ← hc.files]
    exact pairwise_distinct_text rfl (fun _ => rfl) (fun _ => rfl) hf.files hco.paths
  · show (db.rows .fileUsings ++ _).Pairwise _
    rw [husings, ← List.flatMap_append, ← hc.files]
    exact hf.distinct_usings
  · intro x hx u hu
    rw [mem_ids hspaces fun _ => rfl]
    exact hco.linked.imported x (hc.files ▸ List.mem_append_right _ hx) u hu

theorem completeNamed_succeeds {old rs : List (TypeId × NamedType)} (hall : f.named = old ++ rs) (hf : f.Sound)
    (hl : f.Linked) (hp : Paired db.externalNamespaces)
    (hspaces : db.rows .namespaces = f.namespaces.map Encode.namespace)
    (hfiles : db.rows .sourceFiles = f.files.map Encode.file)
    (hnamed : db.rows .namedTypes = old.map fun r => Encode.namedType r.1 r.2)
    (hparameters : db.typeParameters = old.flatMap Encode.parameters) :
    ∃ db', rs.foldlM (fun db r => db.insertNamedType r.1 r.2) db = .ok db' := by
  apply insertNamedTypes_succeeds hp
  · show (db.rows .namedTypes ++ _).Pairwise _
    rw [hnamed, ← List.map_append, ← hall]
    exact pairwise_distinct rfl Encode.cell_zero_namedType hf.named
  · rw [hparameters, ← List.flatMap_append, ← hall]
    exact hf.distinct_parameters
  · intro older r newer heq
    have hr : f.named = (old ++ older) ++ r :: newer := by rw [hall, heq, List.append_assoc]
    refine (hl.named r (hr ▸ List.mem_append_right _ List.mem_cons_self)).mono ?_ ?_ ?_
    · exact fun i hi => (mem_ids hspaces fun _ => rfl).mpr hi
    · exact fun i hi => (mem_ids hfiles fun _ => rfl).mpr hi
    · -- a link between types leads to a stored row or to one that is written before
      rintro j ⟨hj, hle⟩
      have hcounted := hf.named
      rw [hr] at hcounted hj
      have hj := mem_of_le_newer hcounted hj hle
      rw [List.append_assoc, List.map_append] at hj
      rcases List.mem_append.mp hj with hj | hj
      · exact .inl ((mem_ids hnamed Encode.cell_zero_namedType).mpr hj)
      · exact .inr hj

theorem insertElements_succeeds (hc : changes.Completes c f) (hf : f.Sound) (hl : f.Linked)
    (hids : ∀ i ∈ f.named.map (·.1), Encode.id i ∈ db.ids .namedTypes)
    (helements : db.rows .tupleElements = c.elements.map Encode.tupleElement) :
    db.insertAll .tupleElements (changes.elements.map Encode.tupleElement) =
      .ok (db.setRows .tupleElements (f.elements.map Encode.tupleElement)) := by
  refine insertRows_succeeds helements hc.elements hf.distinct_elements ?_
  intro older x newer heq
  have hx := hl.element x (heq ▸ List.mem_append_right _ List.mem_cons_self)
  rw [linksHold_element]
  exact ⟨hids _ hx.1, hids _ hx.2⟩

theorem insertReferences_succeeds (hc : changes.Completes c f) (hf : f.Sound) (hl : f.Linked)
    (hids : ∀ i ∈ f.named.map (·.1), Encode.id i ∈ db.ids .namedTypes)
    (hreferences : db.rows .typeReferences = c.references.map Encode.reference) :
    db.insertAll .typeReferences (changes.references.map Encode.reference) =
      .ok (db.setRows .typeReferences (f.references.map Encode.reference)) := by
  refine insertRows_succeeds hreferences hc.references (pairwise_distinct rfl (fun _ => rfl) hf.references) ?_
  intro older r newer heq
  obtain ⟨hn, hparent⟩ := hl.reference r (heq ▸ List.mem_append_right _ List.mem_cons_self)
  rw [linksHold_reference]
  refine ⟨hids _ hn, ?_⟩
  intro p hp
  rw [mem_ids (rows_setRows _) fun _ => rfl]
  have hcounted := hf.references
  obtain ⟨hmem, hle⟩ := hparent p hp
  rw [heq] at hcounted hmem
  exact mem_of_le_newer hcounted hmem hle

theorem insertUsages_succeeds (hc : changes.Completes c f) (hf : f.Sound) (hl : f.Linked)
    (hids : ∀ i ∈ f.named.map (·.1), Encode.id i ∈ db.ids .namedTypes)
    (hreferences : db.rows .typeReferences = f.references.map Encode.reference)
    (husages : db.rows .typeUsages = c.usages.map Encode.usage) :
    db.insertAll .typeUsages (changes.usages.map Encode.usage) =
      .ok (db.setRows .typeUsages (f.usages.map Encode.usage)) := by
  refine insertRows_succeeds husages hc.usages (pairwise_distinct rfl (fun _ => rfl) hf.usages) ?_
  intro older u newer heq
  obtain ⟨ho, hr⟩ := hl.usage u (heq ▸ List.mem_append_right _ List.mem_cons_self)
  rw [linksHold_usage]
  exact ⟨hids _ ho, (mem_ids hreferences fun _ => rfl).mpr hr⟩

end

/-- A database accepts the rows that are missing for coherent contents. -/
theorem write_succeeds {db : Database} {c f : Contents} {changes : ChangeSet} (hh : db.Holds c)
    (hc : changes.Completes c f) (hf : f.Sound) (hco : f.Coherent) : ∃ db', db.write changes = .ok db' := by
  have hl := hco.linked
  have hpaired : Paired db.externalNamespaces := by
    intro row hrow
    obtain ⟨i, x, n, -, -, rfl⟩ := (hh.external row).mp hrow
    exact ⟨i, n, rfl⟩
  obtain ⟨db₂, h₂⟩ : ∃ db', changes.files.foldlM insertFile
      (db.setRows .namespaces (f.namespaces.map Encode.namespace)) = .ok db' :=
    completeFiles_succeeds hc hf hco (rows_setRows _) hh.files hh.usings
  have hdb₂ := insertFiles_ok h₂
  obtain ⟨old, hall, hold⟩ := hc.named
  have hnamed₂ : db₂.rows .namedTypes = old.map fun r => Encode.namedType r.1 r.2 := by
    rw [hold.map_awaits fun _ _ _ => rfl, hdb₂]
    exact hh.named
  obtain ⟨db₃, h₃⟩ : ∃ db', changes.named.foldlM (fun db r => db.insertNamedType r.1 r.2) db₂ = .ok db' := by
    refine completeNamed_succeeds hall hf hl ?_ ?_ ?_ hnamed₂ ?_
    · rw [hdb₂]
      exact hpaired
    · rw [hdb₂]
      rfl
    · rw [hdb₂, hc.files, List.map_append, ← hh.files]
      rfl
    · rw [hold.flatMap_awaits fun _ _ _ => rfl, hdb₂]
      exact hh.parameters
  obtain ⟨rows, hdb₃, hpaired₃, -⟩ := insertNamedTypes_ok h₃ (hdb₂ ▸ hpaired)
  have hids₃ {i : TypeId} : Encode.id i ∈ db₃.ids .namedTypes ↔ i ∈ f.named.map (·.1) := by
    refine mem_ids ?_ Encode.cell_zero_namedType
    rw [hall, List.map_append, ← hnamed₂, hdb₃]
    rfl
  obtain ⟨db₄, h₄⟩ : ∃ db', changes.externalNamespaces.foldlM
      (fun db q => db.insertExternalNamespace q.1 q.2) db₃ = .ok db' := by
    apply insertExternalNamespaces_succeeds
    · rw [hdb₃]
      exact hpaired₃
    · intro q hq
      obtain ⟨x, hx⟩ := hc.external q hq
      obtain ⟨b, hb, -⟩ := hold.mem hx
      rw [hids₃, hall, List.map_append]
      exact List.mem_append_left _ (List.mem_map_of_mem hb)
  obtain ⟨rows', hdb₄, -, -⟩ := insertExternalNamespaces_ok h₄ (by rw [hdb₃]; exact hpaired₃)
  have hids₄ : ∀ i ∈ f.named.map (·.1), Encode.id i ∈ db₄.ids .namedTypes := by
    intro i hi
    rw [hdb₄]
    exact hids₃.mpr hi
  -- elements, references and usages are in tables that nothing before has changed
  have helements : db₄.rows .tupleElements = c.elements.map Encode.tupleElement := by
    rw [hdb₄, hdb₃, hdb₂]
    exact hh.elements
  have hreferences : db₄.rows .typeReferences = c.references.map Encode.reference := by
    rw [hdb₄, hdb₃, hdb₂]
    exact hh.references
  have husages : db₄.rows .typeUsages = c.usages.map Encode.usage := by
    rw [hdb₄, hdb₃, hdb₂]
    exact hh.usages
  have h₆ : (db₄.setRows .tupleElements (f.elements.map Encode.tupleElement)).insertAll .typeReferences
      (changes.references.map Encode.reference) = .ok _ :=
    insertReferences_succeeds hc hf hl hids₄ hreferences
  unfold write
  rw [insertNamespaces_succeeds hh hc hf hco, ok_bind, h₂, ok_bind, h₃, ok_bind, h₄, ok_bind,
    insertElements_succeeds hc hf hl hids₄ helements, ok_bind, h₆, ok_bind]
  exact ⟨_, insertUsages_succeeds hc hf hl hids₄ (rows_setRows _) husages⟩

end Database

end TypeCatalog
