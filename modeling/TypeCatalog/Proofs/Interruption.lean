import TypeCatalog.Proofs.Flushing
import TypeCatalog.Proofs.Stability

namespace TypeCatalog

open Act Session

/-! The first pass -/

namespace Scan

variable {s t v : Session} {allowCreate : Bool}

/-- The declarations of all files, with the files that are new. -/
def catalogued (m : Summary) (us : List SourceUnit) : Act ScanError (Summary × List SourceUnit) :=
  us.foldlM (fun (m, fresh) u => declarations m fresh u) (m, [])

theorem outcome_units {m : Summary} {us : List SourceUnit} :
    (units allowCreate m us).outcome s = match (catalogued m us).outcome s with
      | (.error e, d) => (.error e, d)
      | (.ok (m, fresh), d) => match (fresh.foldlM (references allowCreate) m).outcome d with
        | (.error e, t) => (.error e, t)
        | (.ok m, t) => (.ok { m with references := t.references.length - d.references.length }, t) := by
  have hunits : units allowCreate m us = (catalogued m us >>= fun x => get >>= fun d =>
      x.2.foldlM (references allowCreate) x.1 >>= fun m => get >>= fun t =>
        pure { m with references := t.references.length - d.references.length }) := rfl
  rw [hunits, outcome_bind]
  rcases (catalogued m us).outcome s with ⟨e | ⟨m, fresh⟩, d⟩
  · rfl
  · have hget (f : Session → Act ScanError Summary) : (get >>= f).outcome d = (f d).outcome d := rfl
    dsimp only
    rw [hget, outcome_bind]
    rcases (fresh.foldlM (references allowCreate) m).outcome d with ⟨e | m, t⟩ <;> rfl

end Scan

namespace Session

variable {s t u : Session} {c f : Contents}

/-- Work that writes nothing and adds no references and usages. -/
structure Enters (s t : Session) : Prop where
  mutated : s.Mutated t
  store : t.store = s.store
  references : t.references = s.references
  usages : t.usages = s.usages

theorem Enters.refl (s : Session) : s.Enters s := ⟨.refl, rfl, rfl, rfl⟩

theorem Enters.trans (h : s.Enters t) (k : t.Enters u) : s.Enters u :=
  ⟨h.mutated.trans k.mutated, k.store.trans h.store, k.references.trans h.references, k.usages.trans h.usages⟩

end Session

namespace Scan

variable {s t v : Session} {allowCreate : Bool} {m : Summary} {us : List SourceUnit}

theorem catalogued_known (h : ∀ u ∈ us, (s.findSourceFile u.path).isSome = true) :
    (catalogued m us).outcome s = (.ok ({ m with filesSkipped := m.filesSkipped + us.length }, []), s) := by
  unfold catalogued
  induction us generalizing m with
  | nil => rfl
  | cons u us ih =>
    obtain ⟨file, hfile⟩ := Option.isSome_iff_exists.mp (h u List.mem_cons_self)
    have hcatalog : u.catalog s = .ok (.known file, s) := by
      unfold SourceUnit.catalog
      rw [hfile]
    have hskip : (declarations m [] u).outcome s = (.ok ({ m with filesSkipped := m.filesSkipped + 1 }, []), s) := by
      unfold declarations
      rw [outcome_bind, outcome_perform, hcatalog]
      rfl
    rw [List.foldlM_cons, outcome_bind, hskip]
    dsimp only
    rw [ih fun u hu => h u (List.mem_cons_of_mem _ hu), List.length_cons, Nat.add_right_comm, Nat.add_assoc]

/-- A scan of known files changes nothing. -/
theorem units_known (h : ∀ u ∈ us, (s.findSourceFile u.path).isSome = true) :
    (units allowCreate m us).outcome s =
      (.ok { m with filesSkipped := m.filesSkipped + us.length, references := 0 }, s) := by
  have hnil (m : Summary) : ([].foldlM (references allowCreate) m).outcome s = (.ok m, s) := rfl
  rw [outcome_units, catalogued_known h]
  dsimp only
  rw [hnil]
  dsimp only
  rw [Nat.sub_self]

end Scan

/-! Work on one file -/

theorem Act.outcome_foldlM_singleton {ε α β : Type} {f : β → α → Act ε β} {b : β} {x : α} {s : Session} :
    ([x].foldlM f b).outcome s = (f b x).outcome s := by
  rw [List.foldlM_cons, outcome_bind]
  rcases (f b x).outcome s with ⟨e | y, t⟩ <;> rfl

theorem Scan.catalogued_singleton {u : SourceUnit} {s t : Session} {m : Summary} {file : FileId} {types : Nat}
    (h : u.catalog s = .ok (.catalogued file types, t)) :
    (catalogued m [u]).outcome s = (.ok ({ m with
      filesScanned := m.filesScanned + 1
      documentedTypes := m.documentedTypes + types }, [u]), t) := by
  unfold catalogued
  rw [outcome_foldlM_singleton]
  dsimp only
  unfold declarations
  rw [outcome_bind, outcome_perform, h]
  rfl

theorem Analysis.outcome_ofNode {u : SourceUnit} {s t : Session} {container : TypeId} {allowCreate : Bool} {c : Cursor}
    {file : FileId} {ps : List TypeParameter} {fileContexts : List Context} (hfile : s.findSourceFile u.path = some file)
    (hps : (containerParameters container).outcome s = (.ok ps, t))
    (hcontexts : contextsOfFile t file = .ok fileContexts) :
    (ofNode u container allowCreate c).outcome s =
      (((build t fileContexts (maxDepth + 1) c).run none).map fun (root, _) =>
        { root, container, file, fileContexts, parameters := ps, allowCreate }, t) := by
  have hget (f : Session → Act AnalyzeError Analysis) : (get >>= f).outcome s = (f s).outcome s := rfl
  have hget' (f : Session → Act AnalyzeError Analysis) : (get >>= f).outcome t = (f t).outcome t := rfl
  unfold ofNode
  rw [hget, hfile]
  dsimp only
  rw [outcome_bind, hps]
  dsimp only
  rw [hget', hcontexts]
  dsimp only [liftCatalog, Except.mapError]
  cases (build t fileContexts (maxDepth + 1) c).run none <;> rfl

theorem Analysis.ofNode_ok {u : SourceUnit} {s t : Session} {container : TypeId} {allowCreate : Bool} {c : Cursor}
    {file : FileId} {ps : List TypeParameter} {fileContexts : List Context} {root : Descriptor}
    {seen : Option (List Context)} (hfile : s.findSourceFile u.path = some file)
    (hps : (containerParameters container).outcome s = (.ok ps, t)) (hcontexts : contextsOfFile t file = .ok fileContexts)
    (hroot : (build t fileContexts (maxDepth + 1) c).run none = .ok (root, seen)) :
    (ofNode u container allowCreate c).outcome s =
      (.ok { root, container, file, fileContexts, parameters := ps, allowCreate }, t) := by
  rw [outcome_ofNode hfile hps hcontexts, hroot]
  rfl

theorem Scan.resolveSite_ok {u : SourceUnit} {s t : Session} {owner : TypeId} {allowCreate : Bool} {c : Cursor}
    {root : ReferenceId} :
    (resolveSite allowCreate u owner c).outcome s = (.ok root, t) ↔
      ∃ a v, (Analysis.ofNode u owner allowCreate c).outcome s = (.ok a, v) ∧
        (a.resolve .standard).outcome v = (.ok root, t) := by
  unfold resolveSite
  simp only [outcome_bind_ok, outcome_mapError_ok]

theorem Scan.record_ok {u : SourceUnit} {s t v w : Session} {owner : TypeId} {allowCreate : Bool} {m : Summary}
    {site : Site} {a : Analysis} {reference : ReferenceId} {id : UsageId}
    (ha : (Analysis.ofNode u owner allowCreate site.type).outcome s = (.ok a, t))
    (hr : (a.resolve .standard).outcome t = (.ok reference, v))
    (hu : v.addUsage owner reference site.role site.member = .ok (id, w)) :
    (record allowCreate u owner m site).outcome s = (.ok { m with usages := m.usages + 1 }, w) := by
  unfold record
  rw [outcome_bind, outcome_attempt, resolveSite_ok.mpr ⟨a, t, ha, hr⟩]
  dsimp only
  rw [outcome_bind, outcome_perform, hu]
  rfl

namespace Session

variable {s t u : Session} {c f : Contents} {base : Database}

theorem Issues.length {e : Entity} (h : s.Issues t e) :
    (t.ids e).length + (s.counter e).used = (s.ids e).length + (t.counter e).used := by
  obtain ⟨n, hids, hused⟩ := h
  have hlength := congrArg List.length hids
  rw [List.length_append, List.length_map, List.length_map, List.length_range'] at hlength
  omega

/-- The session goes on after the references and usages of the store that it was opened on. -/
structure Upon (base : Database) (s : Session) : Prop where
  references : s.referenceIds.used = (base.rows .typeReferences).length + s.references.length
  usages : s.usageIds.used = (base.rows .typeUsages).length + s.usages.length
  store : ∃ store, s.store = some store ∧ base.rows .typeReferences <+: store.database.rows .typeReferences ∧
    base.rows .typeUsages <+: store.database.rows .typeUsages

theorem Upon.mutate (h : s.Upon base) (hs : s.Journal c f) (hm : s.Mutates t) : t.Upon base where
  references := by
    have hlength := (hm.issues .reference).length
    have hused := h.references
    simp only [ids, counter, List.length_map] at hlength
    omega
  usages := by
    have hlength := (hm.issues .usage).length
    have hused := h.usages
    simp only [ids, counter, List.length_map] at hlength
    omega
  store := by
    obtain ⟨store, hstore, hreferences, husages⟩ := h.store
    obtain heq | ⟨n, hsave⟩ := hm.store
    · exact ⟨store, heq.trans hstore, hreferences, husages⟩
    · obtain ⟨later, hlater⟩ := store_save hsave hstore
      have hbefore := (hs.holds store hstore).1
      have hafter := ((hs.save hsave).holds later hlater).1
      refine ⟨later, hlater, hreferences.trans ?_, husages.trans ?_⟩
      · rw [hbefore.references, hafter.references]
        exact map_stored hs.pending.references
      · rw [hbefore.usages, hafter.usages]
        exact map_stored hs.pending.usages

theorem Upon.mutated (h : s.Upon base) (hs : s.Arises) (hm : s.Mutated t) : t.Upon base := by
  induction hm with
  | refl => exact h
  | tail hrun hstep ih =>
    obtain ⟨-, c, f, hj⟩ := (hs.mutated hrun).1.orderly
    exact ih.mutate hj.toJournal hstep

/-- Rows of a table when all are stored. -/
theorem rows_after {α : Type} {encode : α → Row} {old : List Row} {older shown : List α} {used : Nat}
    (hold : old <+: (older ++ shown).map encode) (hused : used = (older ++ shown).length)
    (hlength : used = old.length + shown.length) :
    (older ++ shown).map encode = old ++ shown.map encode := by
  rw [List.map_append] at hold ⊢
  rw [List.length_append] at hused
  have hfirst := List.prefix_of_prefix_length_le hold (List.prefix_append (older.map encode) _) (by
    rw [List.length_map]
    omega)
  rw [hfirst.eq_of_length (by rw [List.length_map]; omega)]

/-- When nothing waits, the store has the rows it was opened with and then those of the session. -/
theorem Upon.rows (h : s.Upon base) (hs : s.Journal c f) (hp : s.pending.isEmpty = true) :
    ∃ store, s.store = some store ∧ store.database.rows .sourceFiles = s.files.map Encode.file ∧
      store.database.rows .typeReferences = base.rows .typeReferences ++ s.references.map Encode.reference ∧
      store.database.rows .typeUsages = base.rows .typeUsages ++ s.usages.map Encode.usage := by
  obtain ⟨store, hstore, hreferences, husages⟩ := h.store
  have hcf := hs.pending.eq_of_isEmpty hp hs.storedRegular hs.regular
  subst hcf
  have hholds := (hs.holds store hstore).1
  refine ⟨store, hstore, ?_, ?_, ?_⟩
  · rw [hholds.files, hs.files]
  · obtain ⟨older, -, hall⟩ := hs.references
    have hused := hs.referenceIds
    rw [hholds.references, hall] at hreferences ⊢
    rw [hall] at hused
    exact rows_after hreferences hused h.references
  · obtain ⟨older, -, hall⟩ := hs.usages
    have hused := hs.usageIds
    rw [hholds.usages, hall] at husages ⊢
    rw [hall] at hused
    exact rows_after husages hused h.usages

/-- The numbers in the rows have 32 bits. -/
structure Readable (s : Session) : Prop where
  named : ∀ r ∈ s.named, r.2.number ≤ RowId.largest
  elements : ∀ e ∈ s.elements, e.ordinal ≤ RowId.largest ∧ e.rank ≤ RowId.largest

theorem Journal.bounded (h : s.Journal c f) (hs : s.Readable) : f.Bounded where
  named r hr := by
    obtain ⟨b, hb, halike⟩ := h.rows.mem hr
    have hnumber : b.number = r.2.number := by
      obtain heq | ⟨d, ps, hd, rfl⟩ := halike.eq_or
      · rw [heq]
      · rw [hd]
        rfl
    rw [← hnumber]
    exact hs.named _ hb
  elements := by
    rw [← h.elements]
    exact hs.elements

end Session

namespace Scan

variable {s t v : Session} {allowCreate : Bool} {m : Summary} {us : List SourceUnit} {base : Database}

/-- What is in the store when `v` has written it, of a scan that goes on to `t`: every file of the scan, and the
references and usages so far. No row comes later below a stored reference. As its files are known, scanning them
again in a session that is opened on the store changes nothing. -/
structure Written (base : Database) (us : List SourceUnit) (v t : Session) : Prop where
  files : ∀ u ∈ us, (v.findSourceFile u.path).isSome = true
  stored : ∃ store, v.store = some store ∧ store.database.rows .sourceFiles = t.files.map Encode.file ∧
    store.database.rows .typeReferences = base.rows .typeReferences ++ v.references.map Encode.reference ∧
    store.database.rows .typeUsages = base.rows .typeUsages ++ v.usages.map Encode.usage ∧
    ∀ path readOnly, (v.Readable → ∃ w, openStore { store with path, readOnly } = .ok w) ∧
      ∀ w, openStore { store with path, readOnly } = .ok w → ∀ allowCreate m,
        (units allowCreate m us).outcome w =
          (.ok { m with filesSkipped := m.filesSkipped + us.length, references := 0 }, w) ∧ w.save = .ok (0, w)
  references : v.references <+: t.references
  trees : ∀ q ∈ v.ids .reference, t.referenceChildren q = v.referenceChildren q
  usages : v.usages <+: t.usages

theorem written {d : Session} (hd : d.Arises) (hupon : d.Upon base)
    (hknown : ∀ u ∈ us, (d.findSourceFile u.path).isSome = true) (hdv : d.Mutated v)
    (hp : v.pending.isEmpty = true) (h : Proceeds v.referenceIds.used v t) : Written base us v t := by
  obtain ⟨hv, hg⟩ := hd.mutated hdv
  obtain ⟨hroot, c, f, hj⟩ := hv.orderly
  have hgrows := (hv.mutated h.mutated).2.toGrows
  have hfound : ∀ u ∈ us, (v.findSourceFile u.path).isSome = true :=
    fun u hu => findSourceFile_of_grows (hknown u hu) hg.toGrows
  refine ⟨hfound, ?_, hgrows.references, ?_, hgrows.usages⟩
  · obtain ⟨store, hstore, hfiles, hreferences, husages⟩ := (hupon.mutated hd hdv).rows hj.toJournal hp
    refine ⟨store, hstore, by rw [hfiles, h.files], hreferences, husages, ?_⟩
    intro path readOnly
    refine ⟨fun hr => ⟨_, (hj.toJournal.reopened_iff hroot hp hstore).mpr ⟨hj.toJournal.bounded hr, rfl⟩⟩, ?_⟩
    intro w hw allowCreate m
    obtain ⟨-, rfl⟩ := (hj.toJournal.reopened_iff hroot hp hstore).mp hw
    refine ⟨units_known ?_, save_of_isEmpty rfl⟩
    intro u hu
    have hfound := hfound u hu
    unfold findSourceFile at hfound ⊢
    rwa [hj.files] at hfound
  · intro q hq
    obtain ⟨new, hnew, hparent⟩ := h.references
    have hle : q.value ≤ v.referenceIds.used := (hj.toJournal.taken_le (.inl hq)).2
    have hnone : new.filter (·.parent == some q) = [] := by
      rw [List.filter_eq_nil_iff]
      intro r hr heq
      have hlt := hparent r hr q (beq_iff_eq.mp heq)
      omega
    unfold referenceChildren
    rw [hnew, List.filter_append, hnone, List.append_nil]

end Scan

namespace Sample

/-- The file `class Box{(int,int) pair;}`. -/
def coupled : SourceUnit where
  path := ⟨"Box.cs"⟩
  source := "class Box{(int,int) pair;}"
  root := node 0 "compilation_unit" none 0 "class Box{(int,int) pair;}"
    [node 1 "class_declaration" none 0 "class Box{(int,int) pair;}"
      [node 2 "identifier" (some "name") 6 "Box" [],
       node 3 "declaration_list" (some "body") 9 "{(int,int) pair;}"
        [node 4 "field_declaration" none 10 "(int,int) pair;"
          [node 5 "variable_declaration" none 10 "(int,int) pair"
            [node 6 "tuple_type" (some "type") 10 "(int,int)"
              [node 7 "tuple_element" none 11 "int" [node 8 "predefined_type" (some "type") 11 "int" []],
               node 9 "tuple_element" none 15 "int" [node 10 "predefined_type" (some "type") 15 "int" []]],
             node 11 "variable_declarator" none 20 "pair" [node 12 "identifier" (some "name") 20 "pair" []]]]]]]

def couple : Descriptor :=
  .mk "(int, int)" .tuple 0 none [.mk "int" .keyword 0 none [], .mk "int" .keyword 0 none []]

def pairing : Analysis := analysis couple true

/-- After the first pass over the file. -/
def entered : Session := left (coupled.catalog (opening {}))

/-- The reference tree is added. -/
def joined : Session := ((pairing.resolve .standard).outcome entered).2

/-- After the scan of the file. -/
def scanned : Session := left (joined.addUsage ⟨1⟩ ⟨1⟩ .field (some "pair"))

end Sample

end TypeCatalog
