import TypeCatalog.Proofs.AppendOnly
import TypeCatalog.Proofs.Sites
import TypeCatalog.Proofs.Visiting

namespace TypeCatalog

open Session

/-! What a declaration is known by -/

namespace Cursor

/-- Full name and number of type parameters. -/
def key? (c : Cursor) : Option (String × Nat) := c.fullName?.map (·, c.typeParameterCount)

def parameterNames (c : Cursor) : List String := c.typeParameters.map (·.name)

/-- The innermost type declaration on a path. -/
def typeAlong? (path : List Node) : Option Cursor := (along path).find? isTypeDeclaration

/-- The type declaration that a place stands in. -/
def outerType? (c : Cursor) : Option Cursor := typeAlong? c.ancestors

variable {c d : Cursor}

theorem typeAlong?_trail : typeAlong? c.trail = if c.isTypeDeclaration then some c else c.outerType? := by
  have htrail : along c.trail = c :: along c.ancestors := rfl
  unfold outerType? typeAlong?
  rw [htrail, List.find?_cons]
  cases c.isTypeDeclaration <;> rfl

theorem fullName?_of_key? {k : String × Nat} (h : c.key? = some k) :
    c.fullName? = some k.1 ∧ c.typeParameterCount = k.2 := by
  obtain ⟨name, hname, rfl⟩ := Option.map_eq_some_iff.mp h
  exact ⟨hname, rfl⟩

end Cursor

/-! Rows and the declarations that they come from -/

namespace Session

variable {s t u : Session} {c : Cursor} {k : String × Nat} {id : TypeId} {a : NamedType}
  {ds es : List Cursor} {outer : Option (String × Nat)} {container : Option TypeId}

def findKey (s : Session) (k : String × Nat) : Option TypeId := s.findDocumented k.1 k.2

theorem documentedOf_eq : s.documentedOf c = c.key?.bind s.findKey := by
  unfold documentedOf Cursor.key?
  rw [Option.bind_map]
  rfl

theorem named?_appended (h : s.named <+: t.named) (ha : s.named? id = some a) : t.named? id = some a :=
  find?_of_named?.mpr (h.find?_eq_some (find?_of_named?.mp ha))

theorem findKey_appended (h : s.named <+: t.named) (hk : s.findKey k = some id) : t.findKey k = some id := by
  obtain ⟨r, hr, rfl⟩ := Option.map_eq_some_iff.mp hk
  exact Option.map_eq_some_iff.mpr ⟨r, h.find?_eq_some hr, rfl⟩

/-- The container is the type of this key, if there is a key. -/
def Houses (s : Session) (outer : Option (String × Nat)) (container : Option TypeId) : Prop :=
  ∀ k, outer = some k → ∃ j, container = some j ∧ s.findKey k = some j

theorem Houses.appended (h : s.Houses outer container) (hp : s.named <+: t.named) : t.Houses outer container := by
  intro k hk
  obtain ⟨j, hj, hfound⟩ := h k hk
  exact ⟨j, hj, findKey_appended hp hfound⟩

/-- A row says what a declaration says: its type parameters, and the type around it. -/
structure Depicts (s : Session) (c : Cursor) (e : Documented) : Prop where
  parameters : e.parameters = some c.typeParameters
  arity : e.arity = c.typeParameters.length
  container : s.Houses (c.outerType?.bind Cursor.key?) e.container

theorem Depicts.appended {e : Documented} (h : s.Depicts c e) (hp : s.named <+: t.named) : t.Depicts c e :=
  { h with container := h.container.appended hp }

/-- The declarations `ds` were catalogued between `s` and `t`. A new row is that of the first of them that has its
key. -/
structure Stems (s t : Session) (ds : List Cursor) : Prop where
  store : t.store = s.store
  rows : s.named <+: t.named
  listed : ∀ c ∈ ds, ∀ k, c.key? = some k → ∃ id, t.findKey k = some id
  first : ∀ k id, s.findKey k = none → t.findKey k = some id →
    ∃ c e, ds.find? (·.key? == some k) = some c ∧ (id, .documented e) ∈ t.named ∧ t.Depicts c e

theorem stems_of_named (hnamed : t.named = s.named) (hstore : t.store = s.store) : s.Stems t [] where
  store := hstore
  rows := hnamed ▸ List.prefix_rfl
  listed := by simp
  first k id hk hid := by
    unfold findKey findDocumented at hk hid
    rw [hnamed, hk] at hid
    cases hid

theorem Stems.trans (h : s.Stems t ds) (k : t.Stems u es) : s.Stems u (ds ++ es) where
  store := k.store.trans h.store
  rows := h.rows.trans k.rows
  listed c hc key hkey := by
    rcases List.mem_append.mp hc with hc | hc
    · obtain ⟨id, hid⟩ := h.listed c hc key hkey
      exact ⟨id, findKey_appended k.rows hid⟩
    · exact k.listed c hc key hkey
  first key id hs hid := by
    rw [List.find?_append]
    cases ht : t.findKey key with
    | some j =>
      cases (findKey_appended k.rows ht).symm.trans hid
      obtain ⟨c, e, hc, he, hdepicts⟩ := h.first key id hs ht
      exact ⟨c, e, by rw [hc]; rfl, k.rows.subset he, hdepicts.appended k.rows⟩
    | none =>
      have hnone : ds.find? (·.key? == some key) = none := by
        rw [List.find?_eq_none]
        intro c hc hkey
        obtain ⟨j, hj⟩ := h.listed c hc key (beq_iff_eq.mp hkey)
        cases ht.symm.trans hj
      obtain ⟨c, e, hc, he, hdepicts⟩ := k.first key id ht hid
      exact ⟨c, e, by rw [hnone, hc]; rfl, he, hdepicts⟩

theorem frame_ensureNamespace {name : String} {id : NamespaceId} (h : s.ensureNamespace name = .ok (id, t)) :
    t.named = s.named ∧ t.store = s.store ∧ t.files = s.files := by
  refine ensureWithin_induction (P := fun t => t.named = s.named ∧ t.store = s.store ∧ t.files = s.files) ?_
    ⟨rfl, rfl, rfl⟩ h
  intro v name parent id w hv hw
  obtain ⟨-, rfl, rfl⟩ := addNamespace_ok hw
  exact hv

theorem findDocumented_ensureNamespace {name : String} {id : NamespaceId} (h : s.ensureNamespace name = .ok (id, t)) :
    t.findDocumented = s.findDocumented := by
  unfold findDocumented
  rw [(frame_ensureNamespace h).1]

theorem frame_ensureNamespaces {names : List String} {ids : List NamespaceId}
    (h : s.ensureNamespaces names = .ok (ids, t)) : t.named = s.named ∧ t.store = s.store ∧ t.files = s.files := by
  induction names generalizing s ids with
  | nil =>
    cases h
    exact ⟨rfl, rfl, rfl⟩
  | cons name names ih =>
    unfold ensureNamespaces at h
    obtain ⟨⟨id, u⟩, hu, h⟩ := bind_eq_ok.mp h
    obtain ⟨⟨rest, v⟩, hv, h⟩ := bind_eq_ok.mp h
    cases h
    obtain ⟨hnamed, hstore, hfiles⟩ := ih hv
    obtain ⟨hnamed', hstore', hfiles'⟩ := frame_ensureNamespace hu
    exact ⟨hnamed.trans hnamed', hstore.trans hstore', hfiles.trans hfiles'⟩

/-- The first row of its key is the one that is found. -/
theorem findKey_concat {e : Documented} (hnone : s.findKey (e.fullName, e.arity) = none)
    (h : t.named = s.named ++ [(id, .documented e)]) :
    t.findKey k = if k = (e.fullName, e.arity) then some id else s.findKey k := by
  have hfind : t.findKey k = (s.findKey k).or (if k = (e.fullName, e.arity) then some id else none) := by
    unfold findKey findDocumented
    rw [h, List.find?_append, Option.map_or]
    congr 1
    obtain ⟨name, arity⟩ := k
    by_cases hk : (name, arity) = (e.fullName, e.arity)
    · obtain ⟨rfl, rfl⟩ := Prod.mk.inj hk
      simp [NamedType.documented?]
    · have hk' : ¬ (e.fullName = name ∧ e.arity = arity) := by
        rintro ⟨rfl, rfl⟩
        exact hk rfl
      rw [if_neg hk, List.find?_cons_of_neg (by simpa [NamedType.documented?] using hk')]
      rfl
  rw [hfind]
  split
  · next hk =>
    rw [hk, hnone]
    rfl
  · rw [Option.or_none]

theorem stems_addDocumented {e : Documented} (h : s.addDocumented e = .ok (id, t))
    (hnone : s.findKey (e.fullName, e.arity) = none) (hkey : c.key? = some (e.fullName, e.arity))
    (hdepicts : s.Depicts c e) : s.Stems t [c] ∧ t.findKey (e.fullName, e.arity) = some id := by
  obtain ⟨-, hid, ht⟩ := addNamed_ok h
  have hnamed : t.named = s.named ++ [(id, .documented e)] := by rw [ht, hid]
  have hrows : s.named <+: t.named := hnamed ▸ List.prefix_append _ _
  have hfound : t.findKey (e.fullName, e.arity) = some id := by rw [findKey_concat hnone hnamed, if_pos rfl]
  refine ⟨⟨by rw [ht], hrows, ?_, ?_⟩, hfound⟩
  · intro x hx k hk
    cases List.mem_singleton.mp hx
    cases hkey.symm.trans hk
    exact ⟨id, hfound⟩
  · intro k j hk hj
    rw [findKey_concat hnone hnamed] at hj
    split at hj
    · next heq =>
      cases hj
      refine ⟨c, e, ?_, ?_, hdepicts.appended hrows⟩
      · rw [List.find?_cons_of_pos (by rw [hkey, heq]; exact beq_self_eq_true _)]
      · rw [hnamed]
        exact List.mem_append_right _ List.mem_cons_self
    · cases hk.symm.trans hj

end Session

namespace Declarations

variable {s t : Session} {c : Cursor} {file : FileId} {container : Option TypeId}

/-- A type declaration gets the row that is there for its key, or else a row of its own. -/
theorem stems_enterType {id? : Option TypeId} (h : enterType file container c s = .ok (id?, t))
    (hc : c.isTypeDeclaration = true) (hcount : c.typeParameters.length = c.typeParameterCount)
    (hcontainer : s.Houses (c.outerType?.bind Cursor.key?) container) :
    s.Stems t [c] ∧ t.Houses c.key? id? := by
  unfold enterType at h
  split at h
  · next declKind name fullName _ _ hfull =>
    have hkey : c.key? = some (fullName, c.typeParameters.length) := by
      unfold Cursor.key?
      rw [hfull, hcount]
      rfl
    have hhouses {id : TypeId} (hid : t.findKey (fullName, c.typeParameters.length) = some id) :
        t.Houses c.key? (some id) := by
      intro k hk
      cases hkey.symm.trans hk
      exact ⟨id, rfl, hid⟩
    -- a declaration whose key has a row joins it, and only another one adds a row
    dsimp only at h
    split at h
    · next id hid =>
      cases h
      refine ⟨⟨rfl, List.prefix_rfl, ?_, ?_⟩, hhouses hid⟩
      · intro x hx k hk
        cases List.mem_singleton.mp hx
        cases hkey.symm.trans hk
        exact ⟨id, hid⟩
      · intro k j hnone hj
        cases hnone.symm.trans hj
    · next hnone =>
      obtain ⟨⟨home, u⟩, hu, h⟩ := bind_eq_ok.mp h
      obtain ⟨⟨id, v⟩, hv, h⟩ := bind_eq_ok.mp h
      cases h
      obtain ⟨hnamed, hstore, -⟩ := frame_ensureNamespace hu
      have hsu := stems_of_named hnamed hstore
      have hnone' : u.findKey (fullName, c.typeParameters.length) = none := by
        unfold findKey
        rw [findDocumented_ensureNamespace hu]
        exact hnone
      obtain ⟨hut, hfound⟩ := stems_addDocumented hv hnone' hkey ⟨rfl, rfl, hcontainer.appended hsu.rows⟩
      exact ⟨hsu.trans hut, hhouses hfound⟩
  · next hnone =>
    cases h
    have hkey : c.key? = none := by
      rw [Option.eq_none_iff_forall_ne_some]
      intro k hk
      obtain ⟨hfull, -⟩ := Cursor.fullName?_of_key? hk
      obtain ⟨kind, hkind⟩ := Option.isSome_iff_exists.mp (Cursor.declKind_isSome hc)
      obtain ⟨own, hown⟩ := Option.isSome_iff_exists.mp (Cursor.declaredName?_of_fullName? hfull)
      exact hnone kind own k.1 hkind hown hfull
    refine ⟨⟨rfl, List.prefix_rfl, ?_, ?_⟩, ?_⟩
    · intro x hx k hk
      cases List.mem_singleton.mp hx
      cases hkey.symm.trans hk
    · intro k j hnone hj
      cases hnone.symm.trans hj
    · intro k hk
      cases hkey.symm.trans hk

/-- The declarations of a tree are catalogued in document order, each within the type of the declaration around it. -/
theorem walk_stems (file : FileId) : Walk file (fun x => x.typeParameters.length = x.typeParameterCount)
    (fun above container s => s.Houses ((Cursor.typeAlong? above).bind Cursor.key?) container)
    (fun s xs t => s.Stems t (xs.filter (·.isTypeDeclaration))) where
  stay _ := stems_of_named rfl rfl
  trans hst htv := by
    rw [List.filter_append]
    exact hst.trans htv
  keep hc hst := hc.appended hst.rows
  space {s t c container} _ hns hc hown := by
    have htype := Cursor.not_typeDeclaration hns
    obtain ⟨⟨ids, v⟩, hnames, hown⟩ := bind_eq_ok.mp hown
    cases hown
    obtain ⟨hnamed, hstore, -⟩ := frame_ensureNamespaces hnames
    have hst := stems_of_named hnamed hstore
    rw [List.filter_cons_of_neg (by simp [htype]), Cursor.typeAlong?_trail, if_neg (by simp [htype])]
    exact ⟨hst, hc.appended hst.rows⟩
  type {s t c container id?} hcount htype hc hown := by
    obtain ⟨hst, hhouses⟩ := stems_enterType hown htype hcount hc
    rw [List.filter_cons_of_pos htype, Cursor.typeAlong?_trail, if_pos htype]
    refine ⟨hst, fun k hk => ?_⟩
    obtain ⟨j, hj, hfound⟩ := hhouses k hk
    exact ⟨j, by rw [hj, Option.some_or], hfound⟩
  other {s c container} _ _ htype hc := by
    rw [List.filter_cons_of_neg (by simp [htype]), Cursor.typeAlong?_trail, if_neg (by simp [htype])]
    exact ⟨stems_of_named rfl rfl, hc⟩

theorem files_enterType {id? : Option TypeId} (h : enterType file container c s = .ok (id?, t)) :
    t.files = s.files := by
  unfold enterType at h
  split at h
  · dsimp only at h
    split at h
    · cases h
      rfl
    · obtain ⟨⟨home, u⟩, hu, h⟩ := bind_eq_ok.mp h
      obtain ⟨⟨id, v⟩, hv, h⟩ := bind_eq_ok.mp h
      cases h
      obtain ⟨-, -, hfiles⟩ := frame_ensureNamespace hu
      obtain ⟨-, -, rfl⟩ := addNamed_ok hv
      exact hfiles
  · cases h
    rfl

theorem walk_files (file : FileId) : Walk file (fun _ => True) (fun _ _ _ => True) (fun s _ t => t.files = s.files) where
  stay _ := rfl
  trans hst htv := htv.trans hst
  keep _ _ := trivial
  space _ _ _ hown := by
    obtain ⟨⟨ids, v⟩, hnames, hown⟩ := bind_eq_ok.mp hown
    cases hown
    exact ⟨(frame_ensureNamespaces hnames).2.2, trivial⟩
  type _ _ _ hown := ⟨files_enterType hown, trivial⟩
  other _ _ _ _ := ⟨rfl, trivial⟩

end Declarations

namespace SourceUnit

variable {u : SourceUnit} {s t : Session} {outcome : Outcome}

/-- A file is catalogued unless its path is known, and then its path is known too. -/
theorem files_catalog (h : u.catalog s = .ok (outcome, t)) :
    (∃ file, outcome = .known file) ∧ (s.findSourceFile u.path).isSome = true ∧ t = s ∨
      (∃ file types, outcome = .catalogued file types) ∧ (s.findSourceFile u.path).isSome = false ∧
        ∀ p, (t.findSourceFile p).isSome = ((s.findSourceFile p).isSome || u.path.same p) := by
  unfold catalog at h
  split at h
  · next file hfile =>
    cases h
    exact .inl ⟨⟨file, rfl⟩, by rw [hfile]; rfl, rfl⟩
  · next hfile =>
    obtain ⟨⟨usings, v⟩, hv, h⟩ := bind_eq_ok.mp h
    obtain ⟨⟨file, w⟩, hw, h⟩ := bind_eq_ok.mp h
    obtain ⟨⟨types, x⟩, hx, h⟩ := bind_eq_ok.mp h
    cases h
    obtain ⟨-, -, hfiles⟩ := frame_ensureNamespaces hv
    obtain ⟨-, -, hw⟩ := addSourceFile_ok hw
    have hfiles' := (Declarations.walk_files file).visit u.root hx (fun _ _ => trivial) trivial
    refine .inr ⟨⟨_, types, rfl⟩, by rw [hfile]; rfl, fun p => ?_⟩
    unfold findSourceFile
    rw [hfiles', hw, Option.isSome_map, Option.isSome_map, List.reverse_append, List.reverse_singleton,
      List.singleton_append, List.find?_cons]
    dsimp only
    rw [hfiles]
    cases u.path.same p <;> simp

theorem stems_catalog (hu : u.Shaped) {file : FileId} {types : Nat} (h : u.catalog s = .ok (.catalogued file types, t)) :
    s.Stems t u.top.typeDeclarations := by
  unfold catalog at h
  split at h
  · cases h
  · obtain ⟨⟨usings, v⟩, hv, h⟩ := bind_eq_ok.mp h
    obtain ⟨⟨file, w⟩, hw, h⟩ := bind_eq_ok.mp h
    obtain ⟨⟨types, x⟩, hx, h⟩ := bind_eq_ok.mp h
    cases h
    obtain ⟨hnamed, hstore, -⟩ := frame_ensureNamespaces hv
    obtain ⟨-, -, hw⟩ := addSourceFile_ok hw
    have hsw : s.Stems w [] := stems_of_named (by rw [hw, ← hnamed]) (by rw [hw, ← hstore])
    have hcount : ∀ c ∈ u.root.preorder [], c.typeParameters.length = c.typeParameterCount :=
      fun c hc => hu.length_typeParameters (Node.preorder_within hc).1
    have hstems := (Declarations.walk_stems file).visit u.root hx hcount (by rintro k ⟨⟩)
    rw [Cursor.typeDeclarations_eq]
    exact hsw.trans hstems

end SourceUnit

namespace Scan

variable {s t : Session} {m : Summary} {us new : List SourceUnit}

/-- One more file, unless its path is known or that of an earlier file. -/
def meet (s : Session) (new : List SourceUnit) (u : SourceUnit) : List SourceUnit :=
  if (s.findSourceFile u.path).isSome || new.any (·.path.same u.path) then new else new ++ [u]

/-- The files of a scan that are new. -/
def fresh (s : Session) (us : List SourceUnit) : List SourceUnit := us.foldl (meet s) []

/-- The type declarations of these files, in the order in which they are catalogued. -/
def declared (us : List SourceUnit) : List Cursor := us.flatMap (·.top.typeDeclarations)

/-- The paths that are known in `t` are those known in `s` and those of the files `new`. -/
def Knows (s t : Session) (new : List SourceUnit) : Prop :=
  ∀ p, (t.findSourceFile p).isSome = ((s.findSourceFile p).isSome || new.any (·.path.same p))

/-- What the first pass counts: of `n` more files those are new by which `later` is longer than `new`. -/
structure Tallied (m m' : Summary) (new later : List SourceUnit) (n : Nat) : Prop where
  scanned : m'.filesScanned + new.length = m.filesScanned + later.length
  visited : m'.filesScanned + m'.filesSkipped = m.filesScanned + m.filesSkipped + n
  rest : { m' with
    filesScanned := m.filesScanned, filesSkipped := m.filesSkipped, documentedTypes := m.documentedTypes } = m

/-- The first pass takes the files that are new, and keeps what cataloguing each of them keeps. It fails only where one
of them cannot be catalogued. -/
theorem leads_declarations_fresh {P : Session → List SourceUnit → Prop}
    (hstep : ∀ u ∈ us, ∀ t new file types v, P t new → u.catalog t = .ok (.catalogued file types, v) → P v (new ++ [u]))
    (hknown : Knows s t new) (h : P t new) :
    (us.foldlM (fun (m, fresh) u => declarations m fresh u) (m, new)).Leads t
      (fun r v => r.2 = us.foldl (meet s) new ∧ Knows s v r.2 ∧ P v r.2 ∧ Tallied m r.1 new r.2 us.length)
      fun _ v => ∃ before u after, us = before ++ u :: after ∧ P v (before.foldl (meet s) new) ∧
        ∃ e, SourceUnit.catalog u v = Except.error e := by
  induction us generalizing t m new with
  | nil => exact Act.leads_pure ⟨rfl, hknown, h, rfl, rfl, rfl⟩
  | cons u us ih =>
    obtain ⟨hu, hus⟩ := List.forall_mem_cons.mp hstep
    rw [List.foldlM_cons, List.foldl_cons]
    apply Act.leads_bind
    unfold declarations
    apply Act.leads_bind
    refine Act.leads_perform ?_ fun e he => ⟨[], u, us, rfl, h, e, he⟩
    intro outcome v hv
    have hmeet := hknown u.path
    -- what goes wrong later goes wrong with `u` among the files before it
    have hfailed {w : Session} (hw : ∃ before x after, us = before ++ x :: after ∧
        P w (before.foldl (meet s) (meet s new u)) ∧ ∃ e, x.catalog w = .error e) :
        ∃ before x after, u :: us = before ++ x :: after ∧ P w (before.foldl (meet s) new) ∧
          ∃ e, x.catalog w = .error e := by
      obtain ⟨before, x, after, rfl, hw⟩ := hw
      exact ⟨u :: before, x, after, rfl, hw⟩
    obtain ⟨⟨file, rfl⟩, hfile, rfl⟩ | ⟨⟨file, types, rfl⟩, hfile, hfiles⟩ := u.files_catalog hv
    · rw [hfile] at hmeet
      rw [meet, if_pos hmeet.symm] at hfailed ⊢
      refine Act.leads_pure ((ih hus hknown h).mono ?_ fun _ _ => hfailed)
      rintro r w ⟨hr, hknown, hP, hscanned, hvisited, hrest⟩
      refine ⟨hr, hknown, hP, hscanned, ?_, ?_⟩
      · rw [hvisited, List.length_cons]
        dsimp only
        omega
      · exact congrArg (fun x : Summary => { x with filesSkipped := m.filesSkipped }) hrest
    · rw [hfile] at hmeet
      rw [meet, if_neg (by rw [← hmeet]; simp)] at hfailed ⊢
      refine Act.leads_pure ((ih hus (fun p => ?_) (hu t new file types v h hv)).mono ?_ fun _ _ => hfailed)
      · rw [hfiles p, hknown p, List.any_append, Bool.or_assoc]
        simp
      · rintro r w ⟨hr, hknown, hP, hscanned, hvisited, hrest⟩
        refine ⟨hr, hknown, hP, ?_, ?_, ?_⟩
        · rw [List.length_append, List.length_singleton] at hscanned
          dsimp only at hscanned
          omega
        · rw [hvisited, List.length_cons]
          dsimp only
          omega
        · exact congrArg (fun x : Summary =>
            { x with filesScanned := m.filesScanned, documentedTypes := m.documentedTypes }) hrest

/-- The files `new` were catalogued between `s` and `t`, and no others. -/
structure Met (s t : Session) (new : List SourceUnit) : Prop where
  stems : s.Stems t (declared new)
  known : ∀ p, (t.findSourceFile p).isSome = ((s.findSourceFile p).isSome || new.any (·.path.same p))

theorem leads_declarations_met (hus : ∀ u ∈ us, u.Shaped) (h : Met s t new) :
    (us.foldlM (fun (m, fresh) u => declarations m fresh u) (m, new)).Leads t
      (fun r v => r.2 = us.foldl (meet s) new ∧ Met s v r.2) fun _ _ => True := by
  have hstep : ∀ u ∈ us, ∀ t new file types v, s.Stems t (declared new) →
      u.catalog t = .ok (.catalogued file types, v) → s.Stems v (declared (new ++ [u])) := by
    intro u hu t new file types v hst hv
    unfold declared
    rw [List.flatMap_append, List.flatMap_singleton]
    exact hst.trans (SourceUnit.stems_catalog (hus u hu) hv)
  refine (leads_declarations_fresh (P := fun t new => s.Stems t (declared new)) hstep h.known h.stems).mono ?_
    fun _ _ _ => trivial
  rintro r v ⟨hr, hknown, hstems, -⟩
  exact ⟨hr, hstems, hknown⟩

end Scan

end TypeCatalog
