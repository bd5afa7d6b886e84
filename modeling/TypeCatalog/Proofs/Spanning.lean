import Mathlib.Data.List.Perm.Subperm
import TypeCatalog.Proofs.Provenance
import TypeCatalog.Proofs.Settling

namespace TypeCatalog

open Act Session

/-- Full name and number of type parameters of a documented type. -/
def NamedType.key? (a : NamedType) : Option (String × Nat) := a.documented?.map fun d => (d.fullName, d.arity)

/-! What is catalogued -/

namespace Session

variable {N : String → Prop} {K : String × Nat → Prop} {s t v w : Session} {m name : String} {k : String × Nat}

def names (s : Session) : List String := s.namespaces.map (·.name)

/-- The keys of the documented types. -/
def keys (s : Session) : List (String × Nat) := s.named.filterMap (·.2.key?)

theorem mem_names : m ∈ s.names ↔ (s.findNamespace m).isSome = true := by
  unfold names findNamespace
  rw [Option.isSome_map, List.find?_isSome, List.mem_map]
  simp only [beq_iff_eq]

theorem any_documented?_iff {a : NamedType} :
    (a.documented?.any fun d => d.fullName == k.1 && d.arity == k.2) = true ↔ a.key? = some k := by
  unfold NamedType.key?
  cases a.documented? with
  | none => simp
  | some d => simp [Prod.ext_iff]

theorem mem_keys : k ∈ s.keys ↔ (s.findDocumented k.1 k.2).isSome = true := by
  unfold keys findDocumented
  rw [Option.isSome_map, List.find?_isSome, List.mem_filterMap]
  simp only [any_documented?_iff]

theorem not_mem_keys (h : s.findDocumented k.1 k.2 = none) : k ∉ s.keys := by
  rw [mem_keys, h]
  exact Bool.false_ne_true

/-- Between `s` and `t` namespaces and documented types were added only, each with a name or a key as said, and no key
a second time. -/
structure Spans (N : String → Prop) (K : String × Nat → Prop) (s t : Session) : Prop where
  grows : s.Grows t
  names : ∀ m ∈ t.names, m ∈ s.names ∨ N m
  types : ∃ new, t.named = s.named ++ new ∧ ∀ r ∈ new, ∃ k, r.2.key? = some k ∧ K k
  once : s.keys.Nodup → t.keys.Nodup

namespace Spans

theorem refl (s : Session) : Spans N K s s := ⟨.refl s, fun _ => .inl, ⟨[], by simp, by simp⟩, id⟩

theorem trans (h : Spans N K s t) (k : Spans N K t v) : Spans N K s v where
  grows := h.grows.trans k.grows
  names m hm := (k.names m hm).elim (h.names m) .inr
  types := by
    obtain ⟨new, ht, hnew⟩ := h.types
    obtain ⟨more, hv, hmore⟩ := k.types
    exact ⟨new ++ more, by rw [hv, ht, List.append_assoc], List.forall_mem_append.mpr ⟨hnew, hmore⟩⟩
  once hs := k.once (h.once hs)

theorem names_subset (h : Spans N K s t) : s.names ⊆ t.names := by
  intro m hm
  obtain ⟨id, hid⟩ := Option.isSome_iff_exists.mp (mem_names.mp hm)
  exact mem_names.mpr (by rw [h.grows.findNamespace hid]; rfl)

theorem keys_subset (h : Spans N K s t) : s.keys ⊆ t.keys := by
  obtain ⟨new, ht, -⟩ := h.types
  unfold Session.keys
  rw [ht, List.filterMap_append]
  exact List.subset_append_left _ _

theorem keys (h : Spans N K s t) : ∀ k ∈ t.keys, k ∈ s.keys ∨ K k := by
  obtain ⟨new, ht, hnew⟩ := h.types
  unfold Session.keys
  intro k hk
  rw [ht, List.filterMap_append, List.mem_append] at hk
  refine hk.imp_right fun hk => ?_
  obtain ⟨r, hr, hkey⟩ := List.mem_filterMap.mp hk
  obtain ⟨k', hkey', hK⟩ := hnew r hr
  cases hkey.symm.trans hkey'
  exact hK

/-- Each new row has a key. -/
theorem length_keys (h : Spans N K s t) : t.named.length + s.keys.length = s.named.length + t.keys.length := by
  obtain ⟨new, ht, hnew⟩ := h.types
  have hlength : (new.filterMap (·.2.key?)).length = new.length := by
    rw [List.length_filterMap_eq_countP, List.countP_eq_length]
    intro r hr
    obtain ⟨k, hk, -⟩ := hnew r hr
    rw [hk]
    rfl
  unfold Session.keys
  rw [ht, List.filterMap_append, List.length_append, List.length_append, hlength]
  omega

end Spans

theorem spans_addNamespace {parent : Option NamespaceId} {id : NamespaceId} (hm : N m)
    (h : s.addNamespace m parent = .ok (id, t)) : Spans N K s t := by
  have hgrows := grows_addNamespace h
  obtain ⟨-, -, rfl⟩ := addNamespace_ok h
  refine ⟨hgrows, fun o ho => ?_, ⟨[], by simp, by simp⟩, fun hs => hs⟩
  unfold names at ho ⊢
  rw [List.map_append, List.mem_append] at ho
  refine ho.imp_right fun ho => ?_
  rw [List.mem_singleton.mp ho]
  exact hm

/-- The namespaces that are added with one are it and those around it. -/
theorem spans_ensureNamespace {id : NamespaceId} (hname : ∀ m ∈ name :: outerNamespaces name, N m)
    (h : s.ensureNamespace name = .ok (id, t)) : Spans N K s t :=
  (ensureWithin_nested (P := Spans N K s)
    (fun _ _ _ _ _ hs hm _ _ hadd => hs.trans (spans_addNamespace (hname _ hm) hadd)) rfl (.refl s) h).1

theorem spans_ensureNamespaces {names : List String} {ids : List NamespaceId}
    (hnames : ∀ name ∈ names, ∀ m ∈ name :: outerNamespaces name, N m)
    (h : s.ensureNamespaces names = .ok (ids, t)) : Spans N K s t := by
  induction names generalizing s ids with
  | nil =>
    cases h
    exact .refl _
  | cons name names ih =>
    obtain ⟨hname, hnames⟩ := List.forall_mem_cons.mp hnames
    unfold ensureNamespaces at h
    obtain ⟨⟨id, u⟩, hu, h⟩ := bind_eq_ok.mp h
    obtain ⟨⟨rest, v⟩, hv, h⟩ := bind_eq_ok.mp h
    cases h
    exact (spans_ensureNamespace hname hu).trans (ih hnames hv)

theorem spans_addSourceFile {path : Path} {usings : List NamespaceId} {id : FileId}
    (h : s.addSourceFile path usings = .ok (id, t)) : Spans N K s t := by
  have hgrows := grows_addSourceFile h
  obtain ⟨-, -, rfl⟩ := addSourceFile_ok h
  exact ⟨hgrows, fun _ => .inl, ⟨[], by simp, by simp⟩, fun hs => hs⟩

theorem spans_addDocumented {d : Documented} {id : TypeId} (hd : K (d.fullName, d.arity))
    (hnew : s.findDocumented d.fullName d.arity = none) (h : s.addDocumented d = .ok (id, t)) : Spans N K s t := by
  have hgrows := grows_addNamed h
  have hfresh : (d.fullName, d.arity) ∉ s.keys := not_mem_keys hnew
  obtain ⟨-, -, rfl⟩ := addNamed_ok h
  refine ⟨hgrows, fun _ => .inl, ⟨_, rfl, by simpa [NamedType.key?, NamedType.documented?] using hd⟩, fun hs => ?_⟩
  unfold keys at hs hfresh ⊢
  rw [List.filterMap_append, List.nodup_append]
  refine ⟨hs, List.nodup_singleton _, ?_⟩
  rintro k hk _ hkey rfl
  rw [List.mem_singleton.mp hkey] at hk
  exact hfresh hk

/-! Room for what is to be catalogued -/

/-- All rows have ids, and all of these are below the largest one. -/
theorem Sane.room (h : s.Sane) :
    (s.namespaceIds.used = s.namespaces.length ∧ s.namespaces.length < RowId.largest) ∧
      (s.fileIds.used = s.files.length ∧ s.files.length < RowId.largest) ∧
        s.namedIds.used = s.named.length ∧ s.named.length < RowId.largest := by
  have hnamed := h.length_named
  obtain ⟨-, c, f, hc⟩ := h
  have hspaces := hc.sound.namespaces.room
  have hfiles := hc.sound.files.room
  have htypes := hc.sound.named.room
  rw [List.length_map] at hspaces hfiles htypes
  rw [hnamed, hc.namedIds, hc.namespaces, hc.namespaceIds, hc.files, hc.fileIds]
  exact ⟨⟨rfl, hspaces⟩, ⟨rfl, hfiles⟩, rfl, htypes⟩

theorem Sane.names_nodup (h : s.Sane) : s.names.Nodup := by
  obtain ⟨-, c, f, hc⟩ := h
  unfold names
  rw [hc.namespaces]
  exact hc.coherent.names

/-- `t` has everything that may be added to `s`. So there is room for it also in each session on the way. -/
structure Fills (N : String → Prop) (K : String × Nat → Prop) (s t : Session) : Prop where
  sane : t.Sane
  spans : Spans N K s t
  once : s.keys.Nodup
  names : ∀ m, N m → m ∈ t.names
  keys : ∀ k, K k → k ∈ t.keys

theorem length_lt_of_subset {α : Type} {xs ys : List α} {x : α} (hxs : xs.Nodup) (hx : x ∉ xs) (hsub : xs ⊆ ys)
    (hy : x ∈ ys) : xs.length < ys.length :=
  (List.subperm_of_subset (List.nodup_cons.mpr ⟨hx, hxs⟩) (List.cons_subset.mpr ⟨hy, hsub⟩)).length_le

namespace Fills

variable (h : Fills N K s t)
include h

theorem addNamespace (hv : v.Sane) (hsv : Spans N K s v) (hm : N m) (hnew : v.findNamespace m = none)
    (parent : Option NamespaceId) : ∃ r, v.addNamespace m parent = .ok r := by
  have hlt : v.names.length < t.names.length := by
    refine length_lt_of_subset hv.names_nodup (findNamespace_eq_none hnew) (fun o ho => ?_) (h.names m hm)
    exact (hsv.names o ho).elim (h.spans.names_subset ·) (h.names o)
  have hroom : v.namespaceIds.used + 1 < RowId.largest := by
    obtain ⟨⟨-, hbound⟩, -⟩ := h.sane.room
    obtain ⟨⟨hused, -⟩, -⟩ := hv.room
    unfold Session.names at hlt
    rw [List.length_map, List.length_map] at hlt
    omega
  unfold Session.addNamespace
  rw [draw_room hroom]
  exact ⟨_, rfl⟩

theorem addDocumented (hv : v.Sane) (hsv : Spans N K s v) {d : Documented} (hd : K (d.fullName, d.arity))
    (hnew : v.findDocumented d.fullName d.arity = none) : ∃ r, v.addDocumented d = .ok r := by
  have hlt : v.keys.length < t.keys.length := by
    refine length_lt_of_subset (hsv.once h.once) (not_mem_keys hnew) (fun k hk => ?_) (h.keys _ hd)
    exact (hsv.keys k hk).elim (h.spans.keys_subset ·) (h.keys k)
  have hroom : v.namedIds.used + 1 < RowId.largest := by
    obtain ⟨-, -, -, hbound⟩ := h.sane.room
    obtain ⟨-, -, hused, -⟩ := hv.room
    have := h.spans.length_keys
    have := hsv.length_keys
    omega
  unfold Session.addDocumented Session.addNamed
  rw [draw_room hroom]
  exact ⟨_, rfl⟩

theorem ensureNamespace (hv : v.Sane) (hsv : Spans N K s v) (hname : ∀ m ∈ name :: outerNamespaces name, N m) :
    ∃ r, v.ensureNamespace name = .ok r := by
  unfold Session.ensureNamespace
  generalize houter : outerNamespaces name = outer at hname
  -- a name is new when it is added, as those that were added before it are shorter
  induction outer generalizing name with
  | nil =>
    unfold ensureWithin
    split
    · exact ⟨_, rfl⟩
    · next hnew => exact h.addNamespace hv hsv (hname name List.mem_cons_self) hnew none
  | cons o os ih =>
    unfold ensureWithin
    split
    · exact ⟨_, rfl⟩
    · next hnew =>
      have hne : name ≠ "" := by
        rintro rfl
        rw [outerNamespaces_empty] at houter
        cases houter
      obtain ⟨heq, hlt⟩ := outerNamespaces_of_ne hne
      rw [houter, List.cons.injEq] at heq
      obtain ⟨rfl, hos⟩ := heq
      obtain ⟨hself, hname⟩ := List.forall_mem_cons.mp hname
      obtain ⟨⟨parent, w⟩, hw⟩ := ih hos.symm hname
      obtain ⟨⟨hsane, hspans⟩, -, hlonger⟩ := ensureWithin_nested (P := fun w => w.Sane ∧ Spans N K s w)
        (fun _ _ _ _ _ hw hm hnone hunder hadd =>
          ⟨hw.1.addUnder hnone hunder hadd, hw.2.trans (spans_addNamespace (hname _ hm) hadd)⟩) hos.symm ⟨hv, hsv⟩ hw
      dsimp only
      rw [hw]
      exact h.addNamespace hsane hspans hself (by rw [hlonger name hlt, hnew]) (some parent)

theorem ensureNamespaces {names : List String} (hv : v.Sane) (hsv : Spans N K s v)
    (hnames : ∀ name ∈ names, ∀ m ∈ name :: outerNamespaces name, N m) : ∃ r, v.ensureNamespaces names = .ok r := by
  induction names generalizing v with
  | nil => exact ⟨_, rfl⟩
  | cons name names ih =>
    obtain ⟨hname, hnames⟩ := List.forall_mem_cons.mp hnames
    obtain ⟨⟨id, w⟩, hw⟩ := h.ensureNamespace hv hsv hname
    obtain ⟨r, hr⟩ := ih (hv.ensureNamespace hw).1 (hsv.trans (spans_ensureNamespace hname hw)) hnames
    unfold Session.ensureNamespaces
    rw [hw, ok_bind]
    dsimp only
    rw [hr]
    exact ⟨_, rfl⟩

theorem addSourceFile (hfiles : v.files.length < t.files.length) (hv : v.Sane) (path : Path)
    (usings : List NamespaceId) : ∃ r, v.addSourceFile path usings = .ok r := by
  have hroom : v.fileIds.used + 1 < RowId.largest := by
    obtain ⟨-, ⟨-, hbound⟩, -⟩ := h.sane.room
    obtain ⟨-, ⟨hused, -⟩, -⟩ := hv.room
    omega
  unfold Session.addSourceFile
  rw [draw_room hroom]
  exact ⟨_, rfl⟩

end Fills

end Session

/-! What a file brings with it -/

/-- The namespaces that a declaration brings with it, and its key, are as said. -/
structure Cursor.Brings (N : String → Prop) (K : String × Nat → Prop) (c : Cursor) : Prop where
  spaces : c.isNamespaceDeclaration = true →
    ∀ name ∈ (c.namespaceName?.map (Dotted.within c.namespaceOf)).toList ++ c.blockUsings,
      ∀ m ∈ name :: outerNamespaces name, N m
  home : c.isTypeDeclaration = true → ∀ m ∈ c.namespaceOf :: outerNamespaces c.namespaceOf, N m
  key : c.isTypeDeclaration = true → ∀ name, c.fullName? = some name → K (name, c.typeParameters.length)

/-- So are all the namespaces and keys of a file. -/
structure SourceUnit.Brings (N : String → Prop) (K : String × Nat → Prop) (u : SourceUnit) : Prop where
  usings : ∀ name ∈ u.top.usings, ∀ m ∈ name :: outerNamespaces name, N m
  declarations : ∀ c ∈ u.top.preorder, c.Brings N K

namespace Declarations

variable {N : String → Prop} {K : String × Nat → Prop} {s t v w : Session} {c : Cursor} {file : FileId}
  {container id? : Option TypeId}

theorem spans_enterNamespace (hc : c.Brings N K) (hns : c.isNamespaceDeclaration = true)
    (h : enterNamespace c s = .ok t) : Spans N K s t := by
  obtain ⟨⟨ids, v⟩, hv, h⟩ := bind_eq_ok.mp h
  cases h
  exact spans_ensureNamespaces (hc.spaces hns) hv

theorem spans_enterType (hc : c.Brings N K) (htype : c.isTypeDeclaration = true)
    (h : enterType file container c s = .ok (id?, t)) : Spans N K s t := by
  unfold enterType at h
  split at h
  · next declKind name fullName _ _ hfull =>
    dsimp only at h
    split at h
    · cases h
      exact .refl _
    · next hnew =>
      obtain ⟨⟨home, u⟩, hu, h⟩ := bind_eq_ok.mp h
      obtain ⟨⟨id, v⟩, hv, h⟩ := bind_eq_ok.mp h
      cases h
      rw [← findDocumented_ensureNamespace hu] at hnew
      exact (spans_ensureNamespace (hc.home htype) hu).trans
        (spans_addDocumented (hc.key htype fullName hfull) hnew hv)
  · cases h
    exact .refl _

/-- The pass goes on from a session that `s` has led to, within a file and a type that are catalogued. -/
structure Reached (N : String → Prop) (K : String × Nat → Prop) (s : Session) (file : FileId)
    (container : Option TypeId) (v : Session) : Prop where
  sane : v.Sane
  file : file ∈ v.files.map (·.id)
  container : ∀ j, container = some j → v.isDocumented j = true
  spans : Spans N K s v

theorem Reached.trans (h : Reached N K s file container v) (hw : w.Sane) (hvw : Spans N K v w) :
    Reached N K s file container w where
  sane := hw
  file := (hvw.grows.files.map _).subset h.file
  container j hj := isDocumented_of_grows (h.container j hj) hvw.grows
  spans := h.spans.trans hvw

theorem walk_spans (N : String → Prop) (K : String × Nat → Prop) (s : Session) (file : FileId) :
    Walk file (Cursor.Brings N K) (fun _ => Reached N K s file) (fun v _ w => w.Sane ∧ Spans N K v w) where
  stay hc := ⟨hc.sane, .refl _⟩
  trans hst htv := ⟨htv.1, hst.2.trans htv.2⟩
  keep hc h := hc.trans h.1 h.2
  space hq hns hc hown := by
    obtain ⟨hsane, -⟩ := (yields_iff.mp (yields_enterNamespace hc.sane hns)).1 _ hown
    have hspans := spans_enterNamespace hq hns hown
    exact ⟨⟨hsane, hspans⟩, hc.trans hsane hspans⟩
  type hq htype hc hown := by
    obtain ⟨hsane, -, -, hid⟩ := (yields_iff.mp (yields_enterType hc.sane htype hc.file hc.container)).1 _ hown
    have hspans := spans_enterType hq htype hown
    refine ⟨⟨hsane, hspans⟩, { hc.trans hsane hspans with container := fun j hj => ?_ }⟩
    rcases Option.or_eq_some_iff.mp hj with hj | ⟨-, hj⟩
    · exact hid j hj
    · exact (hc.trans hsane hspans).container j hj
  other _ _ _ hc := ⟨⟨hc.sane, .refl _⟩, hc⟩

theorem roomy_of_fills (h : Fills N K s t) : Roomy file (Cursor.Brings N K) fun _ => Reached N K s file where
  space {v c container} hq hns hc := by
    obtain ⟨⟨ids, w⟩, hw⟩ := h.ensureNamespaces hc.sane hc.spans (hq.spaces hns)
    exact ⟨w, bind_eq_ok.mpr ⟨(ids, w), hw, rfl⟩⟩
  type {v c container} hq htype hc := by
    unfold enterType
    split
    · next declKind name fullName _ _ hfull =>
      dsimp only
      split
      · exact ⟨_, rfl⟩
      · next hnew =>
        obtain ⟨⟨home, w⟩, hw⟩ := h.ensureNamespace hc.sane hc.spans (hq.home htype)
        rw [← findDocumented_ensureNamespace hw] at hnew
        have hspans := hc.spans.trans (spans_ensureNamespace (hq.home htype) hw)
        rw [hw, ok_bind]
        dsimp only
        obtain ⟨⟨id, x⟩, hx⟩ := h.addDocumented (hc.sane.ensureNamespace hw).1 hspans
          (d := {
            name, fullName, home, container, declKind
            access := c.accessibility
            file
            arity := c.typeParameters.length
            parameters := some c.typeParameters }) (hq.key htype fullName hfull) hnew
        rw [hx]
        exact ⟨_, rfl⟩
    · exact ⟨_, rfl⟩

end Declarations

namespace SourceUnit

variable {N : String → Prop} {K : String × Nat → Prop} {u : SourceUnit} {s t v w : Session} {usings : List NamespaceId}
  {file : FileId}

/-- A new file is there with its imports, and the pass over its declarations begins. -/
theorem Brings.reached (hu : u.Brings N K) (hs : s.Sane) (hnew : s.findSourceFile u.path = none)
    (hv : s.ensureNamespaces u.top.usings = .ok (usings, v)) (hw : v.addSourceFile u.path usings = .ok (file, w)) :
    Declarations.Reached N K s file none w ∧ w.files.length = s.files.length + 1 ∧ u.top.usings ⊆ w.names := by
  obtain ⟨hsane, -, hids, hfiles⟩ := (yields_iff.mp (yields_ensureNamespaces hs)).1 _ hv
  have hnew' : v.findSourceFile u.path = none := by
    unfold findSourceFile at hnew ⊢
    rw [hfiles]
    exact hnew
  have hnames : ∀ id ∈ usings, ∃ name, v.findNamespace name = some id := by
    intro id hid
    have hmem : some id ∈ usings.map some := List.mem_map_of_mem hid
    rw [hids] at hmem
    obtain ⟨name, -, hname⟩ := List.mem_map.mp hmem
    exact ⟨name, hname⟩
  obtain ⟨hsane', hgrows, hmem, -⟩ := (yields_iff.mp (yields_addSourceFile hsane hnew' hnames)).1 _ hw
  have hspans := spans_ensureNamespaces (K := K) hu.usings hv
  refine ⟨⟨hsane', hmem, by simp, hspans.trans (spans_addSourceFile hw)⟩, ?_, fun name hname => ?_⟩
  · obtain ⟨-, -, rfl⟩ := addSourceFile_ok hw
    dsimp only at hfiles ⊢
    rw [List.length_append, hfiles]
    rfl
  · have hfound : v.findNamespace name ∈ usings.map some := by
      rw [hids]
      exact List.mem_map_of_mem hname
    obtain ⟨id, -, hid⟩ := List.mem_map.mp hfound
    exact mem_names.mpr (by rw [hgrows.findNamespace hid.symm]; rfl)

theorem spans_catalog (hu : u.Brings N K) (hs : s.Sane) {types : Nat}
    (h : u.catalog s = .ok (.catalogued file types, t)) :
    t.Sane ∧ Spans N K s t ∧ t.files.length = s.files.length + 1 ∧ u.top.usings ⊆ t.names := by
  unfold catalog at h
  split at h
  · cases h
  · next hnew =>
    obtain ⟨⟨usings, v⟩, hv, h⟩ := bind_eq_ok.mp h
    obtain ⟨⟨file, w⟩, hw, h⟩ := bind_eq_ok.mp h
    obtain ⟨⟨types, x⟩, hx, h⟩ := bind_eq_ok.mp h
    cases h
    obtain ⟨hreached, hfiles, husings⟩ := hu.reached hs hnew hv hw
    obtain ⟨hsane, hspans⟩ := (Declarations.walk_spans N K s file).visit u.root hx hu.declarations hreached
    have hkept := (Declarations.walk_files file).visit u.root hx (fun _ _ => trivial) trivial
    refine ⟨hsane, hreached.spans.trans hspans, by rw [hkept, hfiles], ?_⟩
    exact List.Subset.trans husings hspans.names_subset

theorem catalog_ok (h : Fills N K s t) (hu : u.Brings N K) (hv : v.Sane) (hsv : Spans N K s v)
    (hfiles : v.files.length < t.files.length) : ∃ r, u.catalog v = .ok r := by
  unfold catalog
  split
  · exact ⟨_, rfl⟩
  · next hnew =>
    obtain ⟨⟨usings, w⟩, hw⟩ := h.ensureNamespaces hv hsv hu.usings
    obtain ⟨hsane, -, -, hkept⟩ := (yields_iff.mp (yields_ensureNamespaces hv)).1 _ hw
    obtain ⟨⟨file, x⟩, hx⟩ := h.addSourceFile (by dsimp only at hkept; rw [hkept]; exact hfiles) hsane u.path usings
    obtain ⟨hreached, -⟩ := hu.reached hv hnew hw hx
    have hreached : Declarations.Reached N K s file none x := { hreached with spans := hsv.trans hreached.spans }
    obtain ⟨r, hr⟩ := (Declarations.walk_spans N K s file).visit_ok (Declarations.roomy_of_fills h) u.root
      hu.declarations hreached
    exact ⟨_, bind_eq_ok.mpr ⟨_, hw, bind_eq_ok.mpr ⟨_, hx, bind_eq_ok.mpr ⟨r, hr, rfl⟩⟩⟩⟩

end SourceUnit

/-! No key twice -/

namespace NamedType

variable {a b : NamedType}

theorem Alike.key? (h : a.Alike b) : b.key? = a.key? := by
  cases a with
  | documented d =>
    obtain ⟨ps, rfl⟩ := h
    rfl
  | external _ | parameter _ | tuple _ => exact congrArg NamedType.key? h

theorem Develops.key? (h : a.Develops b) : b.key? = a.key? := by
  cases h with
  | alike h => exact h.key?
  | namespaces => rfl

theorem Awaits.key? {waiting : List (TypeId × String)} {id : TypeId} (h : a.Awaits waiting id b) :
    b.key? = a.key? := by
  cases a with
  | external x =>
    obtain ⟨names, rfl, -⟩ := h
    rfl
  | documented _ | parameter _ | tuple _ => exact congrArg NamedType.key? h

end NamedType

theorem RowsBecome.keys_eq {C : TypeId → NamedType → NamedType → Prop} {P : NamedType → Prop}
    {rows later : List (TypeId × NamedType)} (h : RowsBecome C P rows later) (hC : ∀ id a b, C id a b → b.key? = a.key?)
    (hP : ∀ a, P a → a.key? = none) : later.filterMap (·.2.key?) = rows.filterMap (·.2.key?) := by
  induction h with
  | nil h => exact List.filterMap_eq_nil_iff.mpr fun r hr => hP _ (h r hr)
  | cons h _ ih => rw [List.filterMap_cons, List.filterMap_cons, ih, hC _ _ _ h]

namespace Session

variable {s t : Session}

theorem Continues.keys (h : s.Continues t) : t.keys = s.keys := by
  refine h.rows.keys_eq (fun _ _ _ h => h.key?) fun a ha => ?_
  unfold NamedType.key?
  rw [ha]
  rfl

theorem keys_nodup_run (hs : s.Sane) (h : s.keys.Nodup) {r : Request} : (r.run s).2.keys.Nodup := by
  have hquiet (hq : r.Quiet) : (r.run s).2.keys.Nodup := by
    rw [(hs.continues_run hq).keys]
    exact h
  cases r with
  | catalog u =>
    refine Act.Leads.left (P := fun t => t.keys.Nodup) (leads_perform ?_ fun _ _ => h)
    intro outcome t ht
    have hu : u.Brings (fun _ => True) fun _ => True :=
      ⟨fun _ _ _ _ => trivial, fun _ _ => ⟨fun _ _ _ _ _ => trivial, fun _ _ _ => trivial, fun _ _ _ => trivial⟩⟩
    obtain ⟨-, -, rfl⟩ | ⟨⟨file, types, rfl⟩, -⟩ := u.files_catalog ht
    · exact h
    · exact (SourceUnit.spans_catalog hu hs ht).2.1.once h
  | analyze | resolve | use | save => exact hquiet trivial

theorem keys_nodup_withGlobal (hs : s.named = []) (h : s.withGlobal = .ok t) : t.keys.Nodup := by
  obtain ⟨-, id, u, hu, rfl⟩ := withGlobal_ok h
  have hkeys : keys { u with globalNamespace := id } = [] := by
    unfold keys
    dsimp only
    rw [(frame_ensureNamespace hu).1, hs]
    rfl
  rw [hkeys]
  exact List.nodup_nil

/-- What was stored is a part of what was there. -/
theorem keys_nodup_reopen (hs : s.Sane) (h : s.keys.Nodup) {store : Store} (hstore : s.store = some store)
    {path : Option Path} {readOnly : Bool} (ho : openStore { store with path, readOnly } = .ok t) : t.keys.Nodup := by
  obtain ⟨-, c, f, hc⟩ := hs
  obtain ⟨-, -, ns, hl⟩ := hc.toLedger.reopen hstore ho
  obtain ⟨old, new, hall, -, hold⟩ := hc.pending.named
  have hopened : t.keys = c.named.filterMap (·.2.key?) := hl.rows.keys_eq (fun _ _ _ h => h.key?) fun _ h => h.elim
  have hstored := hold.keys_eq (fun _ _ _ h => h.key?) fun _ h => h.elim
  have hshown : s.keys = f.named.filterMap (·.2.key?) := hc.rows.keys_eq (fun _ _ _ h => h.key?) fun _ h => h.elim
  rw [hshown, hall, List.filterMap_append] at h
  rw [hopened, ← hstored]
  exact h.of_append_left

theorem Worked.keys_nodup (h : s.Worked) : s.keys.Nodup :=
  h.invariant (fun _ _ hs h _ => keys_nodup_withGlobal hs h) (fun _ _ hs _ ih => keys_nodup_run hs ih)
    fun _ _ _ _ _ hs ih hstore ho => keys_nodup_reopen hs ih hstore ho

end Session

end TypeCatalog
