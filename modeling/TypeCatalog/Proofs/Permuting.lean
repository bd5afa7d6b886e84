import TypeCatalog.Proofs.Interruption
import TypeCatalog.Proofs.Spanning

namespace TypeCatalog

open Act Session

/-- A tree of the grammar's shape in which no type declaration is empty; each begins with a keyword. -/
structure SourceUnit.Filled (u : SourceUnit) : Prop extends u.Shaped where
  filled : ∀ c, u.top.Within c → c.isTypeDeclaration = true → c.start < c.stop

def SourceUnit.isFilled (u : SourceUnit) : Bool :=
  u.isShaped && (u.root.cursors []).all fun c => !c.isTypeDeclaration || decide (c.start < c.stop)

theorem SourceUnit.filled_of_isFilled {u : SourceUnit} (h : u.isFilled = true) : u.Filled := by
  unfold isFilled at h
  simp only [Bool.and_eq_true, List.all_eq_true] at h
  obtain ⟨hshaped, hall⟩ := h
  refine { SourceUnit.shaped_of_isShaped hshaped with filled := fun c hc htype => ?_ }
  simpa [htype] using hall c (Node.mem_cursors hc)

/-- The namespaces that a namespace declaration declares and imports. -/
def Cursor.spaces (c : Cursor) : List String :=
  if c.isNamespaceDeclaration then (c.namespaceName?.map (Dotted.within c.namespaceOf)).toList ++ c.blockUsings else []

/-- The namespaces that a file declares and imports. -/
def SourceUnit.spaces (u : SourceUnit) : List String := u.top.usings ++ u.top.preorder.flatMap Cursor.spaces

namespace Scan

variable {s t v : Session} {us vs new all : List SourceUnit} {u : SourceUnit} {m : Summary} {name o : String}
  {k : String × Nat}

/-- A namespace that some files declare or import, or one around it. -/
def Spaced (us : List SourceUnit) (name : String) : Prop := ∃ u ∈ us, ∃ d ∈ u.spaces, name ∈ d :: Dotted.enclosing d

/-- The key of a type that is declared in some files. -/
def Typed (us : List SourceUnit) (k : String × Nat) : Prop := ∃ u ∈ us, ∃ c ∈ u.top.typeDeclarations, c.key? = some k

theorem mem_outerNamespaces (h : o ∈ outerNamespaces name) : o = "" ∨ o ∈ Dotted.enclosing name := by
  unfold outerNamespaces at h
  dsimp only at h
  split at h
  · exact .inr h
  · exact (List.mem_append.mp h).symm.imp_left List.mem_singleton.mp

theorem spaced_of_mem (hu : u ∈ us) (hname : name ∈ u.spaces) (ho : o ∈ name :: outerNamespaces name) :
    o = "" ∨ Spaced us o := by
  rcases List.mem_cons.mp ho with rfl | ho
  · exact .inr ⟨u, hu, o, hname, List.mem_cons_self⟩
  · exact (mem_outerNamespaces ho).imp_right fun ho => ⟨u, hu, name, hname, List.mem_cons_of_mem _ ho⟩

theorem mem_spaces {c : Cursor} (hc : c ∈ u.top.preorder) (hns : c.isNamespaceDeclaration = true)
    (hname : name ∈ (c.namespaceName?.map (Dotted.within c.namespaceOf)).toList ++ c.blockUsings) : name ∈ u.spaces := by
  refine List.mem_append_right _ (List.mem_flatMap.mpr ⟨c, hc, ?_⟩)
  unfold Cursor.spaces
  rw [if_pos hns]
  exact hname

/-- The namespace of a type is the global one or declared in the same file, so types bring no others. -/
theorem brings_of_mem (hu : u ∈ us) (hfilled : u.Filled) : u.Brings (fun o => o = "" ∨ Spaced us o) (Typed us) where
  usings name hname o ho := spaced_of_mem hu (List.mem_append_left _ hname) ho
  declarations c hc := by
    have hwithin := (Node.preorder_within hc).1
    refine ⟨fun hns name hname o ho => spaced_of_mem hu (mem_spaces hc hns hname) ho, fun htype o ho => ?_,
      fun htype name hname => ?_⟩
    · rcases Analysis.namespaceOf_eq_or hfilled.toShaped hwithin (hfilled.filled c hwithin htype) with hempty | hdeclared
      · rw [hempty, outerNamespaces_empty, List.mem_singleton] at ho
        exact .inl ho
      · obtain ⟨b, hb, hfull⟩ := hdeclared
        obtain ⟨hmem, hns⟩ := hfilled.mem_enclosingNamespaces hwithin hb
        exact spaced_of_mem hu (mem_spaces hmem hns (List.mem_append_left _ (by rw [hfull]; exact List.mem_cons_self))) ho
    · refine ⟨u, hu, c, ?_, ?_⟩
      · rw [Cursor.typeDeclarations_eq]
        exact List.mem_filter.mpr ⟨hc, htype⟩
      · unfold Cursor.key?
        rw [hname, hfilled.length_typeParameters hwithin]
        rfl

/-- The files `new`, some of `all`, are catalogued between `s` and `t`. -/
structure Taken (s : Session) (all : List SourceUnit) (t : Session) (new : List SourceUnit) : Prop where
  sane : t.Sane
  spans : Spans (fun o => o = "" ∨ Spaced all o) (Typed all) s t
  files : t.files.length = s.files.length + new.length
  ready : ∀ u ∈ new, t.Ready u
  usings : ∀ u ∈ new, u.top.usings ⊆ t.names

theorem Taken.catalog (h : Taken s all t new) (hu : u ∈ all) (hfilled : u.Filled) {file : FileId} {types : Nat}
    (hv : u.catalog t = .ok (.catalogued file types, v)) : Taken s all v (new ++ [u]) := by
  obtain ⟨hsane, hspans, hfiles, husings⟩ := SourceUnit.spans_catalog (brings_of_mem hu hfilled) h.sane hv
  have hready : v.Ready u := by
    obtain ⟨-, -, ⟨-, hready⟩ | ⟨⟨file, hknown⟩, -⟩⟩ := (yields_iff.mp (u.yields_catalog h.sane)).1 _ hv
    · exact hready hfilled.toShaped
    · cases hknown
  refine ⟨hsane, h.spans.trans hspans, ?_, ?_, ?_⟩
  · rw [hfiles, h.files, List.length_append, Nat.add_assoc]
    rfl
  · exact forall_mem_concat (fun w hw => (h.ready w hw).of_grows hspans.grows) hready
  · exact forall_mem_concat (fun w hw => List.Subset.trans (h.usings w hw) hspans.names_subset) husings

/-- What is catalogued after some files: what was there, the namespaces that the files declare and import with those
around them, and the types that they declare, each name and each key once. -/
structure Inventory (s t : Session) (us : List SourceUnit) : Prop where
  names : ∀ name, name ∈ t.names ↔ name ∈ s.names ∨ Spaced us name
  keys : ∀ k, k ∈ t.keys ↔ k ∈ s.keys ∨ Typed us k
  namesOnce : t.names.Nodup
  keysOnce : t.keys.Nodup
  rows : ∃ new, t.named = s.named ++ new ∧ ∀ r ∈ new, ∃ k, r.2.key? = some k ∧ Typed us k

theorem Taken.of_perm (h : Taken s all t vs) (hvs : us.Perm vs) : Taken s all t us where
  sane := h.sane
  spans := h.spans
  files := by rw [h.files, hvs.length_eq]
  ready u hu := h.ready u (hvs.mem_iff.mp hu)
  usings u hu := h.usings u (hvs.mem_iff.mp hu)

theorem names_enclosing (ht : t.Sane) (h : name ∈ t.names) (ho : o ∈ name :: Dotted.enclosing name) : o ∈ t.names := by
  rcases List.mem_cons.mp ho with rfl | ho
  · exact h
  · exact mem_names.mpr (ht.findNamespace_enclosing (mem_names.mp h) ho)

theorem Taken.spaced (h : Taken s us t us) (ho : Spaced us o) : o ∈ t.names := by
  obtain ⟨u, hu, d, hd, ho⟩ := ho
  refine names_enclosing h.sane ?_ ho
  rcases List.mem_append.mp hd with hd | hd
  · exact h.usings u hu hd
  · obtain ⟨c, hc, hd⟩ := List.mem_flatMap.mp hd
    unfold Cursor.spaces at hd
    split at hd
    · next hns => exact mem_names.mpr (((h.ready u hu).lists c hc).space hns d hd)
    · cases hd

theorem Taken.typed (h : Taken s us t us) (hk : Typed us k) : k ∈ t.keys := by
  obtain ⟨u, hu, c, hc, hkey⟩ := hk
  obtain ⟨hc, htype⟩ := SourceUnit.mem_typeDeclarations hc
  obtain ⟨hname, hcount⟩ := Cursor.fullName?_of_key? hkey
  rw [mem_keys, ← hcount]
  exact ((h.ready u hu).lists c hc).type htype k.1 hname

theorem global_mem_names (hs : s.Sane) : "" ∈ s.names := by
  rw [mem_names, hs.1]
  rfl

theorem Taken.fills (h : Taken s us t us) (hs : s.Worked) :
    Fills (fun o => o = "" ∨ Spaced us o) (Typed us) s t where
  sane := h.sane
  spans := h.spans
  once := hs.keys_nodup
  names o ho := by
    rcases ho with rfl | ho
    · exact global_mem_names h.sane
    · exact h.spaced ho
  keys _ hk := h.typed hk

theorem Taken.inventory (h : Taken s us t us) (hs : s.Worked) : Inventory s t us where
  names o := by
    refine ⟨fun ho => ?_, fun ho => ho.elim (h.spans.names_subset ·) h.spaced⟩
    rcases h.spans.names o ho with ho | rfl | ho
    · exact .inl ho
    · exact .inl (global_mem_names hs.sane)
    · exact .inr ho
  keys k := ⟨h.spans.keys k, fun hk => hk.elim (h.spans.keys_subset ·) h.typed⟩
  namesOnce := h.sane.names_nodup
  keysOnce := h.spans.once hs.keys_nodup
  rows := h.spans.types

/-- Files of the grammar's shape with different paths, none of which is known. -/
structure Batch (s : Session) (us : List SourceUnit) : Prop where
  filled : ∀ u ∈ us, u.Filled
  unknown : ∀ u ∈ us, s.findSourceFile u.path = none
  apart : us.Pairwise fun u v => u.path.same v.path = false

theorem Batch.perm (h : Batch s us) (hvs : us.Perm vs) : Batch s vs where
  filled u hu := h.filled u (hvs.mem_iff.mpr hu)
  unknown u hu := h.unknown u (hvs.mem_iff.mpr hu)
  apart := by
    refine (hvs.pairwise_iff fun {u v} huv => ?_).mp h.apart
    unfold Path.same at huv ⊢
    rwa [Bool.beq_comm]

theorem foldl_meet (hunknown : ∀ u ∈ us, s.findSourceFile u.path = none)
    (hnew : ∀ u ∈ us, ∀ w ∈ new, w.path.same u.path = false)
    (hapart : us.Pairwise fun u v => u.path.same v.path = false) : us.foldl (meet s) new = new ++ us := by
  induction us generalizing new with
  | nil => exact (List.append_nil new).symm
  | cons u us ih =>
    obtain ⟨hu, hunknown⟩ := List.forall_mem_cons.mp hunknown
    obtain ⟨hfirst, hnew⟩ := List.forall_mem_cons.mp hnew
    obtain ⟨hothers, hapart⟩ := List.pairwise_cons.mp hapart
    have hmeet : meet s new u = new ++ [u] := by
      unfold meet
      rw [hu, if_neg]
      simpa using hfirst
    rw [List.foldl_cons, hmeet, ih hunknown ?_ hapart, List.append_assoc]
    · rfl
    · exact fun v hv => forall_mem_concat (hnew v hv) (hothers v hv)

theorem Batch.foldl_meet (h : Batch s us) : us.foldl (meet s) [] = us :=
  Scan.foldl_meet h.unknown (by simp) h.apart

theorem Batch.foldl_meet_prefix {before after : List SourceUnit} (h : Batch s (before ++ after)) :
    before.foldl (meet s) [] = before :=
  Scan.foldl_meet (fun u hu => h.unknown u (List.mem_append_left _ hu)) (by simp) (List.pairwise_append.mp h.apart).1

/-- The first pass over the files `vs`, which are among `us`. -/
theorem leads_catalogued_taken (hs : s.Worked) (hus : ∀ u ∈ us, u.Filled) (hvs : Batch s vs) (hsub : vs ⊆ us) :
    (catalogued m vs).Leads s (fun r t => r.2 = vs ∧ Taken s us t vs)
      fun _ t => ∃ new u, Taken s us t new ∧ u ∈ us ∧ new.length < vs.length ∧ ∃ e, SourceUnit.catalog u t = .error e := by
  have hknown : Knows s s [] := fun p => by simp
  have hfresh : (catalogued m vs).Leads s _ _ := leads_declarations_fresh (P := Taken s us)
    (fun u hu _ _ _ _ _ h hv => h.catalog (hsub hu) (hus u (hsub hu)) hv) hknown
    ⟨hs.sane, .refl s, rfl, by simp, by simp⟩
  refine hfresh.mono ?_ ?_
  · rintro r t ⟨hr, -, htaken, -⟩
    rw [hvs.foldl_meet] at hr
    exact ⟨hr, hr ▸ htaken⟩
  · rintro e t ⟨before, u, after, rfl, htaken, he⟩
    rw [hvs.foldl_meet_prefix] at htaken
    refine ⟨before, u, htaken, hsub (List.mem_append_right _ List.mem_cons_self), ?_, he⟩
    rw [List.length_append, List.length_cons]
    omega

/-- If some files can be catalogued in one order, so they can in each other one, and what is catalogued is the same. -/
theorem catalogued_perm (hs : s.Worked) (hus : Batch s us) (hvs : us.Perm vs) {m' : Summary}
    (h : (catalogued m us).outcome s = (.ok (m', new), t)) :
    ∃ m'' v, (catalogued m vs).outcome s = (.ok (m'', vs), v) ∧ v.names.Perm t.names ∧ v.keys.Perm t.keys := by
  obtain ⟨-, ht⟩ := (leads_iff.mp (leads_catalogued_taken hs hus.filled hus (List.Subset.refl us))).1 _ _ h
  have hvs' := hus.perm hvs
  obtain ⟨hok, herror⟩ := leads_iff.mp (leads_catalogued_taken (m := m) hs hus.filled hvs' hvs.symm.subset)
  rcases hrun : (catalogued m vs).outcome s with ⟨e | ⟨m'', new'⟩, v⟩
  · obtain ⟨new', u, htaken, hu, hlt, e', he⟩ := herror e v hrun
    have hfiles : v.files.length < t.files.length := by
      rw [htaken.files, ht.files, hvs.length_eq]
      omega
    obtain ⟨r, hr⟩ := SourceUnit.catalog_ok (ht.fills hs) (brings_of_mem hu (hus.filled u hu)) htaken.sane htaken.spans
      hfiles
    cases he.symm.trans hr
  · obtain ⟨rfl, htaken⟩ := hok _ v hrun
    have hleft := ht.inventory hs
    have hright := (htaken.of_perm hvs).inventory hs
    refine ⟨m'', v, rfl, ?_, ?_⟩
    · exact (List.perm_ext_iff_of_nodup hright.namesOnce hleft.namesOnce).mpr fun o => by
        rw [hright.names, hleft.names]
    · exact (List.perm_ext_iff_of_nodup hright.keysOnce hleft.keysOnce).mpr fun k => by
        rw [hright.keys, hleft.keys]

/-- What files declare does not depend on their order. In each order the same namespaces and documented types are
catalogued: those that were there, the namespaces that the files declare and import with those around them, and one
type for each key, however many parts and namesakes it has. If ids run out in one order, they do in all. -/
theorem catalogued_unordered (hs : s.Worked) (hus : Batch s us) :
    (catalogued m us).Leads s
      (fun r t => r.2 = us ∧ Inventory s t us ∧ ∀ vs, us.Perm vs →
        ∃ m' v, (catalogued m vs).outcome s = (.ok (m', vs), v) ∧ v.names.Perm t.names ∧ v.keys.Perm t.keys)
      fun e _ => e.Halts ∧ ∀ vs, us.Perm vs → ∃ e' v, (catalogued m vs).outcome s = (.error e', v) := by
  have hhalts : (catalogued m us).Leads s _ _ := leads_declarations hs.sane
  refine (leads_outcome.and (hhalts.and (leads_catalogued_taken hs hus.filled hus (List.Subset.refl us)))).mono ?_ ?_
  · rintro ⟨m', new⟩ t ⟨hrun, -, rfl, htaken⟩
    exact ⟨rfl, htaken.inventory hs, fun vs hvs => catalogued_perm hs hus hvs hrun⟩
  · rintro e t ⟨hrun, ⟨-, hhalts⟩, -⟩
    refine ⟨hhalts, fun vs hvs => ?_⟩
    rcases hother : (catalogued m vs).outcome s with ⟨e' | ⟨m', new⟩, v⟩
    · exact ⟨e', v, rfl⟩
    · obtain ⟨m'', w, hok, -⟩ := catalogued_perm hs (hus.perm hvs) hvs.symm hother
      cases hrun.symm.trans hok

end Scan

namespace Sample

/-- The file `using C;namespace A.B;partial class P<T>{}`. -/
def flat : SourceUnit where
  path := ⟨"./Flat.cs"⟩
  source := "using C;namespace A.B;partial class P<T>{}"
  root := node 0 "compilation_unit" none 0 "using C;namespace A.B;partial class P<T>{}"
    [node 1 "using_directive" none 0 "using C;" [node 2 "identifier" none 6 "C" []],
     node 3 "file_scoped_namespace_declaration" none 8 "namespace A.B;"
      [node 4 "qualified_name" (some "name") 18 "A.B"
        [node 5 "identifier" (some "qualifier") 18 "A" [], node 6 "identifier" (some "name") 20 "B" []]],
     node 7 "class_declaration" none 22 "partial class P<T>{}"
      [node 8 "modifier" none 22 "partial" [],
       node 9 "identifier" (some "name") 36 "P" [],
       node 10 "type_parameter_list" (some "type_parameters") 37 "<T>"
        [node 11 "type_parameter" none 38 "T" [node 12 "identifier" (some "name") 38 "T" []]],
       node 13 "declaration_list" (some "body") 40 "{}" []]]

/-- The file `namespace A{using D.E;namespace B{partial class P<U>{class Q{}}}}`. -/
def deep : SourceUnit where
  path := ⟨"/Deep.cs"⟩
  source := "namespace A{using D.E;namespace B{partial class P<U>{class Q{}}}}"
  root := node 0 "compilation_unit" none 0 "namespace A{using D.E;namespace B{partial class P<U>{class Q{}}}}"
    [node 1 "namespace_declaration" none 0 "namespace A{using D.E;namespace B{partial class P<U>{class Q{}}}}"
      [node 2 "identifier" (some "name") 10 "A" [],
       node 3 "declaration_list" (some "body") 11 "{using D.E;namespace B{partial class P<U>{class Q{}}}}"
        [node 4 "using_directive" none 12 "using D.E;"
          [node 5 "qualified_name" none 18 "D.E"
            [node 6 "identifier" (some "qualifier") 18 "D" [], node 7 "identifier" (some "name") 20 "E" []]],
         node 8 "namespace_declaration" none 22 "namespace B{partial class P<U>{class Q{}}}"
          [node 9 "identifier" (some "name") 32 "B" [],
           node 10 "declaration_list" (some "body") 33 "{partial class P<U>{class Q{}}}"
            [node 11 "class_declaration" none 34 "partial class P<U>{class Q{}}"
              [node 12 "modifier" none 34 "partial" [],
               node 13 "identifier" (some "name") 48 "P" [],
               node 14 "type_parameter_list" (some "type_parameters") 49 "<U>"
                [node 15 "type_parameter" none 50 "U" [node 16 "identifier" (some "name") 50 "U" []]],
               node 17 "declaration_list" (some "body") 52 "{class Q{}}"
                [node 18 "class_declaration" none 53 "class Q{}"
                  [node 19 "identifier" (some "name") 59 "Q" [],
                   node 20 "declaration_list" (some "body") 60 "{}" []]]]]]]]]

theorem batch_flat_deep : Scan.Batch memory [flat, deep] where
  filled := List.forall_mem_cons.mpr
    ⟨SourceUnit.filled_of_isFilled rfl, List.forall_mem_singleton.mpr (SourceUnit.filled_of_isFilled rfl)⟩
  unknown u _ := by
    have hfiles : memory.files = [] := by decide +kernel
    simp [findSourceFile, hfiles]
  apart := by decide +kernel

/-- What is catalogued after the first of the files, and after the second. -/
theorem values_flat_deep :
    ((Scan.catalogued {} [flat, deep]).outcome memory).1.isOk = true ∧
      ((Scan.catalogued {} [flat, deep]).outcome memory).2.names = ["", "C", "A", "A.B", "D", "D.E"] ∧
      ((Scan.catalogued {} [flat, deep]).outcome memory).2.keys = [("A.B.P", 1), ("A.B.P.Q", 0)] ∧
      ((Scan.catalogued {} [deep, flat]).outcome memory).2.names = ["", "A", "D", "D.E", "A.B", "C"] := by
  decide +kernel

/-- The parts of `P` share one row, and the namespaces come in another order. -/
theorem catalogued_unordered_flat_deep :
    Session.inMemory = .ok memory ∧ Scan.Batch memory [flat, deep] ∧
      ∃ m m' t v, (Scan.catalogued {} [flat, deep]).outcome memory = (.ok (m, [flat, deep]), t) ∧
        (Scan.catalogued {} [deep, flat]).outcome memory = (.ok (m', [deep, flat]), v) ∧
        v.names.Perm t.names ∧ v.keys.Perm t.keys ∧ t.keys = [("A.B.P", 1), ("A.B.P.Q", 0)] ∧
        t.names = ["", "C", "A", "A.B", "D", "D.E"] ∧ v.names = ["", "A", "D", "D.E", "A.B", "C"] := by
  have hunordered := (leads_iff.mp (Scan.catalogued_unordered (m := {}) (.inMemory inMemory_eq) batch_flat_deep)).1
  obtain ⟨hok, hnames, hkeys, hothers⟩ := values_flat_deep
  rcases hrun : (Scan.catalogued {} [flat, deep]).outcome memory with ⟨e | ⟨m, new⟩, t⟩
  · rw [hrun] at hok
    cases hok
  · obtain ⟨hnew, -, hperm⟩ := hunordered _ t hrun
    obtain ⟨m', v, hother, hspaces, htypes⟩ := hperm [deep, flat] (.swap _ _ _)
    rw [hrun] at hnames hkeys
    rw [hother] at hothers
    refine ⟨inMemory_eq, batch_flat_deep, m, m', t, v, ?_, hother, hspaces, htypes, hkeys, hnames, hothers⟩
    rw [← hnew]

end Sample

end TypeCatalog
