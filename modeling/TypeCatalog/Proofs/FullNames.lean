import TypeCatalog.Proofs.Scoping
import TypeCatalog.Proofs.Traversal

namespace TypeCatalog

namespace Dotted

variable {name outer : String} {xs ys before after : List Char}

/-- The text before the last dot; empty if there is no dot. -/
def parent (name : String) : String := (outer? name).getD ""

/-- A name that does not begin with a dot. -/
def Proper (name : String) : Prop := name.toList.head?.any (· != '.') = true

instance : Decidable (Proper name) := inferInstanceAs (Decidable (_ = true))

theorem splitLast_append (h : splitLast ys = some (before, after)) :
    splitLast (xs ++ ys) = some (xs ++ before, after) := by
  induction xs with
  | nil => exact h
  | cons x xs ih => rw [List.cons_append, splitLast, ih, List.cons_append]

theorem splitLast_eq_none (h : '.' ∉ ys) : splitLast ys = none := by
  induction ys with
  | nil => rfl
  | cons y ys ih =>
    rw [splitLast, ih (List.not_mem_of_not_mem_cons h)]
    exact if_neg (List.ne_of_not_mem_cons h).symm

theorem splitLast_dot (h : '.' ∉ ys) : splitLast (xs ++ '.' :: ys) = some (xs, ys) := by
  have hdot : splitLast ('.' :: ys) = some ([], ys) := by
    rw [splitLast, splitLast_eq_none h]
    rfl
  rw [splitLast_append hdot, List.append_nil]

theorem parent_within (h : '.' ∉ name.toList) : parent (within outer name) = outer := by
  unfold parent outer? split? within
  split
  · next hempty =>
    rw [splitLast_eq_none h]
    exact (String.isEmpty_iff.mp hempty).symm
  · have hchars : (outer ++ "." ++ name).toList = outer.toList ++ '.' :: name.toList := by
      rw [String.toList_append, String.toList_append, List.append_assoc]
      rfl
    rw [hchars, splitLast_dot h]
    simp

/-- Scopes may be joined from either side. -/
theorem within_within {own : String} (h : name ≠ "") :
    within (within outer name) own = within outer (within name own) := by
  have hname : name.isEmpty = false := by simpa using h
  unfold within
  by_cases ho : outer.isEmpty = true
  · rw [if_pos ho, if_pos ho]
  · have hinner : (outer ++ "." ++ name).isEmpty = false := by simp [h]
    rw [if_neg ho, if_neg ho, hinner, hname]
    simp [String.append_assoc]

namespace Proper

theorem ne_empty (h : Proper name) : name ≠ "" := by
  rintro rfl
  cases h

theorem of_simple (hne : name ≠ "") (hdot : '.' ∉ name.toList) : Proper name := by
  unfold Proper
  cases hchars : name.toList with
  | nil => exact (hne (by simpa using hchars)).elim
  | cons c cs =>
    rw [hchars] at hdot
    have hc : c ≠ '.' := Ne.symm (List.ne_of_not_mem_cons hdot)
    simpa using hc

theorem append (h : Proper name) (rest : String) : Proper (name ++ rest) := by
  unfold Proper at h ⊢
  rw [String.toList_append]
  cases hchars : name.toList with
  | nil =>
    rw [hchars] at h
    cases h
  | cons c cs =>
    rw [hchars] at h
    exact h

theorem within (ho : outer = "" ∨ Proper outer) (h : Proper name) : Proper (within outer name) := by
  unfold Dotted.within
  split
  · exact h
  · next hempty =>
    have hne : outer ≠ "" := by simpa using hempty
    rw [String.append_assoc]
    exact (ho.resolve_left hne).append _

theorem intercalate {names : List String} (hne : names ≠ []) (h : ∀ n ∈ names, Proper n) :
    Proper (".".intercalate names) := by
  obtain ⟨first, rest, rfl⟩ := List.exists_cons_of_ne_nil hne
  have hfirst := h first List.mem_cons_self
  cases rest with
  | nil =>
    rw [String.intercalate_singleton]
    exact hfirst
  | cons second rest =>
    rw [String.intercalate_cons_cons, String.append_assoc]
    exact hfirst.append _

end Proper

end Dotted

/-! A name and the names around it -/

namespace Session

open Dotted

variable {name : String}

/-- A name with the names around it, longest first, up to the empty one. -/
def ascent (name : String) : List String := name :: outerNamespaces name

theorem ascent_empty : ascent "" = [""] := by
  unfold ascent
  rw [outerNamespaces_empty]

theorem ascent_of_ne (h : name ≠ "") : ascent name = name :: ascent (parent name) := by
  unfold ascent
  rw [(outerNamespaces_of_ne h).1]
  rfl

theorem length_parent_lt (h : name ≠ "") : (parent name).length < name.length := (outerNamespaces_of_ne h).2

theorem empty_mem_ascent (name : String) : "" ∈ ascent name := by
  by_cases h : name = ""
  · rw [h, ascent_empty]
    exact List.mem_singleton_self _
  · have := length_parent_lt h
    rw [ascent_of_ne h]
    exact List.mem_cons_of_mem _ (empty_mem_ascent (parent name))
termination_by name.length

theorem length_le_of_mem_ascent {name label : String} (h : label ∈ ascent name) : label.length ≤ name.length := by
  by_cases hname : name = ""
  · rw [hname, ascent_empty, List.mem_singleton] at h
    rw [h]
    exact Nat.zero_le _
  · have hlt := length_parent_lt hname
    rw [ascent_of_ne hname] at h
    rcases List.mem_cons.mp h with h | h
    · rw [h]
    · exact (length_le_of_mem_ascent h).trans (Nat.le_of_lt hlt)
termination_by name.length

theorem nodup_ascent (name : String) : (ascent name).Nodup := by
  by_cases h : name = ""
  · rw [h, ascent_empty]
    exact List.nodup_singleton _
  · have hlt := length_parent_lt h
    rw [ascent_of_ne h]
    refine List.nodup_cons.mpr ⟨fun hmem => ?_, nodup_ascent (parent name)⟩
    exact Nat.not_le_of_lt hlt (length_le_of_mem_ascent hmem)
termination_by name.length

theorem not_mem_enclosingChars {c : Char} {cs : List Char} (hc : c ≠ '.') : [] ∉ enclosingChars (c :: cs) := by
  rw [enclosingChars]
  split
  · next outer last h =>
    have hlt := length_of_splitLast h
    have houter : ∃ ds, outer = c :: ds := by
      rw [splitLast] at h
      split at h
      · cases h
        exact ⟨_, rfl⟩
      · cases (if_neg hc).symm.trans h
    obtain ⟨ds, rfl⟩ := houter
    exact List.not_mem_cons_of_ne_of_not_mem (List.cons_ne_nil c ds).symm (not_mem_enclosingChars hc)
  · exact List.not_mem_nil
termination_by cs.length
decreasing_by
  simp only [List.length_cons] at hlt
  omega

theorem empty_not_mem_enclosing (h : Proper name) : "" ∉ enclosing name := by
  unfold enclosing
  rw [List.mem_map]
  rintro ⟨cs, hcs, hempty⟩
  obtain rfl : cs = [] := by simpa using hempty
  unfold Proper at h
  cases hchars : name.toList with
  | nil =>
    rw [hchars] at h
    cases h
  | cons c rest =>
    rw [hchars] at h hcs
    exact not_mem_enclosingChars (by simpa using h) hcs

/-- The dot-prefixes of a name, and the empty one. -/
theorem ascent_eq (h : Proper name) : ascent name = name :: enclosing name ++ [""] := by
  have hname : name.isEmpty = false := by simpa using h.ne_empty
  unfold ascent outerNamespaces
  dsimp only
  rw [hname, if_neg (by simpa using empty_not_mem_enclosing h)]
  rfl

end Session

/-! The names of declarations -/

/-- A tree of the grammar's shape in which names are written as they should be: types have simple names, those of
namespaces do not begin with a dot, imports are not empty, and no namespace stands inside a type. -/
structure SourceUnit.Tiered (u : SourceUnit) : Prop extends u.Shaped where
  simple : ∀ c, u.top.Within c → c.isTypeDeclaration = true → ∀ own, c.declaredName? = some own →
    own ≠ "" ∧ '.' ∉ own.toList
  spelled : ∀ c, u.top.Within c → c.isNamespaceDeclaration = true → ∀ own, c.namespaceName? = some own →
    Dotted.Proper own
  imported : ∀ c, u.top.Within c → c.importedNamespace? ≠ some ""
  outermost : ∀ c, u.top.Within c → c.isNamespaceDeclaration = true → c.enclosingTypes = []

def SourceUnit.isTiered (u : SourceUnit) : Bool :=
  u.isShaped && (u.root.cursors []).all fun c =>
    (!c.isTypeDeclaration || c.declaredName?.all fun own => own != "" && !own.toList.contains '.') &&
    (!c.isNamespaceDeclaration || c.namespaceName?.all (decide <| Dotted.Proper ·) && c.enclosingTypes.isEmpty) &&
    c.importedNamespace? != some ""

theorem SourceUnit.tiered_of_isTiered {u : SourceUnit} (h : u.isTiered = true) : u.Tiered := by
  have hmem (c : Cursor) (hc : u.top.Within c) : c ∈ u.root.cursors [] := Node.mem_cursors hc
  unfold isTiered at h
  simp only [Bool.and_eq_true, List.all_eq_true] at h
  obtain ⟨hshaped, hall⟩ := h
  refine { SourceUnit.shaped_of_isShaped hshaped with
    simple := fun c hc htype own hown => ?_
    spelled := fun c hc hns own hown => ?_
    imported := fun c hc => ?_
    outermost := fun c hc hns => ?_ }
  · have hsimple := (hall c (hmem c hc)).1.1
    simpa [htype, hown] using hsimple
  · have hspelled := (hall c (hmem c hc)).1.2
    rw [hns, hown] at hspelled
    simp only [Bool.not_true, Bool.false_or, Bool.and_eq_true, Option.all_some, decide_eq_true_eq] at hspelled
    exact hspelled.1
  · simpa using (hall c (hmem c hc)).2
  · have houtermost := (hall c (hmem c hc)).1.2
    rw [hns] at houtermost
    simp only [Bool.not_true, Bool.false_or, Bool.and_eq_true, List.isEmpty_iff] at houtermost
    exact houtermost.2

namespace Cursor

open Dotted

variable {c x o : Cursor} {f own : String}

theorem fullName?_eq_some : c.fullName? = some f ↔ ∃ own outers, c.declaredName? = some own ∧
    c.enclosingTypes.reverse.mapM declaredName? = some outers ∧
      f = within c.namespaceOf (".".intercalate (outers ++ [own])) := by
  unfold fullName?
  simp only [Option.bind_eq_bind, Option.bind_eq_some_iff, Option.pure_def, Option.some.injEq]
  constructor
  · rintro ⟨own, hown, outers, houters, rfl⟩
    exact ⟨own, outers, hown, houters, rfl⟩
  · rintro ⟨own, outers, hown, houters, rfl⟩
    exact ⟨own, hown, outers, houters, rfl⟩

theorem mem_of_mapM_declaredName? {xs : List Cursor} {names : List String} (h : xs.mapM declaredName? = some names)
    (hown : own ∈ names) : ∃ x ∈ xs, x.declaredName? = some own := by
  induction xs generalizing names with
  | nil =>
    cases h
    cases hown
  | cons x xs ih =>
    simp only [List.mapM_cons, Option.bind_eq_bind, Option.bind_eq_some_iff, Option.pure_def, Option.some.injEq] at h
    obtain ⟨first, hfirst, rest, hrest, rfl⟩ := h
    rcases List.mem_cons.mp hown with rfl | hown
    · exact ⟨x, List.mem_cons_self, hfirst⟩
    · obtain ⟨y, hy, hname⟩ := ih hrest hown
      exact ⟨y, List.mem_cons_of_mem x hy, hname⟩

/-- Nodes that are no namespaces and hold none beside the way do not count. -/
theorem namespacesAlong_skip {seen : Bool} {between above : List Cursor}
    (h : ∀ b ∈ between, b.isNamespaceDeclaration = false ∧ ∀ y ∈ b.children, y.isFileScopedNamespace = false) :
    namespacesAlong x seen (between ++ above) = namespacesAlong x seen above := by
  induction between with
  | nil => rfl
  | cons b between ih =>
    obtain ⟨⟨hown, hchildren⟩, hbetween⟩ := List.forall_mem_cons.mp h
    have hscoped : b.isFileScopedNamespace = false := by
      unfold isNamespaceDeclaration at hown
      exact (Bool.or_eq_false_iff.mp hown).2
    rw [List.cons_append, namespacesAlong, hown, hscoped, Bool.or_false, ih hbetween,
      SourceUnit.Shaped.governing?_eq_none hchildren]
    simp

theorem isNamespaceDeclaration_of_fileScoped (h : c.isFileScopedNamespace = true) :
    c.isNamespaceDeclaration = true := by
  unfold isNamespaceDeclaration
  rw [h, Bool.or_true]

end Cursor

namespace SourceUnit.Tiered

open Cursor Dotted

variable {u : SourceUnit} {x o : Cursor} {f own : String}

theorem solid_declaration (h : u.Tiered) (hx : u.top.Within x) (htype : x.isTypeDeclaration = true)
    (hown : x.declaredName? = some own) : x.start < x.stop := by
  obtain ⟨hne, -⟩ := h.simple x hx htype own hown
  obtain ⟨d, hd, rfl⟩ := Option.map_eq_some_iff.mp hown
  have hspan := h.nested x hx d (mem_children_of_or hd)
  have hpos : 0 < d.text.utf8ByteSize := by
    rw [Nat.pos_iff_ne_zero]
    exact fun hzero => hne (String.utf8ByteSize_eq_zero_iff.mp hzero)
  have hstop : d.stop = d.start + d.text.utf8ByteSize := rfl
  omega

theorem proper_namespaceOf (h : u.Tiered) (hx : u.top.Within x) : x.namespaceOf = "" ∨ Proper x.namespaceOf := by
  unfold namespaceOf
  by_cases hnil : x.enclosingNamespaces.filterMap namespaceName? = []
  · rw [hnil]
    exact .inl rfl
  · refine .inr (.intercalate (by simpa using hnil) fun own hown => ?_)
    obtain ⟨b, hb, hname⟩ := List.mem_filterMap.mp (List.mem_reverse.mp hown)
    obtain ⟨hb, hns⟩ := h.mem_enclosingNamespaces hx hb
    exact h.spelled b (Node.preorder_within hb).1 hns own hname

theorem simple_enclosing (h : u.Tiered) (hx : u.top.Within x) {outers : List String}
    (houters : x.enclosingTypes.reverse.mapM declaredName? = some outers) : ∀ own ∈ outers, Proper own := by
  intro own hown
  obtain ⟨o, ho, hname⟩ := mem_of_mapM_declaredName? houters hown
  obtain ⟨ho, htype⟩ := List.mem_filter.mp (List.mem_reverse.mp ho)
  obtain ⟨hne, hdot⟩ := h.simple o (hx.of_mem_enclosing rfl ho) htype own hname
  exact .of_simple hne hdot

theorem proper_fullName (h : u.Tiered) (hx : u.top.Within x) (htype : x.isTypeDeclaration = true)
    (hf : x.fullName? = some f) : Proper f := by
  obtain ⟨own, outers, hown, houters, rfl⟩ := fullName?_eq_some.mp hf
  obtain ⟨hne, hdot⟩ := h.simple x hx htype own hown
  refine .within (h.proper_namespaceOf hx) (.intercalate (by simp) ?_)
  exact forall_mem_concat (h.simple_enclosing hx houters) (.of_simple hne hdot)

/-- A nested type stands in the namespaces of the type around it. -/
theorem enclosingNamespaces_outer (h : u.Tiered) (hx : u.top.Within x) (hsolid : x.start < x.stop)
    (ho : x.outerType? = some o) : x.enclosingNamespaces = o.enclosingNamespaces := by
  obtain ⟨htype, between, after, heq, -⟩ := List.find?_eq_some_iff_append.mp ho
  obtain rfl := along_split heq
  have hox : o ∈ x.enclosing := by
    unfold Cursor.enclosing
    rw [heq]
    exact List.mem_append_right _ List.mem_cons_self
  have hinside {b : Cursor} (hb : u.top.Within b) (hob : o ∈ b.enclosing) : b.isNamespaceDeclaration = false := by
    rw [Bool.eq_false_iff]
    intro hns
    have hnone := h.outermost b hb hns
    have hmem : o ∈ b.enclosingTypes := List.mem_filter.mpr ⟨hob, htype⟩
    rw [hnone] at hmem
    cases hmem
  have hskip : ∀ b ∈ between ++ [o], b.isNamespaceDeclaration = false ∧
      ∀ y ∈ b.children, y.isFileScopedNamespace = false := by
    intro b hb
    have hbx : b ∈ x.enclosing := by
      unfold Cursor.enclosing
      rw [heq, List.append_cons]
      exact List.mem_append_left _ hb
    have hbw := hx.of_mem_enclosing rfl hbx
    -- `b` is the type or stands below it
    have hbo : b = o ∨ o ∈ b.enclosing := by
      rcases List.mem_append.mp hb with hb | hb
      · obtain ⟨before, rest, hsplit⟩ := List.append_of_mem hb
        rw [hsplit, List.append_assoc, List.cons_append] at heq
        rw [← along_split heq]
        exact .inr (List.mem_append_right _ List.mem_cons_self)
      · exact .inl (List.mem_singleton.mp hb)
    refine ⟨?_, fun y hy => Bool.eq_false_iff.mpr fun hscoped => ?_⟩
    · rcases hbo with rfl | hbo
      · exact Bool.eq_false_iff.mpr fun hns => by
          rw [not_typeDeclaration hns] at htype
          cases htype
      · exact hinside hbw hbo
    · have hoy : o ∈ y.enclosing := by
        rw [enclosing_of_mem_children hy]
        rcases hbo with rfl | hbo
        · exact List.mem_cons_self
        · exact List.mem_cons_of_mem b hbo
      have hfalse := hinside (hbw.of_mem_children hy) hoy
      rw [isNamespaceDeclaration_of_fileScoped hscoped] at hfalse
      cases hfalse
  have hsuffix : o.trail <:+ x.trail := (mem_enclosing.mp hox).trans (List.suffix_cons _ _)
  unfold enclosingNamespaces
  have hpath : x.enclosing = (between ++ [o]) ++ o.enclosing := by
    rw [List.append_assoc]
    exact heq
  rw [hpath, namespacesAlong_skip hskip]
  refine h.namespacesAlong_above hx hsolid hsuffix nofun fun hscoped => ?_
  have hfalse := (hskip o (List.mem_append_right _ List.mem_cons_self)).1
  rw [isNamespaceDeclaration_of_fileScoped hscoped] at hfalse
  cases hfalse

theorem namespaceOf_outer (h : u.Tiered) (hx : u.top.Within x) (htype : x.isTypeDeclaration = true)
    (hf : x.fullName? = some f) (ho : x.outerType? = some o) : x.namespaceOf = o.namespaceOf := by
  obtain ⟨own, outers, hown, -⟩ := fullName?_eq_some.mp hf
  unfold namespaceOf
  rw [h.enclosingNamespaces_outer hx (h.solid_declaration hx htype hown) ho]

/-- The full name of a nested type is its name in the full name of the type around it. -/
theorem parent_fullName_nested (h : u.Tiered) (hx : u.top.Within x) (htype : x.isTypeDeclaration = true)
    (hf : x.fullName? = some f) (ho : x.outerType? = some o) : o.fullName? = some (parent f) := by
  have hns := h.namespaceOf_outer hx htype hf ho
  obtain ⟨own, outers, hown, houters, rfl⟩ := fullName?_eq_some.mp hf
  have hproper := h.simple_enclosing hx houters
  rw [enclosingTypes_of_outerType? ho, List.reverse_cons, List.mapM_append] at houters
  simp only [List.mapM_cons, List.mapM_nil, Option.bind_eq_bind, Option.bind_eq_some_iff, Option.pure_def,
    Option.some.injEq] at houters
  obtain ⟨names, hnames, last, ⟨name, hname, _, rfl, rfl⟩, rfl⟩ := houters
  have hempty : "" ∉ names ++ [name] := fun hmem => (hproper "" hmem).ne_empty rfl
  have hne : ".".intercalate (names ++ [name]) ≠ "" := (Proper.intercalate (by simp) hproper).ne_empty
  rw [intercalate_concat hempty, ← within_within hne, parent_within (h.simple x hx htype own hown).2, hns]
  exact fullName?_eq_some.mpr ⟨name, names, hname, hnames, rfl⟩

theorem parent_fullName_outermost (h : u.Tiered) (hx : u.top.Within x) (htype : x.isTypeDeclaration = true)
    (hf : x.fullName? = some f) (ho : x.outerType? = none) : parent f = x.namespaceOf := by
  have hnone : x.enclosingTypes = [] := by
    unfold enclosingTypes
    rw [List.filter_eq_nil_iff]
    exact List.find?_eq_none.mp ho
  obtain ⟨own, outers, hown, houters, rfl⟩ := fullName?_eq_some.mp hf
  rw [hnone] at houters
  obtain rfl : outers = [] := (Option.some.inj houters).symm
  rw [List.nil_append, String.intercalate_singleton, parent_within (h.simple x hx htype own hown).2]

/-- The full names of the types around a declaration, and then the names around its namespace, are those around its
full name. -/
theorem ascent_fullName {x : Cursor} {f : String} (h : u.Tiered) (hx : u.top.Within x)
    (htype : x.isTypeDeclaration = true) (hf : x.fullName? = some f) :
    (x :: x.enclosingTypes).filterMap fullName? ++ Session.ascent x.namespaceOf = Session.ascent f := by
  rw [List.filterMap_cons_some hf, Session.ascent_of_ne (h.proper_fullName hx htype hf).ne_empty, List.cons_append]
  congr 1
  cases ho : x.outerType? with
  | none =>
    rw [h.parent_fullName_outermost hx htype hf ho, List.filterMap_eq_nil_iff.mpr, List.nil_append]
    intro a ha
    obtain ⟨ha, hatype⟩ := List.mem_filter.mp ha
    exact (List.find?_eq_none.mp ho a ha hatype).elim
  | some o =>
    have hmem : o ∈ x.enclosingTypes := by
      rw [enclosingTypes_of_outerType? ho]
      exact List.mem_cons_self
    obtain ⟨hmem, hotype⟩ := List.mem_filter.mp hmem
    have hlt : o.ancestors.length < x.ancestors.length := (mem_enclosing.mp hmem).length_le
    rw [enclosingTypes_of_outerType? ho, h.namespaceOf_outer hx htype hf ho]
    exact h.ascent_fullName (hx.of_mem_enclosing rfl hmem) hotype (h.parent_fullName_nested hx htype hf ho)
termination_by x.ancestors.length

end SourceUnit.Tiered

end TypeCatalog
