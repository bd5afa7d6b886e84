import Mathlib.Data.List.Nodup
import Mathlib.Data.List.Pairwise
import TypeCatalog.Proofs.Positions
import TypeCatalog.Source.Declaration

namespace TypeCatalog

namespace Cursor

def start (c : Cursor) : Nat := c.node.info.start

def stop (c : Cursor) : Nat := c.start + c.text.utf8ByteSize

end Cursor

/-- The tree is laid out along the text: indexes tell nodes apart, spans nest and those of siblings follow
each other, and sound type syntax is not empty. -/
structure SourceUnit.Laid (u : SourceUnit) : Prop where
  index : ∀ c, u.top.Within c → ∀ d, u.top.Within d → c.index = d.index → c = d
  nested : ∀ c, u.top.Within c → ∀ d ∈ c.children, c.start ≤ d.start ∧ d.stop ≤ c.stop
  disjoint : ∀ c, u.top.Within c → c.children.Pairwise fun d e => d.stop ≤ e.start
  solid : ∀ c, u.top.Within c → c.typeForm?.isSome = true → c.node.isBroken = false → c.start < c.stop

/-- The shape that the grammar gives to the tree of a source file: named nodes stand below named nodes,
indexes tell nodes apart, spans nest and those of siblings follow each other, and sound type syntax is
not empty. Type parameters have names, the names of namespaces are not empty, and at most one namespace
is file-scoped. -/
structure SourceUnit.Shaped (u : SourceUnit) : Prop where
  named : ∀ c, u.top.Within c → ∀ d ∈ c.children, d.node.info.named = true → c.node.info.named = true
  declared : ∀ c, u.top.Within c → c.isNamespaceDeclaration = true → c.node.info.named = true
  index : ∀ c, u.top.Within c → ∀ d, u.top.Within d → c.index = d.index → c = d
  nested : ∀ c, u.top.Within c → ∀ d ∈ c.children, c.start ≤ d.start ∧ d.stop ≤ c.stop
  disjoint : ∀ c, u.top.Within c → c.children.Pairwise fun d e => d.stop ≤ e.start
  solid : ∀ c, u.top.Within c → c.typeForm?.isSome = true → c.node.isBroken = false → c.start < c.stop
  parameter : ∀ c, u.top.Within c → c.kind = "type_parameter" → c.declaredName?.isSome = true
  name : ∀ c, u.top.Within c → c.isNamespaceDeclaration = true → c.namespaceName? ≠ some ""
  single : ∀ c, u.top.Within c → ∀ d, u.top.Within d → c.isFileScopedNamespace = true →
    d.isFileScopedNamespace = true → c = d

/-- Checks the shape of a tree. -/
def SourceUnit.isShaped (u : SourceUnit) : Bool :=
  let all := u.root.cursors []
  decide (all.map Cursor.index).Nodup &&
    decide ((all.filter Cursor.isFileScopedNamespace).length ≤ 1) &&
    all.all fun c =>
      (!c.isNamespaceDeclaration || c.node.info.named && c.namespaceName? != some "") &&
      (!c.typeForm?.isSome || c.node.isBroken || decide (c.start < c.stop)) &&
      (c.kind != "type_parameter" || c.declaredName?.isSome) &&
      decide (c.children.Pairwise fun d e => d.stop ≤ e.start) &&
      c.children.all fun d =>
        (!d.node.info.named || c.node.info.named) && decide (c.start ≤ d.start) && decide (d.stop ≤ c.stop)

theorem SourceUnit.shaped_of_isShaped {u : SourceUnit} (h : u.isShaped = true) : u.Shaped := by
  have hmem (c : Cursor) (hc : u.top.Within c) : c ∈ u.root.cursors [] := Node.mem_cursors hc
  unfold isShaped at h
  simp only [Bool.and_eq_true, decide_eq_true_eq, List.all_eq_true] at h
  obtain ⟨⟨hindex, hsingle⟩, hall⟩ := h
  refine {
    named := fun c hc d hd hn => ?_
    declared := fun c hc hns => ?_
    index := fun c hc d hd => List.inj_on_of_nodup_map hindex (hmem c hc) (hmem d hd)
    nested := fun c hc d hd => ?_
    disjoint := fun c hc => (hall c (hmem c hc)).1.2
    solid := fun c hc hform hsound => ?_
    parameter := fun c hc hkind => ?_
    name := fun c hc hns => ?_
    single := fun c hc d hd hcs hds => ?_ }
  · have hbelow := ((hall c (hmem c hc)).2 d hd).1.1
    rw [hn] at hbelow
    exact hbelow
  · have hdeclared := (hall c (hmem c hc)).1.1.1.1
    simp only [hns, Bool.not_true, Bool.false_or, Bool.and_eq_true] at hdeclared
    exact hdeclared.1
  · have hbelow := (hall c (hmem c hc)).2 d hd
    exact ⟨hbelow.1.2, hbelow.2⟩
  · have hsolid := (hall c (hmem c hc)).1.1.1.2
    simpa [hform, hsound] using hsolid
  · have hparameter := (hall c (hmem c hc)).1.1.2
    simpa [hkind] using hparameter
  · have hname := (hall c (hmem c hc)).1.1.1.1
    simp only [hns, Bool.not_true, Bool.false_or, Bool.and_eq_true, bne_iff_ne] at hname
    exact hname.2
  · have hc : c ∈ (u.root.cursors []).filter Cursor.isFileScopedNamespace := List.mem_filter.mpr ⟨hmem c hc, hcs⟩
    have hd : d ∈ (u.root.cursors []).filter Cursor.isFileScopedNamespace := List.mem_filter.mpr ⟨hmem d hd, hds⟩
    obtain ⟨x, hx⟩ := List.length_eq_one_iff.mp (Nat.le_antisymm hsingle (List.length_pos_of_mem hc))
    rw [hx, List.mem_singleton] at hc hd
    rw [hc, hd]

theorem SourceUnit.Shaped.laid {u : SourceUnit} (h : u.Shaped) : u.Laid := ⟨h.index, h.nested, h.disjoint, h.solid⟩

namespace SourceUnit.Laid

open Cursor

variable {u : SourceUnit} {a b c q : Cursor}

/-- What is below a cursor lies inside its span. -/
theorem span_above (h : u.Laid) (hc : u.top.Within c) (ha : a.trail <:+ c.trail) :
    a.start ≤ c.start ∧ c.stop ≤ a.stop := by
  refine hc.above_induction (P := fun d => d.start ≤ c.start ∧ c.stop ≤ d.stop) ?_ rfl ha ⟨Nat.le_refl _, Nat.le_refl _⟩
  intro d hd e he hspan
  have := h.nested d hd e he
  omega

/-- The span of one of two siblings ends before the other begins. -/
theorem apart (h : u.Laid) (hc : u.top.Within c) (ha : a ∈ c.children) (hb : b ∈ c.children) (hne : a ≠ b) :
    a.stop ≤ b.start ∨ b.stop ≤ a.start := by
  have hpair : c.children.Pairwise fun d e => d.stop ≤ e.start ∨ e.stop ≤ d.start :=
    (h.disjoint c hc).imp .inl
  have : Std.Symm fun d e : Cursor => d.stop ≤ e.start ∨ e.stop ≤ d.start := ⟨fun _ _ h => h.symm⟩
  exact hpair.forall ha hb hne

end SourceUnit.Laid

namespace SourceUnit.Shaped

open Cursor

variable {u : SourceUnit} {a b c d x : Cursor}

theorem mem_preorder (h : u.Shaped) (hc : u.top.Within c) (hn : c.node.info.named = true) :
    c ∈ u.top.preorder := by
  induction hc with
  | self => exact Node.mem_preorder_self _
  | @child c n hc hm ih =>
    have hnamed := h.named c hc _ (List.mem_map_of_mem hm) hn
    exact Node.preorder_child (ih hnamed) hm hn

theorem mem_preorder_of_above (h : u.Shaped) (hc : c ∈ u.top.preorder) (ha : a ∈ c.enclosing) :
    a ∈ u.top.preorder := by
  obtain ⟨hwithin, hself | hnamed⟩ := Node.preorder_within hc
  · rw [hself] at ha
    cases ha
  · refine h.mem_preorder (hwithin.of_mem_enclosing rfl ha) ?_
    exact hwithin.above_induction (P := fun d => d.node.info.named = true) h.named rfl
      ((mem_enclosing.mp ha).trans (List.suffix_cons _ _)) hnamed

/-- The file-scoped namespace among the children of `a` is the only one, so it governs `c` if it is
another node that does not begin later. -/
theorem governing?_eq (h : u.Shaped) (ha : u.top.Within a) (hx : x ∈ a.children)
    (hs : x.isFileScopedNamespace = true) :
    governing? c a = if x.index ≠ c.index ∧ x.start ≤ c.start then some x else none := by
  have hxw := ha.of_mem_children hx
  unfold governing?
  split
  · next hc =>
    obtain ⟨y, hy⟩ : ∃ y, (a.children.find? fun x =>
        x.isFileScopedNamespace && x.index != c.index && x.node.info.start ≤ c.node.info.start) = some y := by
      rw [← Option.isSome_iff_exists, List.find?_isSome]
      exact ⟨x, hx, by simpa [hs, start] using hc⟩
    have hfound := List.find?_some hy
    simp only [Bool.and_eq_true] at hfound
    rw [hy, h.single y (ha.of_mem_children (List.mem_of_find?_eq_some hy)) x hxw hfound.1.1 hs]
  · next hc =>
    rw [List.find?_eq_none]
    intro y hy hfound
    simp only [Bool.and_eq_true] at hfound
    rw [h.single y (ha.of_mem_children hy) x hxw hfound.1.1 hs] at hfound
    exact hc (by simpa [hs, start] using hfound)

theorem governing?_eq_none (hs : ∀ x ∈ a.children, x.isFileScopedNamespace = false) : governing? c a = none := by
  unfold governing?
  rw [List.find?_eq_none]
  intro x hx
  simp [hs x hx]

end SourceUnit.Shaped

namespace Cursor

variable {c d : Cursor}

theorem not_fileScoped_of_unit {a : Cursor} (h : (a.kind == "compilation_unit") = true) :
    a.isNamespaceDeclaration = false ∧ a.isFileScopedNamespace = false := by
  have hkind : a.kind = "compilation_unit" := by simpa using h
  unfold isNamespaceDeclaration isFileScopedNamespace
  rw [hkind]
  decide

theorem namespacesAlong_unit {a : Cursor} (h : (a.kind == "compilation_unit") = true) {seen : Bool}
    {above : List Cursor} : namespacesAlong c seen (a :: above) =
      (if seen then [] else (governing? c a).toList) ++ namespacesAlong c seen above := by
  obtain ⟨hown, hscoped⟩ := not_fileScoped_of_unit h
  rw [namespacesAlong, h, hown, hscoped, Bool.or_false]
  cases seen <;> rfl

/-- Two cursors below one path stand in the same namespaces if the same siblings govern them. -/
theorem namespacesAlong_congr {p q : Bool} {path : List Cursor}
    (h : ∀ before a after, path = before ++ a :: after → a.kind == "compilation_unit" →
      (if p || before.any isFileScopedNamespace then none else governing? c a) =
        if q || before.any isFileScopedNamespace then none else governing? d a) :
    namespacesAlong c p path = namespacesAlong d q path := by
  induction path generalizing p q with
  | nil => rfl
  | cons a above ih =>
    unfold namespacesAlong
    dsimp only
    congr 1
    · congr 1
      by_cases hkind : (a.kind == "compilation_unit") = true
      · have hfirst := h [] a above rfl hkind
        simp only [List.any_nil, Bool.or_false] at hfirst
        have hbeside (seen : Bool) (g : Option Cursor) :
            (if (true && !seen) = true then g.toList else []) = (if seen then none else g).toList := by
          cases seen <;> rfl
        rw [hkind, (not_fileScoped_of_unit hkind).2, Bool.or_false, Bool.or_false, hbeside, hbeside, hfirst]
      · simp [hkind]
    · apply ih
      intro before b after heq hkind
      have hrest := h (a :: before) b after (by rw [heq]; rfl) hkind
      rw [List.any_cons, ← Bool.or_assoc, ← Bool.or_assoc] at hrest
      exact hrest

theorem mem_namespacesAlong {b : Cursor} {seen : Bool} {path : List Cursor} (h : b ∈ namespacesAlong c seen path) :
    b ∈ path ∧ b.isNamespaceDeclaration = true ∨
      ∃ a ∈ path, b ∈ a.children ∧ b.isFileScopedNamespace = true := by
  induction path generalizing seen with
  | nil => cases h
  | cons a above ih =>
    unfold namespacesAlong at h
    dsimp only at h
    rw [List.append_assoc, List.mem_append, List.mem_append] at h
    rcases h with h | h | h
    · split at h
      · next hns =>
        rw [List.mem_singleton.mp h]
        exact .inl ⟨List.mem_cons_self, hns⟩
      · cases h
    · split at h
      · rw [Option.mem_toList] at h
        have hfound := List.find?_some h
        simp only [Bool.and_eq_true] at hfound
        exact .inr ⟨a, List.mem_cons_self, List.mem_of_find?_eq_some h, hfound.1.1⟩
      · cases h
    · rcases ih h with ⟨hb, hns⟩ | ⟨p, hp, hb⟩
      · exact .inl ⟨List.mem_cons_of_mem a hb, hns⟩
      · exact .inr ⟨p, List.mem_cons_of_mem a hp, hb⟩

theorem along_split {path : List Node} {before after : List Cursor} {a : Cursor}
    (h : along path = before ++ a :: after) : after = a.enclosing := by
  induction path generalizing before with
  | nil => cases before <;> cases h
  | cons n above ih =>
    unfold along at h
    cases before with
    | nil =>
      rw [List.nil_append, List.cons.injEq] at h
      rw [← h.1, ← h.2]
      rfl
    | cons b before =>
      rw [List.cons_append, List.cons.injEq] at h
      exact ih h.2

theorem not_suffix_of_child {a x : Cursor} (hx : x ∈ a.children) : ¬ x.trail <:+ a.ancestors ∧ ¬ x.trail <:+ a.trail := by
  obtain ⟨n, -, rfl⟩ := List.mem_map.mp hx
  have hlen : (a.child n).trail.length = a.ancestors.length + 2 := rfl
  constructor
  · intro h
    have := h.length_le
    omega
  · intro h
    have hle := h.length_le
    have : a.trail.length = a.ancestors.length + 1 := rfl
    omega

theorem ancestors_of_mem_children {a x : Cursor} (hx : x ∈ a.children) : x.ancestors = a.trail := by
  obtain ⟨n, -, rfl⟩ := List.mem_map.mp hx
  rfl

theorem enclosing_of_mem_children {a x : Cursor} (hx : x ∈ a.children) : x.enclosing = a :: a.enclosing := by
  obtain ⟨n, -, rfl⟩ := List.mem_map.mp hx
  exact enclosing_child a n

/-- Namespaces each of which stands in the next ones and in no others. -/
def Nested : List Cursor → Prop
  | [] => True
  | b :: bs => b.enclosingNamespaces = bs ∧ Nested bs

theorem child_unique {a x y z : Cursor} (hx : x ∈ a.children) (hy : y ∈ a.children) (hxz : x.trail <:+ z.trail)
    (hyz : y.trail <:+ z.trail) : x = y := by
  obtain ⟨n, -, rfl⟩ := List.mem_map.mp hx
  obtain ⟨m, -, rfl⟩ := List.mem_map.mp hy
  apply eq_of_trail
  have hlen : (a.child n).trail.length = (a.child m).trail.length := rfl
  exact (List.suffix_of_suffix_length_le hxz hyz (Nat.le_of_eq hlen)).eq_of_length hlen

/-- A file-scoped namespace that the way up to `q` passes was met before. -/
theorem any_before {b q x : Cursor} {before after : List Cursor} (heq : b.enclosing = before ++ q :: after)
    (hx : x ∈ q.children) (hs : x.isFileScopedNamespace = true) (hxb : x.trail <:+ b.ancestors) :
    before.any isFileScopedNamespace = true := by
  have hxe := mem_enclosing.mpr hxb
  rw [heq] at hxe
  rcases List.mem_append.mp hxe with hxe | hxe
  · exact List.any_eq_true.mpr ⟨x, hxe, hs⟩
  · rcases List.mem_cons.mp hxe with rfl | hxe
    · exact absurd List.suffix_rfl (not_suffix_of_child hx).2
    · rw [along_split heq] at hxe
      exact absurd (mem_enclosing.mp hxe) (not_suffix_of_child hx).1

end Cursor

namespace SourceUnit.Laid

open Cursor

variable {u : SourceUnit} {a b q : Cursor}

/-- A namespace that stands beside the way governs all of what is on it, or nothing. -/
theorem governing?_above (h : u.Laid) (ha : u.top.Within a) (hsolid : a.start < a.stop) (hb : b.trail <:+ a.trail)
    (hq : q ∈ b.enclosing) (hoff : ∀ x ∈ q.children, x.isFileScopedNamespace = true → ¬ x.trail <:+ b.trail) :
    governing? a q = governing? b q := by
  have hbw := ha.of_suffix rfl hb
  have hqw := hbw.of_mem_enclosing rfl hq
  obtain ⟨y, hy, hyb⟩ := hbw.next rfl hq
  unfold governing?
  rw [← List.head?_filter, ← List.head?_filter]
  refine congrArg List.head? (List.filter_congr fun x hx => ?_)
  cases hs : x.isFileScopedNamespace with
  | false => rfl
  | true =>
    have hxw := hqw.of_mem_children hx
    have hxy : x ≠ y := fun heq => hoff x hx hs (heq ▸ hyb)
    have hxa : x.index ≠ a.index := by
      intro hi
      have hxa := h.index x hxw a ha hi
      exact hxy (child_unique hx hy (hxa ▸ List.suffix_rfl) (hyb.trans hb))
    have hxb : x.index ≠ b.index := by
      intro hi
      have hxb := h.index x hxw b hbw hi
      exact hoff x hx hs (hxb ▸ List.suffix_rfl)
    have hya := h.span_above ha (hyb.trans hb)
    have hyb := h.span_above hbw hyb
    have hba := h.span_above ha hb
    have hle : x.start ≤ x.stop := Nat.le_add_right _ _
    -- siblings do not overlap, so `x` is before or behind all that stands below `y`
    have hstart : x.start ≤ a.start ↔ x.start ≤ b.start := by
      rcases h.apart hqw hx hy hxy with hlt | hlt <;> omega
    rw [bne_iff_ne.mpr hxa, bne_iff_ne.mpr hxb]
    exact congrArg (true && true && ·) (decide_eq_decide.mpr hstart)

end SourceUnit.Laid

namespace SourceUnit.Shaped

open Cursor

variable {u : SourceUnit} {a b c d x : Cursor}

/-- What stands below a cursor is in the namespaces that the cursor is in. -/
theorem namespacesAlong_above (h : u.Shaped) (ha : u.top.Within a) (hsolid : a.start < a.stop)
    (hb : b.trail <:+ a.trail) {seen : Bool}
    (hseen : seen = true → ∃ z : Cursor, z.isFileScopedNamespace = true ∧ z.trail <:+ a.trail)
    (hself : b.isFileScopedNamespace = true → seen = true) :
    namespacesAlong a seen b.enclosing = namespacesAlong b false b.enclosing := by
  have hbw := ha.of_suffix rfl hb
  apply namespacesAlong_congr
  intro before q after heq _
  have hq : q ∈ b.enclosing := by
    rw [heq]
    exact List.mem_append_right _ List.mem_cons_self
  have hqw := hbw.of_mem_enclosing rfl hq
  by_cases hx : ∃ x ∈ q.children, x.isFileScopedNamespace = true ∧ x.trail <:+ b.trail
  · obtain ⟨x, hx, hs, hxb⟩ := hx
    rcases List.suffix_cons_iff.mp hxb with heq' | hxb
    · -- the namespace is `b` itself
      have heq' : x = b := eq_of_trail heq'
      subst heq'
      have hnone : governing? x q = none := by
        rw [h.governing?_eq hqw hx hs]
        simp
      rw [hself hs, hnone]
      simp
    · -- the namespace was met on the way
      have hany := any_before heq hx hs hxb
      rw [hany]
      simp
  · -- the namespace stands beside the way, before or behind all of it
    have hoff : ∀ x ∈ q.children, x.isFileScopedNamespace = true → ¬ x.trail <:+ b.trail :=
      fun x hxq hs hxb => hx ⟨x, hxq, hs, hxb⟩
    rw [h.laid.governing?_above ha hsolid hb hq hoff]
    cases seen with
    | false => rfl
    | true =>
      obtain ⟨z, hz, hza⟩ := hseen rfl
      have hnone : ∀ x ∈ q.children, x.isFileScopedNamespace = false := by
        intro x hxq
        rw [Bool.eq_false_iff]
        intro hs
        obtain ⟨y, hy, hyb⟩ := hbw.next rfl hq
        rw [h.single z (ha.of_suffix rfl hza) x (hqw.of_mem_children hxq) hz hs] at hza
        exact hoff x hxq hs (child_unique hxq hy hza (hyb.trans hb) ▸ hyb)
      rw [governing?_eq_none hnone]
      simp

/-- Where a file-scoped namespace is a child, there is none beside the way further up. -/
theorem namespacesAlong_beside (h : u.Shaped) (hc : u.top.Within c) (hx : x ∈ c.children)
    (hs : x.isFileScopedNamespace = true) : namespacesAlong x false c.enclosing = namespacesAlong a false c.enclosing := by
  apply namespacesAlong_congr
  intro before q after heq _
  have hq : q ∈ c.enclosing := by
    rw [heq]
    exact List.mem_append_right _ List.mem_cons_self
  have hqw := hc.of_mem_enclosing rfl hq
  have hnone : ∀ y ∈ q.children, y.isFileScopedNamespace = false := by
    intro y hy
    rw [Bool.eq_false_iff]
    intro hys
    rw [h.single y (hqw.of_mem_children hy) x (hc.of_mem_children hx) hys hs] at hy
    have hsame : q.trail = c.trail := (ancestors_of_mem_children hy).symm.trans (ancestors_of_mem_children hx)
    have hle := (mem_enclosing.mp hq).length_le
    rw [hsame] at hle
    exact Nat.not_succ_le_self _ hle
  rw [governing?_eq_none hnone, governing?_eq_none hnone]

/-- Each of the namespaces around a cursor stands in the further ones. -/
theorem nested_namespacesAlong (h : u.Shaped) (ha : u.top.Within a) (hsolid : a.start < a.stop)
    (hc : u.top.Within c) (hca : c.trail <:+ a.trail) {seen : Bool}
    (hseen : seen = true → ∃ z : Cursor, z.isFileScopedNamespace = true ∧ z.trail <:+ a.trail) :
    Nested (namespacesAlong a seen c.enclosing) := by
  induction hc generalizing seen with
  | self => trivial
  | @child p n hp hn ih =>
    have hpa : p.trail <:+ a.trail := (List.suffix_cons n p.trail).trans hca
    have hseen' : (seen || p.isFileScopedNamespace) = true →
        ∃ z : Cursor, z.isFileScopedNamespace = true ∧ z.trail <:+ a.trail := by
      intro hor
      rcases (Bool.or_eq_true _ _).mp hor with hs | hs
      · exact hseen hs
      · exact ⟨p, hs, hpa⟩
    have hrest := ih hpa hseen'
    rw [enclosing_child]
    by_cases hunit : (p.kind == "compilation_unit") = true
    · rw [(not_fileScoped_of_unit hunit).2, Bool.or_false] at hrest
      rw [namespacesAlong_unit hunit]
      cases seen with
      | true => exact hrest
      | false =>
        cases hg : governing? a p with
        | none => exact hrest
        | some x =>
          -- the namespace is beside the way, and it is the only one
          have hx := List.mem_of_find?_eq_some hg
          have hfound := List.find?_some hg
          simp only [Bool.and_eq_true] at hfound
          have hs := hfound.1.1
          have hself : governing? x p = none := by
            rw [h.governing?_eq hp hx hs]
            simp
          refine ⟨?_, hrest⟩
          rw [enclosingNamespaces, enclosing_of_mem_children hx, namespacesAlong_unit hunit, hself]
          exact h.namespacesAlong_beside hp hx hs
    · have hbeside : (p.kind == "compilation_unit" && !(seen || p.isFileScopedNamespace)) = false := by
        simp [hunit]
      rw [namespacesAlong, hbeside]
      by_cases hown : p.isNamespaceDeclaration = true
      · rw [if_pos hown]
        refine ⟨?_, hrest⟩
        refine (h.namespacesAlong_above ha hsolid hpa hseen' ?_).symm
        intro hs
        rw [hs, Bool.or_true]
      · rw [if_neg hown]
        exact hrest

theorem nested_enclosingNamespaces (h : u.Shaped) (ha : u.top.Within a) (hsolid : a.start < a.stop) :
    Nested a.enclosingNamespaces :=
  h.nested_namespacesAlong ha hsolid ha List.suffix_rfl (by simp)

theorem mem_enclosingNamespaces (h : u.Shaped) (ha : u.top.Within a) (hb : b ∈ a.enclosingNamespaces) :
    b ∈ u.top.preorder ∧ b.isNamespaceDeclaration = true := by
  have hwithin : u.top.Within b ∧ b.isNamespaceDeclaration = true := by
    rcases mem_namespacesAlong hb with ⟨hb, hns⟩ | ⟨p, hp, hb, hs⟩
    · exact ⟨ha.of_mem_enclosing rfl hb, hns⟩
    · refine ⟨(ha.of_mem_enclosing rfl hp).of_mem_children hb, ?_⟩
      unfold isNamespaceDeclaration
      rw [hs, Bool.or_true]
  exact ⟨h.mem_preorder hwithin.1 (h.declared b hwithin.1 hwithin.2), hwithin.2⟩

end SourceUnit.Shaped

end TypeCatalog
