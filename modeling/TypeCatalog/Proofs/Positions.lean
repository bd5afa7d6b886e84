import Mathlib.Data.List.Infix
import TypeCatalog.Tree.Unit

namespace TypeCatalog

namespace Cursor

/-- A cursor as a path: its node and the nodes above. -/
def trail (c : Cursor) : List Node := c.node :: c.ancestors

theorem eq_of_trail {c d : Cursor} (h : c.trail = d.trail) : c = d := by
  obtain ⟨n, above⟩ := c
  obtain ⟨m, beyond⟩ := d
  cases h
  rfl

theorem trail_child (c : Cursor) (n : Node) : (c.child n).trail = n :: c.trail := rfl

theorem enclosing_child (c : Cursor) (n : Node) : (c.child n).enclosing = c :: c.enclosing := rfl

theorem mem_along {a : Cursor} {path : List Node} : a ∈ along path ↔ a.trail <:+ path := by
  induction path with
  | nil =>
    unfold along
    simp [trail]
  | cons n above ih =>
    unfold along
    rw [List.mem_cons, ih, List.suffix_cons_iff]
    refine or_congr_left ?_
    constructor
    · rintro rfl
      rfl
    · exact fun h => eq_of_trail h

theorem mem_enclosing {a c : Cursor} : a ∈ c.enclosing ↔ a.trail <:+ c.ancestors := mem_along

variable {c d : Cursor}

theorem mem_children_of_field? {f : String} (h : c.field? f = some d) : d ∈ c.children :=
  List.mem_of_find?_eq_some h

theorem mem_children_of_childOf? {kinds : List String} (h : c.childOf? kinds = some d) : d ∈ c.children :=
  List.mem_of_find?_eq_some h

theorem mem_children_of_or {f : String} {kinds : List String}
    (h : (c.field? f).or (c.childOf? kinds) = some d) : d ∈ c.children := by
  rcases Option.or_eq_some_iff.mp h with h | ⟨-, h⟩
  · exact mem_children_of_field? h
  · exact mem_children_of_childOf? h

theorem mem_namedChildren : d ∈ c.namedChildren ↔ d ∈ c.children ∧ d.node.info.named = true := by
  unfold namedChildren
  rw [List.mem_filter]

/-- The cursors of a tree. -/
inductive Within (top : Cursor) : Cursor → Prop where
  | self : Within top top
  | child {c : Cursor} {n : Node} (hc : Within top c) (hn : n ∈ c.node.children) : Within top (c.child n)

namespace Within

variable {top a c d : Cursor}

theorem trans (hc : Within top c) (hd : Within c d) : Within top d := by
  induction hd with
  | self => exact hc
  | child _ hn ih => exact ih.child hn

theorem of_mem_children (hc : Within top c) (hd : d ∈ c.children) : Within top d := by
  obtain ⟨n, hn, rfl⟩ := List.mem_map.mp hd
  exact hc.child hn

theorem suffix (hc : Within top c) : top.trail <:+ c.trail := by
  induction hc with
  | self => exact List.suffix_rfl
  | @child c n _ _ ih => exact ih.trans (List.suffix_cons n c.trail)

/-- What passes from a child to its parent passes to every cursor above. -/
theorem above_induction {P : Cursor → Prop} (hc : Within top c)
    (hstep : ∀ d, Within top d → ∀ e ∈ d.children, P e → P d) (htop : top.ancestors = [])
    (ha : a.trail <:+ c.trail) (h : P c) : P a := by
  induction hc with
  | self =>
    have heq : a = top := by
      unfold trail at ha
      rw [htop] at ha
      obtain ⟨n, above⟩ := a
      obtain ⟨m, beyond⟩ := top
      cases htop
      rcases List.suffix_cons_iff.mp ha with h | h
      · cases h
        rfl
      · cases List.suffix_nil.mp h
    rw [heq]
    exact h
  | @child c n hc hn ih =>
    rcases List.suffix_cons_iff.mp (trail_child c n ▸ ha) with heq | ha
    · rw [eq_of_trail (heq.trans (trail_child c n).symm)]
      exact h
    · exact ih ha (hstep c hc _ (List.mem_map_of_mem hn) h)

theorem of_suffix (hc : Within top c) (htop : top.ancestors = []) (ha : a.trail <:+ c.trail) : Within top a :=
  hc.above_induction (fun _ hd _ _ _ => hd) htop ha hc

theorem of_mem_enclosing (hc : Within top c) (htop : top.ancestors = []) (ha : a ∈ c.enclosing) : Within top a :=
  hc.of_suffix htop ((mem_enclosing.mp ha).trans (List.suffix_cons _ _))

/-- The next cursor on the way down from one that is above. -/
theorem next (hc : Within top c) (htop : top.ancestors = []) (ha : a ∈ c.enclosing) :
    ∃ b ∈ a.children, b.trail <:+ c.trail := by
  rw [mem_enclosing] at ha
  induction hc with
  | self =>
    rw [htop] at ha
    cases List.suffix_nil.mp ha
  | @child c n hc hn ih =>
    rcases List.suffix_cons_iff.mp (show a.trail <:+ c.trail from ha) with h | h
    · cases eq_of_trail h
      exact ⟨a.child n, List.mem_map_of_mem hn, List.suffix_rfl⟩
    · obtain ⟨b, hb, hsuffix⟩ := ih h
      exact ⟨b, hb, hsuffix.trans (List.suffix_cons _ _)⟩

end Within

end Cursor

namespace Node

variable {above : List Node} {d : Cursor}

theorem mem_preorderAll {ns : List Node} :
    d ∈ preorderAll above ns ↔ ∃ n ∈ ns, n.info.named = true ∧ d ∈ n.preorder above := by
  induction ns with
  | nil =>
    unfold preorderAll
    simp
  | cons n ns ih =>
    unfold preorderAll
    rw [List.mem_append, ih]
    by_cases hn : n.info.named = true
    · simp [hn]
    · simp [hn]

theorem mem_preorder_self (n : Node) : ⟨n, above⟩ ∈ n.preorder above := by
  cases n
  unfold preorder
  exact List.mem_cons_self

theorem preorder_child {above : List Node} {n m : Node} (hd : d ∈ n.preorder above) (hm : m ∈ d.node.children)
    (hnamed : m.info.named = true) : d.child m ∈ n.preorder above := by
  match n with
  | .mk i cs =>
    unfold preorder at hd ⊢
    refine List.mem_cons_of_mem _ (mem_preorderAll.mpr ?_)
    rcases List.mem_cons.mp hd with rfl | hd
    · exact ⟨m, hm, hnamed, mem_preorder_self m⟩
    · obtain ⟨k, hk, hkn, hd⟩ := mem_preorderAll.mp hd
      have := List.sizeOf_lt_of_mem hk
      exact ⟨k, hk, hkn, preorder_child hd hm hnamed⟩
termination_by sizeOf n
decreasing_by
  simp only [Node.mk.sizeOf_spec]
  omega

theorem preorder_within {above : List Node} {n : Node} (hd : d ∈ n.preorder above) :
    Cursor.Within ⟨n, above⟩ d ∧ (d = ⟨n, above⟩ ∨ d.node.info.named = true) := by
  match n with
  | .mk i cs =>
    unfold preorder at hd
    rcases List.mem_cons.mp hd with rfl | hd
    · exact ⟨.self, .inl rfl⟩
    · obtain ⟨k, hk, hkn, hd⟩ := mem_preorderAll.mp hd
      have := List.sizeOf_lt_of_mem hk
      obtain ⟨hwithin, hnamed⟩ := preorder_within hd
      refine ⟨?_, .inr ?_⟩
      · have hchild : Cursor.Within ⟨.mk i cs, above⟩ ⟨k, .mk i cs :: above⟩ := Cursor.Within.self.child hk
        exact hchild.trans hwithin
      · rcases hnamed with rfl | hnamed
        · exact hkn
        · exact hnamed
termination_by sizeOf n
decreasing_by
  simp only [Node.mk.sizeOf_spec]
  omega

mutual

/-- All cursors of a tree, tokens included. -/
def cursors (above : List Node) : Node → List Cursor
  | .mk i cs => ⟨.mk i cs, above⟩ :: cursorsAll (.mk i cs :: above) cs

def cursorsAll (above : List Node) : List Node → List Cursor
  | [] => []
  | n :: ns => cursors above n ++ cursorsAll above ns

end

theorem mem_cursorsAll {ns : List Node} : d ∈ cursorsAll above ns ↔ ∃ n ∈ ns, d ∈ n.cursors above := by
  induction ns with
  | nil =>
    unfold cursorsAll
    simp
  | cons n ns ih =>
    unfold cursorsAll
    rw [List.mem_append, ih]
    simp

theorem mem_cursors_self (n : Node) : ⟨n, above⟩ ∈ n.cursors above := by
  cases n
  unfold cursors
  exact List.mem_cons_self

theorem cursors_child {above : List Node} {n m : Node} (hd : d ∈ n.cursors above) (hm : m ∈ d.node.children) :
    d.child m ∈ n.cursors above := by
  match n with
  | .mk i cs =>
    unfold cursors at hd ⊢
    refine List.mem_cons_of_mem _ (mem_cursorsAll.mpr ?_)
    rcases List.mem_cons.mp hd with rfl | hd
    · exact ⟨m, hm, mem_cursors_self m⟩
    · obtain ⟨k, hk, hd⟩ := mem_cursorsAll.mp hd
      have := List.sizeOf_lt_of_mem hk
      exact ⟨k, hk, cursors_child hd hm⟩
termination_by sizeOf n
decreasing_by
  simp only [Node.mk.sizeOf_spec]
  omega

theorem mem_cursors {n : Node} {c : Cursor} (h : Cursor.Within ⟨n, above⟩ c) : c ∈ n.cursors above := by
  induction h with
  | self => exact mem_cursors_self n
  | child _ hm ih => exact cursors_child ih hm

end Node

end TypeCatalog
