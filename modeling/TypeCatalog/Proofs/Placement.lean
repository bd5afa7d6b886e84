import Mathlib.Data.Fintype.Card
import Mathlib.Data.Set.Finite.Basic
import Mathlib.Logic.Relation
import TypeCatalog.Proofs.Draining

namespace TypeCatalog.Precedence

/-! Positions and items -/

section

variable {α : Type}

/-- The items at these positions. -/
def pick (items : List α) (positions : List Nat) : List α := positions.filterMap (items[·]?)

theorem mem_pick {positions : List Nat} {x : α} : x ∈ pick items positions ↔ ∃ i ∈ positions, items[i]? = some x :=
  List.mem_filterMap

theorem pick_range (items : List α) : pick items (List.range items.length) = items := by
  unfold pick
  induction items with
  | nil => rfl
  | cons x items ih =>
    rw [List.length_cons, List.range_succ_eq_map, List.filterMap_cons]
    simp only [List.getElem?_cons_zero, List.filterMap_map]
    exact congrArg (x :: ·) ih

/-- `b` has to come before `a`: a constraint between listed items says so. -/
def Precedes (items : List α) (constraints : List (α × α)) (b a : α) : Prop :=
  (b, a) ∈ constraints ∧ b ∈ items ∧ a ∈ items

theorem mem_of_transGen {items : List α} {constraints : List (α × α)} {b a : α}
    (h : Relation.TransGen (Precedes items constraints) b a) : a ∈ items := by
  cases h with
  | single h => exact h.2.2
  | tail _ h => exact h.2.2

end

variable {α : Type} [DecidableEq α]

theorem lastIndex?_lt {x : α} {items : List α} {i : Nat} (h : lastIndex? x items = some i) : i < items.length := by
  induction items generalizing i with
  | nil => cases h
  | cons y items ih =>
    unfold lastIndex? at h
    rw [List.length_cons]
    split at h
    · next k hk =>
      cases h
      have := ih hk
      omega
    · split at h
      · cases h
        omega
      · cases h

theorem lastIndex?_mem {x : α} {items : List α} {i : Nat} (h : lastIndex? x items = some i) : items[i]? = some x := by
  induction items generalizing i with
  | nil => cases h
  | cons y items ih =>
    unfold lastIndex? at h
    split at h
    · next k hk =>
      cases h
      rw [List.getElem?_cons_succ]
      exact ih hk
    · split at h
      · next hyx =>
        cases h
        rw [hyx]
        rfl
      · cases h

theorem exists_lastIndex? {x : α} {items : List α} (h : x ∈ items) : ∃ i, lastIndex? x items = some i := by
  induction items with
  | nil => cases h
  | cons y items ih =>
    unfold lastIndex?
    cases hlast : lastIndex? x items with
    | some i => exact ⟨i + 1, rfl⟩
    | none =>
      rcases List.mem_cons.mp h with rfl | h
      · exact ⟨0, if_pos rfl⟩
      · obtain ⟨i, hi⟩ := ih h
        rw [hlast] at hi
        cases hi

theorem lastIndex?_iff {x : α} {items : List α} (h : items.Nodup) {i : Nat} :
    lastIndex? x items = some i ↔ items[i]? = some x := by
  refine ⟨lastIndex?_mem, fun hi => ?_⟩
  obtain ⟨k, hk⟩ := exists_lastIndex? (List.mem_of_getElem? hi)
  have hlt := lastIndex?_lt hk
  rw [hk, (List.getElem?_inj hlt h).mp ((lastIndex?_mem hk).trans hi.symm)]

variable {items : List α} {constraints constraints' : List (α × α)}

theorem mem_edges {i j : Nat} : (i, j) ∈ edges items constraints ↔
    ∃ b a, (b, a) ∈ constraints ∧ lastIndex? b items = some i ∧ lastIndex? a items = some j := by
  unfold edges
  rw [List.mem_filterMap]
  constructor
  · rintro ⟨⟨b, a⟩, hc, h⟩
    dsimp only at h
    split at h
    · next hi hj =>
      cases h
      exact ⟨b, a, hc, hi, hj⟩
    · cases h
  · rintro ⟨b, a, hc, hi, hj⟩
    refine ⟨(b, a), hc, ?_⟩
    simp [hi, hj]

theorem idxOf_pick (h : items.Nodup) {positions : List Nat} (hbound : ∀ i ∈ positions, i < items.length) {x : α} {i : Nat}
    (hi : items[i]? = some x) : (pick items positions).idxOf x = positions.idxOf i := by
  unfold pick
  induction positions with
  | nil => rfl
  | cons j positions ih =>
    obtain ⟨hj, hbound⟩ := List.forall_mem_cons.mp hbound
    have hget : items[j]? = some items[j] := List.getElem?_eq_getElem hj
    rw [List.filterMap_cons, hget]
    dsimp only
    by_cases hij : i = j
    · subst hij
      cases hget.symm.trans hi
      rw [List.idxOf_cons_self, List.idxOf_cons_self]
    · have hne : items[j] ≠ x := by
        rintro rfl
        exact hij ((List.getElem?_inj hj h).mp (hget.trans hi.symm)).symm
      rw [List.idxOf_cons_ne _ hne, List.idxOf_cons_ne _ (Ne.symm hij), ih hbound]

theorem precedes_iff (h : items.Nodup) {b a : α} {i j : Nat} (hi : items[i]? = some b) (hj : items[j]? = some a) :
    Precedes items constraints b a ↔ (i, j) ∈ edges items constraints := by
  rw [mem_edges]
  constructor
  · rintro ⟨hc, -, -⟩
    exact ⟨b, a, hc, (lastIndex?_iff h).mpr hi, (lastIndex?_iff h).mpr hj⟩
  · rintro ⟨d, c, hc, hd, hc'⟩
    have hdi := lastIndex?_mem hd
    have hcj := lastIndex?_mem hc'
    rw [hi] at hdi
    rw [hj] at hcj
    cases hdi
    cases hcj
    exact ⟨hc, List.mem_of_getElem? hi, List.mem_of_getElem? hj⟩

/-! What the loop places -/

/-- `order` starts with everything that can be placed, each item behind those that have to precede it. -/
structure Placed (items : List α) (constraints : List (α × α)) (order : List α) : Prop where
  subset : ∀ x ∈ order, x ∈ items
  nodup : order.Nodup
  closed : ∀ x ∈ items, x ∈ order ↔ ∀ b, Precedes items constraints b x → b ∈ order
  before : ∀ b a, Precedes items constraints b a → a ∈ order → order.idxOf b < order.idxOf a

variable {order : List α}

theorem Progress.placed (hnodup : items.Nodup) {taken : List Nat}
    (h : Progress items.length (edges items constraints) taken []) :
    Placed items constraints (pick items taken) := by
  have hbound : ∀ i ∈ taken, i < items.length := fun i hi => h.bound i (List.mem_append_left _ hi)
  -- no item is listed twice, so an item has one position
  have hmem {x : α} {i : Nat} (hi : items[i]? = some x) : x ∈ pick items taken ↔ i ∈ taken := by
    rw [mem_pick]
    constructor
    · rintro ⟨k, hk, hkx⟩
      rwa [(List.getElem?_inj (hbound k hk) hnodup).mp (hkx.trans hi.symm)] at hk
    · exact fun hit => ⟨i, hit, hi⟩
  refine { subset := ?_, nodup := ?_, closed := ?_, before := ?_ }
  · intro x hx
    obtain ⟨i, -, hi⟩ := mem_pick.mp hx
    exact List.mem_of_getElem? hi
  · have htaken : taken.Nodup := by simpa using h.nodup
    refine htaken.filterMap ?_
    intro i j x hi hj
    obtain ⟨hlt, -⟩ := List.getElem?_eq_some_iff.mp hi
    exact (List.getElem?_inj hlt hnodup).mp (Option.mem_def.mp hi |>.trans (Option.mem_def.mp hj).symm)
  · intro x hx
    obtain ⟨j, hj⟩ := List.mem_iff_getElem?.mp hx
    obtain ⟨hlt, -⟩ := List.getElem?_eq_some_iff.mp hj
    rw [hmem hj]
    have hready := h.ready j hlt
    rw [List.append_nil] at hready
    rw [hready]
    constructor
    · intro hall b hb
      obtain ⟨i, hi⟩ := List.mem_iff_getElem?.mp hb.2.1
      exact (hmem hi).mpr (hall i ((precedes_iff hnodup hi hj).mp hb))
    · intro hall i hij
      obtain ⟨b, a, -, hb, -⟩ := mem_edges.mp hij
      have hi := lastIndex?_mem hb
      exact (hmem hi).mp (hall b ((precedes_iff hnodup hi hj).mpr hij))
  · intro b a hba ha
    obtain ⟨i, hi⟩ := List.mem_iff_getElem?.mp hba.2.1
    obtain ⟨j, hj⟩ := List.mem_iff_getElem?.mp hba.2.2
    rw [idxOf_pick hnodup hbound hi, idxOf_pick hnodup hbound hj]
    exact h.before i j ((precedes_iff hnodup hi hj).mp hba) ((hmem hj).mp ha)

namespace Placed

open Relation

theorem before_trans (h : Placed items constraints order) {b a : α} (hba : TransGen (Precedes items constraints) b a)
    (ha : a ∈ order) : order.idxOf b < order.idxOf a := by
  induction hba with
  | single hba => exact h.before _ _ hba ha
  | tail hbc hca ih =>
    have hlt := h.before _ _ hca ha
    have hc := List.idxOf_lt_length_iff.mp (hlt.trans (List.idxOf_lt_length_of_mem ha))
    exact (ih hc).trans hlt

theorem mem_of_precedes (h : Placed items constraints order) {b a : α}
    (hba : ReflTransGen (Precedes items constraints) b a) (ha : a ∈ order) : b ∈ order := by
  rcases reflTransGen_iff_eq_or_transGen.mp hba with rfl | hba
  · exact ha
  · exact List.idxOf_lt_length_iff.mp ((h.before_trans hba ha).trans (List.idxOf_lt_length_of_mem ha))

/-- Among finitely many items, each of which has one before it, some lie on a cycle. -/
theorem exists_cycle (h : Placed items constraints order) {x : α} (hx : x ∈ items) (hout : x ∉ order) :
    ∃ y, TransGen (Precedes items constraints) y y ∧ ReflTransGen (Precedes items constraints) y x := by
  by_contra hnone
  -- the items left out on the way to `x`, well-founded because none of them comes before itself
  let Left := { y : α // y ∈ items ∧ y ∉ order ∧ ReflTransGen (Precedes items constraints) y x }
  let r : Left → Left → Prop := fun a b => TransGen (Precedes items constraints) a.1 b.1
  have hfinite : Finite Left := by
    have hitems : Set.Finite { y : α | y ∈ items } := List.finite_toSet items
    exact hitems.subset fun y hy => hy.1
  have hirrefl : Std.Irrefl r := ⟨fun y hy => hnone ⟨y.1, hy, y.2.2.2⟩⟩
  have htrans : IsTrans Left r := ⟨fun _ _ _ => TransGen.trans⟩
  have hwf : WellFounded r := Finite.wellFounded_of_trans_of_irrefl r
  have hempty (m : Left) : False := by
    induction m using hwf.induction with
    | h m ih =>
      obtain ⟨hm, hmout, hmx⟩ := m.2
      rw [h.closed m.1 hm, not_forall] at hmout
      obtain ⟨b, hb⟩ := hmout
      obtain ⟨hbm, hbout⟩ := Classical.not_imp.mp hb
      exact ih ⟨b, hbm.2.1, hbout, hmx.head hbm⟩ (.single hbm)
  exact hempty ⟨x, hx, hout, .refl⟩

/-- What is left out lies on a cycle or behind one. -/
theorem not_mem_iff (h : Placed items constraints order) {x : α} (hx : x ∈ items) :
    x ∉ order ↔ ∃ y, TransGen (Precedes items constraints) y y ∧ ReflTransGen (Precedes items constraints) y x := by
  refine ⟨h.exists_cycle hx, ?_⟩
  rintro ⟨y, hcycle, hyx⟩ hmem
  exact Nat.lt_irrefl _ (h.before_trans hcycle (h.mem_of_precedes hyx hmem))

end Placed

/-! The two outcomes -/

/-- A sort either places all items or reports those it could not place. -/
theorem exists_sorted (items : List α) (constraints : List (α × α)) :
    ∃ taken, Progress items.length (edges items constraints) taken [] ∧
      sort items constraints =
        if taken.length < items.length then
          .error (pick items ((List.range items.length).filter fun i => i ∉ taken))
        else .ok (pick items taken) := by
  obtain ⟨taken, htaken, h⟩ := exists_drained items.length (edges items constraints)
  refine ⟨taken, h, ?_⟩
  have hleft : (List.range items.length).filter (targeted (remaining (edges items constraints) taken)) =
      (List.range items.length).filter fun i => i ∉ taken := by
    apply List.filter_congr
    intro j hj
    have hready := h.ready j (List.mem_range.mp hj)
    rw [List.append_nil] at hready
    rw [Bool.eq_iff_iff, targeted_iff, decide_eq_true_eq, hready]
    simp [mem_remaining]
  unfold sort
  dsimp only
  rw [htaken]
  dsimp only
  rw [hleft]
  rfl

end TypeCatalog.Precedence
