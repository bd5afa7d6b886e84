import TypeCatalog.Proofs.Counting

namespace TypeCatalog.Precedence

open Relation

variable {α : Type} [DecidableEq α] {items order stuck : List α} {constraints constraints' : List (α × α)}

/-! What a sort returns -/

theorem sort_eq_ok (h : sort items constraints = .ok order) :
    ∃ taken, Progress items.length (edges items constraints) taken [] ∧ taken.Perm (List.range items.length) ∧
      order = pick items taken := by
  obtain ⟨taken, hprogress, hsort⟩ := exists_sorted items constraints
  rw [h] at hsort
  split at hsort
  · cases hsort
  · next hlength =>
    cases hsort
    refine ⟨taken, hprogress, ?_, rfl⟩
    have hsub : taken ⊆ List.range items.length := by
      intro i hi
      exact List.mem_range.mpr (hprogress.bound i (List.mem_append_left _ hi))
    have hnodup : taken.Nodup := by simpa using hprogress.nodup
    apply (List.subperm_of_subset hnodup hsub).perm_of_length_le
    rw [List.length_range]
    omega

theorem sort_eq_error (h : sort items constraints = .error stuck) :
    ∃ taken, Progress items.length (edges items constraints) taken [] ∧ taken.length < items.length ∧
      stuck = pick items ((List.range items.length).filter fun i => i ∉ taken) := by
  obtain ⟨taken, hprogress, hsort⟩ := exists_sorted items constraints
  rw [h] at hsort
  split at hsort
  · next hlength =>
    cases hsort
    exact ⟨taken, hprogress, hlength, rfl⟩
  · cases hsort

theorem perm_of_sort (h : sort items constraints = .ok order) : order.Perm items := by
  obtain ⟨taken, -, hperm, rfl⟩ := sort_eq_ok h
  have hpick : (pick items taken).Perm (pick items (List.range items.length)) := hperm.filterMap _
  rw [pick_range] at hpick
  exact hpick

theorem placed_of_sort (hnodup : items.Nodup) (h : sort items constraints = .ok order) :
    Placed items constraints order := by
  obtain ⟨taken, hprogress, -, rfl⟩ := sort_eq_ok h
  exact hprogress.placed hnodup

theorem acyclic_of_sort (hnodup : items.Nodup) (h : sort items constraints = .ok order) (x : α) :
    ¬ TransGen (Precedes items constraints) x x := by
  intro hx
  have hmem := mem_of_transGen hx
  have hout := ((placed_of_sort hnodup h).not_mem_iff hmem).mpr ⟨x, hx, .refl⟩
  exact hout ((perm_of_sort h).mem_iff.mpr hmem)

theorem stuck_ne_nil (h : sort items constraints = .error stuck) : stuck ≠ [] := by
  obtain ⟨taken, hprogress, hlength, rfl⟩ := sort_eq_error h
  intro hnil
  have hall : List.range items.length ⊆ taken := by
    intro i hi
    by_contra hit
    have hmem : items.get ⟨i, List.mem_range.mp hi⟩ ∈ pick items ((List.range items.length).filter fun i => i ∉ taken) :=
      mem_pick.mpr ⟨i, List.mem_filter.mpr ⟨hi, by simpa using hit⟩, List.getElem?_eq_getElem _⟩
    rw [hnil] at hmem
    cases hmem
  have hle := (List.subperm_of_subset List.nodup_range hall).length_le
  rw [List.length_range] at hle
  omega

theorem sublist_of_stuck (h : sort items constraints = .error stuck) : stuck.Sublist items := by
  obtain ⟨taken, -, -, rfl⟩ := sort_eq_error h
  have hsub : (pick items ((List.range items.length).filter fun i => i ∉ taken)).Sublist
      (pick items (List.range items.length)) := List.filter_sublist.filterMap _
  rw [pick_range] at hsub
  exact hsub

/-- The items that cannot be placed lie on a cycle or behind one. -/
theorem mem_stuck (hnodup : items.Nodup) (h : sort items constraints = .error stuck) {x : α} :
    x ∈ stuck ↔
      ∃ y, TransGen (Precedes items constraints) y y ∧ ReflTransGen (Precedes items constraints) y x := by
  have hsub := (sublist_of_stuck h).subset
  obtain ⟨taken, hprogress, -, rfl⟩ := sort_eq_error h
  have hplaced := hprogress.placed hnodup
  -- the stuck items are those whose position was not taken, and an item has one position
  have hmem : x ∈ items → (x ∈ pick items ((List.range items.length).filter fun i => i ∉ taken) ↔
      x ∉ pick items taken) := by
    intro hx
    obtain ⟨i, hi⟩ := List.mem_iff_getElem?.mp hx
    obtain ⟨hlt, -⟩ := List.getElem?_eq_some_iff.mp hi
    have hsame {k : Nat} (hk : items[k]? = some x) : k = i :=
      ((List.getElem?_inj hlt hnodup).mp (hi.trans hk.symm)).symm
    constructor
    · intro hout hin
      obtain ⟨k, hk, hkx⟩ := mem_pick.mp hout
      obtain ⟨l, hl, hlx⟩ := mem_pick.mp hin
      have hkt := (List.mem_filter.mp hk).2
      rw [hsame hkx, ← hsame hlx] at hkt
      simp [hl] at hkt
    · intro hout
      refine mem_pick.mpr ⟨i, List.mem_filter.mpr ⟨List.mem_range.mpr hlt, ?_⟩, hi⟩
      exact decide_eq_true fun hit => hout (mem_pick.mpr ⟨i, hit, hi⟩)
  constructor
  · intro hx
    have hitem := hsub hx
    exact (hplaced.not_mem_iff hitem).mp ((hmem hitem).mp hx)
  · rintro ⟨y, hcycle, hyx⟩
    have hitem : x ∈ items := by
      rcases reflTransGen_iff_eq_or_transGen.mp hyx with rfl | hyx
      · exact mem_of_transGen hcycle
      · exact mem_of_transGen hyx
    exact (hmem hitem).mpr ((hplaced.not_mem_iff hitem).mpr ⟨y, hcycle, hyx⟩)

/-- Sorting is sound and complete: it fails on cycles only and then reports what lies on them or behind them. It can
be done by counting, where no count ever falls below zero. -/
theorem sort_topological (items : List α) (constraints : List (α × α)) :
    (items.Nodup →
      ((∃ order, sort items constraints = .ok order) ↔ ∀ x, ¬ TransGen (Precedes items constraints) x x) ∧
      (∀ order, sort items constraints = .ok order →
        ∀ b a, Precedes items constraints b a → order.idxOf b < order.idxOf a) ∧
      ∀ stuck, sort items constraints = .error stuck →
        stuck ≠ [] ∧ stuck.Sublist items ∧ ∀ x, x ∈ stuck ↔
          ∃ y, TransGen (Precedes items constraints) y y ∧ ReflTransGen (Precedes items constraints) y x) ∧
    (∀ order, sort items constraints = .ok order → order.Perm items) ∧
    ∀ extra, countingSort (items.length + extra) items constraints = some (sort items constraints) := by
  refine ⟨fun hnodup => ⟨⟨?_, fun hacyclic => ?_⟩, fun order h b a hba => ?_, fun stuck h => ?_⟩,
    fun order => perm_of_sort, countingSort_eq items constraints⟩
  · rintro ⟨order, h⟩
    exact acyclic_of_sort hnodup h
  · cases h : sort items constraints with
    | ok order => exact ⟨order, rfl⟩
    | error stuck =>
      obtain ⟨x, hx⟩ := List.exists_mem_of_ne_nil stuck (stuck_ne_nil h)
      obtain ⟨y, hcycle, -⟩ := (mem_stuck hnodup h).mp hx
      exact (hacyclic y hcycle).elim
  · exact (placed_of_sort hnodup h).before b a hba ((perm_of_sort h).mem_iff.mpr hba.2.2)
  · exact ⟨stuck_ne_nil h, sublist_of_stuck h, fun x => mem_stuck hnodup h⟩

/-- Items of which two wait for each other and a third for one of these. -/
def knot : List (Nat × Nat) := [(1, 2), (2, 1), (2, 1), (2, 4), (3, 1), (9, 3)]

theorem sort_topological_knot : [1, 2, 3, 4].Nodup ∧ sort [1, 2, 3, 4] knot = .error [1, 2, 4] ∧
    (∃ x, TransGen (Precedes [1, 2, 3, 4] knot) x x) ∧
    (∃ y, TransGen (Precedes [1, 2, 3, 4] knot) y y ∧ ReflTransGen (Precedes [1, 2, 3, 4] knot) y 4) ∧
    countingSort 5 [1, 2, 3, 4] knot = some (.error [1, 2, 4]) := by
  have hnodup : [1, 2, 3, 4].Nodup := by decide
  have hsort : sort [1, 2, 3, 4] knot = .error [1, 2, 4] := rfl
  obtain ⟨hdistinct, -, hcounting⟩ := sort_topological [1, 2, 3, 4] knot
  obtain ⟨-, -, hstuck⟩ := hdistinct hnodup
  obtain ⟨-, -, hmem⟩ := hstuck [1, 2, 4] hsort
  obtain ⟨y, hcycle, hreach⟩ := (hmem 4).mp (by decide)
  exact ⟨hnodup, hsort, ⟨y, hcycle⟩, ⟨y, hcycle, hreach⟩, (hcounting 1).trans (congrArg some hsort)⟩

/-! The order among what is ready -/

/-- The listed items that have to precede `z`. -/
def predecessors (items : List α) (constraints : List (α × α)) (z : α) : List α :=
  (constraints.filter fun c => c.1 ∈ items ∧ c.2 = z).map (·.1)

theorem mem_predecessors {b z : α} : b ∈ predecessors items constraints z ↔ (b, z) ∈ constraints ∧ b ∈ items := by
  unfold predecessors
  simp

/-- The last place, counted from one, that a predecessor of `z` has in `order`. -/
def rank (items : List α) (constraints : List (α × α)) (order : List α) (z : α) : Nat :=
  latest order (predecessors items constraints z)

theorem rank_pick (hnodup : items.Nodup) {taken : List Nat} (hbound : ∀ i ∈ taken, i < items.length) {z : α} {j : Nat}
    (hj : items[j]? = some z) :
    rank items constraints (pick items taken) z = latest taken (sources (edges items constraints) j) := by
  apply eq_of_forall_ge_iff
  intro k
  unfold rank
  rw [latest_le_iff, latest_le_iff]
  have hz := List.mem_of_getElem? hj
  constructor
  · intro hall i hi
    have hij := mem_sources.mp hi
    obtain ⟨b, -, -, hb, -⟩ := mem_edges.mp hij
    have hbi := lastIndex?_mem hb
    have hbz := (precedes_iff hnodup hbi hj).mpr hij
    rw [← idxOf_pick hnodup hbound hbi]
    exact hall b (mem_predecessors.mpr ⟨hbz.1, hbz.2.1⟩)
  · intro hall b hb
    obtain ⟨hbz, hb⟩ := mem_predecessors.mp hb
    obtain ⟨i, hi⟩ := List.mem_iff_getElem?.mp hb
    rw [idxOf_pick hnodup hbound hi]
    exact hall i (mem_sources.mpr ((precedes_iff hnodup hi hj).mp ⟨hbz, hb, hz⟩))

theorem Progress.idxOf_lt_iff {n : Nat} {es : List (Nat × Nat)} {taken : List Nat} (h : Progress n es taken [])
    {i j : Nat} (hi : i ∈ taken) (hj : j ∈ taken) : taken.idxOf i < taken.idxOf j ↔ Sooner es taken i j := by
  have hpairwise : taken.Pairwise (Sooner es taken) := by simpa using h.sooner
  have hsooner {a b : Nat} (ha : a ∈ taken) (hb : b ∈ taken) (hlt : taken.idxOf a < taken.idxOf b) :
      Sooner es taken a b := by
    have hat := List.idxOf_lt_length_of_mem ha
    have hbt := List.idxOf_lt_length_of_mem hb
    have hab := List.pairwise_iff_getElem.mp hpairwise _ _ hat hbt hlt
    rw [List.getElem_idxOf hat, List.getElem_idxOf hbt] at hab
    exact hab
  refine ⟨hsooner hi hj, fun hij => ?_⟩
  rcases Nat.lt_trichotomy (taken.idxOf i) (taken.idxOf j) with hlt | heq | hgt
  · exact hlt
  · exact (hij.ne ((List.idxOf_inj hi).mp heq)).elim
  · have hji := hsooner hj hi hgt
    unfold Sooner at hij hji
    omega

theorem idxOf_eq (hnodup : items.Nodup) {x : α} {i : Nat} (hi : items[i]? = some x) : items.idxOf x = i := by
  obtain ⟨hlt, hget⟩ := List.getElem?_eq_some_iff.mp hi
  rw [← hget]
  exact hnodup.idxOf_getElem i hlt

/-- Of two items the one comes first whose last predecessor comes first; where these are the same, or there are none,
the one that is listed first. -/
theorem idxOf_lt_iff (hnodup : items.Nodup) (h : sort items constraints = .ok order) {x y : α} (hx : x ∈ items)
    (hy : y ∈ items) : order.idxOf x < order.idxOf y ↔
      rank items constraints order x < rank items constraints order y ∨
        rank items constraints order x = rank items constraints order y ∧ items.idxOf x < items.idxOf y := by
  obtain ⟨taken, hprogress, hperm, rfl⟩ := sort_eq_ok h
  have hbound : ∀ i ∈ taken, i < items.length := fun i hi => hprogress.bound i (List.mem_append_left _ hi)
  obtain ⟨i, hi⟩ := List.mem_iff_getElem?.mp hx
  obtain ⟨j, hj⟩ := List.mem_iff_getElem?.mp hy
  have hmem {k : Nat} {z : α} (hk : items[k]? = some z) : k ∈ taken :=
    hperm.mem_iff.mpr (List.mem_range.mpr (List.getElem?_eq_some_iff.mp hk).1)
  rw [idxOf_pick hnodup hbound hi, idxOf_pick hnodup hbound hj, rank_pick hnodup hbound hi, rank_pick hnodup hbound hj,
    idxOf_eq hnodup hi, idxOf_eq hnodup hj]
  exact hprogress.idxOf_lt_iff (hmem hi) (hmem hj)

section

variable {n : Nat} {es es' : List (Nat × Nat)}

theorem targeted_congr (h : ∀ e, e ∈ es ↔ e ∈ es') : targeted es = targeted es' := by
  funext j
  rw [Bool.eq_iff_iff, targeted_iff, targeted_iff]
  simp [h]

theorem mem_filter_congr (h : ∀ e, e ∈ es ↔ e ∈ es') (p : Nat × Nat → Bool) (e : Nat × Nat) :
    e ∈ es.filter p ↔ e ∈ es'.filter p := by
  rw [List.mem_filter, List.mem_filter, h e]

/-- The loop sees which edges there are, and not how often or in which order they are given. -/
theorem drain_congr (h : ∀ e, e ∈ es ↔ e ∈ es') (steps : Nat) (queue : List Nat) :
    (drain n steps queue es).1 = (drain n steps queue es').1 ∧
      ∀ e, e ∈ (drain n steps queue es).2 ↔ e ∈ (drain n steps queue es').2 := by
  induction steps generalizing queue es es' with
  | zero => exact ⟨rfl, h⟩
  | succ s ih =>
    cases queue with
    | nil => exact ⟨rfl, h⟩
    | cons i queue =>
      have hreleased : released n i es = released n i es' := by
        unfold released
        apply List.filter_congr
        intro j _
        have hmem : es.contains (i, j) = es'.contains (i, j) := by
          rw [Bool.eq_iff_iff, List.contains_iff_mem, List.contains_iff_mem, h]
        rw [hmem, targeted_congr (mem_filter_congr h _)]
      obtain ⟨htaken, hrest⟩ := ih (mem_filter_congr h (·.1 != i)) (queue ++ released n i es)
      simp only [drain]
      rw [← hreleased]
      exact ⟨congrArg (i :: ·) htaken, hrest⟩

end

theorem sort_congr (h : ∀ e, e ∈ edges items constraints ↔ e ∈ edges items constraints') :
    sort items constraints = sort items constraints' := by
  obtain ⟨htaken, hrest⟩ := drain_congr (n := items.length) h items.length
    ((List.range items.length).filter fun i => !targeted (edges items constraints) i)
  unfold sort
  dsimp only
  rw [← targeted_congr h, htaken, targeted_congr hrest]

theorem mem_edges_congr (h : ∀ b ∈ items, ∀ a ∈ items, (b, a) ∈ constraints ↔ (b, a) ∈ constraints')
    (e : Nat × Nat) : e ∈ edges items constraints ↔ e ∈ edges items constraints' := by
  obtain ⟨i, j⟩ := e
  have hlisted {x : α} {k : Nat} (hk : lastIndex? x items = some k) : x ∈ items :=
    List.mem_of_getElem? (lastIndex?_mem hk)
  rw [mem_edges, mem_edges]
  constructor
  · rintro ⟨b, a, hc, hb, ha⟩
    exact ⟨b, a, (h b (hlisted hb) a (hlisted ha)).mp hc, hb, ha⟩
  · rintro ⟨b, a, hc, hb, ha⟩
    exact ⟨b, a, (h b (hlisted hb) a (hlisted ha)).mpr hc, hb, ha⟩

/-- The order is the only one that places items as soon as they are ready and otherwise as listed; how often
constraints are given, and in which order, plays no part. -/
theorem sort_canonical (items : List α) (constraints : List (α × α)) :
    (items.Nodup → ∀ order, sort items constraints = .ok order →
      order.Perm items ∧ ∀ x ∈ items, ∀ y ∈ items, (order.idxOf x < order.idxOf y ↔
        rank items constraints order x < rank items constraints order y ∨
          rank items constraints order x = rank items constraints order y ∧ items.idxOf x < items.idxOf y)) ∧
    ∀ constraints', (∀ b ∈ items, ∀ a ∈ items, (b, a) ∈ constraints ↔ (b, a) ∈ constraints') →
      sort items constraints = sort items constraints' := by
  refine ⟨fun hnodup order h => ⟨perm_of_sort h, fun x hx y hy => idxOf_lt_iff hnodup h hx hy⟩, fun constraints' h => ?_⟩
  exact sort_congr (mem_edges_congr h)

theorem sort_canonical_fork : [1, 2, 3].Nodup ∧ sort [1, 2, 3] [(3, 2), (3, 1), (3, 2)] = .ok [3, 1, 2] ∧
    ([3, 1, 2].idxOf 1 < [3, 1, 2].idxOf 2 ↔
      rank [1, 2, 3] [(3, 2), (3, 1), (3, 2)] [3, 1, 2] 1 < rank [1, 2, 3] [(3, 2), (3, 1), (3, 2)] [3, 1, 2] 2 ∨
        rank [1, 2, 3] [(3, 2), (3, 1), (3, 2)] [3, 1, 2] 1 = rank [1, 2, 3] [(3, 2), (3, 1), (3, 2)] [3, 1, 2] 2 ∧
          [1, 2, 3].idxOf 1 < [1, 2, 3].idxOf 2) ∧
    sort [1, 2, 3] [(3, 2), (3, 1), (3, 2)] = sort [1, 2, 3] [(3, 1), (7, 1), (3, 2)] := by
  have hnodup : [1, 2, 3].Nodup := by decide
  have hsort : sort [1, 2, 3] [(3, 2), (3, 1), (3, 2)] = .ok [3, 1, 2] := rfl
  obtain ⟨horder, hsame⟩ := sort_canonical [1, 2, 3] [(3, 2), (3, 1), (3, 2)]
  obtain ⟨-, hlex⟩ := horder hnodup [3, 1, 2] hsort
  exact ⟨hnodup, hsort, hlex 1 (by decide) 2 (by decide), hsame [(3, 1), (7, 1), (3, 2)] (by decide)⟩

end TypeCatalog.Precedence
