import TypeCatalog.Proofs.Placement

namespace TypeCatalog.Precedence

/-! The same loop with a count of the edges into each position. There is no result where a count would
fall below zero. -/

/-- Takes one off the count of each target in turn. A target whose count gets to zero joins the queue. -/
def lower : (targets counts queue : List Nat) → Option (List Nat × List Nat)
  | [], counts, queue => some (counts, queue)
  | j :: targets, counts, queue =>
    match counts[j]? with
    | some (c + 1) => lower targets (counts.set j c) (if c = 0 then queue ++ [j] else queue)
    | _ => none

def countdown (successors : Nat → List Nat) : (steps : Nat) → (queue counts : List Nat) →
    Option (List Nat × List Nat)
  | 0, _, counts => some ([], counts)
  | _ + 1, [], counts => some ([], counts)
  | s + 1, i :: queue, counts => do
    let (counts, queue) ← lower (successors i) counts queue
    let (taken, counts) ← countdown successors s queue counts
    return (i :: taken, counts)

/-- The targets of the edges out of `i`, each as often as there are such edges. -/
def successors (es : List (Nat × Nat)) (i : Nat) : List Nat := ((es.filter (·.1 == i)).map (·.2)).mergeSort

/-- How many edges there are into each position. -/
def tally (n : Nat) (es : List (Nat × Nat)) : List Nat := (List.range n).map fun j => es.countP (·.2 == j)

/-- Sorts by counting, with at most `steps` rounds of the loop. -/
def countingSort {α : Type} [DecidableEq α] (steps : Nat) (items : List α) (constraints : List (α × α)) :
    Option (Except (List α) (List α)) := do
  let n := items.length
  let es := edges items constraints
  let counts := tally n es
  let (taken, counts) ← countdown (successors es) steps ((List.range n).filter (counts[·]? == some 0)) counts
  return if taken.length < n then
    .error (((List.range n).filter (counts[·]? != some 0)).filterMap (items[·]?))
  else .ok (taken.filterMap (items[·]?))

variable {n i j c : Nat} {es : List (Nat × Nat)} {targets counts queue taken : List Nat}

theorem getElem?_tally (h : j < n) : (tally n es)[j]? = some (es.countP (·.2 == j)) := by
  unfold tally
  rw [List.getElem?_map, List.getElem?_range h]
  rfl

theorem getElem?_tally_zero (h : j < n) : (tally n es)[j]? = some 0 ↔ targeted es j = false := by
  rw [getElem?_tally h, Option.some_inj, List.countP_eq_zero, ← Bool.not_eq_true, targeted_iff, not_exists]
  constructor
  · exact fun h i hij => h (i, j) hij (beq_self_eq_true j)
  · rintro h ⟨i, k⟩ hik hk
    have hkj : k = j := beq_iff_eq.mp hk
    exact h i (hkj ▸ hik)

/-- Each count goes down by how often its position is a target, if none goes below zero; the positions whose
count gets to zero join the queue in order. -/
theorem lower_ok (queue : List Nat) (hsorted : targets.Pairwise (· ≤ ·))
    (henough : ∀ j ∈ targets, ∃ c, counts[j]? = some c ∧ targets.count j ≤ c) :
    ∃ counts' joined, lower targets counts queue = some (counts', queue ++ joined) ∧
      (∀ j, counts'[j]? = counts[j]?.map (· - targets.count j)) ∧
      joined.Pairwise (· < ·) ∧ ∀ j, j ∈ joined ↔ j ∈ targets ∧ counts[j]? = some (targets.count j) := by
  induction targets generalizing counts queue with
  | nil => exact ⟨counts, [], by simp [lower], by simp, .nil, by simp⟩
  | cons j targets ih =>
    obtain ⟨hle, hsorted⟩ := List.pairwise_cons.mp hsorted
    obtain ⟨c, hc, hcount⟩ := henough j List.mem_cons_self
    rw [List.count_cons_self] at hcount
    obtain ⟨c, rfl⟩ : ∃ d, c = d + 1 := ⟨c - 1, by omega⟩
    have hj : j < counts.length := (List.getElem?_eq_some_iff.mp hc).1
    have hself : (counts.set j c)[j]? = some c := List.getElem?_set_self hj
    have hother {k : Nat} (hk : k ≠ j) : (counts.set j c)[k]? = counts[k]? := List.getElem?_set_ne hk.symm
    have henough' : ∀ k ∈ targets, ∃ d, (counts.set j c)[k]? = some d ∧ targets.count k ≤ d := by
      intro k hk
      by_cases hkj : k = j
      · subst hkj
        exact ⟨c, hself, by omega⟩
      · obtain ⟨d, hd, hcount⟩ := henough k (List.mem_cons_of_mem j hk)
        rw [List.count_cons_of_ne (Ne.symm hkj)] at hcount
        exact ⟨d, (hother hkj).trans hd, hcount⟩
    obtain ⟨counts', joined, hlower, hcounts', hjoined, hmem⟩ :=
      ih (if c = 0 then queue ++ [j] else queue) hsorted henough'
    have hnext : ∀ k, counts'[k]? = counts[k]?.map (· - (j :: targets).count k) := by
      intro k
      rw [hcounts' k]
      by_cases hkj : k = j
      · subst hkj
        rw [hself, hc, List.count_cons_self]
        simp only [Option.map_some, Option.some_inj]
        omega
      · rw [hother hkj, List.count_cons_of_ne (Ne.symm hkj)]
    have hmem' {k : Nat} (hkj : k ≠ j) :
        k ∈ joined ↔ k ∈ j :: targets ∧ counts[k]? = some ((j :: targets).count k) := by
      rw [hmem k, hother hkj, List.count_cons_of_ne (Ne.symm hkj), List.mem_cons]
      simp [hkj]
    have hunfold : lower (j :: targets) counts queue =
        lower targets (counts.set j c) (if c = 0 then queue ++ [j] else queue) := by
      rw [lower, hc]
    rw [hunfold, hlower]
    have hjmem : j ∈ joined ↔ j ∈ targets ∧ c = targets.count j := by
      rw [hmem j, hself, Option.some_inj]
    by_cases hzero : c = 0
    · -- the count of `j` gets to zero, so `j` is no target any more
      subst hzero
      have hjout : j ∉ targets := fun hj => by
        have := List.count_pos_iff.mpr hj
        omega
      refine ⟨counts', j :: joined, by simp, hnext, List.pairwise_cons.mpr ⟨fun k hk => ?_, hjoined⟩, fun k => ?_⟩
      · have hkt := ((hmem k).mp hk).1
        have := hle k hkt
        have hne : k ≠ j := fun hkj => hjout (hkj ▸ hkt)
        omega
      · by_cases hkj : k = j
        · subst hkj
          rw [hc, List.count_cons_self, List.count_eq_zero_of_not_mem hjout]
          simp
        · rw [List.mem_cons, hmem' hkj]
          simp [hkj]
    · refine ⟨counts', joined, by rw [if_neg hzero], hnext, hjoined, fun k => ?_⟩
      by_cases hkj : k = j
      · subst hkj
        rw [hjmem, hc, List.count_cons_self, Option.some_inj]
        constructor
        · rintro ⟨-, heq⟩
          exact ⟨List.mem_cons_self, by omega⟩
        · rintro ⟨-, heq⟩
          exact ⟨List.count_pos_iff.mp (by omega), by omega⟩
      · exact hmem' hkj

theorem count_successors (hi : i ∉ taken) :
    (successors es i).count j = (remaining es taken).countP fun e => e.1 == i && e.2 == j := by
  unfold successors remaining
  rw [(List.mergeSort_perm _ _).count_eq, List.count_eq_countP, List.countP_map, List.countP_filter, List.countP_filter]
  apply List.countP_congr
  intro e _
  by_cases he : e.1 = i
  · simp [he, hi]
  · simp [he]

theorem mem_successors : j ∈ successors es i ↔ (i, j) ∈ es := by
  unfold successors
  rw [List.mem_mergeSort, List.mem_map]
  constructor
  · rintro ⟨⟨a, b⟩, he, rfl⟩
    obtain ⟨he, ha⟩ := List.mem_filter.mp he
    rw [← beq_iff_eq.mp ha]
    exact he
  · exact fun h => ⟨(i, j), List.mem_filter.mpr ⟨h, beq_self_eq_true i⟩, rfl⟩

theorem pairwise_successors (es : List (Nat × Nat)) (i : Nat) : (successors es i).Pairwise (· ≤ ·) := by
  simpa [successors] using List.pairwise_mergeSort' (· ≤ ·) ((es.filter (·.1 == i)).map (·.2))

/-- Of the edges into `j`, those out of `i` and those that stay when `i` is taken. -/
theorem countP_target : es.countP (·.2 == j) =
    es.countP (fun e => e.1 == i && e.2 == j) + (es.filter (·.1 != i)).countP (·.2 == j) := by
  rw [List.countP_filter]
  induction es with
  | nil => rfl
  | cons e es ih =>
    simp only [List.countP_cons, ih]
    by_cases hi : e.1 = i <;> by_cases hj : e.2 = j <;> simp [hi, hj] <;> omega

/-- To lower the counts of the successors of a position is to take its edges away. -/
theorem lower_tally (hbound : ∀ i j, (i, j) ∈ es → j < n) (hi : i ∉ taken) :
    lower (successors es i) (tally n (remaining es taken)) queue =
      some (tally n (remaining es (taken ++ [i])), queue ++ released n i (remaining es taken)) := by
  have htally {j : Nat} (hj : j < n) : (tally n (remaining es taken))[j]? =
      some ((successors es i).count j + (remaining es (taken ++ [i])).countP (·.2 == j)) := by
    rw [getElem?_tally hj, count_successors hi, remaining_concat, ← countP_target]
  obtain ⟨counts, joined, hlower, hcounts, hjoined, hmem⟩ := lower_ok queue (pairwise_successors es i)
    fun j hj => ⟨_, htally (hbound i j (mem_successors.mp hj)), Nat.le_add_right _ _⟩
  rw [hlower]
  congr 2
  · apply List.ext_getElem?
    intro j
    rw [hcounts j]
    by_cases hj : j < n
    · rw [htally hj, getElem?_tally hj, Option.map_some, Nat.add_sub_cancel_left]
    · have hlength (es : List (Nat × Nat)) : (tally n es)[j]? = none :=
        List.getElem?_eq_none (by simpa [tally] using hj)
      rw [hlength, hlength]
      rfl
  · congr 1
    -- both lists ascend, so it is enough that they have the same members
    apply List.Pairwise.eq_of_mem_iff hjoined pairwise_released
    intro j
    rw [hmem j, mem_released, mem_successors]
    constructor
    · rintro ⟨hij, hcount⟩
      have hj := hbound i j hij
      rw [htally hj, Option.some_inj, Nat.add_eq_left, List.countP_eq_zero] at hcount
      refine ⟨hj, mem_remaining.mpr ⟨hij, hi⟩, fun k hk => ?_⟩
      by_contra hki
      obtain ⟨hkj, hkt⟩ := mem_remaining.mp hk
      exact hcount (k, j) (mem_remaining.mpr ⟨hkj, by simp [hkt, hki]⟩) (by simp)
    · rintro ⟨hj, hij, honly⟩
      refine ⟨(mem_remaining.mp hij).1, ?_⟩
      rw [htally hj, Option.some_inj, Nat.add_eq_left, List.countP_eq_zero]
      rintro ⟨k, l⟩ hk hl
      obtain ⟨hkl, hkt⟩ := mem_remaining.mp hk
      rw [beq_iff_eq] at hl
      subst hl
      simp only [List.mem_append, List.mem_singleton, not_or] at hkt
      exact hkt.2 (honly k (mem_remaining.mpr ⟨hkl, hkt.1⟩))

/-- The two loops go side by side, also with more steps than there are positions. -/
theorem countdown_eq (hbound : ∀ i j, (i, j) ∈ es → j < n) (h : Progress n es taken queue) (steps : Nat)
    (hsteps : n ≤ taken.length + steps) (extra : Nat) :
    countdown (successors es) (steps + extra) queue (tally n (remaining es taken)) =
      some ((drain n steps queue (remaining es taken)).1, tally n (drain n steps queue (remaining es taken)).2) := by
  induction steps generalizing taken queue with
  | zero =>
    have hempty : queue = [] := by
      have := h.length_le
      exact List.length_eq_zero_iff.mp (by omega)
    subst hempty
    cases extra <;> simp [countdown, drain]
  | succ s ih =>
    cases queue with
    | nil => simp [Nat.succ_add, countdown, drain]
    | cons i queue =>
      have hi : i ∉ taken := fun hit => (List.nodup_append.mp h.nodup).2.2 i hit i List.mem_cons_self rfl
      have hnext := ih h.next (by rw [List.length_append, List.length_singleton]; omega)
      rw [Nat.succ_add, countdown, lower_tally hbound hi]
      simp only [Option.bind_eq_bind, Option.bind_some]
      rw [hnext, drain, ← remaining_concat]
      rfl

theorem lt_of_mem_edges {α : Type} [DecidableEq α] {items : List α} {constraints : List (α × α)} {i j : Nat}
    (h : (i, j) ∈ edges items constraints) : j < items.length := by
  obtain ⟨b, a, -, -, ha⟩ := mem_edges.mp h
  exact lastIndex?_lt ha

/-- Counting never falls below zero, and it sorts as the loop over the edges does. -/
theorem countingSort_eq {α : Type} [DecidableEq α] (items : List α) (constraints : List (α × α)) (extra : Nat) :
    countingSort (items.length + extra) items constraints = some (sort items constraints) := by
  have hbound : ∀ i j, (i, j) ∈ edges items constraints → j < items.length := fun i j => lt_of_mem_edges
  have hready : (List.range items.length).filter ((tally items.length (edges items constraints))[·]? == some 0) =
      (List.range items.length).filter fun i => !targeted (edges items constraints) i := by
    apply List.filter_congr
    intro i hi
    rw [Bool.eq_iff_iff, beq_iff_eq, getElem?_tally_zero (List.mem_range.mp hi), Bool.not_eq_true']
  have hdown := countdown_eq hbound (Progress.start items.length (edges items constraints)) items.length
    (Nat.le_add_left _ _) extra
  rw [remaining_nil] at hdown
  obtain ⟨taken, hdrain, -⟩ := exists_drained items.length (edges items constraints)
  rw [hdrain] at hdown
  have hleft : (List.range items.length).filter
      ((tally items.length (remaining (edges items constraints) taken))[·]? != some 0) =
      (List.range items.length).filter (targeted (remaining (edges items constraints) taken)) := by
    apply List.filter_congr
    intro i hi
    rw [Bool.eq_iff_iff, bne_iff_ne, ne_eq, getElem?_tally_zero (List.mem_range.mp hi), Bool.not_eq_false]
  unfold countingSort sort
  dsimp only
  rw [hready, hdown, hdrain]
  simp only [Option.bind_eq_bind, Option.bind_some, hleft]
  rfl

end TypeCatalog.Precedence
