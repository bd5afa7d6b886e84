import Mathlib.Data.List.Nodup
import Mathlib.Data.List.Range
import Mathlib.Data.List.Sort
import TypeCatalog.Precedence

namespace TypeCatalog.Precedence

variable {n i j k : Nat} {es : List (Nat × Nat)} {taken queue : List Nat}

theorem targeted_iff : targeted es j = true ↔ ∃ i, (i, j) ∈ es := by
  unfold targeted
  simp

theorem mem_released : j ∈ released n i es ↔ j < n ∧ (i, j) ∈ es ∧ ∀ k, (k, j) ∈ es → k = i := by
  unfold released
  simp only [List.mem_filter, List.mem_range, Bool.and_eq_true, List.contains_eq_mem, decide_eq_true_eq,
    Bool.not_eq_true', ← Bool.not_eq_true, targeted_iff]
  simp

theorem pairwise_released : (released n i es).Pairwise (· < ·) := List.pairwise_lt_range.filter _

/-- The edges left once these positions are taken. -/
def remaining (es : List (Nat × Nat)) (taken : List Nat) : List (Nat × Nat) := es.filter fun e => e.1 ∉ taken

theorem mem_remaining : (i, j) ∈ remaining es taken ↔ (i, j) ∈ es ∧ i ∉ taken := by simp [remaining]

theorem remaining_concat : remaining es (taken ++ [i]) = (remaining es taken).filter (·.1 != i) := by
  unfold remaining
  rw [List.filter_filter]
  congr 1
  funext e
  by_cases h : e.1 = i <;> simp [h]

theorem remaining_nil : remaining es [] = es := by simp [remaining]

section

variable {β : Type} [DecidableEq β]

/-- One more than the last place that one of `xs` has in `order`, and zero if there are none. -/
def latest (order xs : List β) : Nat := (xs.map (order.idxOf · + 1)).foldr max 0

theorem latest_le_iff {order xs : List β} : latest order xs ≤ k ↔ ∀ x ∈ xs, order.idxOf x < k := by
  unfold latest
  induction xs with
  | nil => simp
  | cons x xs ih =>
    rw [List.map_cons, List.foldr_cons, Nat.max_le, ih, List.forall_mem_cons]
    exact Iff.rfl

theorem latest_congr {order order' xs : List β} (h : ∀ x ∈ xs, order.idxOf x = order'.idxOf x) :
    latest order xs = latest order' xs := by
  unfold latest
  congr 1
  apply List.map_congr_left
  intro x hx
  rw [h x hx]

end

/-- The positions that have to come before `j`. -/
def sources (es : List (Nat × Nat)) (j : Nat) : List Nat := (es.filter (·.2 == j)).map (·.1)

theorem mem_sources : i ∈ sources es j ↔ (i, j) ∈ es := by simp [sources]

/-- Whether `x` is released before `y`, or both are released together and `x` is listed first. -/
def Sooner (es : List (Nat × Nat)) (taken : List Nat) (x y : Nat) : Prop :=
  latest taken (sources es x) < latest taken (sources es y) ∨
    latest taken (sources es x) = latest taken (sources es y) ∧ x < y

theorem Sooner.ne {x y : Nat} (h : Sooner es taken x y) : x ≠ y := by
  rintro rfl
  unfold Sooner at h
  omega

/-- Where the loop is: what it has taken, what stands in the queue, and why in this order. -/
structure Progress (n : Nat) (es : List (Nat × Nat)) (taken queue : List Nat) : Prop where
  bound : ∀ j ∈ taken ++ queue, j < n
  ready : ∀ j < n, j ∈ taken ++ queue ↔ ∀ i, (i, j) ∈ es → i ∈ taken
  before : ∀ i j, (i, j) ∈ es → j ∈ taken → taken.idxOf i < taken.idxOf j
  sooner : (taken ++ queue).Pairwise (Sooner es taken)

namespace Progress

theorem nodup (h : Progress n es taken queue) : (taken ++ queue).Nodup := h.sooner.imp Sooner.ne

theorem source_mem (h : Progress n es taken queue) (hj : j ∈ taken ++ queue) (hij : (i, j) ∈ es) : i ∈ taken :=
  (h.ready j (h.bound j hj)).mp hj i hij

theorem length_le (h : Progress n es taken queue) : taken.length + queue.length ≤ n := by
  have hsub : taken ++ queue ⊆ List.range n := fun j hj => List.mem_range.mpr (h.bound j hj)
  have hle := (List.subperm_of_subset h.nodup hsub).length_le
  rw [List.length_append, List.length_range] at hle
  exact hle

theorem start (n : Nat) (es : List (Nat × Nat)) : Progress n es [] ((List.range n).filter fun i => !targeted es i) := by
  have hmem (j : Nat) : j ∈ (List.range n).filter (fun i => !targeted es i) ↔ j < n ∧ ∀ i, (i, j) ∉ es := by
    rw [List.mem_filter, List.mem_range, Bool.not_eq_true', ← Bool.not_eq_true, targeted_iff, not_exists]
  refine {
    bound := fun j hj => ((hmem j).mp hj).1
    ready := fun j hj => ?_
    before := fun i j _ hj => nomatch hj
    sooner := ?_ }
  · rw [List.nil_append, hmem]
    simp [hj]
  · have hnone (x : Nat) (hx : x ∈ (List.range n).filter fun i => !targeted es i) : latest [] (sources es x) = 0 := by
      have hsources : sources es x = [] := by
        rw [List.eq_nil_iff_forall_not_mem]
        intro i hi
        exact ((hmem x).mp hx).2 i (mem_sources.mp hi)
      rw [hsources]
      rfl
    rw [List.nil_append]
    apply (List.pairwise_lt_range.filter _).imp_of_mem
    intro x y hx hy hlt
    exact .inr ⟨by rw [hnone x hx, hnone y hy], hlt⟩

/-- What has been released so far keeps its place when one more position is taken. -/
theorem latest_concat (h : Progress n es taken queue) (hj : j ∈ taken ++ queue) :
    latest (taken ++ [i]) (sources es j) = latest taken (sources es j) := by
  apply latest_congr
  intro k hk
  exact List.idxOf_append_of_mem (h.source_mem hj (mem_sources.mp hk))

theorem latest_le (h : Progress n es taken queue) (hj : j ∈ taken ++ queue) :
    latest taken (sources es j) ≤ taken.length := by
  rw [latest_le_iff]
  intro k hk
  exact List.idxOf_lt_length_of_mem (h.source_mem hj (mem_sources.mp hk))

/-- The positions that `i` releases wait for it and for nothing that is not taken. -/
theorem latest_released (hj : j ∈ released n i (remaining es taken)) :
    latest (taken ++ [i]) (sources es j) = taken.length + 1 := by
  obtain ⟨-, hij, honly⟩ := mem_released.mp hj
  obtain ⟨hij, hi⟩ := mem_remaining.mp hij
  have hlast : (taken ++ [i]).idxOf i = taken.length := by
    rw [List.idxOf_append_of_notMem hi, List.idxOf_cons_self, Nat.add_zero]
  apply Nat.le_antisymm
  · rw [latest_le_iff]
    intro k hk
    by_cases hkt : k ∈ taken
    · rw [List.idxOf_append_of_mem hkt]
      have := List.idxOf_lt_length_of_mem hkt
      omega
    · rw [honly k (mem_remaining.mpr ⟨mem_sources.mp hk, hkt⟩), hlast]
      omega
  · by_contra hlt
    have hle : latest (taken ++ [i]) (sources es j) ≤ taken.length := by omega
    have hfirst := latest_le_iff.mp hle i (mem_sources.mpr hij)
    rw [hlast] at hfirst
    omega

theorem next (h : Progress n es taken (i :: queue)) :
    Progress n es (taken ++ [i]) (queue ++ released n i (remaining es taken)) := by
  have hold (x : Nat) : x ∈ taken ++ i :: queue ↔ x ∈ taken ++ [i] ++ queue := by simp
  have hi : i ∈ taken ++ i :: queue := by simp
  have hnot : i ∉ taken := by
    have := List.nodup_append.mp h.nodup
    exact fun hit => this.2.2 i hit i List.mem_cons_self rfl
  have hsplit : taken ++ [i] ++ (queue ++ released n i (remaining es taken)) =
      (taken ++ i :: queue) ++ released n i (remaining es taken) := by simp
  -- what is released now are the positions that waited for `i` as the last of their sources
  refine { bound := ?_, ready := ?_, before := ?_, sooner := ?_ }
  · rw [hsplit]
    intro j hj
    rcases List.mem_append.mp hj with hj | hj
    · exact h.bound j hj
    · exact (mem_released.mp hj).1
  · intro j hj
    rw [hsplit, List.mem_append, h.ready j hj, mem_released]
    constructor
    · rintro (hready | ⟨-, -, honly⟩) k hk
      · exact List.mem_append_left _ (hready k hk)
      · by_cases hkt : k ∈ taken
        · exact List.mem_append_left _ hkt
        · rw [honly k (mem_remaining.mpr ⟨hk, hkt⟩)]
          simp
    · intro hready
      by_cases hij : (i, j) ∈ es
      · refine .inr ⟨hj, mem_remaining.mpr ⟨hij, hnot⟩, fun k hk => ?_⟩
        obtain ⟨hk, hkt⟩ := mem_remaining.mp hk
        exact List.mem_singleton.mp ((List.mem_append.mp (hready k hk)).resolve_left hkt)
      · refine .inl fun k hk => ?_
        refine (List.mem_append.mp (hready k hk)).resolve_right fun hki => hij ?_
        rw [← List.mem_singleton.mp hki]
        exact hk
  · intro k j hkj hj
    have hk : k ∈ taken := h.source_mem ((hold j).mpr (List.mem_append_left _ hj)) hkj
    rw [List.idxOf_append_of_mem hk]
    by_cases hjt : j ∈ taken
    · rw [List.idxOf_append_of_mem hjt]
      exact h.before k j hkj hjt
    · rw [List.idxOf_append_of_notMem hjt]
      have := List.idxOf_lt_length_of_mem hk
      omega
  · rw [hsplit, List.pairwise_append]
    refine ⟨h.sooner.imp_of_mem fun {x y} hx hy hxy => ?_, pairwise_released.imp_of_mem fun {x y} hx hy hxy => ?_,
      fun x hx y hy => .inl ?_⟩
    · unfold Sooner
      rw [h.latest_concat hx, h.latest_concat hy]
      exact hxy
    · exact .inr ⟨by rw [latest_released hx, latest_released hy], hxy⟩
    · have := h.latest_le hx
      rw [h.latest_concat hx, latest_released hy]
      omega

/-- With a step for each position the loop comes to an empty queue. -/
theorem run (h : Progress n es taken queue) (steps : Nat) (hsteps : n ≤ taken.length + steps) :
    ∃ rest, drain n steps queue (remaining es taken) = (rest, remaining es (taken ++ rest)) ∧
      Progress n es (taken ++ rest) [] := by
  induction steps generalizing taken queue with
  | zero =>
    have hempty : queue = [] := by
      have := h.length_le
      exact List.length_eq_zero_iff.mp (by omega)
    subst hempty
    exact ⟨[], by simp [drain], by simpa using h⟩
  | succ s ih =>
    cases queue with
    | nil => exact ⟨[], by simp [drain], by simpa using h⟩
    | cons i queue =>
      obtain ⟨rest, hrest, hprogress⟩ := ih h.next (by rw [List.length_append, List.length_singleton]; omega)
      refine ⟨i :: rest, ?_, by simpa using hprogress⟩
      rw [drain, ← remaining_concat, hrest]
      simp

end Progress

theorem exists_drained (n : Nat) (es : List (Nat × Nat)) :
    ∃ taken, drain n n ((List.range n).filter fun i => !targeted es i) es = (taken, remaining es taken) ∧
      Progress n es taken [] := by
  obtain ⟨taken, htaken, hprogress⟩ := (Progress.start n es).run n (Nat.le_add_left _ _)
  rw [remaining_nil] at htaken
  exact ⟨taken, by simpa using htaken, by simpa using hprogress⟩

end TypeCatalog.Precedence
