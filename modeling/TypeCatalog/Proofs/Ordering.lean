import TypeCatalog.Store.Database

namespace TypeCatalog

namespace Binary

theorem le_total (a b : Binary) : a.le b || b.le a := by
  unfold le
  have h := Int.le_total (a.num * Int.ofNat (Nat.pow 2 b.scale)) (b.num * Int.ofNat (Nat.pow 2 a.scale))
  simpa using h

theorem le_trans {a b c : Binary} (hab : a.le b) (hbc : b.le c) : a.le c := by
  unfold le at *
  simp only [decide_eq_true_eq] at *
  have hpos (k : Nat) : 0 < Int.ofNat (Nat.pow 2 k) := Int.natCast_pos.mpr (Nat.pow_pos (by omega))
  have ha := hpos a.scale
  have hb := hpos b.scale
  have hc := hpos c.scale
  generalize Int.ofNat (Nat.pow 2 a.scale) = x at *
  generalize Int.ofNat (Nat.pow 2 b.scale) = y at *
  generalize Int.ofNat (Nat.pow 2 c.scale) = z at *
  apply Int.le_of_mul_le_mul_right _ hb
  calc a.num * z * y = a.num * y * z := Int.mul_right_comm _ _ _
    _ ≤ b.num * x * z := Int.mul_le_mul_of_nonneg_right hab (Int.le_of_lt hc)
    _ = b.num * z * x := Int.mul_right_comm _ _ _
    _ ≤ c.num * y * x := Int.mul_le_mul_of_nonneg_right hbc (Int.le_of_lt ha)
    _ = c.num * x * y := Int.mul_right_comm _ _ _

theorem ofInt_le_ofInt {m n : Int} : (ofInt m).le (ofInt n) = decide (m ≤ n) := by
  simp [le, ofInt]

end Binary

namespace Cell

/-- Whole numbers are compared as the fractions that they are. -/
def number? : Cell → Option Binary
  | int n => some (.ofInt n)
  | real x => some x
  | _ => none

theorem le_of_number? {a b : Cell} {x y : Binary} (ha : a.number? = some x) (hb : b.number? = some y) :
    a.le b = x.le y := by
  cases a <;> cases b <;> simp only [number?, Option.some.injEq, reduceCtorEq] at ha hb
  all_goals
    subst ha hb
    simp only [le, Binary.ofInt_le_ofInt]

theorem le_total (a b : Cell) : a.le b || b.le a := by
  cases ha : a.number? with
  | some x =>
    cases hb : b.number? with
    | some y =>
      rw [le_of_number? ha hb, le_of_number? hb ha]
      exact x.le_total y
    | none => cases a <;> cases b <;> simp_all [number?, le]
  | none =>
    cases a <;> cases b <;> simp_all [number?, le]
    exact String.le_total _ _

theorem le_trans {a b c : Cell} (hab : a.le b) (hbc : b.le c) : a.le c := by
  cases ha : a.number? with
  | some x =>
    cases hb : b.number? with
    | some y =>
      cases hc : c.number? with
      | some z =>
        rw [le_of_number? ha hb] at hab
        rw [le_of_number? hb hc] at hbc
        rw [le_of_number? ha hc]
        exact Binary.le_trans hab hbc
      | none => cases a <;> cases b <;> cases c <;> simp_all [number?, le]
    | none => cases a <;> cases b <;> cases c <;> simp_all [number?, le]
  | none =>
    cases a <;> cases b <;> cases c <;> simp_all [number?, le]
    exact String.le_trans hab hbc

end Cell

namespace Row

theorem before_iff {key : List Nat} {r q : Row} :
    before key r q ↔ ∀ i, (key.find? fun i => r.cell i != q.cell i) = some i → (r.cell i).le (q.cell i) := by
  unfold before
  split
  · next i hi => simp [hi]
  · next hi => simp [hi]

theorem before_singleton {i : Nat} {r q : Row} :
    before [i] r q ↔ (r.cell i).le (q.cell i) ∨ r.cell i = q.cell i := by
  rw [before_iff]
  by_cases h : r.cell i = q.cell i
  · simp [h]
  · simp [h]

theorem before_trans {i : Nat} {r q p : Row} (hrq : before [i] r q) (hqp : before [i] q p) :
    before [i] r p := by
  rw [before_singleton] at *
  rcases hrq with hrq | hrq
  · rcases hqp with hqp | hqp
    · exact .inl (Cell.le_trans hrq hqp)
    · rw [← hqp]
      exact .inl hrq
  · rw [hrq]
    exact hqp

theorem before_total (i : Nat) (r q : Row) : before [i] r q || before [i] q r := by
  rw [Bool.or_eq_true, before_singleton, before_singleton]
  have h := Cell.le_total (r.cell i) (q.cell i)
  rw [Bool.or_eq_true] at h
  exact h.imp .inl .inl

end Row

namespace Database

variable {db : Database} {t : Table}

/-- A table whose rows stand in the order asked for is read as it is. -/
theorem ordered_of_pairwise {key : List Nat} (h : (db.rows t).Pairwise fun r q => Row.before key r q) :
    db.ordered t key = db.rows t :=
  List.mergeSort_of_pairwise h

/-- Of a table read by one column, chosen rows that stand in that order already come as they are. -/
theorem filter_ordered {i : Nat} {p : Row → Bool}
    (h : ((db.rows t).filter p).Pairwise fun r q => Row.before [i] r q) :
    (db.ordered t [i]).filter p = (db.rows t).filter p := by
  have hsub : ((db.rows t).filter p).Sublist (db.ordered t [i]) := by
    unfold ordered
    apply List.sublist_mergeSort _ (Row.before_total i) h List.filter_sublist
    intro r q o
    exact Row.before_trans
  have hsub := hsub.filter p
  rw [List.filter_filter] at hsub
  simp only [Bool.and_self] at hsub
  refine (hsub.eq_of_length ?_).symm
  exact ((List.mergeSort_perm _ _).filter p).length_eq.symm

end Database

end TypeCatalog
