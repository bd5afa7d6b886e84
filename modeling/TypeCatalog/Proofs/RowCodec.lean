import TypeCatalog.Proofs.Run

namespace TypeCatalog

/-- Reading a list of values succeeds when each is read. -/
theorem mapM_eq_ok {ε α β γ : Type} {f : α → β} {g : β → Except ε γ} {h : α → γ} {xs : List α}
    (hx : ∀ x ∈ xs, g (f x) = .ok (h x)) : (xs.map f).mapM g = .ok (xs.map h) := by
  induction xs with
  | nil => rfl
  | cons x xs ih =>
    rw [List.map_cons, List.mapM_cons, hx x List.mem_cons_self,
      ih fun y hy => hx y (List.mem_cons_of_mem x hy)]
    rfl

/-- The same where each value is read exactly if it has some property. -/
theorem mapM_eq_ok_iff {ε α β γ : Type} {f : α → β} {g : β → Except ε γ} {h : α → γ} {p : α → Prop}
    {xs : List α} (hx : ∀ x ∈ xs, ∀ c, g (f x) = .ok c ↔ p x ∧ c = h x) {cs : List γ} :
    (xs.map f).mapM g = .ok cs ↔ (∀ x ∈ xs, p x) ∧ cs = xs.map h := by
  constructor
  · intro hcs
    induction xs generalizing cs with
    | nil =>
      cases hcs
      exact ⟨by simp, rfl⟩
    | cons x xs ih =>
      rw [List.map_cons, List.mapM_cons] at hcs
      obtain ⟨c, hc, hcs⟩ := bind_eq_ok.mp hcs
      obtain ⟨rest, hrest, hcs⟩ := bind_eq_ok.mp hcs
      cases hcs
      obtain ⟨hp, rfl⟩ := (hx x List.mem_cons_self c).mp hc
      obtain ⟨hps, rfl⟩ := ih (fun y hy => hx y (List.mem_cons_of_mem x hy)) hrest
      refine ⟨?_, rfl⟩
      intro y hy
      rcases List.mem_cons.mp hy with rfl | hy
      · exact hp
      · exact hps y hy
  · rintro ⟨hp, rfl⟩
    exact mapM_eq_ok fun x hxs => (hx x hxs _).mpr ⟨hp x hxs, rfl⟩

namespace Row

variable {r : Row} {i n : Nat} {column : String}

theorem getNat_nat (h : r.cell i = .nat n) (hn : n ≤ RowId.largest) : r.getNat i column = .ok n := by
  unfold getNat
  rw [h]
  unfold Cell.nat
  dsimp only
  rw [if_pos (by omega)]
  simp

theorem getNat_nat_error (h : r.cell i = .nat n) (hn : ¬ n ≤ RowId.largest) :
    ∃ e, r.getNat i column = .error e := by
  unfold getNat
  rw [h]
  unfold Cell.nat
  dsimp only
  rw [if_neg (by omega)]
  exact ⟨_, rfl⟩

theorem getNat?_nat (h : r.cell i = .nat n) : r.getNat? i column = (r.getNat i column).map some := by
  unfold getNat?
  rw [if_neg]
  rw [h]
  simp [Cell.nat]

theorem getNat?_id? {e : Entity} {o : Option (RowId e)} (h : r.cell i = Encode.id? o)
    (ho : ∀ j, o = some j → j.value ≤ RowId.largest) :
    r.getNat? i column = .ok (o.map (·.value)) := by
  cases o with
  | none =>
    unfold getNat?
    rw [if_pos (by exact h)]
    rfl
  | some j =>
    rw [getNat?_nat h, getNat_nat h (ho j rfl)]
    rfl

end Row

/-- Ids above zero survive being read. -/
theorem RowId.bind_ofNat? {e : Entity} {o : Option (RowId e)} (h : ∀ j, o = some j → 0 < j.value) :
    (o.map (·.value)).bind RowId.ofNat? = o := by
  cases o with
  | none => rfl
  | some j =>
    have hj := h j rfl
    show (if j.value = 0 then none else some (⟨j.value⟩ : RowId e)) = some j
    rw [if_neg (by omega)]

/-- A word is read back from its written form. -/
class FaithfulForm (α : Type) extends TextForm α where
  ofText?_text (a : α) : TextForm.ofText? (TextForm.text a) = some a

instance : FaithfulForm TypeKind where
  ofText?_text a := by cases a <;> rfl

instance : FaithfulForm DeclKind where
  ofText?_text a := by cases a <;> rfl

instance : FaithfulForm Accessibility where
  ofText?_text a := by cases a <;> rfl

instance : FaithfulForm Variance where
  ofText?_text a := by cases a <;> rfl

namespace Decode

theorem word_text {α : Type} [FaithfulForm α] {column : String} (a : α) :
    word α column (TextForm.text a) = .ok a := by
  unfold word
  rw [FaithfulForm.ofText?_text]

theorem namespace_encode {n : Namespace} (hid : n.id.value ≤ RowId.largest)
    (hp : ∀ p, n.parent = some p → 0 < p.value ∧ p.value ≤ RowId.largest) :
    Decode.namespace (Encode.namespace n) = .ok n := by
  have hid : (Encode.namespace n).getNat 0 "id" = .ok n.id.value := Row.getNat_nat rfl hid
  have hparent : (Encode.namespace n).getNat? 2 "parent_id" = .ok (n.parent.map (·.value)) :=
    Row.getNat?_id? rfl fun p h => (hp p h).2
  unfold Decode.namespace
  rw [hid, hparent]
  change Except.ok (Namespace.mk n.id n.name ((n.parent.map fun p => p.value).bind RowId.ofNat?)) = _
  rw [RowId.bind_ofNat? fun p h => (hp p h).1]

theorem fileHead_encode {f : SourceFile} (hid : f.id.value ≤ RowId.largest) :
    fileHead (Encode.file f) = .ok (f.id.value, f.path.text) := by
  have hid : (Encode.file f).getNat 0 "id" = .ok f.id.value := Row.getNat_nat rfl hid
  unfold fileHead
  rw [hid]
  rfl

/-- An element is read back if its numbers have 32 bits. -/
theorem tupleElement_encode {e q : TupleElement} (hid : e.id.value ≤ RowId.largest)
    (ht : e.tuple.value ≤ RowId.largest) (he : e.elementType.value ≤ RowId.largest) :
    tupleElement (Encode.tupleElement e) = .ok q ↔
      (e.ordinal ≤ RowId.largest ∧ e.rank ≤ RowId.largest) ∧ q = e := by
  have hid : (Encode.tupleElement e).getNat 0 "id" = .ok e.id.value := Row.getNat_nat rfl hid
  have ht : (Encode.tupleElement e).getNat 1 "tuple_id" = .ok e.tuple.value := Row.getNat_nat rfl ht
  have he : (Encode.tupleElement e).getNat 5 "element_type_id" = .ok e.elementType.value :=
    Row.getNat_nat rfl he
  unfold tupleElement
  rw [hid, ht, he]
  by_cases ho : e.ordinal ≤ RowId.largest
  · have hord : (Encode.tupleElement e).getNat 2 "ordinal" = .ok e.ordinal := Row.getNat_nat rfl ho
    rw [hord]
    by_cases hr : e.rank ≤ RowId.largest
    · have hrank : (Encode.tupleElement e).getNat 4 "rank" = .ok e.rank := Row.getNat_nat rfl hr
      rw [hrank]
      change Except.ok e = _ ↔ _
      simp [ho, hr, eq_comm]
    · obtain ⟨d, hrank⟩ : ∃ d, (Encode.tupleElement e).getNat 4 "rank" = .error d :=
        Row.getNat_nat_error rfl hr
      rw [hrank]
      change Except.error d = _ ↔ _
      simp [hr]
  · obtain ⟨d, hord⟩ : ∃ d, (Encode.tupleElement e).getNat 2 "ordinal" = .error d :=
      Row.getNat_nat_error rfl ho
    rw [hord]
    change Except.error d = _ ↔ _
    simp [ho]

theorem reference_encode {r : Reference} (hid : r.id.value ≤ RowId.largest)
    (hn : r.named.value ≤ RowId.largest) (hr : r.rank ≤ RowId.largest)
    (hp : ∀ p, r.parent = some p → 0 < p.value ∧ p.value ≤ RowId.largest) :
    reference (Encode.reference r) = .ok r := by
  have hid : (Encode.reference r).getNat 0 "id" = .ok r.id.value := Row.getNat_nat rfl hid
  have hn : (Encode.reference r).getNat 1 "named_type_id" = .ok r.named.value := Row.getNat_nat rfl hn
  have hr : (Encode.reference r).getNat 2 "rank" = .ok r.rank := Row.getNat_nat rfl hr
  have hparent : (Encode.reference r).getNat? 3 "parent_id" = .ok (r.parent.map (·.value)) :=
    Row.getNat?_id? rfl fun p h => (hp p h).2
  unfold reference
  rw [hid, hn, hr, hparent]
  change Except.ok (Reference.mk r.id r.named r.rank ((r.parent.map fun p => p.value).bind RowId.ofNat?)) = _
  rw [RowId.bind_ofNat? fun p h => (hp p h).1]

theorem rawParameter_encode {i : TypeId} {p : TypeParameter} (ho : p.ordinal ≤ RowId.largest) :
    rawParameter (Encode.parameter i p) = .ok (p.ordinal, p.name, TextForm.text p.variance) := by
  have ho : Row.getNat [.nat p.ordinal, .text p.name, Encode.word p.variance] 0 "ordinal" = .ok p.ordinal :=
    Row.getNat_nat rfl ho
  change (do return (← Row.getNat [.nat p.ordinal, .text p.name, Encode.word p.variance] 0 "ordinal",
    p.name, TextForm.text p.variance) : Except CatalogError _) = _
  rw [ho]
  rfl

end Decode

namespace NamedType

/-- The columns that a named type is stored in. -/
def raw (i : TypeId) : NamedType → RawNamedType
  | .documented d =>
    ⟨i.value, TextForm.text TypeKind.documented, d.name, d.arity, some d.fullName, some d.home.value,
      d.container.map (·.value), some (TextForm.text d.declKind), some (TextForm.text d.access),
      some d.file.value, none, none⟩
  | .external x =>
    ⟨i.value, TextForm.text TypeKind.external, x.name, x.arity, none, none, none, none,
      some (TextForm.text x.access), none, none, none⟩
  | .parameter p =>
    ⟨i.value, TextForm.text TypeKind.parameter, p.name, 0, none, none, none, none, none, none,
      some p.declaring.value, some p.index⟩
  | .tuple t =>
    ⟨i.value, TextForm.text TypeKind.tuple, t.name, t.elements.length, none, none, none, none, none,
      none, none, none⟩

/-- The number that a row of this kind carries. -/
def number : NamedType → Nat
  | .documented d => d.arity
  | .external x => x.arity
  | .parameter p => p.index
  | .tuple t => t.elements.length

/-- What holds of the rows that a named type links to. -/
def Links (space : NamespaceId → Prop) (file : FileId → Prop) (type : TypeId → Prop) : NamedType → Prop
  | .documented d => space d.home ∧ file d.file ∧ ∀ j, d.container = some j → type j
  | .parameter p => type p.declaring
  | _ => True

theorem Links.mono {space space' : NamespaceId → Prop} {file file' : FileId → Prop}
    {type type' : TypeId → Prop} {a : NamedType} (h : a.Links space file type)
    (hs : ∀ i, space i → space' i) (hf : ∀ i, file i → file' i) (ht : ∀ i, type i → type' i) :
    a.Links space' file' type' := by
  cases a with
  | documented d =>
    obtain ⟨hh, hd, hc⟩ := h
    exact ⟨hs _ hh, hf _ hd, fun j hj => ht j (hc j hj)⟩
  | parameter p => exact ht _ h
  | external x => trivial
  | tuple t => trivial

/-- The row as it is when it has just been read: type parameters are not loaded. -/
def unloaded : NamedType → NamedType
  | .documented d => .documented { d with parameters := if d.arity = 0 then some [] else none }
  | a => a

/-- The row as it is read before its elements are attached. -/
def bare : NamedType → NamedType
  | .tuple t => .tuple { t with elements := [] }
  | a => a.unloaded

end NamedType

namespace Decode

/-- A named type is read if its number has 32 bits. -/
theorem rawNamedType_encode {i : TypeId} {a : NamedType} {q : RawNamedType}
    (hi : i.value ≤ RowId.largest)
    (hl : a.Links (·.value ≤ RowId.largest) (·.value ≤ RowId.largest) (·.value ≤ RowId.largest)) :
    rawNamedType (Encode.namedType i a) = .ok q ↔ a.number ≤ RowId.largest ∧ q = a.raw i := by
  have hid : (Encode.namedType i a).getNat 0 "id" = .ok i.value := by
    cases a <;> exact Row.getNat_nat rfl hi
  unfold rawNamedType
  rw [hid]
  -- the number is in the column of the index for a type parameter, else in that of the arity
  cases a with
  | documented d =>
    obtain ⟨hh, hf, hc⟩ := hl
    have hh : (Encode.namedType i (.documented d)).getNat? 5 "namespace_id" = .ok (some d.home.value) := by
      rw [Row.getNat?_nat rfl, Row.getNat_nat rfl hh]
      rfl
    have hf : (Encode.namedType i (.documented d)).getNat? 9 "source_file_id" = .ok (some d.file.value) := by
      rw [Row.getNat?_nat rfl, Row.getNat_nat rfl hf]
      rfl
    have hc : (Encode.namedType i (.documented d)).getNat? 6 "containing_type_id" =
        .ok (d.container.map (·.value)) := Row.getNat?_id? rfl hc
    rw [hh, hf, hc]
    by_cases hn : d.arity ≤ RowId.largest
    · rw [Row.getNat_nat rfl hn]
      change Except.ok (NamedType.raw i (.documented d)) = _ ↔ _
      simp [NamedType.number, hn, eq_comm]
    · obtain ⟨e, he⟩ : ∃ e, (Encode.namedType i (.documented d)).getNat 3 "arity" = .error e :=
        Row.getNat_nat_error rfl hn
      rw [he]
      change Except.error e = _ ↔ _
      simp [NamedType.number, hn]
  | external x =>
    by_cases hn : x.arity ≤ RowId.largest
    · rw [Row.getNat_nat rfl hn]
      change Except.ok (NamedType.raw i (.external x)) = _ ↔ _
      simp [NamedType.number, hn, eq_comm]
    · obtain ⟨e, he⟩ : ∃ e, (Encode.namedType i (.external x)).getNat 3 "arity" = .error e :=
        Row.getNat_nat_error rfl hn
      rw [he]
      change Except.error e = _ ↔ _
      simp [NamedType.number, hn]
  | parameter p =>
    have hd : (Encode.namedType i (.parameter p)).getNat? 10 "declaring_type_id" =
        .ok (some p.declaring.value) := by
      rw [Row.getNat?_nat rfl, Row.getNat_nat rfl hl]
      rfl
    have ha : (Encode.namedType i (.parameter p)).getNat 3 "arity" = .ok 0 :=
      Row.getNat_nat rfl (Nat.zero_le _)
    rw [hd, ha, Row.getNat?_nat (i := 11) (n := p.index) rfl]
    by_cases hn : p.index ≤ RowId.largest
    · rw [Row.getNat_nat rfl hn]
      change Except.ok (NamedType.raw i (.parameter p)) = _ ↔ _
      simp [NamedType.number, hn, eq_comm]
    · obtain ⟨e, he⟩ :
          ∃ e, (Encode.namedType i (.parameter p)).getNat 11 "type_parameter_index" = .error e :=
        Row.getNat_nat_error rfl hn
      rw [he]
      change Except.error e = _ ↔ _
      simp [NamedType.number, hn]
  | tuple t =>
    by_cases hn : t.elements.length ≤ RowId.largest
    · rw [Row.getNat_nat rfl hn]
      change Except.ok (NamedType.raw i (.tuple t)) = _ ↔ _
      simp [NamedType.number, hn, eq_comm]
    · obtain ⟨e, he⟩ : ∃ e, (Encode.namedType i (.tuple t)).getNat 3 "arity" = .error e :=
        Row.getNat_nat_error rfl hn
      rw [he]
      change Except.error e = _ ↔ _
      simp [NamedType.number, hn]

end Decode

end TypeCatalog
