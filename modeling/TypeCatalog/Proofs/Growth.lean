import TypeCatalog.Proofs.Names
import TypeCatalog.Proofs.Operations

namespace TypeCatalog

/-- The ids of a table ascend and the counter has handed out all of them. -/
structure Counter.Covers {e : Entity} (c : Counter e) (ids : List (RowId e)) : Prop where
  ascending : ids.Pairwise fun i j => i.value < j.value
  bounded : ∀ i ∈ ids, i.value ≤ c.used

namespace Counter.Covers

variable {e : Entity} {c : Counter e} {ids : List (RowId e)}

theorem nil : c.Covers [] := ⟨.nil, by simp⟩

theorem extend (h : c.Covers ids) {n : Nat} {new : List (RowId e)}
    (hnew : new.map (·.value) = List.range' (c.used + 1) n) :
    Counter.Covers ⟨c.used + n⟩ (ids ++ new) := by
  have hmem : ∀ i ∈ new, c.used < i.value ∧ i.value ≤ c.used + n := by
    intro i hi
    have hv : i.value ∈ new.map (·.value) := List.mem_map_of_mem hi
    rw [hnew, List.mem_range'_1] at hv
    omega
  constructor
  · rw [List.pairwise_append]
    refine ⟨h.ascending, ?_, ?_⟩
    · have hp : (new.map (·.value)).Pairwise (· < ·) := hnew ▸ List.pairwise_lt_range'
      exact List.pairwise_map.mp hp
    · intro i hi j hj
      have := h.bounded i hi
      have := hmem j hj
      omega
  · intro i hi
    rcases List.mem_append.mp hi with hi | hi
    · have := h.bounded i hi
      show i.value ≤ c.used + n
      omega
    · exact (hmem i hi).2

theorem next (h : c.Covers ids) : Counter.Covers ⟨c.used + 1⟩ (ids ++ [⟨c.used + 1⟩]) :=
  h.extend rfl

theorem suffix {older : List (RowId e)} (h : c.Covers (older ++ ids)) : c.Covers ids where
  ascending := (List.pairwise_append.mp h.ascending).2.1
  bounded i hi := h.bounded i (List.mem_append_right older hi)

theorem nodup (h : c.Covers ids) : ids.Nodup :=
  h.ascending.imp fun hlt heq => by
    subst heq
    exact Nat.lt_irrefl _ hlt

end Counter.Covers

namespace Session

variable {s t u : Session}

/-- Every table lists its rows by ascending id, below the counter of the table. -/
structure Numbered (s : Session) : Prop where
  namespaces : s.namespaceIds.Covers (s.namespaces.map (·.id))
  files : s.fileIds.Covers (s.files.map (·.id))
  named : s.namedIds.Covers (s.named.map (·.1))
  elements : s.elementIds.Covers (s.elements.map (·.id))
  references : s.referenceIds.Covers (s.references.map (·.id))
  usages : s.usageIds.Covers (s.usages.map (·.id))

theorem map_id_numberedElements {tuple : TypeId} {n ordinal : Nat} {es : List NewElement} :
    ((numberedElements tuple n ordinal es).map (·.id)).map (·.value) = List.range' (n + 1) es.length := by
  induction es generalizing n ordinal with
  | nil => rfl
  | cons e es ih =>
    simp only [numberedElements, List.map_cons, List.length_cons, List.range'_succ, ih]

theorem map_fst_replaceNamed {id : TypeId} {a : NamedType} :
    (s.replaceNamed id a).named.map (·.1) = s.named.map (·.1) := by
  simp only [replaceNamed, List.map_map]
  apply List.map_congr_left
  intro r _
  simp only [Function.comp_apply]
  split <;> rfl

theorem Numbered.replaceNamed (h : s.Numbered) {id : TypeId} {a : NamedType} :
    (s.replaceNamed id a).Numbered :=
  { h with named := by rw [map_fst_replaceNamed]; exact h.named }

theorem Numbered.addNamed (h : s.Numbered) {type : NamedType} {id : TypeId}
    (ha : s.addNamed type = .ok (id, t)) : t.Numbered := by
  obtain ⟨-, rfl, rfl⟩ := addNamed_ok ha
  exact { h with named := by simpa using h.named.next }

theorem Numbered.addReference (h : s.Numbered) {named : TypeId} {rank : Nat}
    {parent : Option ReferenceId} {id : ReferenceId}
    (ha : s.addReference named rank parent = .ok (id, t)) : t.Numbered := by
  obtain ⟨-, rfl, rfl⟩ := addReference_ok ha
  exact { h with references := by simpa using h.references.next }

theorem Numbered.addTuple (h : s.Numbered) {name : String} {es : List NewElement} {id : TypeId}
    (ha : s.addTuple name es = .ok (id, t)) : t.Numbered := by
  obtain ⟨-, -, rfl, rfl⟩ := addTuple_ok ha
  exact { h with
    named := by simpa using h.named.next
    elements := by
      rw [List.map_append]
      exact h.elements.extend map_id_numberedElements }

theorem Numbered.ensureParameters (h : s.Numbered) {id : TypeId} {ps : List TypeParameter}
    (he : s.ensureParameters id = .ok (ps, t)) : t.Numbered := by
  obtain ⟨d, -, ⟨-, rfl⟩ | ⟨-, -, -, rfl⟩⟩ := ensureParameters_ok he
  · exact h
  · exact h.replaceNamed

theorem Numbered.extendExternal (h : s.Numbered) {id : TypeId} {names : List String} {n : Nat}
    (he : s.extendExternal id names = .ok (n, t)) : t.Numbered := by
  obtain ⟨x, -, -, rfl⟩ := extendExternal_ok he
  exact { h with named := by rw [map_fst_replaceNamed]; exact h.named }

theorem Numbered.save (h : s.Numbered) {n : Nat} (hs : s.save = .ok (n, t)) : t.Numbered := by
  obtain ⟨-, rfl⟩ | ⟨-, rfl⟩ | ⟨store, changes, database, -, -, -, -, rfl⟩ := save_ok hs
  · exact h
  · exact { h with }
  · exact { h with }

end Session

/-- How the row of a named type may change: its type parameters are loaded, or it is an external type
that is seen from more namespaces. -/
def NamedType.Grows : NamedType → NamedType → Prop
  | .documented d, .documented d' =>
    d' = { d with parameters := d'.parameters } ∧ (d.parameters = none ∨ d'.parameters = d.parameters)
  | .external x, .external x' =>
    x' = { x with namespaces := x'.namespaces } ∧ ∀ n ∈ x.namespaces.names, n ∈ x'.namespaces.names
  | .parameter p, .parameter p' => p = p'
  | .tuple t, .tuple t' => t = t'
  | _, _ => False

namespace NamedType.Grows

variable {a b c : NamedType}

theorem refl (a : NamedType) : a.Grows a := by
  cases a with
  | documented d => exact ⟨rfl, .inr rfl⟩
  | external x => exact ⟨rfl, fun n hn => hn⟩
  | parameter p => exact rfl
  | tuple t => exact rfl

theorem trans (h : a.Grows b) (k : b.Grows c) : a.Grows c := by
  cases a <;> cases b <;> try exact h.elim
  all_goals cases c <;> try exact k.elim
  · obtain ⟨h₁, h₂⟩ := h
    obtain ⟨k₁, k₂⟩ := k
    refine ⟨by rw [k₁, h₁], ?_⟩
    rcases h₂ with h₂ | h₂
    · exact .inl h₂
    · rw [← h₂]
      exact k₂
  · obtain ⟨h₁, h₂⟩ := h
    obtain ⟨k₁, k₂⟩ := k
    exact ⟨by rw [k₁, h₁], fun n hn => k₂ n (h₂ n hn)⟩
  · exact Eq.trans h k
  · exact Eq.trans h k

theorem kind_eq (h : a.Grows b) : b.kind = a.kind := by
  cases a <;> cases b <;> first | rfl | exact h.elim

theorem documented {d : Documented} (h : (NamedType.documented d).Grows b) :
    ∃ ps, b = .documented { d with parameters := ps } := by
  cases b with
  | documented d' => exact ⟨d'.parameters, by rw [h.1]⟩
  | external _ => exact h.elim
  | parameter _ => exact h.elim
  | tuple _ => exact h.elim

theorem external {x : External} (h : (NamedType.external x).Grows b) :
    ∃ names, b = .external { x with namespaces := names } ∧ ∀ n ∈ x.namespaces.names, n ∈ names.names := by
  cases b with
  | external x' => exact ⟨x'.namespaces, by rw [h.1], h.2⟩
  | documented _ => exact h.elim
  | parameter _ => exact h.elim
  | tuple _ => exact h.elim

theorem tuple {r : Tuple} (h : (NamedType.tuple r).Grows b) : b = .tuple r := by
  cases b with
  | tuple r' => exact congrArg _ (Eq.symm h)
  | documented _ => exact h.elim
  | external _ => exact h.elim
  | parameter _ => exact h.elim

end NamedType.Grows

/-- The rows of a later table of named types: the earlier ones, each of which may have changed in
some way, and then new ones of some kind. -/
inductive RowsBecome (changes : TypeId → NamedType → NamedType → Prop) (new : NamedType → Prop) :
    List (TypeId × NamedType) → List (TypeId × NamedType) → Prop
  | nil {added : List (TypeId × NamedType)} (h : ∀ r ∈ added, new r.2) : RowsBecome changes new [] added
  | cons {id : TypeId} {a b : NamedType} {rows later : List (TypeId × NamedType)}
      (h : changes id a b) (rest : RowsBecome changes new rows later) :
      RowsBecome changes new ((id, a) :: rows) ((id, b) :: later)

namespace RowsBecome

variable {C D E : TypeId → NamedType → NamedType → Prop} {P Q R : NamedType → Prop}
  {rows later latest added : List (TypeId × NamedType)}

theorem append (hC : ∀ id a, C id a a) (h : ∀ r ∈ added, P r.2) : RowsBecome C P rows (rows ++ added) := by
  induction rows with
  | nil => exact .nil h
  | cons r rows ih => exact .cons (hC r.1 r.2) ih

theorem refl (hC : ∀ id a, C id a a) (rows : List (TypeId × NamedType)) : RowsBecome C P rows rows := by
  have h : ∀ r ∈ ([] : List (TypeId × NamedType)), P r.2 := by simp
  simpa using append hC h

theorem mono (h : RowsBecome C P rows later) (hC : ∀ id a b, C id a b → D id a b)
    (hP : ∀ a, P a → Q a) : RowsBecome D Q rows later := by
  induction h with
  | nil h => exact .nil fun r hr => hP _ (h r hr)
  | cons h _ ih => exact .cons (hC _ _ _ h) ih

theorem trans (hD : ∀ id a b c, C id a b → D id b c → E id a c)
    (hP : ∀ id a b, P a → D id a b → R b) (hQ : ∀ a, Q a → R a)
    (h : RowsBecome C P rows later) (k : RowsBecome D Q later latest) : RowsBecome E R rows latest := by
  induction h generalizing latest with
  | nil h =>
    refine .nil ?_
    induction k with
    | nil k => exact fun r hr => hQ _ (k r hr)
    | cons k _ ih =>
      intro r hr
      rcases List.mem_cons.mp hr with rfl | hr
      · exact hP _ _ _ (h _ List.mem_cons_self) k
      · exact ih (fun r hr => h r (List.mem_cons_of_mem _ hr)) r hr
  | cons h _ ih =>
    cases k with
    | cons k rest => exact .cons (hD _ _ _ _ h k) (ih rest)

theorem find?_fst (h : RowsBecome C P rows later) {id : TypeId} {a : NamedType}
    (ha : rows.find? (·.1 == id) = some (id, a)) :
    ∃ b, later.find? (·.1 == id) = some (id, b) ∧ C id a b := by
  induction h with
  | nil h => simp at ha
  | @cons j c b rows later hg _ ih =>
    rw [List.find?_cons] at ha ⊢
    by_cases hj : j = id
    · subst hj
      simp only [beq_self_eq_true, Option.some.injEq, Prod.mk.injEq, true_and] at ha ⊢
      subst ha
      exact ⟨b, rfl, hg⟩
    · have hne : (j == id) = false := by simpa using hj
      simp only [hne] at ha ⊢
      exact ih ha

/-- A row that is first in a table with some property that the changes keep stays the first. -/
theorem find?_eq (h : RowsBecome C P rows later) {p : TypeId × NamedType → Bool}
    (hp : ∀ id a b, C id a b → p (id, b) = p (id, a)) {r : TypeId × NamedType}
    (hr : rows.find? p = some r) : ∃ b, later.find? p = some (r.1, b) := by
  induction h with
  | nil h => simp at hr
  | @cons j a b rows later hg _ ih =>
    rw [List.find?_cons] at hr ⊢
    rw [hp j a b hg]
    cases hpa : p (j, a) with
    | true =>
      simp only [hpa, Option.some.injEq] at hr
      subst hr
      exact ⟨b, rfl⟩
    | false =>
      simp only [hpa] at hr
      exact ih hr

theorem concat {id : TypeId} {a b : NamedType} (h : RowsBecome C (fun _ => False) rows later)
    (hab : C id a b) : RowsBecome C (fun _ => False) (rows ++ [(id, a)]) (later ++ [(id, b)]) := by
  induction h with
  | @nil added h =>
    cases added with
    | nil => exact .cons hab (.nil (by simp))
    | cons r _ => exact (h r List.mem_cons_self).elim
  | cons h _ ih => exact .cons h ih

theorem map_fst (h : RowsBecome C (fun _ => False) rows later) : later.map (·.1) = rows.map (·.1) := by
  induction h with
  | @nil added h =>
    cases added with
    | nil => rfl
    | cons r _ => exact (h r List.mem_cons_self).elim
  | cons h _ ih => rw [List.map_cons, List.map_cons, ih]

theorem of_mem (h : RowsBecome C (fun _ => False) rows later) {id : TypeId} {b : NamedType}
    (hb : (id, b) ∈ later) : ∃ a, (id, a) ∈ rows ∧ C id a b := by
  induction h with
  | nil h => exact (h _ hb).elim
  | cons h _ ih =>
    rcases List.mem_cons.mp hb with heq | hb
    · cases heq
      exact ⟨_, List.mem_cons_self, h⟩
    · obtain ⟨a, ha, hab⟩ := ih hb
      exact ⟨a, List.mem_cons_of_mem _ ha, hab⟩

theorem mem (h : RowsBecome C P rows later) {id : TypeId} {a : NamedType} (ha : (id, a) ∈ rows) :
    ∃ b, (id, b) ∈ later ∧ C id a b := by
  induction h with
  | nil h => cases ha
  | cons h _ ih =>
    rcases List.mem_cons.mp ha with heq | ha
    · cases heq
      exact ⟨_, List.mem_cons_self, h⟩
    · obtain ⟨b, hb, hab⟩ := ih ha
      exact ⟨b, List.mem_cons_of_mem _ hb, hab⟩

end RowsBecome

/-- The earlier rows, grown, and then any new ones. -/
abbrev RowsGrow : List (TypeId × NamedType) → List (TypeId × NamedType) → Prop :=
  RowsBecome (fun _ => NamedType.Grows) fun _ => True

theorem RowsGrow.append (rows added : List (TypeId × NamedType)) : RowsGrow rows (rows ++ added) :=
  RowsBecome.append (fun _ => .refl) fun _ _ => trivial

theorem RowsGrow.refl (rows : List (TypeId × NamedType)) : RowsGrow rows rows :=
  RowsBecome.refl (fun _ => .refl) rows

theorem RowsGrow.trans {rows later latest : List (TypeId × NamedType)} (h : RowsGrow rows later)
    (k : RowsGrow later latest) : RowsGrow rows latest :=
  RowsBecome.trans (fun _ _ _ _ h k => h.trans k) (fun _ _ _ _ _ => trivial) (fun _ h => h) h k

namespace Session

variable {s t u : Session}

theorem find?_of_named? {id : TypeId} {a : NamedType} :
    s.named? id = some a ↔ s.named.find? (·.1 == id) = some (id, a) := by
  unfold named?
  rw [Option.map_eq_some_iff]
  constructor
  · rintro ⟨⟨j, b⟩, hf, rfl⟩
    have hj : j = id := by simpa using List.find?_some hf
    rw [hf, hj]
  · intro h
    exact ⟨(id, a), h, rfl⟩

/-- Replacing one row, in a table without repeated ids. -/
theorem rowsBecome_replaceNamed {C : TypeId → NamedType → NamedType → Prop} {P : NamedType → Prop}
    {id : TypeId} {a b : NamedType} (hC : ∀ id a, C id a a) (hn : (s.named.map (·.1)).Nodup)
    (ha : s.named? id = some a) (hg : C id a b) : RowsBecome C P s.named (s.replaceNamed id b).named := by
  rw [find?_of_named?] at ha
  unfold replaceNamed
  dsimp only
  -- only the rows matter, and the induction is on them
  generalize s.named = rows at hn ha
  induction rows with
  | nil => exact .nil (by simp)
  | cons r rows ih =>
    obtain ⟨j, c⟩ := r
    rw [List.map_cons, List.nodup_cons] at hn
    rw [List.find?_cons] at ha
    rw [List.map_cons]
    by_cases hj : j = id
    · subst hj
      simp only [beq_self_eq_true, Option.some.injEq, Prod.mk.injEq, true_and] at ha
      subst ha
      have hrest : rows.map (fun x => if x.1 = j then (x.1, b) else (x.1, x.2)) = rows := by
        rw [List.map_congr_left (g := id)]
        · exact List.map_id rows
        · intro x hx
          have hne : x.1 ≠ j := by
            rintro rfl
            exact hn.1 (List.mem_map.mpr ⟨x, hx, rfl⟩)
          rw [if_neg hne]
          rfl
      simp only [if_true]
      rw [hrest]
      exact .cons hg (.refl hC rows)
    · have hne : (j == id) = false := by simpa using hj
      simp only [hne] at ha
      simp only [if_neg hj]
      exact .cons (hC j c) (ih hn.2 ha)

/-- A later session has all that an earlier one has, except that named types may have grown. -/
structure Grows (s t : Session) : Prop where
  namespaces : s.namespaces <+: t.namespaces
  files : s.files <+: t.files
  named : RowsGrow s.named t.named
  elements : s.elements <+: t.elements
  references : s.references <+: t.references
  usages : s.usages <+: t.usages
  globalNamespace : t.globalNamespace = s.globalNamespace

namespace Grows

theorem refl (s : Session) : s.Grows s :=
  ⟨List.prefix_rfl, List.prefix_rfl, .refl _, List.prefix_rfl, List.prefix_rfl, List.prefix_rfl, rfl⟩

theorem trans (h : s.Grows t) (k : t.Grows u) : s.Grows u :=
  ⟨h.namespaces.trans k.namespaces, h.files.trans k.files, h.named.trans k.named,
    h.elements.trans k.elements, h.references.trans k.references, h.usages.trans k.usages,
    k.globalNamespace.trans h.globalNamespace⟩

theorem findNamespace (h : s.Grows t) {name : String} {id : NamespaceId}
    (hn : s.findNamespace name = some id) : t.findNamespace name = some id := by
  obtain ⟨n, hf, rfl⟩ := Option.map_eq_some_iff.mp hn
  exact Option.map_eq_some_iff.mpr ⟨n, h.namespaces.find?_eq_some hf, rfl⟩

theorem sourceFile? (h : s.Grows t) {id : FileId} {f : SourceFile}
    (hf : s.sourceFile? id = some f) : t.sourceFile? id = some f :=
  h.files.find?_eq_some hf

theorem named? (h : s.Grows t) {id : TypeId} {a : NamedType} (ha : s.named? id = some a) :
    ∃ b, t.named? id = some b ∧ a.Grows b := by
  obtain ⟨b, hb, hg⟩ := h.named.find?_fst (find?_of_named?.mp ha)
  exact ⟨b, find?_of_named?.mpr hb, hg⟩

theorem documented? (h : s.Grows t) {id : TypeId} {d : Documented}
    (hd : s.named? id = some (.documented d)) :
    ∃ ps, t.named? id = some (.documented { d with parameters := ps }) := by
  obtain ⟨b, hb, hg⟩ := h.named? hd
  obtain ⟨ps, rfl⟩ := hg.documented
  exact ⟨ps, hb⟩

theorem parameter? (h : s.Grows t) {id : TypeId} {p : Parameter} (hp : s.named? id = some (.parameter p)) :
    t.named? id = some (.parameter p) := by
  obtain ⟨b, hb, hg⟩ := h.named? hp
  cases b with
  | parameter q => exact hb.trans (congrArg (some ∘ NamedType.parameter) hg.symm)
  | documented _ => exact hg.elim
  | external _ => exact hg.elim
  | tuple _ => exact hg.elim

theorem external? (h : s.Grows t) {id : TypeId} {x : External}
    (hx : s.named? id = some (.external x)) :
    ∃ names, t.named? id = some (.external { x with namespaces := names }) := by
  obtain ⟨b, hb, hg⟩ := h.named? hx
  obtain ⟨names, rfl, -⟩ := hg.external
  exact ⟨names, hb⟩

theorem findDocumented (h : s.Grows t) {name : String} {arity : Nat} {id : TypeId}
    (hf : s.findDocumented name arity = some id) : t.findDocumented name arity = some id := by
  obtain ⟨r, hr, rfl⟩ := Option.map_eq_some_iff.mp hf
  have hkeep : ∀ (j : TypeId) (a b : NamedType), a.Grows b →
      (b.documented?.any fun d => d.fullName == name && d.arity == arity) =
        a.documented?.any fun d => d.fullName == name && d.arity == arity := by
    intro j a b hg
    cases a with
    | documented d =>
      obtain ⟨ps, rfl⟩ := hg.documented
      rfl
    | external x =>
      obtain ⟨names, rfl, -⟩ := hg.external
      rfl
    | parameter p => cases b <;> first | rfl | exact hg.elim
    | tuple r => cases b <;> first | rfl | exact hg.elim
  obtain ⟨b, hb⟩ := h.named.find?_eq hkeep hr
  exact Option.map_eq_some_iff.mpr ⟨_, hb, rfl⟩

end Grows

theorem grows_addNamespace {name : String} {parent : Option NamespaceId} {id : NamespaceId}
    (h : s.addNamespace name parent = .ok (id, t)) : s.Grows t := by
  obtain ⟨-, rfl, rfl⟩ := addNamespace_ok h
  exact { Grows.refl s with namespaces := List.prefix_append _ _ }

theorem grows_ensureNamespace {name : String} {id : NamespaceId} (h : s.ensureNamespace name = .ok (id, t)) :
    s.Grows t :=
  ensureWithin_induction (fun _ _ _ _ _ hs h => hs.trans (grows_addNamespace h)) (.refl s) h

theorem grows_addSourceFile {path : Path} {usings : List NamespaceId} {id : FileId}
    (h : s.addSourceFile path usings = .ok (id, t)) : s.Grows t := by
  obtain ⟨-, rfl, rfl⟩ := addSourceFile_ok h
  exact { Grows.refl s with files := List.prefix_append _ _ }

theorem grows_addNamed {type : NamedType} {id : TypeId} (h : s.addNamed type = .ok (id, t)) :
    s.Grows t := by
  obtain ⟨-, rfl, rfl⟩ := addNamed_ok h
  exact { Grows.refl s with named := .append _ _ }

theorem grows_addTuple {name : String} {es : List NewElement} {id : TypeId}
    (h : s.addTuple name es = .ok (id, t)) : s.Grows t := by
  obtain ⟨-, -, rfl, rfl⟩ := addTuple_ok h
  exact { Grows.refl s with named := .append _ _, elements := List.prefix_append _ _ }

theorem grows_addReference {named : TypeId} {rank : Nat} {parent : Option ReferenceId}
    {id : ReferenceId} (h : s.addReference named rank parent = .ok (id, t)) : s.Grows t := by
  obtain ⟨-, rfl, rfl⟩ := addReference_ok h
  exact { Grows.refl s with references := List.prefix_append _ _ }

theorem grows_addUsage {owner : TypeId} {reference : ReferenceId} {role : Role}
    {member : Option String} {id : UsageId} (h : s.addUsage owner reference role member = .ok (id, t)) :
    s.Grows t := by
  obtain ⟨-, rfl, rfl⟩ := addUsage_ok h
  exact { Grows.refl s with usages := List.prefix_append _ _ }

theorem grows_ensureParameters (hs : s.Numbered) {id : TypeId} {ps : List TypeParameter}
    (h : s.ensureParameters id = .ok (ps, t)) : s.Grows t := by
  obtain ⟨d, hd, ⟨-, rfl⟩ | ⟨hp, -, -, rfl⟩⟩ := ensureParameters_ok h
  · exact .refl _
  · exact { Grows.refl s with named := rowsBecome_replaceNamed (fun _ => .refl) hs.named.nodup hd ⟨rfl, .inl hp⟩ }

theorem grows_save {n : Nat} (h : s.save = .ok (n, t)) : s.Grows t := by
  obtain ⟨-, rfl⟩ | ⟨-, rfl⟩ | ⟨store, changes, database, -, -, -, -, rfl⟩ := save_ok h
  · exact .refl _
  · exact { Grows.refl s with }
  · exact { Grows.refl s with }

end Session

theorem Session.grows_extendExternal {s t : Session} (hs : s.Numbered) {id : TypeId}
    {names : List String} {n : Nat} (h : s.extendExternal id names = .ok (n, t)) : s.Grows t := by
  obtain ⟨x, hx, -, rfl⟩ := extendExternal_ok h
  refine { Grows.refl s with
    named := rowsBecome_replaceNamed (fun _ => .refl) hs.named.nodup hx ⟨rfl, ?_⟩ }
  intro m hm
  exact NameSet.mem_foldl_insert.mpr (.inr hm)

end TypeCatalog
