import Mathlib.Data.List.Chain
import Mathlib.Data.List.Perm.Subperm
import TypeCatalog.Proofs.Nesting
import TypeCatalog.Proofs.Visibility

namespace TypeCatalog

/-- The rows that a loop goes through which reads the row of an id and follows its link, until a row links to none. -/
inductive Climbs {e : Entity} {α : Type} (Row : RowId e → α → Prop) (next : α → Option (RowId e)) :
    Option (RowId e) → List α → Prop
  | done : Climbs Row next none []
  | step {i : RowId e} {a : α} {rest : List α} (hrow : Row i a) (hrest : Climbs Row next (next a) rest) :
      Climbs Row next (some i) (a :: rest)

section

variable {e : Entity} {α β : Type} {Row : RowId e → α → Prop} {next : α → Option (RowId e)}
  {start : Option (RowId e)} {rows : List α} {i : RowId e} {a : α}

/-- Every link leads to an older row. -/
def LinksBack (Row : RowId e → α → Prop) (next : α → Option (RowId e)) : Prop :=
  ∀ i a, Row i a → ∀ j, next a = some j → j.value < i.value ∧ ∃ b, Row j b

theorem LinksBack.exists_climbs (h : LinksBack Row next) (ha : Row i a) :
    ∃ rest, Climbs Row next (some i) (a :: rest) := by
  induction hvalue : i.value using Nat.strong_induction_on generalizing i a with
  | _ n ih =>
    cases hnext : next a with
    | none => exact ⟨[], .step ha (hnext ▸ .done)⟩
    | some j =>
      obtain ⟨hlt, b, hb⟩ := h i a ha j hnext
      obtain ⟨rest, hrest⟩ := ih j.value (hvalue ▸ hlt) hb rfl
      exact ⟨b :: rest, .step ha (hnext ▸ hrest)⟩

namespace Climbs

theorem forall_mem {P : α → Prop} (h : Climbs Row next start rows) (hP : ∀ i a, Row i a → P a) : ∀ a ∈ rows, P a := by
  induction h with
  | done => simp
  | step hrow _ ih => exact List.forall_mem_cons.mpr ⟨hP _ _ hrow, ih⟩

theorem map {Row' : RowId e → β → Prop} {f : β → Option (RowId e)} {g : α → β} (h : Climbs Row next start rows)
    (hrow : ∀ i a, Row i a → Row' i (g a)) (hnext : ∀ a, f (g a) = next a) :
    Climbs Row' f start (rows.map g) := by
  induction h with
  | done => exact .done
  | step ha _ ih => exact .step (hrow _ _ ha) (hnext _ ▸ ih)

variable {id : α → RowId e}

/-- No row is visited twice, since the links lead from row to older row. -/
theorem nodup (h : Climbs Row next start rows) (hback : LinksBack Row next) (hid : ∀ i a, Row i a → id a = i) :
    (rows.map id).Nodup := by
  have hdescends : rows.Pairwise (fun a b => (id b).value < (id a).value) ∧
      ∀ i, start = some i → ∀ a ∈ rows, (id a).value ≤ i.value := by
    induction h with
    | done => exact ⟨.nil, by simp⟩
    | @step i a rest hrow hrest ih =>
      have hlt : ∀ b ∈ rest, (id b).value < (id a).value := by
        intro b hb
        cases hnext : next a with
        | none =>
          rw [hnext] at hrest
          cases hrest
          cases hb
        | some j =>
          rw [hid i a hrow]
          exact Nat.lt_of_le_of_lt (ih.2 j hnext b hb) (hback i a hrow j hnext).1
      refine ⟨List.pairwise_cons.mpr ⟨hlt, ih.1⟩, ?_⟩
      rintro _ ⟨⟩
      rw [← hid i a hrow]
      exact List.forall_mem_cons.mpr ⟨Nat.le_refl _, fun b hb => Nat.le_of_lt (hlt b hb)⟩
  refine List.pairwise_map.mpr (hdescends.1.imp ?_)
  intro a b hlt heq
  rw [heq] at hlt
  exact Nat.lt_irrefl _ hlt

/-- So there are no more of them than the table has. -/
theorem length_le {table : List (RowId e)} (h : Climbs Row next start rows) (hback : LinksBack Row next)
    (hid : ∀ i a, Row i a → id a = i) (htable : ∀ i a, Row i a → i ∈ table) : rows.length ≤ table.length := by
  have hsubset : rows.map id ⊆ table := by
    intro i hi
    obtain ⟨a, ha, rfl⟩ := List.mem_map.mp hi
    exact h.forall_mem (P := fun a => id a ∈ table) (fun i a hrow => hid i a hrow ▸ htable i a hrow) a ha
  have hle := (List.subperm_of_subset (h.nodup hback hid) hsubset).length_le
  rwa [List.length_map] at hle

end Climbs

end

/-- The row of a documented type, with all that was declared. -/
def Contents.Documents (c : Contents) (i : TypeId) (r : TypeId × Documented) : Prop :=
  r.1 = i ∧ (i, .documented r.2) ∈ c.named

/-- The same row as a session shows it. -/
def Session.Documents (s : Session) (i : TypeId) (r : TypeId × Documented) : Prop :=
  r.1 = i ∧ s.named? i = some (.documented r.2)

namespace Session

open Dotted

variable {s t : Session} {c f : Contents} {name : String}

/-! Namespaces -/

theorem id_of_namespace? {i : NamespaceId} {n : Namespace} (h : s.namespace? i = some n) : n.id = i := by
  simpa using List.find?_some h

theorem chainFrom_of_climbs {start : Option NamespaceId} {rows : List Namespace}
    (h : Climbs (fun i n => s.namespace? i = some n) (·.parent) start rows) {k : Nat} (hk : rows.length ≤ k) :
    s.chainFrom k start = .ok (rows.map fun n => .ofNamespace n.name n.id) := by
  induction h generalizing k with
  | done => cases k <;> rfl
  | @step i n rest hrow _ ih =>
    obtain ⟨k, rfl⟩ := Nat.exists_eq_succ_of_ne_zero (Nat.ne_zero_of_lt hk)
    unfold chainFrom
    rw [hrow]
    dsimp only
    rw [ih (Nat.le_of_succ_le_succ hk), ← id_of_namespace? hrow]
    rfl

/-- Every namespace stands in the one whose name is the text before the last dot, and this is an older row. -/
structure Ascending (s : Session) : Prop where
  root : ∀ i n, s.namespace? i = some n → n.name = "" → n.parent = none
  parent : ∀ i n, s.namespace? i = some n → n.name ≠ "" → ∃ j m, n.parent = some j ∧ s.namespace? j = some m ∧
    m.name = parent n.name ∧ j.value < i.value

theorem Ascending.linksBack (h : s.Ascending) : LinksBack (fun i n => s.namespace? i = some n) (·.parent) := by
  intro i n hn j hj
  have hj : n.parent = some j := hj
  have hne : n.name ≠ "" := by
    intro hempty
    rw [h.root i n hn hempty] at hj
    cases hj
  obtain ⟨k, m, hparent, hm, -, hlt⟩ := h.parent i n hn hne
  rw [hparent] at hj
  cases hj
  exact ⟨hlt, m, hm⟩

theorem Ascending.exists_climbs (h : s.Ascending) {i : NamespaceId} {n : Namespace} (hn : s.namespace? i = some n) :
    ∃ rest, Climbs (fun i n => s.namespace? i = some n) (·.parent) (some i) (n :: rest) ∧
      ((n :: rest).map (·.id)).Nodup ∧ (n :: rest).length ≤ s.namespaces.length := by
  obtain ⟨rest, hclimbs⟩ := h.linksBack.exists_climbs hn
  have hid : ∀ i n, s.namespace? i = some n → n.id = i := fun _ _ => id_of_namespace?
  have htable : ∀ i n, s.namespace? i = some n → i ∈ s.namespaces.map (·.id) := by
    intro i n hn
    rw [← id_of_namespace? hn]
    exact List.mem_map_of_mem (List.mem_of_find?_eq_some hn)
  have hlength := hclimbs.length_le h.linksBack hid htable
  rw [List.length_map] at hlength
  exact ⟨rest, hclimbs, hclimbs.nodup h.linksBack hid, hlength⟩

theorem Ascending.names (h : s.Ascending) {start : Option NamespaceId} {rows : List Namespace}
    (hc : Climbs (fun i n => s.namespace? i = some n) (·.parent) start rows) :
    ∀ n ∈ rows.head?, rows.map (·.name) = ascent n.name := by
  induction hc with
  | done => simp
  | @step i n rest hrow hrest ih =>
    rintro _ ⟨⟩
    rw [List.map_cons]
    by_cases hname : n.name = ""
    · rw [h.root i n hrow hname] at hrest
      cases hrest
      rw [hname, ascent_empty]
      rfl
    · obtain ⟨j, m, hparent, hm, hmname, -⟩ := h.parent i n hrow hname
      rw [hparent] at hrest
      cases hrest with
      | step hrow' hrest' =>
        rw [hm] at hrow'
        cases hrow'
        rw [ih m rfl, ascent_of_ne hname, hmname]

theorem isChain_ascent (name : String) :
    (ascent name).IsChain fun inner outer => inner ≠ "" ∧ outer = (outer? inner).getD "" := by
  by_cases h : name = ""
  · rw [h, ascent_empty]
    exact .singleton _
  · have := length_parent_lt h
    have hrest := isChain_ascent (parent name)
    rw [ascent_of_ne h]
    refine List.isChain_cons.mpr ⟨?_, hrest⟩
    rintro _ ⟨⟩
    exact ⟨h, rfl⟩
termination_by name.length

theorem getLast?_ascent (name : String) : (ascent name).getLast? = some "" := by
  by_cases h : name = ""
  · rw [h, ascent_empty]
    rfl
  · have := length_parent_lt h
    have hrest := getLast?_ascent (parent name)
    rw [ascent_of_ne h, List.getLast?_cons, hrest]
    rfl
termination_by name.length

theorem Populated.ascending (h : s.Populated) : s.Ascending := by
  obtain ⟨c, f, hf⟩ := h.seated
  obtain ⟨hroot, c', f', ho⟩ := h.arises.orderly
  constructor
  · intro i n hn
    exact hf.nested.root n (hf.namespaces ▸ List.mem_of_find?_eq_some hn)
  · exact (ho.integral hroot).parent

/-! Documented types -/

theorem containersFrom_of_climbs {start : Option TypeId} {rows : List (TypeId × Documented)}
    (h : Climbs s.Documents (·.2.container) start rows) {k : Nat} (hk : rows.length ≤ k) :
    s.containersFrom k start = .ok rows := by
  induction h generalizing k with
  | done => cases k <;> rfl
  | @step i r rest hrow _ ih =>
    obtain ⟨rfl, hrow⟩ := hrow
    obtain ⟨k, rfl⟩ := Nat.exists_eq_succ_of_ne_zero (Nat.ne_zero_of_lt hk)
    unfold containersFrom
    rw [documented_ok.mpr hrow, ok_bind]
    rw [ih (Nat.le_of_succ_le_succ hk)]
    rfl

theorem Seated.linksBack (h : s.Seated c f) : LinksBack s.Documents (·.2.container) := by
  rintro _ ⟨i, d⟩ ⟨rfl, hd⟩ j hj
  obtain ⟨ps, hmem, -⟩ := h.documented_mem hd
  obtain ⟨hlt, e, he⟩ := h.nested.container _ _ hmem j hj
  obtain ⟨e, he⟩ := isDocumented_iff.mp (h.isDocumented_iff.mpr ⟨e, he⟩)
  exact ⟨hlt, (j, e), rfl, he⟩

theorem Seated.exists_climbs (h : s.Seated c f) {i : TypeId} {d : Documented}
    (hd : s.named? i = some (.documented d)) :
    ∃ rest, Climbs s.Documents (·.2.container) (some i) ((i, d) :: rest) ∧
      (((i, d) :: rest).map (·.1)).Nodup ∧ ((i, d) :: rest).length ≤ s.named.length := by
  obtain ⟨rest, hclimbs⟩ := h.linksBack.exists_climbs (a := (i, d)) ⟨rfl, hd⟩
  have hid : ∀ i r, s.Documents i r → r.1 = i := fun _ _ hr => hr.1
  have htable : ∀ i r, s.Documents i r → i ∈ s.named.map (·.1) := by
    rintro _ ⟨i, e⟩ ⟨rfl, he⟩
    exact List.mem_map_of_mem (h.named?_eq.mp he)
  have hlength := hclimbs.length_le h.linksBack hid htable
  rw [List.length_map] at hlength
  exact ⟨rest, hclimbs, hclimbs.nodup h.linksBack hid, hlength⟩

theorem Seated.home (h : s.Seated c f) {i : TypeId} {d : Documented} (hd : s.named? i = some (.documented d)) :
    ∃ n, s.namespace? d.home = some n := by
  obtain ⟨ps, hmem, -⟩ := h.documented_mem hd
  obtain ⟨n, hn, hid⟩ := List.mem_map.mp (h.nested.home _ _ hmem)
  refine ⟨n, ?_⟩
  unfold namespace?
  rw [h.namespaces, ← hid]
  exact find?_of_nodup h.sound.namespaces.nodup hn

/-- The type parameters that a documented type is found to have. -/
def parametersOf (s : Session) (i : TypeId) : List TypeParameter :=
  ((s.ensureParameters i).toOption.map (·.1)).getD []

/-- What a search for a type parameter finds in these types, one after the other. -/
def firstParameter (parameters : TypeId × Documented → List TypeParameter) (name : String)
    (rows : List (TypeId × Documented)) : Option Target :=
  rows.findSome? fun r => ((parameters r).find? (·.name == name)).map fun p => .parameter r.1 p.ordinal p.name

theorem firstParameter_cons {parameters : TypeId × Documented → List TypeParameter} {r : TypeId × Documented}
    {rest : List (TypeId × Documented)} :
    firstParameter parameters name (r :: rest) =
      (((parameters r).find? (·.name == name)).map fun p => .parameter r.1 p.ordinal p.name).or
        (firstParameter parameters name rest) := by
  unfold firstParameter
  rw [List.findSome?_cons]
  cases (parameters r).find? (·.name == name) <;> rfl

/-- The type parameters of every type can be read, and are those that it was declared with. -/
theorem Seated.ensureParameters_ok (h : s.Seated c f) {i : TypeId} {d : Documented}
    (hd : (i, .documented d) ∈ f.named) :
    ∃ t, s.ensureParameters i = .ok (s.parametersOf i, t) ∧ t.Seated c f ∧
      d.parameters = some (s.parametersOf i) ∧ (s.parametersOf i).length = d.arity := by
  obtain ⟨e, he⟩ := isDocumented_iff.mp (h.isDocumented_iff.mpr ⟨d, hd⟩)
  obtain ⟨ps, t, ht, hl, hmem⟩ := h.toLedger.ensureParameters he
  have hps : s.parametersOf i = ps := by
    unfold parametersOf
    rw [ht]
    rfl
  have hde := h.sound.named.unique hd hmem
  obtain ⟨qs, hqs, hord⟩ := h.sound.documented i d hd
  cases hde
  cases hqs
  refine ⟨t, hps ▸ ht, { hl with storedNested := h.storedNested, nested := h.nested }, by rw [hps], ?_⟩
  rw [hps]
  simpa using congrArg List.length hord

open Act Find in
/-- The search for a type parameter comes to its end, whether it finds one or not. Reading type parameters changes the
session, but not what is declared. -/
theorem Seated.leads_parameterFrom {s : Session} (h : s.Seated c f) (name : String) {start : Option TypeId}
    {rows : List (TypeId × Documented)} (hc : Climbs f.Documents (·.2.container) start rows) {k : Nat}
    (hk : rows.length ≤ k) :
    (parameterFrom name k start).Leads s (fun x _ => x = firstParameter (·.2.parameters.getD []) name rows)
      fun _ _ => False := by
  -- the induction is on the way up; the session changes on it, since a type loads its parameters when it is asked
  induction hc generalizing s k with
  | done => cases k <;> exact leads_pure rfl
  | @step _ r rest hrow _ ih =>
    obtain ⟨i, d⟩ := r
    obtain ⟨rfl, hrow⟩ := hrow
    obtain ⟨k, rfl⟩ := Nat.exists_eq_succ_of_ne_zero (Nat.ne_zero_of_lt hk)
    obtain ⟨e, he⟩ := isDocumented_iff.mp (h.isDocumented_iff.mpr ⟨d, hrow⟩)
    obtain ⟨t, ht, hseated, hps, hlength⟩ := h.ensureParameters_ok hrow
    obtain ⟨qs, hmem, -⟩ := h.documented_mem he
    cases h.sound.named.unique hrow hmem
    obtain rfl : qs = s.parametersOf i := Option.some.inj hps
    rw [firstParameter_cons]
    dsimp only [Option.getD_some]
    unfold parameterFrom
    refine leads_bind (leads_query ?_ ?_)
    · intro x hx
      rw [documented_ok.mpr he] at hx
      cases hx
      dsimp only
      split
      · refine leads_bind (leads_perform ?_ ?_)
        · intro ps u hu
          rw [ht] at hu
          cases hu
          split
          · next p hp =>
            rw [hp]
            exact leads_pure rfl
          · next hp =>
            rw [hp]
            exact ih hseated (Nat.le_of_succ_le_succ hk)
        · intro x hx
          rw [ht] at hx
          cases hx
      · next hnone =>
        have harity : (s.parametersOf i).length = e.arity := hlength
        rw [List.eq_nil_of_length_eq_zero (l := s.parametersOf i) (by omega)]
        exact leads_bind (leads_pure (ih h (Nat.le_of_succ_le_succ hk)))
    · intro x hx
      rw [documented_ok.mpr he] at hx
      cases hx

theorem Seated.documents_loaded (h : s.Seated c f) {i : TypeId} {r : TypeId × Documented} (hr : s.Documents i r) :
    f.Documents i (r.1, { r.2 with parameters := some (s.parametersOf r.1) }) := by
  obtain ⟨rfl, hd⟩ := hr
  obtain ⟨ps, hmem, -⟩ := h.documented_mem hd
  obtain ⟨-, -, -, hps, -⟩ := h.ensureParameters_ok hmem
  exact ⟨rfl, hps ▸ hmem⟩

/-- Walks over scopes come to their end and find every row that they look for. From a namespace they go through the
namespaces whose names are the texts before its dots, one after the other, and then the global one. From a type they go
through the types around it, none of them twice, and a search for a type parameter ends at the first of these types
that has it. The bounds on the number of steps make no difference. -/
theorem Populated.scopes_climb (h : s.Populated) :
    (∀ name i, s.findNamespace name = some i → ∃ rows cs,
      Climbs (fun i n => s.namespace? i = some n) (·.parent) (some i) rows ∧ (rows.map (·.id)).Nodup ∧
      cs = rows.map (fun n => .ofNamespace n.name n.id) ∧
      (∀ k, rows.length ≤ k → s.chainFrom k (some i) = .ok cs) ∧ s.namespaceChain i = .ok cs ∧
      (Context.labels cs).head? = some name ∧
      (Context.labels cs).IsChain (fun inner outer => inner ≠ "" ∧ outer = (outer? inner).getD "") ∧
      (Context.labels cs).getLast? = some "" ∧ (Context.labels cs).count "" = 1) ∧
    ∀ i, s.isDocumented i = true → ∃ rows,
      Climbs s.Documents (·.2.container) (some i) rows ∧ (rows.map (·.1)).Nodup ∧ rows.length ≤ s.named.length ∧
      (∀ k, rows.length ≤ k → s.containersFrom k (some i) = .ok rows) ∧ s.containers i = .ok rows ∧
      (∃ outermost chain, rows.getLast? = some outermost ∧ s.namespaceChain outermost.2.home = .ok chain ∧
        s.visibleFrom i = .ok (Context.merge (rows.map fun r => .ofType r.2.fullName r.1) chain)) ∧
      (∀ r ∈ rows, ∃ t, s.ensureParameters r.1 = .ok (s.parametersOf r.1, t)) ∧
      ∀ name k, rows.length ≤ k → ((Find.parameterFrom name k (some i)).outcome s).1 =
        .ok (firstParameter (s.parametersOf ·.1) name rows) := by
  have hascending := h.ascending
  obtain ⟨c, f, hf⟩ := h.seated
  constructor
  · intro name i hi
    obtain ⟨n, hn, rfl, rfl⟩ := mem_of_findNamespace hi
    have hrow : s.namespace? n.id = some n := find?_of_nodup hf.numbered.namespaces.nodup hn
    obtain ⟨rest, hclimbs, hnodup, hlength⟩ := hascending.exists_climbs hrow
    have hlabels : Context.labels ((n :: rest).map fun n => .ofNamespace n.name n.id) = ascent n.name := by
      rw [← hascending.names hclimbs n rfl]
      exact List.map_map
    refine ⟨n :: rest, _, hclimbs, hnodup, rfl, fun k hk => chainFrom_of_climbs hclimbs hk,
      chainFrom_of_climbs hclimbs (Nat.le_succ_of_le hlength), rfl, ?_, ?_, ?_⟩
    · exact hlabels ▸ isChain_ascent n.name
    · rw [hlabels, getLast?_ascent]
    · rw [hlabels]
      exact List.count_eq_one_of_mem (nodup_ascent n.name) (empty_mem_ascent n.name)
  · intro i hi
    obtain ⟨d, hd⟩ := isDocumented_iff.mp hi
    obtain ⟨rest, hclimbs, hnodup, hlength⟩ := hf.exists_climbs hd
    have hcontainers : s.containers i = .ok _ := containersFrom_of_climbs hclimbs (Nat.le_succ_of_le hlength)
    refine ⟨(i, d) :: rest, hclimbs, hnodup, hlength, fun k hk => containersFrom_of_climbs hclimbs hk, hcontainers,
      ?_, ?_, ?_⟩
    · obtain ⟨outermost, hlast⟩ : ∃ r, ((i, d) :: rest).getLast? = some r := ⟨_, List.getLast?_cons⟩
      obtain ⟨_, -, hrow⟩ := hclimbs.forall_mem (P := fun r => ∃ i, s.Documents i r) (fun i _ hr => ⟨i, hr⟩) outermost
        (List.mem_of_getLast? hlast)
      obtain ⟨n, hn⟩ := hf.home hrow
      obtain ⟨above, habove, -, hbound⟩ := hascending.exists_climbs hn
      have hchain : s.namespaceChain outermost.2.home = .ok _ := chainFrom_of_climbs habove (Nat.le_succ_of_le hbound)
      refine ⟨outermost, _, hlast, hchain, ?_⟩
      unfold visibleFrom
      rw [hcontainers, ok_bind]
      dsimp only
      rw [hlast]
      dsimp only
      rw [hchain]
      rfl
    · refine hclimbs.forall_mem fun _ r hr => ?_
      obtain ⟨t, ht, -⟩ := hf.ensureParameters_ok (hf.documents_loaded hr).2
      exact ⟨t, hr.1 ▸ ht⟩
    · intro name k hk
      have hloaded := hclimbs.map (f := (·.2.container)) (fun _ _ hr => hf.documents_loaded hr) fun _ => rfl
      have hsearch := hf.leads_parameterFrom name hloaded (k := k) (by rwa [List.length_map])
      have hsame : firstParameter (·.2.parameters.getD []) name (((i, d) :: rest).map fun r =>
          (r.1, { r.2 with parameters := some (s.parametersOf r.1) })) =
            firstParameter (s.parametersOf ·.1) name ((i, d) :: rest) := List.findSome?_map
      rw [hsame] at hsearch
      unfold Act.Leads at hsearch
      generalize (Find.parameterFrom name k (some i)).outcome s = r at hsearch ⊢
      rcases r with ⟨x | x, t⟩
      · exact hsearch.elim
      · exact congrArg Except.ok hsearch

end Session

namespace Sample

/-- The session with the types of `twofold` and the namespaces `.A.`, `.A` and the global one. -/
def steep : Session := left (((Request.catalog twofold).run memory).2.ensureNamespace ".A.")

theorem populated_steep : steep.Populated := by
  have hcatalogued : ((Request.catalog twofold).run memory).2.Populated :=
    (Session.Worked.request (.inMemory inMemory_eq) (r := .catalog twofold) trivial).populated
  have hadded : ((Request.catalog twofold).run memory).2.ensureNamespace ".A." = .ok (⟨3⟩, steep) := by decide +kernel
  refine hcatalogued.mutate (.ensureNamespace hadded) fun id hid => ?_
  unfold Session.isDocumented at hid ⊢
  rwa [Session.named?_ensureNamespace hadded] at hid

/-- The namespace `.A.` stands in `.A`, and `Item` in `Outer<S,T>`. -/
theorem scopes_climb_steep :
    steep.findNamespace ".A." = some ⟨3⟩ ∧ steep.isDocumented ⟨4⟩ = true ∧
      (∃ cs, steep.namespaceChain ⟨3⟩ = .ok cs ∧ (Context.labels cs).head? = some ".A." ∧
        (Context.labels cs).count "" = 1) ∧
      ∃ rows, steep.containers ⟨4⟩ = .ok rows ∧ (rows.map (·.1)).Nodup := by
  have hspace : steep.findNamespace ".A." = some ⟨3⟩ := by decide +kernel
  have htype : steep.isDocumented ⟨4⟩ = true := by decide +kernel
  obtain ⟨hspaces, htypes⟩ := populated_steep.scopes_climb
  obtain ⟨_, cs, -, -, -, -, hchain, hhead, -, -, hcount⟩ := hspaces _ _ hspace
  obtain ⟨rows, -, hnodup, -, -, hcontainers, -⟩ := htypes _ htype
  exact ⟨hspace, htype, ⟨cs, hchain, hhead, hcount⟩, rows, hcontainers, hnodup⟩

end Sample

end TypeCatalog
