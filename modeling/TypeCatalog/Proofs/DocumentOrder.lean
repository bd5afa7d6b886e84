import TypeCatalog.Proofs.Cataloguing
import TypeCatalog.Proofs.Sites

namespace TypeCatalog

/-! Addresses -/

mutual

/-- The addresses of a node and its named descendants, each before those below it. An address tells, level by level,
which of the named children leads on. -/
def Node.addresses : Node → List (List Nat)
  | .mk _ cs => [] :: Node.addressesFrom 0 cs

/-- The addresses below children of which the first named one is the child `i`. -/
def Node.addressesFrom (i : Nat) : List Node → List (List Nat)
  | [] => []
  | n :: ns =>
    if n.info.named then n.addresses.map (i :: ·) ++ Node.addressesFrom (i + 1) ns else Node.addressesFrom i ns

end

namespace Cursor

/-- The named descendant at an address. -/
def at? (c : Cursor) : List Nat → Option Cursor
  | [] => some c
  | i :: path => c.namedChildren[i]?.bind (·.at? path)

end Cursor

namespace Node

open Cursor

mutual

theorem map_at?_addresses (n : Node) (above : List Node) :
    n.addresses.map (at? ⟨n, above⟩) = (n.preorder above).map some := by
  match n with
  | .mk i cs =>
    unfold addresses preorder
    rw [List.map_cons, List.map_cons]
    exact congrArg (_ :: ·) (map_at?_addressesFrom cs ⟨.mk i cs, above⟩ [] rfl)

theorem map_at?_addressesFrom (cs : List Node) (c : Cursor) (before : List Cursor)
    (h : c.namedChildren = before ++ (cs.map c.child).filter (·.node.info.named)) :
    (addressesFrom before.length cs).map c.at? = (preorderAll c.trail cs).map some := by
  -- `before` are the named children that were passed, so their number is the index of the next one
  match cs with
  | [] =>
    unfold addressesFrom preorderAll
    rfl
  | n :: ns =>
    unfold addressesFrom preorderAll
    have hnamed : (c.child n).node.info.named = n.info.named := rfl
    rw [List.map_cons, List.filter_cons, hnamed] at h
    split
    · next hn =>
      rw [if_pos hn] at h
      have hself : c.namedChildren[before.length]? = some (c.child n) := by
        rw [h, List.getElem?_append_right (Nat.le_refl _), Nat.sub_self]
        rfl
      have hbelow (path : List Nat) : c.at? (before.length :: path) = (c.child n).at? path := by
        rw [at?, hself]
        rfl
      have hrest := map_at?_addressesFrom ns c (before ++ [c.child n]) (by rw [h, List.append_assoc]; rfl)
      rw [List.length_append, List.length_singleton] at hrest
      rw [List.map_append, List.map_append, hrest, List.map_map]
      congr 1
      calc n.addresses.map (c.at? ∘ (before.length :: ·))
          = n.addresses.map (at? ⟨n, c.trail⟩) := List.map_congr_left fun path _ => hbelow path
        _ = (n.preorder c.trail).map some := map_at?_addresses n c.trail
    · next hn =>
      rw [if_neg hn] at h
      exact map_at?_addressesFrom ns c before h

end

mutual

theorem pairwise_addresses (n : Node) : n.addresses.Pairwise (· < ·) := by
  match n with
  | .mk i cs =>
    unfold addresses
    obtain ⟨hsorted, hheads⟩ := pairwise_addressesFrom cs 0
    refine .cons (fun path hpath => ?_) hsorted
    obtain ⟨j, rest, -, rfl⟩ := hheads path hpath
    exact List.nil_lt_cons j rest

theorem pairwise_addressesFrom (cs : List Node) (i : Nat) :
    (addressesFrom i cs).Pairwise (· < ·) ∧ ∀ path ∈ addressesFrom i cs, ∃ j rest, i ≤ j ∧ path = j :: rest := by
  match cs with
  | [] =>
    unfold addressesFrom
    exact ⟨.nil, fun _ h => absurd h List.not_mem_nil⟩
  | n :: ns =>
    unfold addressesFrom
    split
    · obtain ⟨hsorted, hheads⟩ := pairwise_addressesFrom ns (i + 1)
      have hfirst : (n.addresses.map (i :: ·)).Pairwise (· < ·) :=
        (pairwise_addresses n).map _ fun p q hpq => List.cons_lt_cons_iff.mpr (.inr ⟨rfl, hpq⟩)
      refine ⟨List.pairwise_append.mpr ⟨hfirst, hsorted, ?_⟩, ?_⟩
      · intro p hp q hq
        obtain ⟨rest, -, rfl⟩ := List.mem_map.mp hp
        obtain ⟨j, rest', hj, rfl⟩ := hheads q hq
        exact List.cons_lt_cons_iff.mpr (.inl hj)
      · intro p hp
        rcases List.mem_append.mp hp with hp | hp
        · obtain ⟨rest, -, rfl⟩ := List.mem_map.mp hp
          exact ⟨i, rest, Nat.le_refl i, rfl⟩
        · obtain ⟨j, rest, hj, rfl⟩ := hheads p hp
          exact ⟨j, rest, Nat.le_of_succ_le hj, rfl⟩
    · exact pairwise_addressesFrom ns i

end

theorem mem_addressesFrom {cs : List Node} {i j : Nat} {n : Node} {path : List Nat}
    (hn : (cs.filter (·.info.named))[j]? = some n) (hpath : path ∈ n.addresses) :
    (i + j) :: path ∈ addressesFrom i cs := by
  induction cs generalizing i j with
  | nil => cases hn
  | cons m ns ih =>
    unfold addressesFrom
    rw [List.filter_cons] at hn
    split at hn
    · next hm =>
      rw [if_pos hm]
      cases j with
      | zero =>
        cases hn
        exact List.mem_append_left _ (List.mem_map_of_mem hpath)
      | succ j =>
        have hmem := ih (i := i + 1) hn
        rw [Nat.add_right_comm] at hmem
        exact List.mem_append_right _ hmem
    · next hm =>
      rw [if_neg hm]
      exact ih hn

mutual

theorem findDescendant_eq (p : Cursor → Bool) (above : List Node) (n : Node) :
    n.findDescendant p above = (n.preorder above).find? p := by
  match n with
  | .mk i cs =>
    unfold findDescendant preorder
    rw [List.find?_cons, findAmong_eq p (.mk i cs :: above) cs]
    split
    · next h => rw [h]
    · next h => rw [Bool.eq_false_iff.mpr h]

theorem findAmong_eq (p : Cursor → Bool) (above : List Node) (ns : List Node) :
    findAmong p above ns = (preorderAll above ns).find? p := by
  match ns with
  | [] =>
    unfold findAmong preorderAll
    rfl
  | n :: ns =>
    unfold findAmong preorderAll
    have hfirst : (if n.info.named then n.findDescendant p above else none) =
        (if n.info.named then n.preorder above else []).find? p := by
      split
      · exact findDescendant_eq p above n
      · rfl
    rw [hfirst, List.find?_append, findAmong_eq p above ns]
    cases (if n.info.named then n.preorder above else []).find? p <;> rfl

end

end Node

namespace Cursor

variable {c d : Cursor} {path : List Nat}

def addresses (c : Cursor) : List (List Nat) := c.node.addresses

theorem map_at?_addresses (c : Cursor) : c.addresses.map c.at? = c.preorder.map some :=
  Node.map_at?_addresses c.node c.ancestors

theorem pairwise_addresses (c : Cursor) : c.addresses.Pairwise (· < ·) := Node.pairwise_addresses c.node

theorem mem_addresses (h : c.at? path = some d) : path ∈ c.addresses := by
  induction path generalizing c with
  | nil =>
    obtain ⟨⟨i, cs⟩, above⟩ := c
    unfold addresses Node.addresses
    exact List.mem_cons_self
  | cons i path ih =>
    obtain ⟨e, he, hbelow⟩ := Option.bind_eq_some_iff.mp h
    have hpath := ih hbelow
    obtain ⟨⟨info, cs⟩, above⟩ := c
    have hchildren : namedChildren ⟨.mk info cs, above⟩ =
        (cs.filter (·.info.named)).map (child ⟨.mk info cs, above⟩) := List.filter_map
    rw [hchildren, List.getElem?_map] at he
    obtain ⟨n, hn, rfl⟩ := Option.map_eq_some_iff.mp he
    have hmem := Node.mem_addressesFrom (i := 0) hn hpath
    rw [Nat.zero_add] at hmem
    unfold addresses Node.addresses
    exact List.mem_cons_of_mem _ hmem

/-- The addresses of the nodes that a property holds of. -/
def placesOf (p : Cursor → Bool) (c : Cursor) : List (List Nat) := c.addresses.filter fun path => (c.at? path).any p

theorem mem_placesOf {p : Cursor → Bool} : path ∈ c.placesOf p ↔ ∃ d, c.at? path = some d ∧ p d = true := by
  unfold placesOf
  rw [List.mem_filter, Option.any_eq_true]
  constructor
  · exact fun h => h.2
  · rintro ⟨d, hd, hp⟩
    exact ⟨mem_addresses hd, d, hd, hp⟩

theorem map_at?_placesOf (p : Cursor → Bool) (c : Cursor) : (c.placesOf p).map c.at? = (c.preorder.filter p).map some :=
  calc (c.placesOf p).map c.at?
      = (c.addresses.map c.at?).filter (·.any p) := by
        rw [List.filter_map]
        rfl
    _ = (c.preorder.map some).filter (·.any p) := by rw [map_at?_addresses]
    _ = (c.preorder.filter p).map some := List.filter_map

theorem pairwise_placesOf (p : Cursor → Bool) (c : Cursor) : (c.placesOf p).Pairwise (· < ·) :=
  (pairwise_addresses c).filter _

/-- The search finds the node with the least address. -/
theorem findDescendant_eq (p : Cursor → Bool) (c : Cursor) : c.findDescendant p = (c.placesOf p).head?.bind c.at? := by
  have hhead : ((c.placesOf p).map c.at?).head? = (c.findDescendant p).map some := by
    rw [map_at?_placesOf, List.head?_map, List.head?_filter]
    exact congrArg (Option.map some) (Node.findDescendant_eq p c.ancestors c.node).symm
  rw [List.head?_map] at hhead
  cases hplaces : (c.placesOf p).head? with
  | none =>
    rw [hplaces] at hhead
    exact Option.map_eq_none_iff.mp hhead.symm
  | some path =>
    rw [hplaces] at hhead
    obtain ⟨d, hd, hat⟩ := Option.map_eq_some_iff.mp hhead.symm
    rw [hd]
    exact hat

theorem findDescendant_eq_none {p : Cursor → Bool} :
    c.findDescendant p = none ↔ ∀ path d, c.at? path = some d → p d = false := by
  rw [findDescendant_eq]
  constructor
  · intro h path d hd
    rw [Bool.eq_false_iff]
    intro hp
    obtain ⟨first, hfirst⟩ := Option.isSome_iff_exists.mp
      (List.isSome_head?.mpr (List.ne_nil_of_mem (mem_placesOf.mpr ⟨d, hd, hp⟩)))
    obtain ⟨e, he, -⟩ := mem_placesOf.mp (List.mem_of_mem_head? hfirst)
    rw [hfirst, Option.bind_some, he] at h
    cases h
  · intro h
    have hnil : c.placesOf p = [] := by
      rw [List.eq_nil_iff_forall_not_mem]
      intro path hpath
      obtain ⟨d, hd, hp⟩ := mem_placesOf.mp hpath
      rw [h path d hd] at hp
      cases hp
    rw [hnil]
    rfl

theorem findDescendant_eq_some {p : Cursor → Bool} :
    c.findDescendant p = some d ↔
      ∃ path, c.at? path = some d ∧ p d = true ∧ ∀ q < path, ∀ e, c.at? q = some e → p e = false := by
  rw [findDescendant_eq]
  -- the places ascend, so the head of their list is the least of them
  have hsorted := pairwise_placesOf p c
  constructor
  · intro h
    obtain ⟨path, hhead, hat⟩ := Option.bind_eq_some_iff.mp h
    obtain ⟨rest, hplaces⟩ := List.head?_eq_some_iff.mp hhead
    obtain ⟨e, he, hp⟩ := mem_placesOf.mp (List.mem_of_mem_head? hhead)
    obtain rfl : e = d := Option.some.inj (he.symm.trans hat)
    refine ⟨path, hat, hp, fun q hq e he => ?_⟩
    rw [Bool.eq_false_iff]
    intro hpe
    have hmem := mem_placesOf.mpr ⟨e, he, hpe⟩
    rw [hplaces] at hmem hsorted
    rcases List.mem_cons.mp hmem with rfl | hmem
    · exact List.lt_irrefl q hq
    · exact List.lt_irrefl q (List.lt_trans hq ((List.pairwise_cons.mp hsorted).1 q hmem))
  · rintro ⟨path, hat, hp, hleast⟩
    have hmem := mem_placesOf.mpr ⟨d, hat, hp⟩
    cases hplaces : c.placesOf p with
    | nil =>
      rw [hplaces] at hmem
      cases hmem
    | cons first rest =>
      rw [hplaces] at hmem hsorted
      rcases List.mem_cons.mp hmem with rfl | hmem
      · exact hat
      · obtain ⟨e, he, hpe⟩ := mem_placesOf.mp (hplaces ▸ List.mem_cons_self : first ∈ c.placesOf p)
        rw [hleast first ((List.pairwise_cons.mp hsorted).1 path hmem) e he] at hpe
        cases hpe

/-! The loop of the second pass -/

theorem weight_reverse (cs : List Cursor) : weight cs.reverse = weight cs := by
  induction cs with
  | nil => rfl
  | cons c cs ih =>
    rw [List.reverse_cons, weight_append, ih]
    simp only [weight]
    omega

/-- Goes through a tree by a stack whose top is at the end: takes the top off, and pushes its named children in
reverse, so that the first of them is next. -/
def drain (found stack : List Cursor) : List Cursor :=
  match _ : stack.getLast? with
  | none => found
  | some c =>
    drain (if c.isTypeDeclaration then found ++ [c] else found) (stack.dropLast ++ c.namedChildren.reverse)
termination_by weight stack
decreasing_by
  rename_i h
  have hstack := congrArg weight (List.dropLast_append_getLast? c h)
  have hlt := weight_namedChildren_lt c
  rw [weight_append] at hstack
  rw [weight_append, weight_reverse]
  simp only [weight] at hstack
  omega

theorem drain_eq (found stack : List Cursor) : drain found stack = found ++ typeDeclarationsFrom stack.reverse := by
  induction found, stack using drain.induct with
  | case1 found stack h =>
    rw [List.getLast?_eq_none_iff.mp h, drain, List.reverse_nil]
    unfold typeDeclarationsFrom
    exact (List.append_nil found).symm
  | case2 found stack c h ih =>
    have hreverse : stack.reverse = c :: stack.dropLast.reverse := by
      rw [← List.dropLast_append_getLast? c h, List.reverse_append, List.dropLast_concat]
      rfl
    have hnext : (stack.dropLast ++ c.namedChildren.reverse).reverse = c.namedChildren ++ stack.dropLast.reverse := by
      rw [List.reverse_append, List.reverse_reverse]
    rw [drain]
    split
    · next hnone =>
      rw [h] at hnone
      cases hnone
    · next top htop =>
      obtain rfl : c = top := Option.some.inj (h.symm.trans htop)
      rw [hnext] at ih
      refine Eq.trans ih ?_
      rw [hreverse]
      conv_rhs => unfold typeDeclarationsFrom
      split
      · rw [List.append_assoc]
        rfl
      · rfl

/-- The stack gives the declarations in the order of the worklist. -/
theorem drain_self (c : Cursor) : drain [] [c] = c.typeDeclarations := by
  rw [drain_eq]
  rfl

end Cursor

/-! The recursion of the first pass -/

namespace Declarations

variable {σ : Type}

/-- What is done at the declarations that a pass over a tree comes to. -/
structure Operations (σ : Type) where
  space : Cursor → σ → Except CatalogError σ
  type : Option TypeId → Cursor → σ → Except CatalogError (Option TypeId × σ)

namespace Operations

def cataloguing (file : FileId) : Operations Session := ⟨enterNamespace, enterType file⟩

/-- The same operations, and every type declaration that is come to is noted. -/
def noted (ops : Operations σ) : Operations (σ × List Cursor) where
  space c s := (ops.space c s.1).map (·, s.2)
  type container c s := (ops.type container c s.1).map fun (id?, t) => (id?, t, s.2 ++ [c])

theorem noted_space (ops : Operations σ) (c : Cursor) (s : σ) (log : List Cursor) :
    ops.noted.space c (s, log) = (ops.space c s).map (·, log) := rfl

theorem noted_type (ops : Operations σ) (container : Option TypeId) (c : Cursor) (s : σ) (log : List Cursor) :
    ops.noted.type container c (s, log) = (ops.type container c s).map fun (id?, t) => (id?, t, log ++ [c]) := rfl

end Operations

mutual

/-- The pass over a tree, whatever is done at the declarations. -/
def traverse (ops : Operations σ) (above : List Node) (container : Option TypeId) (s : σ) :
    Node → Except CatalogError (Nat × σ)
  | .mk i cs => do
    let c : Cursor := ⟨.mk i cs, above⟩
    if c.isNamespaceDeclaration then
      let s ← ops.space c s
      traverseAll ops (c.node :: above) container s cs
    else if c.isTypeDeclaration then
      match ← ops.type container c s with
      | (some id, s) =>
        let (n, s) ← traverseAll ops (c.node :: above) (some id) s cs
        return (n + 1, s)
      | (none, s) => traverseAll ops (c.node :: above) container s cs
    else traverseAll ops (c.node :: above) container s cs

def traverseAll (ops : Operations σ) (above : List Node) (container : Option TypeId) (s : σ) :
    List Node → Except CatalogError (Nat × σ)
  | [] => .ok (0, s)
  | n :: ns => do
    let (k, s) ← if n.info.named then traverse ops above container s n else .ok (0, s)
    let (m, s) ← traverseAll ops above container s ns
    return (k + m, s)

end

mutual

theorem traverse_cataloguing (file : FileId) (above : List Node) (container : Option TypeId) (s : Session) (n : Node) :
    traverse (.cataloguing file) above container s n = visit file above container s n := by
  match n with
  | .mk i cs =>
    have hbelow (container : Option TypeId) (s : Session) :
        traverseAll (.cataloguing file) (.mk i cs :: above) container s cs =
          visitAll file (.mk i cs :: above) container s cs :=
      traverseAll_cataloguing file (.mk i cs :: above) container s cs
    unfold traverse visit
    dsimp only [Operations.cataloguing] at hbelow ⊢
    split
    · exact bind_congr fun t => hbelow container t
    · split
      · refine bind_congr fun r => ?_
        obtain ⟨id?, t⟩ := r
        cases id? with
        | none => exact hbelow container t
        | some id => exact congrArg (· >>= _) (hbelow (some id) t)
      · exact hbelow container s

theorem traverseAll_cataloguing (file : FileId) (above : List Node) (container : Option TypeId) (s : Session)
    (ns : List Node) : traverseAll (.cataloguing file) above container s ns = visitAll file above container s ns := by
  match ns with
  | [] =>
    unfold traverseAll visitAll
    rfl
  | n :: ns =>
    unfold traverseAll visitAll
    have hrest (s : Session) := traverseAll_cataloguing file above container s ns
    rw [traverse_cataloguing file above container s n]
    simp only [hrest]

end

mutual

theorem traverse_noted (ops : Operations σ) (above : List Node) (container : Option TypeId) (s : σ) (log : List Cursor)
    (n : Node) : traverse ops.noted above container (s, log) n =
      (traverse ops above container s n).map fun (k, t) =>
        (k, t, log ++ (n.preorder above).filter (·.isTypeDeclaration)) := by
  match n with
  | .mk i cs =>
    have hbelow (container : Option TypeId) (s : σ) (log : List Cursor) :=
      traverseAll_noted ops (.mk i cs :: above) container s log cs
    unfold traverse Node.preorder
    dsimp only [Cursor.node]
    split
    · next hns =>
      have hplain := Cursor.not_typeDeclaration hns
      rw [List.filter_cons_of_neg (by simpa using hplain)]
      rw [ops.noted_space]
      cases ops.space ⟨.mk i cs, above⟩ s with
      | error e => rfl
      | ok t => exact hbelow container t log
    · split
      · next htype =>
        rw [List.filter_cons_of_pos htype, List.append_cons log]
        rw [ops.noted_type]
        cases ops.type container ⟨.mk i cs, above⟩ s with
        | error e => rfl
        | ok r =>
          obtain ⟨id?, t⟩ := r
          cases id? with
          | none => exact hbelow container t (log ++ [⟨.mk i cs, above⟩])
          | some id =>
            have hsome := hbelow (some id) t (log ++ [⟨.mk i cs, above⟩])
            dsimp only [Except.map, bind, Except.bind]
            rw [hsome]
            cases traverseAll ops (.mk i cs :: above) (some id) t cs <;> rfl
      · next hplain =>
        rw [List.filter_cons_of_neg hplain]
        exact hbelow container s log

theorem traverseAll_noted (ops : Operations σ) (above : List Node) (container : Option TypeId) (s : σ)
    (log : List Cursor) (ns : List Node) : traverseAll ops.noted above container (s, log) ns =
      (traverseAll ops above container s ns).map fun (k, t) =>
        (k, t, log ++ (Node.preorderAll above ns).filter (·.isTypeDeclaration)) := by
  match ns with
  | [] =>
    unfold traverseAll Node.preorderAll
    rw [List.filter_nil, List.append_nil]
    rfl
  | n :: ns =>
    unfold traverseAll Node.preorderAll
    have hrest (k : Nat) (t : σ) (log : List Cursor) :
        (traverseAll ops.noted above container (t, log) ns >>= fun r => pure (k + r.1, r.2)) =
          (traverseAll ops above container t ns >>= fun r => pure (k + r.1, r.2)).map fun (k, t) =>
            (k, t, log ++ (Node.preorderAll above ns).filter (·.isTypeDeclaration)) := by
      rw [traverseAll_noted ops above container t log ns]
      cases traverseAll ops above container t ns <;> rfl
    rw [List.filter_append, ← List.append_assoc]
    split
    · rw [traverse_noted ops above container s log n]
      cases traverse ops above container s n with
      | error e => rfl
      | ok r => exact hrest r.1 r.2 _
    · rw [List.filter_nil, List.append_nil]
      exact hrest 0 s log

end

end Declarations

namespace SourceUnit

open Declarations

/-- Both passes come to the type declarations of a file, each once and in document order, which is the order of
addresses. The first pass does so whatever is done at the declarations, and the second one by a stack. A search for a
kind of node finds the first in the same order. -/
theorem declarations_in_document_order {σ : Type} (u : SourceUnit) (ops : Operations σ) (start : σ) :
    (∃ places : List (List Nat), places.Pairwise (· < ·) ∧
      (∀ path, path ∈ places ↔ ∃ d, u.top.at? path = some d ∧ d.isTypeDeclaration = true) ∧
      places.map u.top.at? = u.top.typeDeclarations.map some) ∧
    Cursor.drain [] [u.top] = u.top.typeDeclarations ∧
    (∀ file s, visit file [] none s u.root = traverse (.cataloguing file) [] none s u.root) ∧
    traverse ops.noted [] none (start, []) u.root =
      ((traverse ops [] none start u.root).map fun (k, t) => (k, t, u.top.typeDeclarations)) ∧
    ∀ kind, (u.findFirst kind = none ↔ ∀ path d, u.top.at? path = some d → d.kind ≠ kind) ∧
      ∀ d, u.findFirst kind = some d ↔
        ∃ path, u.top.at? path = some d ∧ d.kind = kind ∧ ∀ q < path, ∀ e, u.top.at? q = some e → e.kind ≠ kind := by
  refine ⟨⟨u.top.placesOf (·.isTypeDeclaration), Cursor.pairwise_placesOf _ _, fun _ => Cursor.mem_placesOf, ?_⟩,
    Cursor.drain_self u.top, fun file s => (traverse_cataloguing file [] none s u.root).symm, ?_, fun kind => ⟨?_, ?_⟩⟩
  · rw [Cursor.typeDeclarations_eq]
    exact Cursor.map_at?_placesOf _ u.top
  · rw [traverse_noted, Cursor.typeDeclarations_eq]
    rfl
  · unfold findFirst
    simp only [Cursor.findDescendant_eq_none, beq_eq_false_iff_ne]
  · intro d
    unfold findFirst
    simp only [Cursor.findDescendant_eq_some, beq_iff_eq, beq_eq_false_iff_ne]

end SourceUnit

end TypeCatalog
