import TypeCatalog.Proofs.Positions
import TypeCatalog.Proofs.Run
import TypeCatalog.Scan.Declarations

namespace TypeCatalog.Declarations

open Cursor

/-- What the pass over a tree does, said node by node. `Comes` holds when the pass comes to a place, with the nodes above
it, the container there and the session; `Goes` says what has become of the session on the way through some nodes. Only
nodes with the property `Q` are met. -/
structure Walk (file : FileId) (Q : Cursor → Prop) (Comes : List Node → Option TypeId → Session → Prop)
    (Goes : Session → List Cursor → Session → Prop) : Prop where
  stay {s : Session} {above : List Node} {container : Option TypeId} (hc : Comes above container s) : Goes s [] s
  trans {s t v : Session} {xs ys : List Cursor} (hst : Goes s xs t) (htv : Goes t ys v) : Goes s (xs ++ ys) v
  keep {s t : Session} {xs : List Cursor} {above : List Node} {container : Option TypeId}
    (hc : Comes above container s) (h : Goes s xs t) : Comes above container t
  space {s t : Session} {c : Cursor} {container : Option TypeId} (hq : Q c) (hns : c.isNamespaceDeclaration = true)
    (hc : Comes c.ancestors container s) (h : enterNamespace c s = .ok t) :
    Goes s [c] t ∧ Comes c.trail container t
  type {s t : Session} {c : Cursor} {container id? : Option TypeId} (hq : Q c) (htype : c.isTypeDeclaration = true)
    (hc : Comes c.ancestors container s) (h : enterType file container c s = .ok (id?, t)) :
    Goes s [c] t ∧ Comes c.trail (id?.or container) t
  other {s : Session} {c : Cursor} {container : Option TypeId} (hq : Q c) (hns : c.isNamespaceDeclaration = false)
    (htype : c.isTypeDeclaration = false) (hc : Comes c.ancestors container s) :
    Goes s [c] s ∧ Comes c.trail container s

namespace Walk

variable {file : FileId} {Q : Cursor → Prop} {Comes : List Node → Option TypeId → Session → Prop}
  {Goes : Session → List Cursor → Session → Prop} {s t : Session} {above : List Node} {container : Option TypeId} {k : Nat}

mutual

theorem visit {s t : Session} {k : Nat} {container : Option TypeId} {above : List Node} (h : Walk file Q Comes Goes)
    (n : Node) (hv : Declarations.visit file above container s n = .ok (k, t)) (hq : ∀ x ∈ n.preorder above, Q x)
    (hc : Comes above container s) : Goes s (n.preorder above) t := by
  match n with
  | .mk i cs =>
    unfold Node.preorder at hq ⊢
    obtain ⟨hself, hbelow⟩ := List.forall_mem_cons.mp hq
    unfold Declarations.visit at hv
    dsimp only at hv
    have hrest {v : Session} {next : Option TypeId} {m : Nat}
        (hown : Goes s [⟨.mk i cs, above⟩] v ∧ Comes (.mk i cs :: above) next v)
        (hv : Declarations.visitAll file (.mk i cs :: above) next v cs = .ok (m, t)) :
        Goes s (⟨.mk i cs, above⟩ :: Node.preorderAll (.mk i cs :: above) cs) t :=
      h.trans hown.1 (visitAll h cs hv hbelow hown.2)
    split at hv
    · next hns =>
      obtain ⟨v, hown, hv⟩ := bind_eq_ok.mp hv
      exact hrest (h.space hself hns hc hown) hv
    · next hns =>
      split at hv
      · next htype =>
        obtain ⟨⟨id?, v⟩, hown, hv⟩ := bind_eq_ok.mp hv
        have hown := h.type hself htype hc hown
        cases id? with
        | none => exact hrest hown hv
        | some id =>
          obtain ⟨⟨m, w⟩, hw, hv⟩ := bind_eq_ok.mp hv
          cases hv
          exact hrest hown hw
      · next htype => exact hrest (h.other hself (by simpa using hns) (by simpa using htype) hc) hv

theorem visitAll {s t : Session} {k : Nat} {container : Option TypeId} {above : List Node}
    (h : Walk file Q Comes Goes) (ns : List Node) (hv : Declarations.visitAll file above container s ns = .ok (k, t))
    (hq : ∀ x ∈ Node.preorderAll above ns, Q x) (hc : Comes above container s) :
    Goes s (Node.preorderAll above ns) t := by
  match ns with
  | [] =>
    unfold Declarations.visitAll at hv
    cases hv
    unfold Node.preorderAll
    exact h.stay hc
  | n :: ns =>
    unfold Node.preorderAll at hq ⊢
    unfold Declarations.visitAll at hv
    obtain ⟨hn, hns⟩ := List.forall_mem_append.mp hq
    have hrest {j : Nat} {v : Session} {first : List Cursor} (hfirst : Goes s first v)
        (hv : (Declarations.visitAll file above container v ns >>= fun r => pure (j + r.1, r.2)) = .ok (k, t)) :
        Goes s (first ++ Node.preorderAll above ns) t := by
      obtain ⟨⟨m, w⟩, hw, hv⟩ := bind_eq_ok.mp hv
      cases hv
      exact h.trans hfirst (visitAll h ns hw hns (h.keep hc hfirst))
    dsimp only at hv
    split at hv
    · next hnamed =>
      rw [if_pos hnamed] at hn ⊢
      obtain ⟨⟨j, v⟩, hfirst, hv⟩ := bind_eq_ok.mp hv
      exact hrest (visit h n hfirst hn hc) hv
    · next hnamed =>
      rw [if_neg hnamed]
      exact hrest (h.stay hc) hv

end

end Walk

/-- Wherever the pass comes to, what is declared there can be catalogued. -/
structure Roomy (file : FileId) (Q : Cursor → Prop) (Comes : List Node → Option TypeId → Session → Prop) : Prop where
  space {s : Session} {c : Cursor} {container : Option TypeId} (hq : Q c) (hns : c.isNamespaceDeclaration = true)
    (hc : Comes c.ancestors container s) : ∃ t, enterNamespace c s = .ok t
  type {s : Session} {c : Cursor} {container : Option TypeId} (hq : Q c) (htype : c.isTypeDeclaration = true)
    (hc : Comes c.ancestors container s) : ∃ r, enterType file container c s = .ok r

namespace Walk

variable {file : FileId} {Q : Cursor → Prop} {Comes : List Node → Option TypeId → Session → Prop}
  {Goes : Session → List Cursor → Session → Prop}

mutual

theorem visit_ok {s : Session} {container : Option TypeId} {above : List Node} (h : Walk file Q Comes Goes)
    (hroom : Roomy file Q Comes) (n : Node) (hq : ∀ x ∈ n.preorder above, Q x) (hc : Comes above container s) :
    ∃ r, Declarations.visit file above container s n = .ok r := by
  match n with
  | .mk i cs =>
    unfold Node.preorder at hq
    obtain ⟨hself, hbelow⟩ := List.forall_mem_cons.mp hq
    unfold Declarations.visit
    dsimp only
    split
    · next hns =>
      obtain ⟨v, hv⟩ := hroom.space hself hns hc
      rw [hv]
      exact visitAll_ok h hroom cs hbelow (h.space hself hns hc hv).2
    · next hns =>
      split
      · next htype =>
        obtain ⟨⟨id?, v⟩, hv⟩ := hroom.type hself htype hc
        have hcomes := (h.type hself htype hc hv).2
        rw [hv, ok_bind]
        cases id? with
        | none => exact visitAll_ok h hroom cs hbelow hcomes
        | some id =>
          obtain ⟨r, hr⟩ := visitAll_ok h hroom cs hbelow hcomes
          exact ⟨_, bind_eq_ok.mpr ⟨r, hr, rfl⟩⟩
      · next htype =>
        exact visitAll_ok h hroom cs hbelow (h.other hself (by simpa using hns) (by simpa using htype) hc).2

theorem visitAll_ok {s : Session} {container : Option TypeId} {above : List Node} (h : Walk file Q Comes Goes)
    (hroom : Roomy file Q Comes) (ns : List Node) (hq : ∀ x ∈ Node.preorderAll above ns, Q x)
    (hc : Comes above container s) : ∃ r, Declarations.visitAll file above container s ns = .ok r := by
  match ns with
  | [] =>
    unfold Declarations.visitAll
    exact ⟨_, rfl⟩
  | n :: ns =>
    unfold Node.preorderAll at hq
    unfold Declarations.visitAll
    obtain ⟨hn, hns⟩ := List.forall_mem_append.mp hq
    have hrest {first : List Cursor} {v : Session} (j : Nat) (hfirst : Goes s first v) :
        ∃ r, (Declarations.visitAll file above container v ns >>= fun r => pure (j + r.1, r.2)) = .ok r := by
      obtain ⟨r, hr⟩ := visitAll_ok h hroom ns hns (h.keep hc hfirst)
      exact ⟨_, bind_eq_ok.mpr ⟨r, hr, rfl⟩⟩
    dsimp only
    split
    · next hnamed =>
      rw [if_pos hnamed] at hn
      obtain ⟨⟨j, v⟩, hv⟩ := visit_ok h hroom n hn hc
      rw [hv]
      exact hrest j (visit h n hv hn hc)
    · exact hrest 0 (h.stay hc)

end

end Walk

end TypeCatalog.Declarations
