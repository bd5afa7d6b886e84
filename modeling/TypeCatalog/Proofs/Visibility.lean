import TypeCatalog.Proofs.Tiers

namespace TypeCatalog

open Dotted

namespace Context

variable {xs ys : List Context} {y : Context} {label : String}

def labels (cs : List Context) : List String := cs.map (·.label)

theorem merge_nil : merge xs [] = xs := rfl

theorem merge_cons_known (h : y.label ∈ labels xs) : merge xs (y :: ys) = merge xs ys := by
  obtain ⟨x, hx, hlabel⟩ := List.mem_map.mp h
  have hany : xs.any (·.label == y.label) = true := List.any_eq_true.mpr ⟨x, hx, beq_iff_eq.mpr hlabel⟩
  unfold merge
  rw [List.foldl_cons, if_pos hany]

theorem merge_cons_new (h : y.label ∉ labels xs) : merge xs (y :: ys) = merge (xs ++ [y]) ys := by
  have hany : ¬ xs.any (·.label == y.label) = true := by
    rw [List.any_eq_true]
    rintro ⟨x, hx, hlabel⟩
    exact h (List.mem_map.mpr ⟨x, hx, beq_iff_eq.mp hlabel⟩)
  unfold merge
  rw [List.foldl_cons, if_neg hany]

theorem labels_append : labels (xs ++ ys) = labels xs ++ labels ys := List.map_append

theorem mem_labels_merge : label ∈ labels (merge xs ys) ↔ label ∈ labels xs ∨ label ∈ labels ys := by
  induction ys generalizing xs with
  | nil => simp [merge_nil, labels]
  | cons y ys ih =>
    have hcons : label ∈ labels (y :: ys) ↔ label = y.label ∨ label ∈ labels ys := List.mem_cons
    rw [hcons]
    by_cases h : y.label ∈ labels xs
    · rw [merge_cons_known h, ih]
      constructor
      · exact Or.imp_right .inr
      · rintro (hx | rfl | hy)
        · exact .inl hx
        · exact .inl h
        · exact .inr hy
    · rw [merge_cons_new h, ih, labels_append, List.mem_append, or_assoc]
      exact or_congr_right (or_congr_left List.mem_singleton)

theorem nodup_merge (h : (labels xs).Nodup) : (labels (merge xs ys)).Nodup := by
  induction ys generalizing xs with
  | nil => exact h
  | cons y ys ih =>
    by_cases hy : y.label ∈ labels xs
    · rw [merge_cons_known hy]
      exact ih h
    · rw [merge_cons_new hy]
      exact ih (nodup_map_concat h hy)

theorem merge_eq_self (h : ∀ label ∈ labels ys, label ∈ labels xs) : merge xs ys = xs := by
  induction ys with
  | nil => rfl
  | cons y ys ih =>
    obtain ⟨hy, hys⟩ := List.forall_mem_cons.mp h
    rw [merge_cons_known hy, ih hys]

theorem merge_eq_append (h : (labels (xs ++ ys)).Nodup) : merge xs ys = xs ++ ys := by
  induction ys generalizing xs with
  | nil => rw [merge_nil, List.append_nil]
  | cons y ys ih =>
    have hy : y.label ∉ labels xs := by
      rw [labels_append] at h
      exact fun hx => List.disjoint_of_nodup_append h hx List.mem_cons_self
    rw [List.append_cons] at h ⊢
    rw [merge_cons_new hy, ih h]

end Context

/-! What is visible from a type -/

namespace Session

open Context

variable {s : Session} {name : String}

theorem Sane.namespace_found (hs : s.Sane) {i : NamespaceId} (h : s.findNamespace name = some i) :
    i.value < s.namespaces.length + 1 ∧ ∃ n ∈ s.namespaces, s.namespace? i = some n ∧ n.name = name ∧ n.id = i := by
  obtain ⟨n, hn, hname, rfl⟩ := mem_of_findNamespace h
  refine ⟨?_, n, hn, find?_of_nodup hs.numbered.namespaces.nodup hn, hname, rfl⟩
  obtain ⟨-, c, f, hc⟩ := hs
  have hle := hc.regular.namespaces.value_le_length (List.mem_map_of_mem (hc.namespaces ▸ hn))
  rw [← hc.namespaces] at hle
  omega

theorem Tiered.parent_lt (h : s.Tiered) (hs : s.Sane) {i p : NamespaceId} (hne : name ≠ "")
    {n : Namespace} (hn : n ∈ s.namespaces) (hid : n.id = i) (hname : n.name = name) (hp : n.parent = some p) :
    s.findNamespace (parent name) = some p ∧ p.value < i.value := by
  have hunder := h.spaces n hn
  unfold Under at hunder
  rw [if_neg (hname ▸ hne), hp, hname] at hunder
  obtain ⟨_, ⟨⟩, hparent⟩ := hunder
  refine ⟨hparent, ?_⟩
  have hle : p.value ≤ i.value := by
    obtain ⟨-, c, f, hc⟩ := hs
    exact hid ▸ (hc.coherent.linked.parent n (hc.namespaces ▸ hn) p hp).2
  refine Nat.lt_of_le_of_ne hle fun heq => ?_
  obtain ⟨-, m, hm, -, hparentName, hmid⟩ := hs.namespace_found hparent
  have hmn : m = n :=
    List.inj_on_of_nodup_map hs.numbered.namespaces.nodup hm hn (hmid.trans ((RowId.eq_of_value heq).trans hid.symm))
  have hlt : ((outer? name).getD "").length < name.length := length_parent_lt hne
  rw [← hparentName, hmn, hname] at hlt
  exact Nat.lt_irrefl _ hlt

/-- The namespaces around one are those that its name says. -/
theorem Tiered.chainFrom (h : s.Tiered) (hs : s.Sane) {n : Nat} {i : NamespaceId} (hi : s.findNamespace name = some i)
    (hbound : i.value < n) : ∃ cs, s.chainFrom n (some i) = .ok cs ∧ labels cs = ascent name := by
  induction n generalizing name i with
  | zero => omega
  | succ n ih =>
    obtain ⟨-, row, hrow, hfound, hname, hid⟩ := hs.namespace_found hi
    have hunder := h.spaces row hrow
    unfold Under at hunder
    unfold Session.chainFrom
    rw [hfound]
    dsimp only
    by_cases hne : name = ""
    · rw [if_pos (hname.trans hne)] at hunder
      have hnone : s.chainFrom n none = .ok [] := by cases n <;> rfl
      rw [hunder, hnone]
      refine ⟨_, rfl, ?_⟩
      rw [hne, ascent_empty, hname, hne]
      rfl
    · rw [if_neg (hname ▸ hne)] at hunder
      obtain ⟨p, hp, -⟩ := hunder
      obtain ⟨hparent, hlt⟩ := h.parent_lt hs hne hrow hid hname hp
      obtain ⟨cs, hcs, hlabels⟩ := ih hparent (by omega)
      rw [hp, hcs]
      refine ⟨_, rfl, ?_⟩
      rw [ascent_of_ne hne, ← hlabels, hname]
      rfl

theorem Sane.named?_of_mem (hs : s.Sane) {id : TypeId} {a : NamedType} (h : (id, a) ∈ s.named) : s.named? id = some a :=
  find?_of_named?.mpr (find?_of_nodup hs.numbered.named.nodup h)

/-- The types around one, and then the namespaces around the outermost of them, are those that its full name says. -/
theorem Tiered.containersFrom (h : s.Tiered) (hs : s.Sane) (hn : s.Nested) {n : Nat} {id : TypeId} {d : Documented}
    (hd : (id, .documented d) ∈ s.named) (hbound : id.value < n) :
    ∃ ds, s.containersFrom n (some id) = .ok ((id, d) :: ds) ∧ ∃ last, ((id, d) :: ds).getLast? = some last ∧
      s.findNamespace (parent last.2.fullName) = some last.2.home ∧
      ((id, d) :: ds).map (·.2.fullName) ++ ascent (parent last.2.fullName) = ascent d.fullName := by
  induction n generalizing id d with
  | zero => omega
  | succ n ih =>
    obtain ⟨hproper, hstands⟩ := h.types id d hd
    have hrow := hs.named?_of_mem hd
    unfold Session.containersFrom
    rw [documented_ok.mpr hrow, ok_bind, ascent_of_ne hproper.ne_empty]
    cases hstands with
    | space hcontainer hhome =>
      have hnone : s.containersFrom n none = .ok [] := by cases n <;> rfl
      rw [hcontainer, hnone]
      exact ⟨[], rfl, (id, d), rfl, hhome, rfl⟩
    | @type j e hcontainer he hname =>
      have hlt := hn id d hrow j hcontainer
      obtain ⟨ds, hds, last, hlast, hhome, hnames⟩ := ih he (by omega)
      rw [hcontainer, hds]
      refine ⟨(j, e) :: ds, rfl, last, ?_, hhome, ?_⟩
      · rw [List.getLast?_cons_cons]
        exact hlast
      · rw [List.map_cons, List.cons_append, hnames, hname]

/-- From a type is visible what its full name says: the type itself, then the types and the namespaces whose names are
the dot-prefixes of its own, and the global namespace. -/
theorem Tiered.visibleFrom (h : s.Tiered) (hs : s.Sane) (hn : s.Nested) {id : TypeId} {d : Documented}
    (hd : (id, .documented d) ∈ s.named) :
    ∃ cs, s.visibleFrom id = .ok (.ofType d.fullName id :: cs) ∧
      labels (.ofType d.fullName id :: cs) = ascent d.fullName := by
  obtain ⟨ds, hds, last, hlast, hhome, hnames⟩ := h.containersFrom hs hn hd (hs.value_le (hs.named?_of_mem hd))
  obtain ⟨chain, hchain, hlabels⟩ := h.chainFrom hs hhome (hs.namespace_found hhome).1
  have htypes : labels (((id, d) :: ds).map fun r => Context.ofType r.2.fullName r.1) =
      ((id, d) :: ds).map (·.2.fullName) := List.map_map
  have hall :
      labels ((((id, d) :: ds).map fun r => Context.ofType r.2.fullName r.1) ++ chain) = ascent d.fullName := by
    rw [labels_append, htypes, hlabels, hnames]
  have hmerge := merge_eq_append (hall ▸ nodup_ascent d.fullName)
  refine ⟨_, ?_, hall⟩
  unfold Session.visibleFrom containers
  rw [hds, ok_bind]
  dsimp only
  rw [hlast]
  unfold namespaceChain
  dsimp only
  rw [hchain, ok_bind, hmerge]
  rfl

end Session

end TypeCatalog
