import TypeCatalog.Proofs.Spelling

namespace TypeCatalog

namespace Cursor

variable {c n x : Cursor} {s t : String}

/-- A qualified name with the qualifiers that it is built on, the whole name first. -/
def spine (c : Cursor) : List Cursor :=
  if c.kind = "qualified_name" then
    match _ : c.field? "qualifier" with
    | some qualifier => c :: spine qualifier
    | none => [c]
  else [c]
termination_by sizeOf c.node
decreasing_by exact sizeOf_node_of_field? (by assumption)

theorem spine_of_qualifier {q : Cursor} (hkind : c.kind = "qualified_name") (hq : c.field? "qualifier" = some q) :
    c.spine = c :: q.spine := by
  rw [spine, if_pos hkind]
  split
  · next p hp =>
    cases hq.symm.trans hp
    rfl
  · next hnone => cases hq.symm.trans hnone

theorem spine_of_ne (hkind : c.kind ≠ "qualified_name") : c.spine = [c] := by
  rw [spine, if_neg hkind]

theorem exists_spine (c : Cursor) : ∃ rest, c.spine = c :: rest := by
  rw [spine]
  split
  · split
    · exact ⟨_, rfl⟩
    · exact ⟨[], rfl⟩
  · exact ⟨[], rfl⟩

/-- The segment that a name node stands for: an identifier, or the identifier of a generic name. -/
inductive Segment : Cursor → String → Prop
  | identifier {n : Cursor} (h : n.kind = "identifier") : Segment n n.text
  | generic {n i : Cursor} {before after : List Cursor} (h : n.kind = "generic_name")
      (hi : n.namedChildren = before ++ i :: after) (hkind : i.kind = "identifier")
      (hfirst : ∀ x ∈ before, x.kind ≠ "identifier") : Segment n i.text

theorem segment_iff : Segment n s ↔ n.segment? = some s := by
  constructor
  · rintro (h | ⟨h, hi, hkind, hfirst⟩)
    · simp [segment?, h]
    · have hfind : n.namedChildren.find? (·.kind == "identifier") = some _ :=
        List.find?_eq_some_iff_append.mpr ⟨by simpa using hkind, _, _, hi, by simpa using hfirst⟩
      simp [segment?, h, genericIdentifier?, hfind]
  · intro h
    unfold segment? at h
    split at h
    · next hkind =>
      cases h
      exact .identifier hkind
    · next hkind =>
      obtain ⟨i, hi, rfl⟩ := Option.map_eq_some_iff.mp h
      obtain ⟨hidentifier, before, after, happ, hfirst⟩ := List.find?_eq_some_iff_append.mp hi
      exact .generic hkind happ (by simpa using hidentifier) (by simpa using hfirst)
    · cases h

/-- What a node on a spine adds to the name. A node that passes its own check adds one segment; others
add none. -/
inductive Adds : Cursor → String → Prop
  | head {x : Cursor} (h : x.kind = "identifier") : Adds x x.text
  | rooted {x label name : Cursor} {s : String} (h : x.kind = "alias_qualified_name")
      (hlabel : x.field? "alias" = some label) (hglobal : label.text = "global")
      (hname : x.field? "name" = some name) (hs : Segment name s) : Adds x s
  | dotted {x qualifier name : Cursor} {s : String} (h : x.kind = "qualified_name")
      (hqualifier : x.field? "qualifier" = some qualifier)
      (hkind : qualifier.kind ∈ ["identifier", "qualified_name", "alias_qualified_name"])
      (hname : x.field? "name" = some name) (hs : Segment name s) : Adds x s

theorem Adds.eq (h : Adds x s) :
    (if x.kind = "identifier" then some x.text else (x.field? "name").bind segment?) = some s := by
  cases h with
  | head h => rw [if_pos h]
  | rooted h _ _ hname hs | dotted h _ _ hname hs =>
    rw [if_neg (by rw [h]; decide), hname]
    exact segment_iff.mp hs

theorem Adds.unique (hs : Adds x s) (ht : Adds x t) : s = t := Option.some.inj (hs.eq.symm.trans ht.eq)

/-- The name that a spine spells, the whole name first: what its last node begins, with one segment more
for each node before, up to the first node that adds none. -/
inductive Spells : List Cursor → QualifiedName → Prop
  | head {x : Cursor} (h : x.kind = "identifier") : Spells [x] (.partially x.text)
  | rooted {x : Cursor} {s : String} (h : x.kind = "alias_qualified_name") (hx : Adds x s) : Spells [x] (.full s)
  | append {x : Cursor} {s : String} {rest : List Cursor} {q : QualifiedName} (hx : Adds x s)
      (hrest : Spells rest q) : Spells (x :: rest) (q.append s)
  | failed {x : Cursor} {rest : List Cursor} {reason : String} (hx : ∀ s, ¬ Adds x s) :
      Spells (x :: rest) (.failed x.text reason)

theorem spells_alias (h : c.kind = "alias_qualified_name") : Spells c.spine c.qualifyAlias := by
  rw [spine_of_ne (by rw [h]; decide)]
  have hfailed {reason : String} (hc : ∀ label name s, c.field? "alias" = some label → label.text = "global" →
      c.field? "name" = some name → ¬ Segment name s) : Spells [c] (.failed c.text reason) := by
    refine .failed ?_
    rintro s (h' | ⟨-, ha, hg, hn, hs⟩ | ⟨h'⟩)
    · exact absurd (h.symm.trans h') (by decide)
    · exact hc _ _ s ha hg hn hs
    · exact absurd (h.symm.trans h') (by decide)
  unfold qualifyAlias
  split
  · next text s htext hs =>
    obtain ⟨label, hlabel, rfl⟩ := Option.map_eq_some_iff.mp htext
    obtain ⟨name, hname, hs⟩ := Option.bind_eq_some_iff.mp hs
    split
    · next hglobal => exact .rooted h (.rooted h hlabel (by simpa using hglobal) hname (segment_iff.mpr hs))
    · next hglobal =>
      refine hfailed ?_
      intro a _ _ ha hg _
      cases hlabel.symm.trans ha
      exact (hglobal (by simpa using hg)).elim
  · next hnone =>
    refine hfailed ?_
    intro label name s hlabel _ hname hs
    exact hnone label.text s (by rw [hlabel]; rfl) (by rw [hname]; exact segment_iff.mp hs)

theorem spells_dotted (c : Cursor) (h : c.kind = "qualified_name") : Spells c.spine c.qualifyDotted := by
  -- wherever the name is given up, the node of this very name adds no segment
  have hfailed {reason : String} (hc : ∀ qualifier name s, c.field? "qualifier" = some qualifier →
      qualifier.kind ∈ ["identifier", "qualified_name", "alias_qualified_name"] →
      c.field? "name" = some name → ¬ Segment name s) : Spells c.spine (.failed c.text reason) := by
    obtain ⟨rest, hrest⟩ := c.exists_spine
    rw [hrest]
    refine .failed ?_
    rintro s (h' | ⟨h'⟩ | ⟨-, hq, hk, hn, hs⟩)
    · exact absurd (h.symm.trans h') (by decide)
    · exact absurd (h.symm.trans h') (by decide)
    · exact hc _ _ s hq hk hn hs
  cases hq : c.field? "qualifier" with
  | none =>
    rw [qualifyDotted_none (.inl hq)]
    refine hfailed ?_
    intro _ _ _ hq'
    cases hq.symm.trans hq'
  | some q =>
  cases hn : c.field? "name" with
  | none =>
    rw [qualifyDotted_none (.inr hn)]
    refine hfailed ?_
    intro _ _ _ _ _ hn'
    cases hn.symm.trans hn'
  | some n =>
  rw [qualifyDotted_eq hq hn]
  split
  · next s hs =>
    have hadds (hkind : q.kind ∈ ["identifier", "qualified_name", "alias_qualified_name"]) : Adds c s :=
      .dotted h hq hkind hn (segment_iff.mpr hs)
    have hunsupported {reason : String} (hkind : q.kind ∉ ["identifier", "qualified_name", "alias_qualified_name"]) :
        Spells c.spine (.failed c.text reason) := by
      refine hfailed ?_
      intro _ _ _ hq' hk
      cases hq.symm.trans hq'
      exact (hkind hk).elim
    have := sizeOf_node_of_field? hq
    split
    · next hkind =>
      rw [spine_of_qualifier h hq, spine_of_ne (by rw [hkind]; decide)]
      exact .append (hadds (by simp [hkind])) (.head hkind)
    · next hkind =>
      rw [spine_of_qualifier h hq]
      exact .append (hadds (by simp [hkind])) (spells_dotted q hkind)
    · next hkind =>
      rw [spine_of_qualifier h hq]
      exact .append (hadds (by simp [hkind])) (spells_alias hkind)
    · next hkind => exact hunsupported (by simp [hkind])
    · next hi hd ha _ => exact hunsupported (by simpa using ⟨hi, hd, ha⟩)
  · next hs =>
    refine hfailed ?_
    intro _ _ s _ _ hn' hsegment
    cases hn.symm.trans hn'
    rw [segment_iff, hs] at hsegment
    cases hsegment
termination_by sizeOf c.node

theorem exists_of_forall₂ {xs : List Cursor} {segments : List String} (h : List.Forall₂ Adds xs segments) :
    ∀ x ∈ xs, ∃ s, Adds x s := by
  induction h with
  | nil => exact List.forall_mem_nil _
  | cons hx _ ih => exact List.forall_mem_cons.mpr ⟨⟨_, hx⟩, ih⟩

theorem name_append {q : QualifiedName} (h : q.state ≠ .failed) : (q.append s).name = q.name ++ "." ++ s := by
  cases q with
  | full | partially => rfl
  | failed => exact (h rfl).elim

namespace Spells

variable {xs : List Cursor} {q : QualifiedName}

theorem ne_nil (h : Spells xs q) : xs ≠ [] := by
  cases h <;> exact List.cons_ne_nil _ _

theorem state_ne_failed (h : Spells xs q) (hall : ∀ x ∈ xs, ∃ s, Adds x s) : q.state ≠ .failed := by
  induction h with
  | head | rooted => exact NameState.noConfusion
  | append hx hrest ih =>
    rw [state_append]
    exact ih fun x hx => hall x (List.mem_cons_of_mem _ hx)
  | failed hx =>
    obtain ⟨s, hs⟩ := hall _ List.mem_cons_self
    exact (hx s hs).elim

/-- The state of a name whose nodes all add a segment depends on the node that it begins with. -/
theorem state_eq (h : Spells xs q) (hall : ∀ x ∈ xs, ∃ s, Adds x s) {x : Cursor} (hx : xs.getLast? = some x) :
    q.state = if x.kind = "alias_qualified_name" then .full else .partially := by
  induction h with
  | head hkind =>
    obtain rfl := Option.some.inj hx
    exact (if_neg (by simp [hkind])).symm
  | rooted hkind =>
    obtain rfl := Option.some.inj hx
    exact (if_pos hkind).symm
  | append _ hrest ih =>
    rw [List.getLast?_cons_of_ne_nil hrest.ne_nil] at hx
    rw [state_append]
    exact ih (fun x hx => hall x (List.mem_cons_of_mem _ hx)) hx
  | failed hx' =>
    obtain ⟨s, hs⟩ := hall _ List.mem_cons_self
    exact (hx' s hs).elim

theorem name_eq (h : Spells xs q) {segments : List String} (hall : List.Forall₂ Adds xs segments) :
    q.name = ".".intercalate segments.reverse := by
  induction h generalizing segments with
  | head hkind =>
    obtain ⟨s, -, hs, ⟨⟩, rfl⟩ := List.forall₂_cons_left_iff.mp hall
    cases hs.unique (.head hkind)
    exact String.intercalate_singleton.symm
  | rooted _ hx =>
    obtain ⟨s, -, hs, ⟨⟩, rfl⟩ := List.forall₂_cons_left_iff.mp hall
    cases hs.unique hx
    exact String.intercalate_singleton.symm
  | @append x t rest q hx hrest ih =>
    obtain ⟨s, inner, hs, hinner, rfl⟩ := List.forall₂_cons_left_iff.mp hall
    cases hs.unique hx
    have hne : inner.reverse ≠ [] := by
      rintro hnil
      rw [List.reverse_eq_nil_iff.mp hnil, List.forall₂_nil_right_iff] at hinner
      exact hrest.ne_nil hinner
    rw [name_append (hrest.state_ne_failed (exists_of_forall₂ hinner)), List.reverse_cons,
      String.intercalate_append_of_ne_nil hne (by simp), String.intercalate_singleton, ih hinner]
  | failed hx =>
    obtain ⟨s, -, hs, -, -⟩ := List.forall₂_cons_left_iff.mp hall
    exact (hx s hs).elim

theorem failed_of_mem (h : Spells xs q) {x : Cursor} (hx : x ∈ xs) (hnone : ∀ s, ¬ Adds x s) : q.state = .failed := by
  induction h with
  | head hkind =>
    rw [List.mem_singleton.mp hx] at hnone
    exact (hnone _ (.head hkind)).elim
  | rooted _ hy =>
    rw [List.mem_singleton.mp hx] at hnone
    exact (hnone _ hy).elim
  | append hy _ ih =>
    rw [state_append]
    rcases List.mem_cons.mp hx with rfl | hx
    · exact (hnone _ hy).elim
    · exact ih hx
  | failed => rfl

/-- A spine with a failing node gives the text of the first. -/
theorem eq_failed (h : Spells xs q) {before after : List Cursor} {x : Cursor} (happ : xs = before ++ x :: after)
    (hbefore : ∀ y ∈ before, ∃ s, Adds y s) (hnone : ∀ s, ¬ Adds x s) : ∃ reason, q = .failed x.text reason := by
  induction h generalizing before with
  | head hkind =>
    rcases List.append_eq_singleton_iff.mp happ.symm with ⟨-, h⟩ | ⟨-, h⟩
    · cases h
      exact (hnone _ (.head hkind)).elim
    · cases h
  | rooted _ hy =>
    rcases List.append_eq_singleton_iff.mp happ.symm with ⟨-, h⟩ | ⟨-, h⟩
    · cases h
      exact (hnone _ hy).elim
    · cases h
  | append hy _ ih =>
    cases before with
    | nil =>
      cases happ
      exact (hnone _ hy).elim
    | cons z before =>
      obtain ⟨-, happ⟩ := List.cons.inj happ
      obtain ⟨reason, rfl⟩ := ih happ fun y hy => hbefore y (List.mem_cons_of_mem z hy)
      exact ⟨reason, rfl⟩
  | failed hy =>
    cases before with
    | nil =>
      cases happ
      exact ⟨_, rfl⟩
    | cons z before =>
      obtain ⟨s, hs⟩ := hbefore z List.mem_cons_self
      cases happ
      exact (hy s hs).elim

end Spells

/-- A qualified name is read along its spine. If every node adds a segment, the name has these segments
from the innermost node outwards, and it is a full name if it begins with `global`. Else the outermost
node that adds none is to blame, and only then is there a reason for a failure. -/
theorem qualify_dotted (hkind : c.kind = "qualified_name") (hsound : c.node.isBroken = false) :
    (∀ segments head, List.Forall₂ Adds c.spine.reverse segments → c.spine.getLast? = some head →
      c.qualify.name = ".".intercalate segments ∧
        c.qualify.state = if head.kind = "alias_qualified_name" then .full else .partially) ∧
      (c.qualify.state = .failed ↔ ∃ x ∈ c.spine, ∀ s, ¬ Adds x s) ∧
      (∀ before x after, c.spine = before ++ x :: after → (∀ y ∈ before, ∃ s, Adds y s) → (∀ s, ¬ Adds x s) →
        c.qualify.name = x.text) ∧
      ∀ d : Cursor, d.qualify.failure?.isSome = true ↔ d.qualify.state = .failed := by
  have hspells := c.spells_dotted hkind
  have hqualify : c.qualify = c.qualifyDotted := by
    unfold qualify
    rw [hsound, hkind]
    rfl
  rw [hqualify]
  refine ⟨?_, ⟨?_, ?_⟩, ?_, ?_⟩
  · intro segments head hall hhead
    rw [← List.reverse_reverse segments, List.forall₂_reverse_iff] at hall
    refine ⟨?_, hspells.state_eq (exists_of_forall₂ hall) hhead⟩
    rw [hspells.name_eq hall, List.reverse_reverse]
  · intro hfailed
    by_contra hnone
    push Not at hnone
    exact hspells.state_ne_failed hnone hfailed
  · rintro ⟨x, hx, hnone⟩
    exact hspells.failed_of_mem hx hnone
  · intro before x after happ hbefore hx
    obtain ⟨reason, h⟩ := hspells.eq_failed happ hbefore hx
    rw [h]
    rfl
  · intro d
    cases d.qualify <;> simp [QualifiedName.failure?, QualifiedName.state]

end Cursor

namespace Sample

open Cursor

/-- The name `label::A.B<int>.C`. -/
def longName (label : String) : Cursor where
  node := node 0 "qualified_name" none 0 (label ++ "::A.B<int>.C")
    [node 1 "qualified_name" (some "qualifier") 0 (label ++ "::A.B<int>")
      [node 2 "alias_qualified_name" (some "qualifier") 0 (label ++ "::A")
        [node 3 "identifier" (some "alias") 0 label [], node 4 "identifier" (some "name") 8 "A" []],
       node 5 "generic_name" (some "name") 10 "B<int>"
        [node 6 "identifier" none 10 "B" [],
         node 7 "type_argument_list" none 11 "<int>" [node 8 "predefined_type" none 12 "int" []]]],
     node 9 "identifier" (some "name") 17 "C" []]
  ancestors := []

/-- Only the node that it begins with depends on the label. -/
theorem spine_longName (label : String) : ∃ whole middle first, (longName label).spine = [whole, middle, first] ∧
    Adds whole "C" ∧ Adds middle "B" ∧ first.kind = "alias_qualified_name" ∧ first.text = label ++ "::A" ∧
    ∀ s, Adds first s ↔ label = "global" ∧ s = "A" := by
  have hkind (kind : String) (h : kind ∈ ["identifier", "qualified_name"]) : "alias_qualified_name" ≠ kind := by
    rintro rfl
    exact absurd h (by decide)
  have hspine := (spine_of_qualifier (c := longName label) rfl rfl).trans
    (congrArg _ ((spine_of_qualifier rfl rfl).trans (congrArg _ (spine_of_ne (by exact hkind _ (by simp))))))
  have hkinds : "qualified_name" ∈ ["identifier", "qualified_name", "alias_qualified_name"] ∧
      "alias_qualified_name" ∈ ["identifier", "qualified_name", "alias_qualified_name"] := by
    decide
  refine ⟨_, _, _, hspine, .dotted rfl rfl hkinds.1 rfl (segment_iff.mpr rfl),
    .dotted rfl rfl hkinds.2 rfl (segment_iff.mpr rfl), rfl, rfl, ?_⟩
  intro s
  constructor
  · intro h
    refine ⟨?_, (Option.some.inj h.eq).symm⟩
    rcases h with h | ⟨-, hlabel, hglobal, -, -⟩ | h
    · exact (hkind _ (by simp) h).elim
    · rw [← hglobal, ← Option.some.inj hlabel]
      rfl
    · exact (hkind _ (by simp) h).elim
  · rintro ⟨rfl, rfl⟩
    exact .rooted rfl rfl rfl rfl (segment_iff.mpr rfl)

theorem qualify_dotted_rooted : (longName "global").qualify.name = "A.B.C" ∧ (longName "global").qualify.state = .full ∧
    (longName "Other").qualify.name = "Other::A" ∧ (longName "Other").qualify.state = .failed := by
  obtain ⟨whole, middle, first, hspine, hwhole, hmiddle, hkind, -, hfirst⟩ := spine_longName "global"
  obtain ⟨hname, hstate⟩ := (qualify_dotted (c := longName "global") rfl rfl).1 ["A", "B", "C"] first
    (by simpa [hspine] using ⟨(hfirst "A").mpr ⟨rfl, rfl⟩, hmiddle, hwhole⟩) (by rw [hspine]; rfl)
  refine ⟨hname, hstate.trans (if_pos hkind), ?_⟩
  obtain ⟨whole, middle, first, hspine, hwhole, hmiddle, -, htext, hfirst⟩ := spine_longName "Other"
  have hnone (s : String) : ¬ Adds first s := by
    rw [hfirst]
    exact fun h => absurd h.1 (by decide)
  obtain ⟨-, hfailed, hblamed, -⟩ := qualify_dotted (c := longName "Other") rfl rfl
  refine ⟨?_, hfailed.mpr ⟨first, by simp [hspine], hnone⟩⟩
  rw [hblamed [whole, middle] first [] hspine (by simpa using ⟨⟨_, hwhole⟩, ⟨_, hmiddle⟩⟩) hnone, htext]
  rfl

end Sample

end TypeCatalog
