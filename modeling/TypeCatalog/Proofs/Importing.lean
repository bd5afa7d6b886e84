import TypeCatalog.Proofs.Spines
import TypeCatalog.Proofs.Tuples

namespace TypeCatalog

namespace Cursor

variable {c d m n x : Cursor}

/-- Blanks aside, the text of a node is that of its children. -/
def Composed (c : Cursor) : Prop :=
  Text.unspaced c.text = String.join (c.children.map (Text.unspaced ·.text))

theorem Composed.eq_join {a b : Cursor} (h : c.Composed) (hchildren : c.children = [a, b, d]) :
    Text.unspaced c.text = Text.unspaced a.text ++ Text.unspaced b.text ++ Text.unspaced d.text := by
  rw [Composed, hchildren] at h
  simpa [String.join] using h

/-- A name that is written with identifiers, dots, an alias and blanks alone: without comments and type
arguments. -/
inductive Written : Cursor → Prop
  | identifier {c : Cursor} (h : c.kind = "identifier") (hblank : Text.unspaced c.text = c.text) : Written c
  | rooted {c label sign name : Cursor} (h : c.kind = "alias_qualified_name")
      (hchildren : c.children = [label, sign, name]) (hcomposed : c.Composed)
      (hlabel : label.node.info.field = some "alias") (hlabelled : label.kind = "identifier")
      (hsign : sign.node.info.field = none) (hcolons : sign.text = "::")
      (hname : name.node.info.field = some "name") (hnamed : name.kind = "identifier")
      (hl : Written label) (hn : Written name) : Written c
  | dotted {c qualifier sign name : Cursor} (h : c.kind = "qualified_name")
      (hchildren : c.children = [qualifier, sign, name]) (hcomposed : c.Composed)
      (hqualifier : qualifier.node.info.field = some "qualifier")
      (hsign : sign.node.info.field = none) (hdot : sign.text = ".")
      (hname : name.node.info.field = some "name") (hnamed : name.kind = "identifier")
      (hq : Written qualifier) (hn : Written name) : Written c

/-- What the source text of a name has before the name that it stands for. -/
def rootLabel : NameState → String
  | .full => "global::"
  | .partially | .failed => ""

theorem Written.unspaced_identifier (h : n.Written) (hkind : n.kind = "identifier") : Text.unspaced n.text = n.text := by
  cases h with
  | identifier _ hblank => exact hblank
  | rooted h | dotted h => exact absurd (hkind.symm.trans h) (by decide)

theorem Adds.name_text {name : Cursor} {s : String} (h : Adds x s) (hx : x.kind ≠ "identifier")
    (hname : x.field? "name" = some name) (hkind : name.kind = "identifier") : s = name.text := by
  have heq := h.eq
  rw [if_neg hx, hname, Option.bind_some, segment?, hkind] at heq
  exact (Option.some.inj heq).symm

/-- The nodes of a spine agree with the source text. -/
theorem Written.unspaced_spells {q : QualifiedName} (h : c.Written) (hspells : Spells c.spine q) (hok : q.state ≠ .failed) :
    Text.unspaced c.text = rootLabel q.state ++ q.name := by
  -- a node of each kind is spelled in one way, and the other ways contradict its kind
  induction h generalizing q with
  | @identifier c h hblank =>
    rw [spine_of_ne (by rw [h]; decide)] at hspells
    cases hspells with
    | head => exact hblank
    | rooted h' => exact absurd (h.symm.trans h') (by decide)
    | append _ hrest => exact (hrest.ne_nil rfl).elim
    | failed => exact (hok rfl).elim
  | @rooted c label sign name h hchildren hcomposed hlabel hlabelled hsign hcolons hname hnamed hl hn =>
    have hlabel' : c.field? "alias" = some label := by
      unfold field?
      simp [hchildren, hlabel]
    have hname' : c.field? "name" = some name := by
      unfold field?
      simp [hchildren, hlabel, hsign, hname]
    rw [spine_of_ne (by rw [h]; decide)] at hspells
    cases hspells with
    | head h' => exact absurd (h.symm.trans h') (by decide)
    | rooted _ hx =>
      have hglobal : label.text = "global" := by
        cases hx with
        | head h' | dotted h' => exact absurd (h.symm.trans h') (by decide)
        | rooted _ hl hglobal =>
          cases hlabel'.symm.trans hl
          exact hglobal
      rw [hx.name_text (by rw [h]; decide) hname' hnamed, hcomposed.eq_join hchildren, hl.unspaced_identifier hlabelled,
        hn.unspaced_identifier hnamed, hglobal, hcolons]
      rfl
    | append _ hrest => exact (hrest.ne_nil rfl).elim
    | failed => exact (hok rfl).elim
  | @dotted c qualifier sign name h hchildren hcomposed hqualifier hsign hdot hname hnamed _ hn ih =>
    have hq : c.field? "qualifier" = some qualifier := by
      unfold field?
      simp [hchildren, hqualifier]
    have hn' : c.field? "name" = some name := by
      unfold field?
      simp [hchildren, hqualifier, hsign, hname]
    rw [spine_of_qualifier h hq] at hspells
    generalize hspine : qualifier.spine = rest at hspells
    cases hspells with
    | head h' | rooted h' => exact absurd (h.symm.trans h') (by decide)
    | @append _ _ _ q hx hrest =>
      rw [state_append] at hok ⊢
      rw [hx.name_text (by rw [h]; decide) hn' hnamed, hcomposed.eq_join hchildren, ih (hspine ▸ hrest) hok,
        hn.unspaced_identifier hnamed, hdot, name_append hok, String.append_assoc, String.append_assoc, String.append_assoc]
      rfl
    | failed => exact (hok rfl).elim

theorem Written.spells (h : n.Written) (hok : n.qualify.state ≠ .failed) : Spells n.spine n.qualify := by
  have hsound : n.node.isBroken = false := by
    by_contra hbroken
    rw [qualify, if_pos (by simpa using hbroken)] at hok
    exact hok rfl
  unfold qualify
  rw [hsound]
  cases h with
  | identifier hkind =>
    rw [hkind, spine_of_ne (by rw [hkind]; decide)]
    exact .head hkind
  | rooted hkind =>
    rw [hkind]
    exact spells_alias hkind
  | dotted hkind =>
    rw [hkind]
    exact n.spells_dotted hkind

/-- The source text of a written name is the name that it is read as, after the alias if there is one. -/
theorem Written.unspaced_text (h : n.Written) (hok : n.qualify.state ≠ .failed) :
    Text.unspaced n.text = rootLabel n.qualify.state ++ n.qualify.name :=
  h.unspaced_spells (h.spells hok) hok

theorem Written.kind_ne_alias (h : n.Written) (hstate : n.qualify.state = .partially) : n.kind ≠ "alias_qualified_name" := by
  intro hkind
  have hspells := h.spells (by rw [hstate]; exact NameState.noConfusion)
  rw [spine_of_ne (by rw [hkind]; decide)] at hspells
  generalize n.qualify = q at hstate hspells
  cases hspells with
  | head h' => exact absurd (hkind.symm.trans h') (by decide)
  | rooted | failed => cases hstate
  | append _ hrest => exact hrest.ne_nil rfl

theorem namespaceName?_written (hname : d.field? "name" = some n) (h : n.Written) (hok : n.qualify.state ≠ .failed) :
    d.namespaceName? = some (rootLabel n.qualify.state ++ n.qualify.name) := by
  rw [namespaceName?, hname, Option.some_or, Option.map_some, h.unspaced_text hok]

/-- A `using` directive that imports the namespace named by `n`: neither an alias nor static, and with no
other name in it. -/
structure Imports (x n : Cursor) : Prop where
  kind : x.kind = "using_directive"
  assigns : x.hasChildOf "=" = false
  aliased : x.hasChildOf "name_equals" = false
  static : x.hasChildOf "static" = false
  name : n ∈ x.namedChildren
  only : ∀ y ∈ x.namedChildren, y.kind ∈ ["identifier", "qualified_name", "alias_qualified_name"] → y = n

theorem importedNamespace?_written (hx : x.Imports n) (h : n.Written) (hok : n.qualify.state ≠ .failed) :
    x.importedNamespace? =
      if n.kind = "alias_qualified_name" then none else some (rootLabel n.qualify.state ++ n.qualify.name) := by
  have hlast (y : Cursor) (hy : y ∈ x.namedChildren.filter fun x => x.kind == "qualified_name" || x.kind == "identifier") :
      y = n ∧ n.kind ≠ "alias_qualified_name" := by
    obtain ⟨hy, hkind⟩ := List.mem_filter.mp hy
    rw [Bool.or_eq_true, beq_iff_eq, beq_iff_eq] at hkind
    obtain rfl := hx.only y hy (by rcases hkind with h | h <;> simp [h])
    refine ⟨rfl, ?_⟩
    rcases hkind with h | h <;> simp [h]
  unfold importedNamespace?
  rw [hx.assigns, hx.aliased, hx.static]
  cases hfound : (x.namedChildren.filter fun x => x.kind == "qualified_name" || x.kind == "identifier").getLast? with
  | none =>
    have hkind : n.kind = "alias_qualified_name" := by
      have hnone := List.filter_eq_nil_iff.mp (List.getLast?_eq_none_iff.mp hfound) n hx.name
      cases h with
      | identifier hkind | dotted hkind => simp [hkind] at hnone
      | rooted hkind => exact hkind
    rw [if_pos hkind]
    rfl
  | some y =>
    obtain ⟨rfl, hne⟩ := hlast y (List.mem_of_getLast? hfound)
    rw [if_neg hne, ← h.unspaced_text hok]
    rfl

end Cursor

/-- What is catalogued is added to what was there. -/
theorem Declarations.preserves_grows {s : Session} : Declarations.Preserves s.Grows where
  space _ _ _ _ hs h := hs.trans (Session.grows_ensureNamespace h)
  file _ _ _ _ _ hs h := hs.trans (Session.grows_addSourceFile h)
  type _ _ _ _ hs _ h := hs.trans (Session.grows_addNamed h)

namespace SourceUnit

open Session

variable {u : SourceUnit} {s t : Session} {file : FileId} {types : Nat}

/-- The row of a file refers to the rows of the namespaces that the file imports. -/
theorem usings_catalog (hs : s.Sane) (h : u.catalog s = .ok (.catalogued file types, t)) :
    ∃ f ∈ t.files, f.id = file ∧ f.usings.map some = u.top.usings.map t.findNamespace := by
  unfold catalog at h
  split at h
  · cases h
  · obtain ⟨⟨usings, v⟩, hv, h⟩ := bind_eq_ok.mp h
    obtain ⟨⟨id, w⟩, hw, h⟩ := bind_eq_ok.mp h
    obtain ⟨⟨_, x⟩, hx, h⟩ := bind_eq_ok.mp h
    cases h
    have hids := ((yields_iff.mp (yields_ensureNamespaces hs)).1 _ hv).2.2.1
    have hwt : w.Grows t := (Declarations.preserves_grows.visit (.refl w) (by simp) u.root hx).1
    have hvt : v.Grows t := (grows_addSourceFile hw).trans hwt
    obtain ⟨-, hid, hw⟩ := addSourceFile_ok hw
    refine ⟨⟨file, u.path, usings⟩, hwt.files.subset ?_, rfl, ?_⟩
    · rw [hw, hid]
      exact List.mem_append_right _ List.mem_cons_self
    · dsimp only at hids ⊢
      rw [hids]
      apply List.map_congr_left
      intro name hname
      have hfound : v.findNamespace name ∈ usings.map some := hids ▸ List.mem_map_of_mem hname
      obtain ⟨i, -, hi⟩ := List.mem_map.mp hfound
      rw [← hi, hvt.findNamespace hi.symm]

/-- Namespaces whose names are written without comments, type arguments and alias are catalogued under the
names that references to them are read as, wherever the blanks are: where they are declared, and where they
are imported, so that one name has one row. The alias `global` stays part of the name, or the directive
imports nothing. -/
theorem catalog_spells_alike (hs : s.Sane) (hu : u.Shaped) (h : u.catalog s = .ok (.catalogued file types, t)) :
    (∀ d n : Cursor, d ∈ u.top.preorder → d.isNamespaceDeclaration = true → d.field? "name" = some n → n.Written →
      n.qualify.state = .partially →
      d.namespaceName? = some n.qualify.name ∧
        ∃ id, t.findNamespace (Dotted.within d.namespaceOf n.qualify.name) = some id) ∧
    (∀ x n : Cursor, x.Imports n → n.Written → n.qualify.state = .partially →
      x.importedNamespace? = some n.qualify.name ∧
      (x ∈ u.top.children → ∃ f ∈ t.files, f.id = file ∧ ∃ id ∈ f.usings, t.findNamespace n.qualify.name = some id) ∧
      ∀ d ∈ u.top.preorder, d.isNamespaceDeclaration = true → x ∈ (d.body?.getD d).children →
        ∃ id, t.findNamespace n.qualify.name = some id) ∧
    ∀ n : Cursor, n.Written → n.qualify.state = .full →
      (∀ d : Cursor, d.field? "name" = some n → d.namespaceName? = some ("global::" ++ n.qualify.name)) ∧
      ∀ x : Cursor, x.Imports n → x.importedNamespace? =
        if n.kind = "alias_qualified_name" then none else some ("global::" ++ n.qualify.name) := by
  have hready : t.Ready u := by
    obtain ⟨-, -, h⟩ := (yields_iff.mp (u.yields_catalog hs)).1 _ h
    obtain ⟨-, hready⟩ | ⟨⟨file, h⟩, -⟩ := h
    · exact hready hu
    · cases h
  have hlisted (d : Cursor) (hd : d ∈ u.top.preorder) (hns : d.isNamespaceDeclaration = true) :=
    (hready.lists d hd).space hns
  refine ⟨?_, ?_, ?_⟩
  · intro d n hd hns hname hn hstate
    have hspelled := Cursor.namespaceName?_written hname hn (by rw [hstate]; exact NameState.noConfusion)
    rw [hstate, Cursor.rootLabel, String.empty_append] at hspelled
    refine ⟨hspelled, Option.isSome_iff_exists.mp (hlisted d hd hns _ (List.mem_append_left _ ?_))⟩
    rw [hspelled]
    exact List.mem_singleton_self _
  · intro x n hx hn hstate
    have hspelled := Cursor.importedNamespace?_written hx hn (by rw [hstate]; exact NameState.noConfusion)
    rw [hstate, Cursor.rootLabel, String.empty_append, if_neg (hn.kind_ne_alias hstate)] at hspelled
    have hused {c : Cursor} (hc : x ∈ c.children) : n.qualify.name ∈ c.usings :=
      List.mem_filterMap.mpr ⟨x, List.mem_filter.mpr ⟨hc, by simp [hx.kind]⟩, hspelled⟩
    refine ⟨hspelled, ?_, ?_⟩
    · intro htop
      obtain ⟨f, hf, hfile, husings⟩ := usings_catalog hs h
      have hfound : t.findNamespace n.qualify.name ∈ f.usings.map some := husings ▸ List.mem_map_of_mem (hused htop)
      obtain ⟨id, hid, heq⟩ := List.mem_map.mp hfound
      exact ⟨f, hf, hfile, id, hid, heq.symm⟩
    · intro d hd hns hblock
      exact Option.isSome_iff_exists.mp (hlisted d hd hns _ (List.mem_append_right _ (hused hblock)))
  · intro n hn hstate
    have hok : n.qualify.state ≠ .failed := by
      rw [hstate]
      exact NameState.noConfusion
    refine ⟨fun d hname => ?_, fun x hx => ?_⟩
    · rw [Cursor.namespaceName?_written hname hn hok, hstate]
      rfl
    · rw [Cursor.importedNamespace?_written hx hn hok, hstate]
      rfl

end SourceUnit

namespace Sample

open Cursor

def token (index start : Nat) (text : String) : Node :=
  .mk { index, kind := text, field := none, named := false, hasError := false, missing := false, start, text
        span := .between 0 start 0 (start + text.length) } []

def dottedName (index start : Nat) (field : Option String) : Node :=
  node index "qualified_name" field start "A . B"
    [node (index + 1) "identifier" (some "qualifier") start "A" [], token (index + 2) (start + 2) ".",
     node (index + 3) "identifier" (some "name") (start + 4) "B" []]

/-- The file `using A . B;namespace A . B{}`. -/
def importing : SourceUnit where
  path := ⟨"A.cs"⟩
  source := "using A . B;namespace A . B{}"
  root := node 0 "compilation_unit" none 0 "using A . B;namespace A . B{}"
    [node 1 "using_directive" none 0 "using A . B;" [token 2 0 "using", dottedName 3 6 none, token 7 11 ";"],
     node 8 "namespace_declaration" none 12 "namespace A . B{}"
      [token 9 12 "namespace", dottedName 10 22 (some "name"),
       node 14 "declaration_list" (some "body") 27 "{}" [token 15 27 "\x7b", token 16 28 "\x7d"]]]

theorem written_dottedName (index start : Nat) (field : Option String) (above : List Node) :
    (⟨dottedName index start field, above⟩ : Cursor).Written := by
  have htext : Text.unspaced "A . B" = String.join (["A", ".", "B"].map Text.unspaced) ∧ Text.unspaced "A" = "A" ∧
      Text.unspaced "B" = "B" := by
    decide +kernel
  exact .dotted rfl rfl htext.1 rfl rfl rfl rfl rfl (.identifier rfl htext.2.1) (.identifier rfl htext.2.2)

def importDirective : Cursor := importing.top.child (importing.root.children[0]?.getD importing.root)

def spacedNamespace : Cursor := importing.top.child (importing.root.children[1]?.getD importing.root)

theorem catalog_spells_alike_blanks : Session.inMemory = .ok memory ∧ ∃ t id,
    importing.catalog memory = .ok (.catalogued ⟨1⟩ 0, t) ∧ importDirective.text = "using A . B;" ∧
      spacedNamespace.text = "namespace A . B{}" ∧ t.findNamespace "A.B" = some id ∧ ∃ f ∈ t.files, id ∈ f.usings := by
  obtain ⟨t, ht⟩ : ∃ t, importing.catalog memory = .ok (.catalogued ⟨1⟩ 0, t) :=
    ⟨((Request.catalog importing).run memory).2, by decide +kernel⟩
  have hname : importDirective.namedChildren = [importDirective.child (dottedName 3 6 none)] := rfl
  have hmem : spacedNamespace ∈ importing.top.preorder :=
    Node.preorder_child (Node.mem_preorder_self _) (List.mem_cons_of_mem _ List.mem_cons_self) rfl
  obtain ⟨hdeclared, himported, -⟩ :=
    SourceUnit.catalog_spells_alike (Session.sane_inMemory inMemory_eq) (SourceUnit.shaped_of_isShaped (by decide +kernel)) ht
  obtain ⟨-, id, hid⟩ := hdeclared spacedNamespace (spacedNamespace.child (dottedName 10 22 (some "name")))
    hmem rfl rfl (written_dottedName 10 22 _ _) (by decide +kernel)
  obtain ⟨-, hfile, -⟩ := himported importDirective (importDirective.child (dottedName 3 6 none))
    ⟨rfl, rfl, rfl, rfl, by simp [hname], by simp [hname]⟩ (written_dottedName 3 6 _ _) (by decide +kernel)
  obtain ⟨f, hf, -, i, hi, hfound⟩ := hfile (by exact List.mem_map_of_mem List.mem_cons_self)
  have hwhole : Dotted.within spacedNamespace.namespaceOf
      (spacedNamespace.child (dottedName 10 22 (some "name"))).qualify.name = "A.B" ∧ (importDirective.child (dottedName 3 6 none)).qualify.name = "A.B" := by decide +kernel
  rw [hwhole.1] at hid
  rw [hwhole.2, hid, Option.some.injEq] at hfound
  exact ⟨inMemory_eq, t, id, ht, rfl, rfl, hid, f, hf, hfound ▸ hi⟩

end Sample

end TypeCatalog
