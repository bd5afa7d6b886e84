import TypeCatalog.Proofs.Coherence

namespace TypeCatalog

namespace Dotted

theorem enclosing_of_splitLast {name : String} {outer last : List Char}
    (h : splitLast name.toList = some (outer, last)) :
    enclosing name = String.ofList outer :: enclosing (String.ofList outer) := by
  unfold enclosing
  rw [enclosingChars, String.toList_ofList]
  split
  · next o l ho =>
    rw [h] at ho
    cases ho
    rfl
  · next ho =>
    rw [h] at ho
    cases ho

theorem enclosing_eq_nil {name : String} (h : splitLast name.toList = none) : enclosing name = [] := by
  unfold enclosing
  rw [enclosingChars]
  split
  · next o l ho =>
    rw [h] at ho
    cases ho
  · rfl

end Dotted

namespace Session

theorem outerNamespaces_of_ne {name : String} (h : name ≠ "") :
    outerNamespaces name = (Dotted.outer? name).getD "" :: outerNamespaces ((Dotted.outer? name).getD "") ∧
      ((Dotted.outer? name).getD "").length < name.length := by
  have hempty : name.isEmpty = false := by simpa using h
  have hpos : "".length < name.length := by
    have : name.length ≠ 0 := by simpa using h
    simp only [String.length_empty]
    omega
  unfold Dotted.outer? Dotted.split?
  cases hs : Dotted.splitLast name.toList with
  | none =>
    refine ⟨?_, hpos⟩
    show outerNamespaces name = "" :: outerNamespaces ""
    rw [outerNamespaces_empty]
    unfold outerNamespaces
    rw [Dotted.enclosing_eq_nil hs, hempty]
    rfl
  | some p =>
    obtain ⟨outer, last⟩ := p
    show outerNamespaces name = String.ofList outer :: outerNamespaces (String.ofList outer) ∧
      (String.ofList outer).length < name.length
    constructor
    -- a name that starts with a dot is directly in the global namespace
    · by_cases ho : String.ofList outer = ""
      · rw [ho, outerNamespaces_empty]
        unfold outerNamespaces
        have hnil : Dotted.enclosing "" = [] := Dotted.enclosing_eq_nil rfl
        rw [Dotted.enclosing_of_splitLast hs, ho, hnil]
        simp
      · have ho' : (String.ofList outer).isEmpty = false := by simpa using ho
        unfold outerNamespaces
        rw [Dotted.enclosing_of_splitLast hs, hempty, ho']
        have hcontains : (String.ofList outer :: Dotted.enclosing (String.ofList outer)).contains "" =
            (Dotted.enclosing (String.ofList outer)).contains "" := by
          rw [List.contains_cons]
          have : ("" == String.ofList outer) = false := by simpa using Ne.symm ho
          rw [this, Bool.false_or]
        dsimp only
        rw [hcontains, Bool.false_or]
        split <;> rfl
    · have hlt := Dotted.length_of_splitLast hs
      rw [String.length_ofList, ← String.length_toList]
      exact hlt

variable {s t : Session} {c f : Contents}

theorem findNamespace_addNamespace {name m : String} {parent : Option NamespaceId} {id : NamespaceId}
    (ha : s.addNamespace name parent = .ok (id, t)) :
    t.findNamespace m = (s.findNamespace m).or (if name = m then some id else none) := by
  obtain ⟨-, rfl, rfl⟩ := addNamespace_ok ha
  unfold findNamespace
  dsimp only
  rw [List.find?_append, Option.map_or]
  congr 1
  by_cases hm : name = m <;> simp [hm]

/-- The parent of a new namespace is the namespace of the text before its last dot. -/
def Under (s : Session) (name : String) (parent : Option NamespaceId) : Prop :=
  if name = "" then parent = none
  else ∃ p, parent = some p ∧ s.findNamespace ((Dotted.outer? name).getD "") = some p

/-- What the addition of a namespace under its parent preserves is preserved when a namespace is found or
added together with those around it. -/
theorem ensureWithin_nested {P : Session → Prop} {name : String} {outer : List String}
    (hstep : ∀ s m parent id t, P s → m ∈ name :: outer → s.findNamespace m = none → s.Under m parent →
      s.addNamespace m parent = .ok (id, t) → P t)
    {id : NamespaceId} (houter : outerNamespaces name = outer) (hs : P s)
    (h : s.ensureWithin name outer = .ok (id, t)) :
    P t ∧ t.findNamespace name = some id ∧
      ∀ m, name.length < m.length → t.findNamespace m = s.findNamespace m := by
  -- longer names stay as they are, so that `name` itself is still new after those around it
  induction outer generalizing s t name id with
  | nil =>
    unfold Session.ensureWithin at h
    split at h
    · next hfound =>
      cases h
      exact ⟨hs, hfound, fun _ _ => rfl⟩
    · next hnone =>
      have hname : name = "" := by
        by_contra hne
        rw [(outerNamespaces_of_ne hne).1] at houter
        cases houter
      have hunder : s.Under name none := by
        unfold Under
        rw [if_pos hname]
      refine ⟨hstep _ _ _ _ _ hs List.mem_cons_self hnone hunder h, ?_, ?_⟩
      · rw [findNamespace_addNamespace h, hnone, if_pos rfl]
        rfl
      · intro m hm
        have hne : name ≠ m := by
          rintro rfl
          omega
        rw [findNamespace_addNamespace h, if_neg hne, Option.or_none]
  | cons o os ih =>
    unfold Session.ensureWithin at h
    split at h
    · next hfound =>
      cases h
      exact ⟨hs, hfound, fun _ _ => rfl⟩
    · next hnone =>
      obtain ⟨⟨parent, u⟩, hu, hadd⟩ := bind_eq_ok.mp h
      have hname : name ≠ "" := by
        rintro rfl
        rw [outerNamespaces_empty] at houter
        cases houter
      obtain ⟨hp, hlt⟩ := outerNamespaces_of_ne hname
      rw [houter, List.cons.injEq] at hp
      obtain ⟨rfl, hos⟩ := hp
      obtain ⟨hP, hfound, hlonger⟩ := ih (fun s m parent id t hs hm => hstep s m parent id t hs (.tail _ hm)) hos.symm hs hu
      have hnone' : u.findNamespace name = none := by rw [hlonger name hlt, hnone]
      have hunder : u.Under name (some parent) := by
        unfold Under
        rw [if_neg hname]
        exact ⟨parent, rfl, hfound⟩
      refine ⟨hstep _ _ _ _ _ hP List.mem_cons_self hnone' hunder hadd, ?_, ?_⟩
      · rw [findNamespace_addNamespace hadd, hnone', if_pos rfl]
        rfl
      · intro m hm
        have hne : name ≠ m := by
          rintro rfl
          omega
        rw [findNamespace_addNamespace hadd, if_neg hne, Option.or_none]
        exact hlonger m (by omega)

theorem mem_of_findNamespace {name : String} {id : NamespaceId} (h : s.findNamespace name = some id) :
    ∃ n ∈ s.namespaces, n.name = name ∧ n.id = id := by
  obtain ⟨n, hn, rfl⟩ := Option.map_eq_some_iff.mp h
  exact ⟨n, List.mem_of_find?_eq_some hn, by simpa using List.find?_some hn, rfl⟩

theorem findNamespace_eq_none {name : String} (h : s.findNamespace name = none) :
    name ∉ s.namespaces.map (·.name) := by
  rw [List.mem_map]
  rintro ⟨n, hmem, rfl⟩
  exact List.find?_eq_none.mp (Option.map_eq_none_iff.mp h) n hmem (beq_self_eq_true _)

theorem Coherent.findNamespace_iff (h : s.Coherent c f) {name : String} {id : NamespaceId} :
    s.findNamespace name = some id ↔ ∃ n ∈ f.namespaces, n.name = name ∧ n.id = id := by
  rw [← h.namespaces]
  constructor
  · exact mem_of_findNamespace
  · rintro ⟨n, hn, rfl, rfl⟩
    have hnodup : (s.namespaces.map (·.name)).Nodup := h.namespaces ▸ h.coherent.names
    exact Option.map_eq_some_iff.mpr ⟨n, find?_of_nodup hnodup hn, rfl⟩

theorem Coherent.addUnder (h : s.Coherent c f) {name : String} {parent : Option NamespaceId} {id : NamespaceId}
    (hnone : s.findNamespace name = none) (hunder : s.Under name parent)
    (ha : s.addNamespace name parent = .ok (id, t)) :
    t.Coherent c { f with namespaces := f.namespaces ++ [⟨⟨f.namespaces.length + 1⟩, name, parent⟩] } := by
  have hname : name ∉ f.namespaces.map (·.name) := h.namespaces ▸ findNamespace_eq_none hnone
  unfold Under at hunder
  split at hunder
  · next hempty =>
    subst hempty hunder
    exact h.addNamespace hname (by simp) (by simp [outerNamespaces_empty]) ha
  · next hne =>
    obtain ⟨p, rfl, hp⟩ := hunder
    obtain ⟨m, hm, hmo, rfl⟩ := h.findNamespace_iff.mp hp
    refine h.addNamespace hname ?_ ?_ ha
    · rintro _ ⟨⟩
      exact List.mem_map_of_mem hm
    · intro q hq
      rw [(outerNamespaces_of_ne hne).1, ← hmo] at hq
      rcases List.mem_cons.mp hq with rfl | hq
      · exact List.mem_map_of_mem hm
      · exact h.coherent.outer m hm q hq

theorem Coherent.ensureNamespace (h : s.Coherent c f) {name : String} {id : NamespaceId}
    (ha : s.ensureNamespace name = .ok (id, t)) :
    ∃ ns, t.Coherent c { f with namespaces := ns } ∧ t.findNamespace name = some id := by
  obtain ⟨⟨ns, ht⟩, hfound, -⟩ :=
    ensureWithin_nested (P := fun s => ∃ ns, s.Coherent c { f with namespaces := ns })
      (fun _ _ _ _ _ ⟨_, hs⟩ _ hnone hunder hadd => ⟨_, hs.addUnder hnone hunder hadd⟩) rfl ⟨f.namespaces, h⟩ ha
  exact ⟨ns, ht, hfound⟩

/-- A session whose rows are coherent and whose global namespace is there. -/
def Sane (s : Session) : Prop := s.Rooted ∧ ∃ c f, s.Coherent c f

theorem Sane.numbered (h : s.Sane) : s.Numbered := by
  obtain ⟨-, c, f, hc⟩ := h
  exact hc.toLedger.numbered

theorem Sane.addUnder (h : s.Sane) {name : String} {parent : Option NamespaceId} {id : NamespaceId}
    (hnone : s.findNamespace name = none) (hunder : s.Under name parent)
    (ha : s.addNamespace name parent = .ok (id, t)) : t.Sane := by
  obtain ⟨hroot, c, f, hc⟩ := h
  exact ⟨hroot.of_grows (grows_addNamespace ha), c, _, hc.addUnder hnone hunder ha⟩

theorem Sane.ensureNamespace (h : s.Sane) {name : String} {id : NamespaceId}
    (ha : s.ensureNamespace name = .ok (id, t)) : t.Sane ∧ t.findNamespace name = some id := by
  obtain ⟨hroot, c, f, hc⟩ := h
  obtain ⟨ns, ht, hfound⟩ := hc.ensureNamespace ha
  exact ⟨⟨hroot.of_grows (grows_ensureNamespace ha), c, _, ht⟩, hfound⟩

theorem Coherent.withGlobal (h : s.Coherent c f) (hg : s.withGlobal = .ok t) : t.Sane := by
  obtain ⟨hroot, id, u, hu, rfl⟩ := withGlobal_ok hg
  obtain ⟨ns, hns, -⟩ := h.ensureNamespace hu
  exact ⟨hroot, c, _, { hns with }⟩

theorem coherent_empty : ({} : Contents).Coherent where
  linked := ⟨by simp, by simp, by simp, by simp, by simp, by simp⟩
  names := .nil
  paths := .nil
  outer := by simp
  container := by simp

theorem ledger_empty : Ledger { store := none } {} {} where
  namespaces := rfl
  files := rfl
  rows := .nil (by simp)
  named := .nil (by simp)
  elements := rfl
  references := ⟨[], List.prefix_rfl, rfl⟩
  usages := ⟨[], List.prefix_rfl, rfl⟩
  namespaceIds := rfl
  fileIds := rfl
  namedIds := rfl
  elementIds := rfl
  referenceIds := rfl
  usageIds := rfl
  pending := Pending.completes_self {}
  fresh := by simp
  memory := fun _ => rfl
  holds := by rintro store ⟨⟩
  storedRegular := holds_empty.2.1.toRegular
  regular := holds_empty.2.1.toRegular
  storedSound := holds_empty.2.1
  sound := holds_empty.2.1

theorem sane_inMemory (h : inMemory = .ok s) : s.Sane := by
  have hempty : Coherent { store := none } {} {} :=
    { ledger_empty with storedCoherent := coherent_empty, coherent := coherent_empty }
  exact hempty.withGlobal h

theorem sane_openStore {store : Store} (hh : store.database.Holds c) (hs : c.Sound)
    (hl : store.database.Linked) (hc : c.Coherent) (h : openStore store = .ok t) : t.Sane := by
  obtain ⟨hb, hg⟩ := (openStore_iff hh hs.toRegular hl).mp h
  have hopened : (opened store c).Coherent c c :=
    { ledger_opened hh hs hl hb with storedCoherent := hc, coherent := hc }
  exact hopened.withGlobal hg

theorem Sane.reopen (h : s.Sane) {store : Store} (hstore : s.store = some store) {path : Option Path}
    {readOnly : Bool} (ho : openStore { store with path, readOnly } = .ok t) : t.Sane := by
  obtain ⟨-, c, f, hc⟩ := h
  obtain ⟨hholds, hlinked⟩ := hc.holds store hstore
  have hholds : ({ store with path, readOnly } : Store).database.Holds c := hholds
  exact sane_openStore hholds hc.storedSound hlinked hc.storedCoherent ho

end Session

end TypeCatalog
