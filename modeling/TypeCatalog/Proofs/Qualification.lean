import TypeCatalog.Proofs.FullNames

namespace TypeCatalog

namespace Dotted

variable {name qualifier simple : String}

theorem splitLast_eq_some {cs outer last : List Char} (h : splitLast cs = some (outer, last)) :
    cs = outer ++ '.' :: last := by
  induction cs generalizing outer with
  | nil => cases h
  | cons c cs ih =>
    rw [splitLast] at h
    split at h
    · next o l he =>
      obtain ⟨rfl, rfl⟩ := by simpa using h
      rw [ih he, List.cons_append]
    · split at h
      · next hdot =>
        obtain ⟨rfl, rfl⟩ := by simpa using h
        rw [hdot, List.nil_append]
      · cases h

/-- No part of the name between dots is empty. -/
def Solid (name : String) : Prop := ∀ part ∈ name.toList.splitOn '.', part ≠ []

instance : Decidable (Solid name) := inferInstanceAs (Decidable (∀ part ∈ name.toList.splitOn '.', part ≠ []))

theorem split?_eq_some (h : split? name = some (qualifier, simple)) : name = qualifier ++ "." ++ simple := by
  obtain ⟨⟨outer, last⟩, hsplit, h⟩ := Option.map_eq_some_iff.mp h
  obtain ⟨rfl, rfl⟩ := by simpa using h
  apply String.toList_injective
  rw [splitLast_eq_some hsplit]
  simp

theorem Solid.qualifier_ne (hsolid : Solid name) (h : split? name = some (qualifier, simple)) : qualifier ≠ "" := by
  rintro rfl
  refine hsolid [] ?_ rfl
  have hchars : name.toList = '.' :: simple.toList := by
    rw [split?_eq_some h]
    simp
  rw [hchars, List.splitOn, List.splitOnP_cons_eq_if_modifyHead, if_pos (beq_self_eq_true _)]
  exact List.mem_cons_self

/-- Splitting a name off its qualifier and joining the two gives the name, seen from any scope. -/
theorem within_split {outer : String} (hsolid : Solid name) (h : split? name = some (qualifier, simple)) :
    within (within outer qualifier) simple = within outer name := by
  have hne := hsolid.qualifier_ne h
  rw [within_within hne]
  congr 1
  rw [split?_eq_some h]
  exact if_neg (by simpa using hne)

end Dotted

namespace Find

variable {d : Descriptor} {contexts : Option (List Context)}

/-- The full names under which the documented types are searched, in the order of the contexts. -/
def spellings (d : Descriptor) (contexts : Option (List Context)) : List String :=
  match contexts with
  | none => [d.name]
  | some cs => cs.map (·.qualify d.name)

theorem documented_eq_spellings (s : Session) :
    documented s d contexts = (spellings d contexts).findSome? (s.findDocumented · d.argumentCount) := by
  unfold documented spellings
  cases contexts with
  | none => simp
  | some cs => rw [List.findSome?_map]; rfl

theorem mem_spellings (hplain : d.isTuple = false) (hkeyword : d.isPredefined = false) (hsolid : Dotted.Solid d.name)
    {name : String} :
    name ∈ spellings d contexts ↔
      ∃ space ∈ (effectiveNamespaces d contexts).names, name = Dotted.within space d.split.2 := by
  unfold spellings effectiveNamespaces Descriptor.split
  rw [hplain, hkeyword]
  cases hdot : Dotted.split? d.name with
  | none =>
    cases contexts with
    | none => simp [NameSet.mem_ofList, Dotted.within]
    | some cs => simp [NameSet.mem_ofList, Context.qualify, eq_comm]
  | some parts =>
    obtain ⟨qualifier, simple⟩ := parts
    have hjoin (outer : String) : Dotted.within (Dotted.within outer qualifier) simple = Dotted.within outer d.name :=
      Dotted.within_split hsolid hdot
    cases contexts with
    | none =>
      have hjoin : Dotted.within qualifier simple = d.name := hjoin ""
      simp [NameSet.mem_ofList, hjoin]
    | some cs => simp [NameSet.mem_ofList, Context.qualify, hjoin, eq_comm]

/-- Documented and external types are looked up under the same full names: joining the dotted name to
each context gives what joining the simple name to each possible namespace gives. -/
theorem documented_and_external_spellings (hplain : d.isTuple = false) (hkeyword : d.isPredefined = false)
    (hsolid : Dotted.Solid d.name) :
    (∀ s : Session, documented s d contexts =
      (spellings d contexts).findSome? (s.findDocumented · d.argumentCount)) ∧
    ∀ name, name ∈ spellings d contexts ↔
      ∃ space ∈ (effectiveNamespaces d contexts).names, name = Dotted.within space d.split.2 :=
  ⟨documented_eq_spellings, fun _ => mem_spellings hplain hkeyword hsolid⟩

end Find

namespace Sample

/-- The name `IO.Stream`, written inside the namespace `App`. -/
def stream : Descriptor := .mk "IO.Stream" (.searched [.ofNamespace "App" ⟨2⟩, .ofNamespace "" ⟨1⟩]) 0 none []

theorem stream_spellings : stream.isTuple = false ∧ stream.isPredefined = false ∧ Dotted.Solid stream.name ∧
    Find.spellings stream stream.contexts? = ["App.IO.Stream", "IO.Stream"] ∧
    (Find.effectiveNamespaces stream stream.contexts?).names = ["App.IO", "IO"] ∧ stream.split.2 = "Stream" ∧
    ∀ name, name ∈ Find.spellings stream stream.contexts? ↔
      ∃ space ∈ (Find.effectiveNamespaces stream stream.contexts?).names,
        name = Dotted.within space stream.split.2 :=
  ⟨by decide +kernel, by decide +kernel, by decide +kernel, by decide +kernel, by decide +kernel, by decide +kernel,
    (Find.documented_and_external_spellings (by decide +kernel) (by decide +kernel) (by decide +kernel)).2⟩

end Sample

end TypeCatalog
