import TypeCatalog.Proofs.Ledger

namespace TypeCatalog

/-- What is written turns the stored rows into all rows. -/
structure ChangeSet.Completes (changes : ChangeSet) (stored all : Contents) : Prop where
  namespaces : all.namespaces = stored.namespaces ++ changes.namespaces
  files : all.files = stored.files ++ changes.files
  named : ∃ old, all.named = old ++ changes.named ∧
    RowsBecome (NamedType.Awaits changes.externalNamespaces) (fun _ => False) stored.named old
  external : ∀ q ∈ changes.externalNamespaces, ∃ x, (q.1, .external x) ∈ stored.named
  elements : all.elements = stored.elements ++ changes.elements
  references : all.references = stored.references ++ changes.references
  usages : all.usages = stored.usages ++ changes.usages

section

variable {waiting : List (TypeId × String)} {rows later : List (TypeId × NamedType)}

theorem NamedType.Awaits.refl (id : TypeId) (a : NamedType) : a.Awaits [] id a := by
  cases a with
  | external x => exact ⟨x.namespaces, rfl, by simp⟩
  | documented d => rfl
  | parameter p => rfl
  | tuple r => rfl

/-- What does not depend on the namespaces of external types is the same while they wait. -/
theorem RowsBecome.map_awaits {α : Type}
    (h : RowsBecome (NamedType.Awaits waiting) (fun _ => False) rows later) {g : TypeId × NamedType → α}
    (hg : ∀ i x names, g (i, .external { x with namespaces := names }) = g (i, .external x)) :
    later.map g = rows.map g := by
  induction h with
  | nil hnew => exact congrArg _ (List.eq_nil_iff_forall_not_mem.mpr hnew)
  | @cons i a b rows later hab _ ih =>
    rw [List.map_cons, List.map_cons, ih]
    congr 1
    cases a with
    | external x =>
      obtain ⟨names, rfl, -⟩ := hab
      exact hg i x names
    | documented d => rw [show b = _ from hab]
    | parameter p => rw [show b = _ from hab]
    | tuple r => rw [show b = _ from hab]

theorem RowsBecome.flatMap_awaits {α : Type}
    (h : RowsBecome (NamedType.Awaits waiting) (fun _ => False) rows later) {g : TypeId × NamedType → List α}
    (hg : ∀ i x names, g (i, .external { x with namespaces := names }) = g (i, .external x)) :
    later.flatMap g = rows.flatMap g := by
  rw [List.flatMap_def, List.flatMap_def, h.map_awaits hg]

/-- Rows for which nothing waits are the same. -/
theorem RowsBecome.eq_of_awaits_nil (h : RowsBecome (NamedType.Awaits []) (fun _ => False) rows later)
    (hrows : ∀ i x, (i, .external x) ∈ rows → x.namespaces.Ascending)
    (hlater : ∀ i x, (i, .external x) ∈ later → x.namespaces.Ascending) : later = rows := by
  induction h with
  | nil hnew => exact List.eq_nil_iff_forall_not_mem.mpr hnew
  | @cons i a b rows later hab _ ih =>
    rw [ih (fun i x hx => hrows i x (List.mem_cons_of_mem _ hx))
      fun i x hx => hlater i x (List.mem_cons_of_mem _ hx)]
    congr 2
    cases a with
    | external x =>
      obtain ⟨names, rfl, hnames⟩ := hab
      have hx := hrows i x List.mem_cons_self
      have hx' := hlater i _ List.mem_cons_self
      have heq : names = x.namespaces := hx'.ext hx fun n => by simpa using hnames n
      rw [heq]
    | documented d => exact hab
    | parameter p => exact hab
    | tuple r => exact hab

end

theorem Pending.completes_self (f : Contents) : ({} : Pending).Completes f f where
  namespaces := ⟨[], by simp⟩
  files := ⟨[], by simp⟩
  named := ⟨f.named, [], by simp, rfl, .refl NamedType.Awaits.refl f.named⟩
  external := by simp
  elements := ⟨[], by simp⟩
  references := ⟨[], by simp⟩
  usages := ⟨[], by simp⟩

theorem Pending.eq_empty {p : Pending} (hp : p.isEmpty = true) : p = {} := by
  obtain ⟨a, b, n, x, e, r, u⟩ := p
  simp only [isEmpty, size, counts, List.foldr_cons, List.foldr_nil, Nat.add_zero, beq_iff_eq,
    Nat.add_eq_zero_iff, List.length_eq_zero_iff] at hp
  obtain ⟨rfl, rfl, rfl, rfl, rfl, rfl, rfl⟩ := hp
  rfl

/-- If nothing is pending, everything is stored. -/
theorem Pending.Completes.eq_of_isEmpty {p : Pending} {c f : Contents} (h : p.Completes c f)
    (hp : p.isEmpty = true) (hc : c.Regular) (hf : f.Regular) : f = c := by
  cases Pending.eq_empty hp
  have hnil {α β : Type} {id : α → β} {xs ys : List α} (h : ∃ new, ys = xs ++ new ∧ [] = new.map id) :
      ys = xs := by
    obtain ⟨new, rfl, hnew⟩ := h
    rw [List.map_eq_nil_iff.mp hnew.symm, List.append_nil]
  have hnamed : f.named = c.named := by
    obtain ⟨old, new, hall, hnew, hold⟩ := h.named
    rw [List.map_eq_nil_iff.mp hnew.symm, List.append_nil] at hall
    rw [← hall] at hold
    exact hold.eq_of_awaits_nil hc.external hf.external
  obtain ⟨ns, fs, ts, es, rs, us⟩ := f
  cases hnil h.namespaces
  cases hnil h.files
  cases hnamed
  cases hnil h.elements
  cases hnil h.references
  cases hnil h.usages
  rfl

/-- Writing the difference makes a store hold all rows. -/
theorem Database.Holds.write {db db' : Database} {c f : Contents} {changes : ChangeSet} (hh : db.Holds c)
    (hc : changes.Completes c f) (h : db.write changes = .ok db') : db'.Holds f := by
  have hp : Paired db.externalNamespaces := by
    intro row hrow
    obtain ⟨i, x, n, -, -, rfl⟩ := (hh.external row).mp hrow
    exact ⟨i, n, rfl⟩
  obtain ⟨rows, rfl, hrows⟩ := write_ok hp h
  obtain ⟨old, hall, hold⟩ := hc.named
  constructor
  case namespaces => rw [hc.namespaces, List.map_append, ← hh.namespaces]; rfl
  case files => rw [hc.files, List.map_append, ← hh.files]; rfl
  case usings => rw [hc.files, List.flatMap_append, ← hh.usings]; rfl
  case named =>
    rw [hall, List.map_append, hold.map_awaits fun _ _ _ => rfl, ← hh.named]
    rfl
  case parameters =>
    rw [hall, List.flatMap_append, hold.flatMap_awaits fun _ _ _ => rfl, ← hh.parameters]
    rfl
  -- a stored type has its old namespaces and those that waited, a new one has all its own
  case external =>
    intro row
    refine (hrows row).trans ?_
    rw [show db.externalNamespaces = db.rows .externalNamespaces from rfl, hh.external, hall]
    constructor
    · rintro (⟨i, x, n, hx, hn, rfl⟩ | hrow | hrow)
      · obtain ⟨b, hb, names, rfl, hnames⟩ := hold.mem hx
        exact ⟨i, _, n, List.mem_append_left _ hb, (hnames n).mpr (.inl hn), rfl⟩
      · obtain ⟨⟨i, a⟩, ha, hrow⟩ := List.mem_flatMap.mp hrow
        cases a with
        | external x =>
          obtain ⟨n, hn, rfl⟩ := List.mem_map.mp hrow
          exact ⟨i, x, n, List.mem_append_right _ ha, hn, rfl⟩
        | documented d => cases hrow
        | parameter p => cases hrow
        | tuple r => cases hrow
      · obtain ⟨q, hq, rfl⟩ := List.mem_map.mp hrow
        obtain ⟨x, hx⟩ := hc.external q hq
        obtain ⟨b, hb, names, rfl, hnames⟩ := hold.mem hx
        exact ⟨q.1, _, q.2, List.mem_append_left _ hb, (hnames q.2).mpr (.inr hq), rfl⟩
    · rintro ⟨i, x, n, hx, hn, rfl⟩
      rcases List.mem_append.mp hx with hx | hx
      · obtain ⟨a, ha, haw⟩ := hold.of_mem hx
        cases a with
        | external y =>
          obtain ⟨names, heq, hnames⟩ := haw
          cases heq
          rcases (hnames n).mp hn with hn | hn
          · exact .inl ⟨i, y, n, ha, hn, rfl⟩
          · exact .inr (.inr (List.mem_map.mpr ⟨(i, n), hn, rfl⟩))
        | documented d => cases haw
        | parameter p => cases haw
        | tuple r => cases haw
      · exact .inr (.inl (List.mem_flatMap.mpr ⟨_, hx, List.mem_map.mpr ⟨n, hn, rfl⟩⟩))
  case elements => rw [hc.elements, List.map_append, ← hh.elements]; rfl
  case references => rw [hc.references, List.map_append, ← hh.references]; rfl
  case usages => rw [hc.usages, List.map_append, ← hh.usages]; rfl

namespace Session

theorem pendingRows_eq {e : Entity} {α : Type} {what : String} {find : RowId e → Option α} {id : α → RowId e}
    {rows : List α} (h : ∀ a ∈ rows, find (id a) = some a) :
    pendingRows what find (rows.map id) = .ok rows := by
  unfold pendingRows
  conv => rhs; rw [← List.map_id rows]
  apply mapM_eq_ok
  intro a ha
  rw [h a ha]
  rfl

namespace Journal

variable {s t : Session} {c f : Contents}

/-- A row that waits to be stored is found by its id. -/
theorem find?_waiting {α : Type} {e : Entity} {id : α → RowId e} {xs new all : List α}
    (hall : Counted (all.map id)) (hnew : all = xs ++ new) : ∀ a ∈ new, all.find? (id · == id a) = some a := by
  intro a ha
  apply find?_of_nodup hall.nodup
  rw [hnew]
  exact List.mem_append_right _ ha

/-- The same for tables of which only the newest rows are here. -/
theorem find?_resident {α : Type} {e : Entity} {id : α → RowId e} {stored new all resident : List α}
    (hall : Counted (all.map id)) (hnew : all = stored ++ new)
    (hres : ∃ older, older <+: stored ∧ all = older ++ resident) :
    ∀ a ∈ new, resident.find? (id · == id a) = some a := by
  obtain ⟨older, ⟨mid, rfl⟩, hres⟩ := hres
  have hmid : resident = mid ++ new := by
    rw [hnew, List.append_assoc] at hres
    exact (List.append_cancel_left hres).symm
  intro a ha
  apply find?_of_nodup
  · have hn := hall.nodup
    rw [hres, List.map_append] at hn
    exact (List.nodup_append.mp hn).2.1
  · rw [hmid]
    exact List.mem_append_right _ ha

theorem named?_of_waiting (h : s.Journal c f) {r : TypeId × NamedType} (hr : r ∈ f.named)
    (hid : r.1 ∈ s.pending.named) : s.named? r.1 = some r.2 := by
  obtain ⟨b, hb, -⟩ := h.rows.mem hr
  rw [h.named?_eq, h.regular.named.unique hr (h.fresh _ hb hid)]
  exact hb

theorem changeSet_ok (h : s.Journal c f) :
    ∃ changes, s.changeSet = .ok changes ∧ changes.Completes c f := by
  obtain ⟨ns, hns, hnsp⟩ := h.pending.namespaces
  obtain ⟨fs, hfs, hfsp⟩ := h.pending.files
  obtain ⟨old, ts, hts, htsp, hold⟩ := h.pending.named
  obtain ⟨es, hes, hesp⟩ := h.pending.elements
  obtain ⟨rs, hrs, hrsp⟩ := h.pending.references
  obtain ⟨us, hus, husp⟩ := h.pending.usages
  have hnamed : ∀ r ∈ ts, (s.named? r.1).map (r.1, ·) = some r := by
    intro r hr
    rw [h.named?_of_waiting (hts ▸ List.mem_append_right _ hr) (htsp ▸ List.mem_map_of_mem hr)]
    rfl
  refine ⟨⟨ns, fs, ts, s.pending.externalNamespaces, es, rs, us⟩, ?_,
    ⟨hns, hfs, ⟨old, hts, hold⟩, h.pending.external, hes, hrs, hus⟩⟩
  unfold changeSet
  rw [hnsp, hfsp, htsp, hesp, hrsp, husp]
  have hns' := find?_waiting h.regular.namespaces hns
  have hfs' := find?_waiting h.regular.files hfs
  have hes' := find?_waiting h.regular.elements hes
  rw [← h.namespaces] at hns'
  rw [← h.files] at hfs'
  rw [← h.elements] at hes'
  rw [pendingRows_eq hns', pendingRows_eq hfs', pendingRows_eq hnamed, pendingRows_eq hes',
    pendingRows_eq (find?_resident h.regular.references hrs h.references),
    pendingRows_eq (find?_resident h.regular.usages hus h.usages)]
  rfl

/-- A session after everything was stored. -/
theorem saved (h : s.Journal c f) {store : Option Store} (hstore : store = none → s.store = none)
    (hholds : ∀ st, store = some st → st.database.Holds f ∧ st.database.Linked) :
    Journal { s with store, pending := {} } f f where
  namespaces := h.namespaces
  files := h.files
  rows := h.rows
  elements := h.elements
  references := by
    obtain ⟨older, -, hall⟩ := h.references
    exact ⟨older, ⟨_, hall.symm⟩, hall⟩
  usages := by
    obtain ⟨older, -, hall⟩ := h.usages
    exact ⟨older, ⟨_, hall.symm⟩, hall⟩
  namespaceIds := h.namespaceIds
  fileIds := h.fileIds
  namedIds := h.namedIds
  elementIds := h.elementIds
  referenceIds := h.referenceIds
  usageIds := h.usageIds
  pending := Pending.completes_self f
  fresh := by simp
  memory := fun hnone => h.memory (hstore hnone)
  holds := hholds
  storedRegular := h.regular
  regular := h.regular

/-- After changes are saved, the store holds every row. -/
theorem save (h : s.Journal c f) {n : Nat} (hs : s.save = .ok (n, t)) : t.Journal f f := by
  obtain ⟨hp, rfl⟩ | ⟨hstore, rfl⟩ | ⟨store, changes, database, hstore, hc, -, hw, rfl⟩ := save_ok hs
  · have hfc := h.pending.eq_of_isEmpty hp h.storedRegular h.regular
    subst hfc
    exact h
  · apply h.saved fun _ => hstore
    intro st hst
    rw [hstore] at hst
    cases hst
  · obtain ⟨changes', hc', hcompletes⟩ := h.changeSet_ok
    rw [hc] at hc'
    cases hc'
    obtain ⟨hholds, hlinked⟩ := h.holds store hstore
    apply h.saved
    · rintro ⟨⟩
    · rintro st ⟨⟩
      exact ⟨hholds.write hcompletes hw, hlinked.write hw⟩

end Journal

theorem Ledger.save {s t : Session} {c f : Contents} (h : s.Ledger c f) {n : Nat} (hs : s.save = .ok (n, t)) :
    t.Ledger f f := by
  have hj := h.toJournal.save hs
  have hsame : t.named = s.named := by
    obtain ⟨-, rfl⟩ | ⟨-, rfl⟩ | ⟨store, changes, database, -, -, -, -, rfl⟩ := save_ok hs
    · rfl
    · rfl
    · rfl
  exact { hj with
    named := hsame ▸ h.named
    storedSound := h.sound
    sound := h.sound }

end Session

end TypeCatalog
