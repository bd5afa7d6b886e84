import TypeCatalog.Proofs.Rereading

namespace TypeCatalog

open Act Session Resolved

namespace Session

variable {s t : Session} {scope : Scope} {d : Descriptor} {Q : Descriptor → TypeId → Prop}

theorem Loads.addsNoTuple (h : s.Loads t) (hs : s.Numbered) : s.AddsNoTuple t := by
  intro i r hr
  obtain ⟨a, ha, hab⟩ := h.named.of_mem (List.mem_of_find?_eq_some (find?_of_named?.mp hr))
  cases hab with
  | same => exact find?_of_named?.mpr (find?_of_nodup hs.named.nodup ha)

theorem named_save {n : Nat} (h : s.save = .ok (n, t)) : t.named = s.named := by
  obtain ⟨-, rfl⟩ | ⟨-, rfl⟩ | ⟨store, changes, database, -, -, -, -, rfl⟩ := save_ok h <;> rfl

end Session

namespace Find

variable {α β : Type} {chain : Chain} {scope : Scope} {s t : Session} {good good' : α → Session → Prop}
  {Q : Descriptor → TypeId → Prop}

/-- A part of a resolution that declares nothing, keeps tuples apart and gives what is `good`. -/
def Pursues (a : Act ResolveError α) (s : Session) (good : α → Session → Prop) : Prop :=
  s.Sane → s.Tidy → s.Nested → a.Leads s (fun x t => (t.Tidy ∧ s.Advances t) ∧ good x t) fun _ _ => True

theorem pursues_pure {x : α} (h : s.Sane → good x s) : Pursues (pure x) s good :=
  fun hs htidy hn => leads_pure ⟨⟨htidy, .refl hs hn⟩, h hs⟩

theorem pursues_throw {e : ResolveError} : Pursues (throw e : Act ResolveError α) s good :=
  fun _ _ _ => leads_throw trivial

theorem pursues_bind {m : β → Session → Prop} {a : Act ResolveError β} {f : β → Act ResolveError α}
    (ha : Pursues a s m) (hf : ∀ x t, s.Advances t → m x t → Pursues (f x) t good) : Pursues (a >>= f) s good := by
  intro hs htidy hn
  apply leads_bind
  refine (ha hs htidy hn).mono ?_ fun _ _ h => h
  rintro x t ⟨⟨httidy, hst⟩, hx⟩
  refine (hf x t hst hx hst.after httidy hst.nested_after).mono ?_ fun _ _ h => h
  rintro y u ⟨⟨hutidy, htu⟩, hy⟩
  exact ⟨⟨hutidy, hst.trans htu⟩, hy⟩

theorem Pursues.mono {a : Act ResolveError α} (h : Pursues a s good)
    (hg : ∀ x t, s.Advances t → good x t → good' x t) : Pursues a s good' := by
  intro hs htidy hn
  refine (h hs htidy hn).mono ?_ fun _ _ h => h
  rintro x t ⟨hkept, hx⟩
  exact ⟨hkept, hg x t hkept.2 hx⟩

theorem Pursues.and {a : Act ResolveError α} (h : Pursues a s good) (k : Tracks a s good') :
    Pursues a s fun x t => good x t ∧ good' x t := by
  intro hs htidy hn
  refine ((h hs htidy hn).and (k hs htidy)).mono ?_ fun _ _ _ => trivial
  rintro x t ⟨⟨hkept, hx⟩, -, hx'⟩
  exact ⟨hkept, hx, hx'⟩

theorem Tracks.pursues {a : Act ResolveError α} (h : Tracks a s good) (k : Traced chain scope a s good') :
    Pursues a s good := by
  intro hs htidy hn
  refine ((h hs htidy).and (k hs.numbered)).mono ?_ fun _ _ _ => trivial
  rintro x t ⟨⟨⟨ht, httidy, hg⟩, hx⟩, hrun, -⟩
  exact ⟨⟨httidy, hs, hn, ht, hg, hrun.continues hs⟩, hx⟩

theorem Reads.pursues {a : Act ResolveError α} (h : Reads a s good) :
    Pursues a s fun x t => s.Loads t ∧ good x t := by
  intro hs htidy hn
  refine (h hs hn).mono ?_ fun _ _ h => h.elim
  rintro x t ⟨⟨hloads, hst⟩, hx⟩
  exact ⟨⟨htidy.kept hs hst.after hst.grows (hloads.addsNoTuple hs.numbered), hst⟩, hloads, hx⟩

theorem Pursues.left {a : Act ResolveError α} (h : Pursues a s good) (hs : s.Sane) (htidy : s.Tidy) (hn : s.Nested)
    {x : α} (ho : a.outcome s = (.ok x, t)) : (t.Tidy ∧ s.Advances t) ∧ good x t :=
  (leads_iff.mp (h hs htidy hn)).1 x t ho

/-! External types -/

theorem merge_ne_nil (cs : List Context) (c : Context) : Context.merge cs [c] ≠ [] := by
  unfold Context.merge
  rw [List.foldl_cons, List.foldl_nil]
  split
  · next h =>
    rintro rfl
    cases h
  · simp

theorem effectiveNamespaces_ne {d : Descriptor} {contexts : Option (List Context)}
    (hc : scope.contexts s d = .ok contexts) : ∃ n, n ∈ (effectiveNamespaces d contexts).names := by
  unfold effectiveNamespaces
  have hne : ∀ cs, contexts = some cs → cs ≠ [] := by
    rintro cs rfl
    unfold Scope.contexts at hc
    split at hc
    · cases hc
    · dsimp only at hc
      split at hc
      all_goals
        obtain ⟨visible, -, hc⟩ := bind_eq_ok.mp hc
        cases hc
        exact merge_ne_nil _ _
  split
  · obtain ⟨c, hc⟩ := List.exists_mem_of_ne_nil _ (hne _ rfl)
    exact ⟨_, NameSet.mem_ofList.mpr (List.mem_map_of_mem hc)⟩
  · obtain ⟨c, hc⟩ := List.exists_mem_of_ne_nil _ (hne _ rfl)
    exact ⟨_, NameSet.mem_ofList.mpr (List.mem_map_of_mem hc)⟩
  · split <;> exact ⟨_, NameSet.mem_ofList.mpr List.mem_cons_self⟩

theorem exists_witness {d : Descriptor} {contexts : Option (List Context)} (hc : scope.contexts s d = .ok contexts) :
    ∃ n ∈ scope.witnesses s d, n ∈ (scope.effective s d).names := by
  obtain ⟨n, hn⟩ := effectiveNamespaces_ne hc
  unfold Scope.witnesses Scope.effective witnesses
  rw [hc]
  dsimp only
  split
  · exact ⟨n, hn, hn⟩
  · next h =>
    simp only [Bool.or_eq_true, List.isEmpty_iff, not_or] at h
    obtain ⟨m, hm⟩ := List.exists_mem_of_ne_nil _ h.2
    exact ⟨m, hm, (List.mem_filter.mp hm).1⟩

/-- A new external type suits what it was created for, and is the only one. -/
theorem oldest_addExternal {d : Descriptor} {id : TypeId} (hst : s.Advances t) {contexts : Option (List Context)}
    (hc : scope.contexts s d = .ok contexts) (hnot : ∀ j, ¬ s.Suits scope d j)
    (h : s.addExternal d.split.2 d.argumentCount (scope.effective s d) = .ok (id, t)) : t.Oldest scope d id := by
  have hlearns : LearnsFrom (fun _ _ => False) scope s t := by
    obtain ⟨-, -, rfl⟩ := addNamed_ok h
    exact .of_appended hst (List.prefix_append _ _)
  obtain ⟨n, hseen, hmem⟩ := exists_witness hc
  refine ⟨⟨_, (named?_addNamed hst.before.numbered h).2, rfl, rfl, n, ?_, hmem⟩, fun j hj => ?_⟩
  · rw [hst.witnesses]
    exact hseen
  · by_contra hlt
    have hold : ∃ a, s.named? j = some a := by
      have hj := hst.after.named_iff.mp hj.named
      obtain ⟨-, rfl, rfl⟩ := addNamed_ok h
      dsimp only at hj hlt
      exact hst.before.named_iff.mpr ⟨hj.1, by omega⟩
    rcases hlearns d j hold hj with hj | ⟨q, hq, -⟩
    · exact hnot j hj
    · exact hq

theorem pursues_external {d : Descriptor} : Pursues (plain scope d .external) s fun x t =>
    LearnsFrom Q scope s t ∧ (∀ y, x = some y → y.Answers Q (Finds t scope d .external) scope t d) ∧
      (x = none → scope.allowCreate = false) := by
  unfold plain
  apply pursues_bind (m := fun contexts t => t = s ∧ scope.contexts s d = .ok contexts)
  · exact (reads_contexts fun contexts hc => ⟨rfl, hc⟩).pursues.mono fun _ _ _ h => h.2
  · rintro contexts t - ⟨rfl, hc⟩ ht htidy hn
    have heffective : scope.effective t d = effectiveNamespaces d contexts := by
      unfold Scope.effective
      rw [hc]
    refine (leads_external ht hc).mono ?_ fun _ _ _ => trivial
    rintro x u (⟨id, hid, rfl, rfl⟩ | ⟨hnot, ⟨ha, rfl, rfl⟩ | ⟨ha, id, hadd, rfl⟩⟩)
    · refine ⟨⟨htidy, .refl ht hn⟩, .refl u, ?_, by simp⟩
      rintro y ⟨⟩
      exact answers_oldest hid fun _ hn => hn
    · exact ⟨⟨htidy, .refl ht hn⟩, .refl u, by simp, fun _ => ha⟩
    · have hstep : Steps true t u := by
        rw [heffective] at hadd
        exact .single (.external rfl ascending_effectiveNamespaces hadd)
      have htu := hstep.advances ht hn
      refine ⟨⟨htidy.kept ht htu.after htu.grows (.addNamed rfl hadd), htu⟩, ?_, ?_, by simp⟩
      · obtain ⟨-, -, rfl⟩ := addNamed_ok hadd
        exact .of_appended htu (List.prefix_append _ _)
      · rintro y ⟨⟩
        exact answers_oldest (oldest_addExternal htu hc hnot hadd) (by simp [NameSet.empty])

theorem first_tuples {d : Descriptor} {rs : List Resolver} (h : ∀ r ∈ rs, r = .tuple) :
    first scope d rs = pure none := by
  induction rs with
  | nil => rfl
  | cons r rs ih =>
    obtain ⟨rfl, hrest⟩ := List.forall_mem_cons.mp h
    exact ih hrest

theorem pursues_first {d : Descriptor} {rs : List Resolver}
    (hlast : scope.allowCreate = true ∨ rs.Pairwise fun q r => q = .external → r = .tuple) :
    Pursues (first scope d rs) s fun x t => LearnsFrom Q scope s t ∧
      ∀ y, x = some y → y.Answers Q (First t scope d rs) scope t d := by
  induction rs generalizing s with
  | nil => exact pursues_pure fun _ => ⟨.refl s, by simp⟩
  | cons r rs ih =>
    have hrest := hlast.imp_right fun h => (List.pairwise_cons.mp h).2
    unfold first
    by_cases hr : r = .external
    · subst hr
      apply pursues_bind (pursues_external (Q := Q))
      rintro x t hst ⟨hlearns, hsome, hnone⟩
      cases x with
      | some y =>
        refine pursues_pure fun _ => ⟨hlearns, ?_⟩
        rintro _ ⟨⟩
        exact (hsome y rfl).imp fun _ => .here
      | none =>
        -- only the external resolver is left out when nothing may be created, and then it is the last to find anything
        have htuple : ∀ q ∈ rs, q = .tuple := by
          intro q hq
          rcases hlast with ha | hlast
          · rw [hnone rfl] at ha
            cases ha
          · exact (List.pairwise_cons.mp hlast).1 q hq rfl
        rw [first_tuples htuple]
        exact pursues_pure fun _ => ⟨hlearns, by simp⟩
    · apply pursues_bind (reads_plain (Q := Q) hr).pursues
      rintro x t hst ⟨hloads, hsome, hnone⟩
      cases x with
      | some y =>
        refine pursues_pure fun _ => ⟨hloads.learnsFrom hst, ?_⟩
        rintro _ ⟨⟩
        exact (hsome y rfl).imp fun _ => .here
      | none =>
        refine (ih hrest).mono ?_
        rintro x u htu ⟨hlearns, hfound⟩
        refine ⟨(hloads.learnsFrom hst).trans hlearns hst htu, fun y hy => (hfound y hy).imp fun _ => .next ?_⟩
        exact (hnone rfl).continues htu.continues htu.before htu.after htu.nested

end Find

namespace Resolved

variable {s t : Session} {d : Descriptor} {r : Resolved} {id : TypeId} {Q : Descriptor → TypeId → Prop}

/-- The descriptor is one of those that `Q` has for the row. -/
def Owns (Q : Descriptor → TypeId → Prop) (d : Descriptor) (r : Resolved) : Prop :=
  ∀ j, r.target = .existing j → Q d j

theorem All.self {P : Descriptor → Resolved → Prop} (h : r.All P d) : P d r := by
  cases d
  exact h.1

theorem reading_commit (hs : s.Numbered) (h : r.commit s = .ok (id, t)) {R : Reading} (hr : r.reading t = some R) :
    t.reading id = some R := by
  unfold reading at hr
  obtain ⟨htarget, -, -⟩ | ⟨htarget, -, -⟩ | ⟨declaring, index, name, htarget, hadd⟩ := commit_ok h
  · rwa [htarget] at hr
  · rwa [htarget] at hr
  · rw [htarget] at hr
    cases hr
    exact reading_eq_some.mpr ⟨_, (named?_addNamed hs hadd).2, rfl⟩

theorem Owns.of_committed (hc : r.commit s = .ok (id, t)) {learned : NameSet} {rs : List Resolved}
    (h : Owns Q d (.mk (.existing id) learned rs)) : Owns Q d r := by
  intro j hj
  obtain ⟨htarget, -, -⟩ | ⟨htarget, -, -⟩ | ⟨declaring, index, name, htarget, -⟩ := commit_ok hc
  · cases htarget.symm.trans hj
    exact h id rfl
  · cases htarget.symm.trans hj
    exact h id rfl
  · cases htarget.symm.trans hj

theorem All.of_committed (hc : r.commit s = .ok (id, t))
    (h : (Resolved.mk (.existing id) .empty r.elements).All (Owns Q) d) : r.All (Owns Q) d := by
  cases d
  exact ⟨Owns.of_committed hc h.1, h.2⟩

end Resolved

namespace Chain

variable {chain : Chain} {scope : Scope} {s t : Session} {d : Descriptor} {r : Resolved} {id : TypeId}
  {Q : Descriptor → TypeId → Prop}

theorem Apt.committed (hs : s.Numbered) (hv : r.Valid s) (hc : r.commit s = .ok (id, t)) (hQ : Q d id)
    (h : chain.Apt scope Q t d r) : chain.Apt scope Q t d (.mk (.existing id) .empty r.elements) where
  valid := by
    obtain ⟨a, ha⟩ := named?_commit hs hv hc
    exact ⟨(valid_named ha).target, h.valid.elements⟩
  reading := by
    obtain ⟨R, hR, hr⟩ := h.reading
    exact ⟨R, hR, reading_commit hs hc hr⟩
  learned n hn := by cases hn
  external := by
    rintro _ x ⟨⟩ hx
    obtain ⟨htarget, -, -⟩ | ⟨htarget, -, -⟩ | ⟨declaring, index, name, -, hadd⟩ := commit_ok hc
    · exact h.external id x htarget hx
    · exact h.external id x htarget hx
    · cases (named?_addNamed hs hadd).2.symm.trans hx
  parameter := by
    rintro _ p ⟨⟩ -
    exact hQ

theorem apt_all_committed (hs : s.Numbered) (hv : r.Valid s) (hc : r.commit s = .ok (id, t)) (hQ : Q d id)
    (h : r.All (chain.Apt scope Q t) d) :
    (Resolved.mk (.existing id) .empty r.elements).All (chain.Apt scope Q t) d := by
  cases d
  exact ⟨h.1.committed hs hv hc hQ, h.2⟩

/-- What was found for elements in `s` is taken over as found in `t`, where `Q` may have taught external types. -/
def Hands (chain : Chain) (scope : Scope) (Q : Descriptor → TypeId → Prop) (ds : List Descriptor) (s t : Session)
    (rs rs' : List Resolved) : Prop :=
  AllOf (Owns Q) ds rs' → AllOf (Owns Q) ds rs ∧
    (AllOf (chain.Apt scope Q s) ds rs → LearnsFrom Q scope s t ∧ AllOf (chain.Apt scope Q t) ds rs')

theorem Hands.advances {u : Session} {ds : List Descriptor} {rs rs' : List Resolved}
    (h : chain.Hands scope Q ds s t rs rs') (hst : s.Advances t) (htu : t.Advances u) (hl : LearnsFrom Q scope t u) :
    chain.Hands scope Q ds s u rs rs' := by
  intro howns
  obtain ⟨hrs, hrest⟩ := h howns
  refine ⟨hrs, fun hapt => ?_⟩
  obtain ⟨hlearns, hall⟩ := hrest hapt
  exact ⟨hlearns.trans hl hst htu, hall.imp (fun _ _ h => h.advances htu hl) ds⟩

end Chain

namespace Find

open Chain

variable {chain : Chain} {scope : Scope} {s t : Session} {Q : Descriptor → TypeId → Prop}

theorem pursues_commit (ha : scope.allowCreate = true) {r : Resolved} (hr : r.Valid s) :
    Pursues (perform .catalog r.commit) s fun id t => r.commit s = .ok (id, t) := by
  have htraced : Traced ⟨[]⟩ scope (perform .catalog r.commit) s fun _ _ => True :=
    traced_perform (fun id t ht => ⟨.commit ha hr ht, trivial⟩) fun e he => .commit hr he
  exact ((tracks_commit ha hr).pursues htraced).mono fun _ _ _ h => h.1

/-- Committing elements teaches external types what the elements tell. -/
theorem pursues_commitElements (chain : Chain) (Q : Descriptor → TypeId → Prop) (ha : scope.allowCreate = true)
    {n : Nat} {ds : List Descriptor} {rs : List Resolved} (hr : ValidAll s rs) (hlength : rs.length = ds.length) :
    Pursues (commitElements n ds rs) s fun x t => Hands chain scope Q ds s t rs x.2 := by
  induction ds generalizing s n rs with
  | nil =>
    cases List.length_eq_zero_iff.mp hlength
    exact pursues_pure fun _ _ => ⟨rfl, fun _ => ⟨.refl s, rfl⟩⟩
  | cons d ds ih =>
    cases rs with
    | nil => cases hlength
    | cons r rs =>
      unfold commitElements
      apply pursues_bind (pursues_commit ha hr.1)
      intro id t hst hc
      apply pursues_bind (ih (hr.2.mono hst.grows) (Nat.succ.inj hlength))
      rintro ⟨rows, done⟩ u htu hhands
      refine pursues_pure fun _ => ?_
      rintro ⟨_, _, ⟨⟩, hid, hdone⟩
      obtain ⟨hrs, hrest⟩ := hhands hdone
      have hown := hid.of_committed hc
      refine ⟨⟨r, rs, rfl, hown, hrs⟩, ?_⟩
      rintro ⟨_, _, ⟨⟩, hapt, hapts⟩
      have hlearns := learnsFrom_commit hapt.self hown.self hst hc
      obtain ⟨hlearns', hall⟩ := hrest (hapts.imp (fun _ _ h => h.advances hst hlearns) ds)
      refine ⟨hlearns.trans hlearns' hst htu, _, _, rfl, ?_, hall⟩
      have hself := apt_all_committed hst.before.numbered hr.1 hc (hid.self id rfl)
        (hapt.imp (fun _ _ h => h.advances hst hlearns) d)
      exact hself.imp (fun _ _ h => h.advances htu hlearns') d

/-- A tuple is there as it is found, or it is added over the committed elements and saved. What holds of the elements
on both ways has to outlast that one step only. -/
theorem pursues_tuple_of (good : List Resolved → Session → Prop) {d : Descriptor} {rs : List Resolved}
    (hr : ValidAll s rs) (hd : DescribesAll s d.arguments rs) (hfound : good rs s)
    (hcommit : scope.allowCreate = true → Pursues (commitElements 0 d.arguments rs) s fun x t => good x.2 t)
    (hadd : ∀ es rows t id u n v, s.Advances t → t.addTuple d.name rows = .ok (id, u) → u.save = .ok (n, v) →
      t.Advances v → good es t → good es v) :
    Pursues (tuple scope d rs) s fun x t => ∀ r, x = some r → r.learned = .empty ∧ good r.elements t := by
  intro hs htidy hn
  -- that tuples are kept apart is known already
  suffices h : (tuple scope d rs).Leads s (fun x t => s.Advances t ∧ ∀ r, x = some r → r.learned = .empty ∧
      good r.elements t) fun _ _ => True by
    refine (h.and (tracks_tuple hr hd hs htidy)).mono ?_ fun _ _ _ => trivial
    rintro x t ⟨⟨hst, hx⟩, ⟨-, httidy, -⟩, -⟩
    exact ⟨⟨httidy, hst⟩, hx⟩
  unfold tuple
  apply leads_get_bind
  dsimp only
  apply leads_bind
  refine leads_query ?_ fun _ _ => trivial
  intro found _
  cases found with
  | some id =>
    refine leads_pure ⟨.refl hs hn, ?_⟩
    rintro r ⟨⟩
    exact ⟨rfl, hfound⟩
  | none =>
    dsimp only
    split
    · next ha =>
      have htraced : Traced ⟨[]⟩ scope (commitElements 0 d.arguments rs) s _ := traced_commitElements ha hr
      apply leads_bind
      refine ((hcommit ha hs htidy hn).and (htraced hs.numbered)).mono ?_ fun _ _ _ => trivial
      rintro ⟨rows, done⟩ t ⟨⟨⟨-, hst⟩, hgood⟩, -, hrows, -⟩
      apply leads_bind
      refine leads_perform ?_ fun _ _ => trivial
      intro id u hu
      apply leads_bind
      refine leads_perform ?_ fun _ _ => trivial
      intro n v hv
      have hsteps : Steps true t v := .head (.tuple rfl hrows hu) (.single (.save rfl hv))
      have htv := hsteps.advances hst.after hst.nested_after
      refine leads_pure ⟨hst.trans htv, ?_⟩
      rintro r ⟨⟩
      exact ⟨rfl, hadd done rows t id u n v hst hu hv htv hgood⟩
    · refine leads_pure ⟨.refl hs hn, ?_⟩
      rintro r ⟨⟩

theorem pursues_tuple (chain : Chain) (Q : Descriptor → TypeId → Prop) {d : Descriptor} {rs : List Resolved}
    (hr : ValidAll s rs) (hd : DescribesAll s d.arguments rs) :
    Pursues (tuple scope d rs) s fun x t => ∀ r, x = some r → r.learned = .empty ∧
      Hands chain scope Q d.arguments s t rs r.elements := by
  apply pursues_tuple_of (fun es t => Hands chain scope Q d.arguments s t rs es) hr hd
  · exact fun h => ⟨h, fun h => ⟨.refl s, h⟩⟩
  · exact fun ha => pursues_commitElements chain Q ha hr hd.length
  · intro es rows t id u n v hst hu hv htv hhands
    refine hhands.advances hst htv (.of_appended htv ?_)
    rw [named_save hv]
    obtain ⟨-, -, -, rfl⟩ := addTuple_ok hu
    exact List.prefix_append _ _

end Find

namespace Chain

open Find

variable {Q : Descriptor → TypeId → Prop}

/-- Where nothing may be created, no other type is looked for once an external type was not found. -/
def ExternalLast (chain : Chain) : Prop := chain.order.Pairwise fun q r => q = .external → r = .tuple

instance (chain : Chain) : Decidable chain.ExternalLast := inferInstanceAs (Decidable (List.Pairwise ..))

example : Chain.standard.ExternalLast := by decide

mutual

theorem pursues_resolve (chain : Chain) (scope : Scope) (s : Session) (d : Descriptor)
    (hlast : scope.allowCreate = true ∨ chain.ExternalLast) :
    Pursues (chain.resolve scope d) s fun r t =>
      r.All (Owns Q) d → LearnsFrom Q scope s t ∧ r.All (chain.Apt scope Q t) d := by
  match d with
  | .mk name form rank e as =>
    unfold resolve
    dsimp only
    split
    · next hform =>
      obtain rfl : form = .tuple := beq_iff_eq.mp hform
      split
      · exact pursues_throw
      · next hne =>
        apply pursues_bind ((pursues_resolveAll chain scope s as hlast).and (tracks_resolveAll chain scope s as))
        rintro rs t hst ⟨hall, hvalid, hdescribes⟩
        apply pursues_bind ((pursues_tuple (d := .mk name .tuple rank e as) chain Q hvalid hdescribes).and
          (tracks_tuple hvalid hdescribes))
        rintro found u htu ⟨hfound, htracks⟩
        split
        · next r =>
          obtain ⟨hlearned, hhands⟩ := hfound r rfl
          obtain ⟨-, ⟨id, htarget, hfirst⟩, -⟩ := htracks r rfl
          refine pursues_pure fun hu howns => ?_
          obtain ⟨hrs, hrest⟩ := hhands (howns.2 rfl)
          obtain ⟨hlearns, hapt⟩ := hall hrs
          obtain ⟨hlearns', hapt'⟩ := hrest hapt
          refine ⟨hlearns.trans hlearns' hst htu, ?_⟩
          obtain ⟨target, learned, elements⟩ := r
          cases htarget
          cases hlearned
          exact apt_tuple hu (by simpa using hne) hapt' hfirst
        · exact pursues_throw
    · next hform =>
      have hne : form ≠ .tuple := fun h => hform (beq_iff_eq.mpr h)
      apply pursues_bind (pursues_first (Q := Q) hlast)
      rintro found t - ⟨hlearns, hfound⟩
      split
      · next r =>
        refine pursues_pure fun _ _ => ⟨hlearns, ?_, fun h => absurd h hne⟩
        exact (hfound r rfl).imp fun _ hR => ⟨fun h => absurd h hne, fun _ => hR⟩
      · exact pursues_throw

theorem pursues_resolveAll (chain : Chain) (scope : Scope) (s : Session) (ds : List Descriptor)
    (hlast : scope.allowCreate = true ∨ chain.ExternalLast) :
    Pursues (chain.resolveAll scope ds) s fun rs t =>
      AllOf (Owns Q) ds rs → LearnsFrom Q scope s t ∧ AllOf (chain.Apt scope Q t) ds rs := by
  match ds with
  | [] =>
    unfold resolveAll
    exact pursues_pure fun _ _ => ⟨.refl s, rfl⟩
  | d :: ds =>
    unfold resolveAll
    apply pursues_bind (pursues_resolve chain scope s d hlast)
    intro r t hst hr
    apply pursues_bind (pursues_resolveAll chain scope t ds hlast)
    intro rs u htu hrs
    refine pursues_pure fun _ => ?_
    rintro ⟨_, _, ⟨⟩, hown, howns⟩
    obtain ⟨hlearns, hapt⟩ := hr hown
    obtain ⟨hlearns', hapts⟩ := hrs howns
    refine ⟨hlearns.trans hlearns' hst htu, r, rs, rfl, ?_, hapts⟩
    exact hapt.imp (fun _ _ h => h.advances htu hlearns') d

end

mutual

theorem pursues_bindTree (chain : Chain) (scope : Scope) (s : Session) (r : Resolved) (d : Descriptor)
    (hlast : scope.allowCreate = true ∨ chain.ExternalLast) (hv : r.Valid s) (hd : r.Describes s d) :
    Pursues (chain.bindTree scope r d) s fun b t => b.All (Owns Q) d → r.All (chain.Apt scope Q s) d →
      LearnsFrom Q scope s t ∧ b.All (chain.Apt scope Q t) d := by
  match d with
  | .mk name form rank e as =>
    unfold bindTree
    dsimp only
    have hready : ValidAll s (if form == .tuple then r.elements else []) := by
      split
      · exact hv.elements
      · trivial
    have hdescribes : (if form == .tuple then r.elements else []) = [] ∨
        DescribesAll s as (if form == .tuple then r.elements else []) := by
      split
      · next hform => exact .inr (hd (beq_iff_eq.mp hform)).2
      · exact .inl rfl
    apply pursues_bind (pursues_bindArguments chain scope s _ as hlast hready hdescribes)
    rintro bs t hst hbs
    refine pursues_pure fun _ => ?_
    rintro ⟨-, howns⟩ hr
    have hapt : (if form == .tuple then r.elements else []) = [] ∨
        AllOf (chain.Apt scope Q s) as (if form == .tuple then r.elements else []) := by
      split
      · next hform => exact .inr (hr.2 (beq_iff_eq.mp hform))
      · exact .inl rfl
    obtain ⟨hlearns, hall⟩ := hbs howns hapt
    exact ⟨hlearns, hr.1.advances hst hlearns, hall⟩

theorem pursues_bindArguments (chain : Chain) (scope : Scope) (s : Session) (ready : List Resolved)
    (ds : List Descriptor) (hlast : scope.allowCreate = true ∨ chain.ExternalLast) (hv : ValidAll s ready)
    (hd : ready = [] ∨ DescribesAll s ds ready) :
    Pursues (chain.bindArguments scope ready ds) s fun bs t => Binding.AllOf (Owns Q) ds bs →
      (ready = [] ∨ AllOf (chain.Apt scope Q s) ds ready) →
      LearnsFrom Q scope s t ∧ Binding.AllOf (chain.Apt scope Q t) ds bs := by
  match ds with
  | [] =>
    unfold bindArguments
    exact pursues_pure fun _ _ _ => ⟨.refl s, trivial⟩
  | d :: ds =>
    unfold bindArguments
    dsimp only
    -- an element that is ready is used as it is, any other is resolved first
    have hrest (r : Resolved) (t : Session) (hst : s.Advances t) (hrv : r.Valid t) (hrd : r.Describes t d)
        (htail : ready.tail = [] ∨ DescribesAll s ds ready.tail) :
        Pursues (do
          let child ← chain.bindTree scope r d
          let children ← chain.bindArguments scope ready.tail ds
          return child :: children) t fun bs u => Binding.AllOf (Owns Q) (d :: ds) bs →
            (r.All (Owns Q) d → LearnsFrom Q scope s t ∧ r.All (chain.Apt scope Q t) d) →
            (ready.tail = [] ∨ AllOf (chain.Apt scope Q s) ds ready.tail) →
            LearnsFrom Q scope s u ∧ Binding.AllOf (chain.Apt scope Q u) (d :: ds) bs := by
      apply pursues_bind ((pursues_bindTree chain scope t r d hlast hrv hrd).and
        (tracks_bindTree chain scope t r d hrv hrd))
      rintro b u htu ⟨hb, hfits, htells, hresolved⟩
      have hsu := hst.trans htu
      have hvalid : ValidAll s ready.tail := by
        cases ready with
        | nil => trivial
        | cons r rs => exact hv.2
      have hdescribes := htail.imp_right fun h => h.grows hsu.before hsu.after hsu.grows ds hvalid
      apply pursues_bind (pursues_bindArguments chain scope u ready.tail ds hlast (hvalid.mono hsu.grows) hdescribes)
      intro bs v huv hbs
      refine pursues_pure fun _ => ?_
      rintro ⟨hown, howns⟩ hr hready
      have hrown : r.All (Owns Q) d := hresolved ▸ hown.resolved d hfits htells
      obtain ⟨hlearns, hapt⟩ := hr hrown
      obtain ⟨hlearns', hapt⟩ := hb hown hapt
      have hsum := hlearns.trans hlearns' hst htu
      obtain ⟨hlearns'', hapts⟩ := hbs howns (hready.imp_right fun h => h.imp (fun _ _ h => h.advances hsu hsum) ds)
      exact ⟨hsum.trans hlearns'' hsu huv, hapt.imp (fun _ _ h => h.advances huv hlearns'') d, hapts⟩
    cases ready with
    | nil =>
      apply pursues_bind ((pursues_resolve (Q := Q) chain scope s d hlast).and (tracks_resolve chain scope s d))
      rintro r t hst ⟨hr, hrv, hrd⟩
      exact (hrest r t hst hrv hrd (.inl rfl)).mono fun bs u _ h howns _ => h howns hr (.inl rfl)
    | cons r rs =>
      obtain hnil | ⟨_, _, heq, hrd, hall⟩ := hd
      · cases hnil
      · cases heq
        intro hs htidy hn
        refine (hrest r s (.refl hs hn) hv.1 hrd (.inr hall)).mono ?_ hs htidy hn
        rintro bs u - h howns (hnil | ⟨_, _, heq, hapt, hapts⟩)
        · cases hnil
        · cases heq
          exact h howns (fun _ => ⟨.refl s, hapt⟩) (.inr hapts)

end

end Chain

end TypeCatalog
