import TypeCatalog.Act

namespace TypeCatalog

theorem bind_eq_ok {ε α β : Type} {x : Except ε α} {f : α → Except ε β} {b : β} :
    (x >>= f) = .ok b ↔ ∃ a, x = .ok a ∧ f a = .ok b := by
  cases x with
  | error e => simp [bind, Except.bind]
  | ok a => simp [bind, Except.bind]

theorem map_eq_ok {ε α β : Type} {x : Except ε α} {f : α → β} {b : β} :
    x.map f = .ok b ↔ ∃ a, x = .ok a ∧ f a = b := by
  cases x with
  | error e => simp [Except.map]
  | ok a => simp [Except.map]

theorem ok_bind {ε α β : Type} {a : α} {f : α → Except ε β} : ((.ok a : Except ε α) >>= f) = f a := rfl

theorem bind_eq_error {ε α β : Type} {x : Except ε α} {f : α → Except ε β} {e : ε} :
    (x >>= f) = .error e ↔ x = .error e ∨ ∃ a, x = .ok a ∧ f a = .error e := by
  cases x with
  | error d => simp [bind, Except.bind]
  | ok a => simp [bind, Except.bind]

namespace Act

variable {ε δ α β : Type}

/-- The result of a step with the session it leaves. -/
def outcome (a : Act ε α) (s : Session) : Except ε α × Session := a.run.run s

/-- What a step comes to: `done` of a result and `failed` of an error, each with the session left. -/
def Leads (a : Act ε α) (s : Session) (done : α → Session → Prop) (failed : ε → Session → Prop) :
    Prop :=
  match a.outcome s with
  | (.ok x, t) => done x t
  | (.error e, t) => failed e t

variable {s : Session} {done : α → Session → Prop} {failed : ε → Session → Prop}

theorem leads_iff {a : Act ε α} :
    Leads a s done failed ↔ (∀ x t, a.outcome s = (.ok x, t) → done x t) ∧
      (∀ e t, a.outcome s = (.error e, t) → failed e t) := by
  unfold Leads
  generalize a.outcome s = r
  rcases r with ⟨x | x, t⟩
  · exact ⟨fun h => ⟨fun y u hr => by simp at hr, fun e u hr => by simp_all⟩, fun h => h.2 x t rfl⟩
  · exact ⟨fun h => ⟨fun y u hr => by simp_all, fun e u hr => by simp at hr⟩, fun h => h.1 x t rfl⟩

theorem Leads.mono {a : Act ε α} {done' : α → Session → Prop} {failed' : ε → Session → Prop}
    (h : Leads a s done failed) (hd : ∀ x t, done x t → done' x t)
    (hf : ∀ e t, failed e t → failed' e t) : Leads a s done' failed' := by
  rw [leads_iff] at h ⊢
  exact ⟨fun x t hr => hd x t (h.1 x t hr), fun e t hr => hf e t (h.2 e t hr)⟩

theorem leads_pure {x : α} (h : done x s) : Leads (pure x : Act ε α) s done failed := h

theorem leads_throw {e : ε} (h : failed e s) : Leads (throw e : Act ε α) s done failed := h

theorem leads_get {done : Session → Session → Prop} (h : done s s) :
    Leads (get : Act ε Session) s done failed := h

theorem outcome_bind {a : Act ε β} {f : β → Act ε α} : (a >>= f).outcome s = match a.outcome s with
    | (.ok x, t) => (f x).outcome t
    | (.error e, t) => (.error e, t) := by
  change (ExceptT.bindCont f (a.outcome s).1).run (a.outcome s).2 = _
  rcases a.outcome s with ⟨x | x, t⟩ <;> rfl

theorem outcome_mapError {f : δ → ε} {a : Act δ α} : (a.mapError f).outcome s = match a.outcome s with
    | (.ok x, t) => (.ok x, t)
    | (.error e, t) => (.error (f e), t) := by
  change ((fun r => Except.mapError f r) <$> a.run).run s = _
  change (Except.mapError f (a.outcome s).1, (a.outcome s).2) = _
  rcases a.outcome s with ⟨x | x, t⟩ <;> rfl

theorem outcome_attempt {a : Act δ α} :
    (a.attempt : Act ε (Except δ α)).outcome s = (.ok (a.outcome s).1, (a.outcome s).2) := rfl

theorem outcome_perform {wrap : CatalogError → ε} {op : Session → Except CatalogError (α × Session)} :
    (perform wrap op).outcome s = match op s with
      | .ok (x, t) => (.ok x, t)
      | .error e => (.error (wrap e), s) := by
  have hrun : (perform wrap op).outcome s = (match op s with
      | .ok (a, t) => do set t; return a
      | .error e => throw (wrap e) : Act ε α).outcome s := rfl
  rw [hrun]
  cases op s with
  | ok r => rfl
  | error e => rfl

theorem outcome_query {wrap : CatalogError → ε} {q : Session → Except CatalogError α} :
    (query wrap q).outcome s = match q s with
      | .ok x => (.ok x, s)
      | .error e => (.error (wrap e), s) := by
  have hrun : (query wrap q).outcome s = (match q s with
      | .ok x => pure x
      | .error e => throw (wrap e) : Act ε α).outcome s := rfl
  rw [hrun]
  cases q s with
  | ok x => rfl
  | error e => rfl

theorem leads_bind {a : Act ε β} {f : β → Act ε α}
    (h : Leads a s (fun x t => Leads (f x) t done failed) failed) :
    Leads (a >>= f) s done failed := by
  unfold Leads at h ⊢
  rw [outcome_bind]
  generalize a.outcome s = r at h ⊢
  rcases r with ⟨x | x, t⟩ <;> exact h

theorem leads_get_bind {f : Session → Act ε α} (h : Leads (f s) s done failed) :
    Leads (get >>= f) s done failed := leads_bind (leads_get h)

theorem leads_perform {wrap : CatalogError → ε} {op : Session → Except CatalogError (α × Session)}
    (hd : ∀ x t, op s = .ok (x, t) → done x t) (hf : ∀ e, op s = .error e → failed (wrap e) s) :
    Leads (perform wrap op) s done failed := by
  apply leads_get_bind
  cases h : op s with
  | error e => exact leads_throw (hf e h)
  | ok r => exact hd r.1 r.2 h

theorem leads_query {wrap : CatalogError → ε} {q : Session → Except CatalogError α}
    (hd : ∀ x, q s = .ok x → done x s) (hf : ∀ e, q s = .error e → failed (wrap e) s) :
    Leads (query wrap q) s done failed := by
  apply leads_get_bind
  cases h : q s with
  | error e => exact leads_throw (hf e h)
  | ok x => exact leads_pure (hd x h)

theorem leads_mapError {f : δ → ε} {a : Act δ α} (h : Leads a s done fun e t => failed (f e) t) :
    Leads (a.mapError f) s done failed := by
  unfold Leads at h ⊢
  rw [outcome_mapError]
  generalize a.outcome s = r at h ⊢
  rcases r with ⟨x | x, t⟩ <;> exact h

theorem leads_attempt {a : Act δ α} {done : Except δ α → Session → Prop}
    (h : Leads a s (fun x t => done (.ok x) t) fun e t => done (.error e) t) :
    Leads (a.attempt : Act ε (Except δ α)) s done failed := by
  unfold Leads at h ⊢
  rw [outcome_attempt]
  generalize a.outcome s = r at h ⊢
  rcases r with ⟨x | x, t⟩ <;> exact h

/-- An invariant of the accumulator and the session over the steps of a fold. -/
theorem leads_foldlM {f : β → α → Act ε β} {inv : β → Session → Prop} {failed : ε → Session → Prop}
    {xs : List α} (hstep : ∀ b t, ∀ x ∈ xs, inv b t → Leads (f b x) t inv failed)
    {b : β} (h : inv b s) : Leads (xs.foldlM f b) s inv failed := by
  induction xs generalizing b s with
  | nil => exact leads_pure h
  | cons x xs ih =>
    rw [List.foldlM_cons]
    apply leads_bind
    apply (hstep b s x List.mem_cons_self h).mono _ fun _ _ hf => hf
    intro b' t hb
    exact ih (fun b t y hy => hstep b t y (List.mem_cons_of_mem x hy)) hb

end Act

end TypeCatalog
