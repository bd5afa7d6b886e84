import TypeCatalog.Settings.Writer

namespace TypeCatalog.Toml

variable {c q : Char} {cs e out rest : List Char} {run best fuel : Nat} {lines escapes : Bool}

/-! Escapes -/

/-- Whether `e` means the character `c` after a backslash, whatever follows, and is no line break. -/
def Escapes (c : Char) (e : List Char) : Prop :=
  ∀ rest, foldedLine? (e ++ rest) = none ∧ escape (e ++ rest) = some (c, rest)

theorem hexDigits_ok : ∀ n < 128, (hexDigits n).length = 4 ∧ Hexadecimal.number? (hexDigits n) = some n ∧
    charOf? n = some (Char.ofNat n) := by
  decide +kernel

theorem escapes_code (hc : isControl c = true) : Escapes c ('u' :: hexDigits c.toNat) := by
  have hlt : c.toNat < 128 := by
    unfold isControl at hc
    simp only [Bool.or_eq_true, Bool.and_eq_true, decide_eq_true_eq, beq_iff_eq] at hc
    omega
  obtain ⟨hlength, hnumber, hchar⟩ := hexDigits_ok c.toNat hlt
  intro rest
  refine ⟨rfl, ?_⟩
  have htake : (hexDigits c.toNat ++ rest).take 4 = hexDigits c.toNat := by
    rw [← hlength, List.take_left]
  have hdrop : (hexDigits c.toNat ++ rest).drop 4 = rest := by
    rw [← hlength, List.drop_left]
  have hroom : ¬ (hexDigits c.toNat ++ rest).length < 4 := by
    rw [List.length_append, hlength]
    omega
  simp only [List.cons_append, escape, if_neg hroom, htake, hdrop, hnumber, Option.bind_eq_bind, Option.bind_some,
    hchar, Char.ofNat_toNat]
  rfl

/-- A character between double quotes stands for itself or is escaped. -/
theorem written_cases (lines : Bool) (c : Char) :
    (written lines c = [c] ∧ c ≠ '\\' ∧ (isControl c = false ∨ lines = true ∧ c = '\n')) ∨
      ∃ e, written lines c = '\\' :: e ∧ Escapes c e := by
  unfold written
  split
  · next h => exact .inr ⟨_, rfl, fun _ => ⟨rfl, by rw [eq_of_beq h]; rfl⟩⟩
  split
  · next h => exact .inr ⟨_, rfl, fun _ => ⟨rfl, by rw [eq_of_beq h]; rfl⟩⟩
  split
  · next h =>
    obtain rfl := eq_of_beq h
    split
    · next hlines => exact .inl ⟨rfl, by decide, .inr ⟨hlines, rfl⟩⟩
    · exact .inr ⟨_, rfl, fun _ => ⟨rfl, rfl⟩⟩
  split
  · next h => exact .inr ⟨_, rfl, fun _ => ⟨rfl, by rw [eq_of_beq h]; rfl⟩⟩
  split
  · next h => exact .inr ⟨_, rfl, fun _ => ⟨rfl, by rw [eq_of_beq h]; rfl⟩⟩
  split
  · next h => exact .inr ⟨_, rfl, fun _ => ⟨rfl, by rw [eq_of_beq h]; rfl⟩⟩
  split
  · next h => exact .inr ⟨_, rfl, escapes_code h⟩
  · next hbackslash hplain =>
    exact .inl ⟨rfl, fun h => hbackslash (beq_iff_eq.mpr h), .inl (Bool.eq_false_iff.mpr hplain)⟩

theorem escapes_quote : Escapes '"' ['"'] := fun _ => ⟨rfl, rfl⟩

/-! Strings on one line -/

theorem basic_plain (hquote : c ≠ '"') (hbackslash : c ≠ '\\') (hc : isControl c = false)
    (h : basic fuel cs = some (out, rest)) : basic (fuel + 1) (c :: cs) = some (c :: out, rest) := by
  unfold basic
  split
  · next heq => exact (hquote (List.cons.inj heq).1).elim
  · next heq => exact (hbackslash (List.cons.inj heq).1).elim
  · next heq =>
    cases heq
    rw [if_neg (by rw [hc]; exact Bool.false_ne_true), h]
    rfl
  · next heq => cases heq

theorem basic_escape (he : escape cs = some (c, e)) (h : basic fuel e = some (out, rest)) :
    basic (fuel + 1) ('\\' :: cs) = some (c :: out, rest) := by
  simp only [basic, he, Option.bind_eq_bind, Option.bind_some, h]
  rfl

/-- Escaped text between double quotes reads back. -/
theorem basic_escaped (hfuel : cs.length < fuel) :
    basic fuel (escaped false run cs ++ '"' :: rest) = some (cs, rest) := by
  induction cs generalizing run fuel with
  | nil =>
    obtain ⟨n, rfl⟩ := Nat.exists_eq_succ_of_ne_zero (Nat.ne_zero_of_lt hfuel)
    rfl
  | cons c cs ih =>
    obtain ⟨n, rfl⟩ := Nat.exists_eq_succ_of_ne_zero (Nat.ne_zero_of_lt hfuel)
    have hread : basic n (escaped false 0 cs ++ '"' :: rest) = some (cs, rest) :=
      ih (Nat.lt_of_succ_lt_succ hfuel)
    unfold escaped
    split
    · next hquote =>
      obtain rfl := eq_of_beq hquote
      exact basic_escape (escapes_quote _).2 hread
    · next hquote =>
      rw [List.append_assoc]
      obtain ⟨hsame, hbackslash, hplain⟩ | ⟨e, hwritten, he⟩ := written_cases false c
      · rw [hsame]
        have hc : isControl c = false := hplain.resolve_right fun h => Bool.false_ne_true h.1
        exact basic_plain (fun h => hquote (beq_iff_eq.mpr h)) hbackslash hc hread
      · rw [hwritten]
        exact basic_escape (he _).2 hread

theorem length_le_escaped : cs.length ≤ (escaped lines run cs).length := by
  induction cs generalizing run with
  | nil => exact Nat.le_refl _
  | cons c cs ih =>
    have hrest := @ih 0
    unfold escaped
    split
    · split
      · exact Nat.succ_le_succ ih
      · exact Nat.le_succ_of_le (Nat.succ_le_succ ih)
    · rw [List.length_append, List.length_cons]
      obtain ⟨hsame, -⟩ | ⟨e, hwritten, -⟩ := written_cases lines c
      · rw [hsame, List.length_singleton]
        omega
      · rw [hwritten, List.length_cons]
        omega

theorem head?_escaped : (escaped false run cs).head? ≠ some '"' := by
  cases cs with
  | nil => nofun
  | cons c cs =>
    unfold escaped
    split
    · exact fun h => absurd (Option.some.inj h) (by decide)
    · next hquote =>
      obtain ⟨hsame, -⟩ | ⟨e, hwritten, -⟩ := written_cases false c
      · rw [hsame]
        exact fun h => hquote (beq_iff_eq.mpr (Option.some.inj h))
      · rw [hwritten]
        exact fun h => absurd (Option.some.inj h) (by decide)

theorem literal_self (hcs : ∀ c ∈ cs, c ≠ '\'' ∧ isControl c = false) :
    literal (cs ++ '\'' :: rest) = some (cs, rest) := by
  induction cs with
  | nil => rfl
  | cons c cs ih =>
    obtain ⟨⟨hquote, hc⟩, hcs⟩ := List.forall_mem_cons.mp hcs
    rw [List.cons_append]
    unfold literal
    split
    · next heq => exact (hquote (List.cons.inj heq).1).elim
    · next heq =>
      cases heq
      rw [if_neg (by rw [hc]; exact Bool.false_ne_true), ih hcs]
      rfl
    · next heq => cases heq

/-! Strings between triple quotes -/

/-- `Spells q escapes run out cs`: between triple quotes `q`, and after `run` quotes in a row, `out` is a way to
write `cs`. It has no three quotes in a row. -/
inductive Spells (q : Char) (escapes : Bool) : Nat → List Char → List Char → Prop
  | nil {run : Nat} : Spells q escapes run [] []
  | quote {run : Nat} {out cs : List Char} (hrun : run < 2) (h : Spells q escapes (run + 1) out cs) :
    Spells q escapes run (q :: out) (q :: cs)
  | plain {run : Nat} {c : Char} {out cs : List Char} (hquote : c ≠ q) (hbackslash : escapes = true → c ≠ '\\')
    (hc : isControl c = false ∨ c = '\n') (h : Spells q escapes 0 out cs) : Spells q escapes run (c :: out) (c :: cs)
  | escaped {run : Nat} {c : Char} {e out cs : List Char} (hescapes : escapes = true) (he : Escapes c e)
    (h : Spells q escapes 0 out cs) : Spells q escapes run ('\\' :: (e ++ out)) (c :: cs)

theorem spells_escaped : Spells '"' true run (escaped true run cs) cs := by
  induction cs generalizing run with
  | nil => exact .nil
  | cons c cs ih =>
    unfold escaped
    split
    · next hquote =>
      obtain rfl := eq_of_beq hquote
      split
      · next hrun => exact .quote (by simpa using hrun) ih
      · exact .escaped rfl escapes_quote ih
    · next hquote =>
      obtain ⟨hsame, hbackslash, hplain⟩ | ⟨e, hwritten, he⟩ := written_cases true c
      · rw [hsame]
        exact .plain (fun h => hquote (beq_iff_eq.mpr h)) (fun _ => hbackslash) (hplain.imp_right And.right) ih
      · rw [hwritten]
        exact .escaped rfl he ih

theorem le_longestRun : max run best ≤ longestRun q run best cs := by
  induction cs generalizing run best with
  | nil => exact Nat.le_refl _
  | cons c cs ih =>
    unfold longestRun
    split
    · exact Nat.le_trans (by omega) ih
    · exact Nat.le_trans (by omega) ih

theorem not_mem_of_longestRun (h : longestRun q run best cs = 0) : q ∉ cs := by
  intro hq
  induction cs generalizing run best with
  | nil => cases hq
  | cons c cs ih =>
    unfold longestRun at h
    split at h
    · have hle := @le_longestRun q cs (run + 1) best
      omega
    · next hne =>
      refine ih h ((List.mem_cons.mp hq).resolve_left ?_)
      rintro rfl
      exact hne (beq_self_eq_true q)

theorem spells_self (hcodes : ∀ c ∈ cs, isControl c = false ∨ c = '\n') (hrun : longestRun q run best cs ≤ 2) :
    Spells q false run cs cs := by
  induction cs generalizing run best with
  | nil => exact .nil
  | cons c cs ih =>
    obtain ⟨hc, hcodes⟩ := List.forall_mem_cons.mp hcodes
    unfold longestRun at hrun
    split at hrun
    · next hquote =>
      obtain rfl := eq_of_beq hquote
      have hle := @le_longestRun c cs (run + 1) best
      exact .quote (by omega) (ih hcodes hrun)
    · next hquote => exact .plain (fun h => hquote (beq_iff_eq.mpr h)) nofun hc (ih hcodes hrun)

/-- Either all that is left are quotes, which then stand right before the closing ones, or too few quotes come next to
be taken for closing ones. -/
theorem Spells.leading (hq : q ≠ '\\') (h : Spells q escapes run out cs) (hrun : run ≤ 2) :
    (∃ j, out = List.replicate j q ∧ cs = List.replicate j q ∧ run + j ≤ 2) ∨
      ∀ rest, run + ((out ++ rest).takeWhile (· == q)).length < 3 := by
  induction h with
  | nil => exact .inl ⟨0, rfl, rfl, hrun⟩
  | quote hlt _ ih =>
    obtain ⟨j, rfl, rfl, hj⟩ | hfew := ih hlt
    · exact .inl ⟨j + 1, rfl, rfl, by omega⟩
    · refine .inr fun rest => ?_
      have := hfew rest
      rw [List.cons_append, List.takeWhile_cons_of_pos (by simp), List.length_cons]
      omega
  | plain hquote =>
    refine .inr fun rest => ?_
    rw [List.cons_append, List.takeWhile_cons_of_neg (by simpa using hquote)]
    exact Nat.lt_succ_of_le hrun
  | escaped =>
    refine .inr fun rest => ?_
    rw [List.cons_append, List.takeWhile_cons_of_neg (by simpa using hq.symm)]
    exact Nat.lt_succ_of_le hrun

theorem multiline_close {j : Nat} (hj : j ≤ 2) (hrest : rest.head? ≠ some q) :
    multiline q escapes (fuel + 1) (List.replicate j q ++ q :: q :: q :: rest) =
      some (List.replicate j q, rest) := by
  have hsplit : List.replicate j q ++ q :: q :: q :: rest = List.replicate (j + 3) q ++ rest := by
    rw [← List.replicate_append_replicate, List.append_assoc]
    rfl
  have hnone : rest.takeWhile (· == q) = [] := by
    cases rest with
    | nil => rfl
    | cons c rest => exact List.takeWhile_cons_of_neg (by simpa using hrest)
  have hquotes : ((List.replicate (j + 3) q ++ rest).takeWhile (· == q)).length = j + 3 := by
    rw [List.takeWhile_append_of_pos (by simp), hnone, List.append_nil, List.length_replicate]
  have hmin : min (j + 3) 5 = j + 3 := by omega
  rw [hsplit]
  unfold multiline
  dsimp only
  rw [hquotes, hmin, if_pos (Nat.le_add_left 3 j), Nat.add_sub_cancel, List.drop_left' List.length_replicate]

theorem multiline_plain (hquotes : ((c :: cs).takeWhile (· == q)).length < 3) (hbackslash : escapes = true → c ≠ '\\')
    (hc : isControl c = false ∨ c = '\n') (h : multiline q escapes fuel cs = some (out, rest)) :
    multiline q escapes (fuel + 1) (c :: cs) = some (c :: out, rest) := by
  have hreturn : c ≠ '\r' := by
    rintro rfl
    exact absurd hc (by decide)
  have hescape : ¬ (escapes && c == '\\') = true := by
    simpa using hbackslash
  have hallowed : ¬ (isControl c && c != '\n') = true := by
    obtain hc | rfl := hc
    · simp [hc]
    · decide
  unfold multiline
  rw [if_neg (by omega)]
  split
  · next heq => cases heq
  · next heq => exact (hreturn (List.cons.inj heq).1).elim
  · next heq =>
    cases heq
    rw [if_neg hescape, if_neg hallowed, h]
    rfl

theorem multiline_escape (hq : q ≠ '\\') (he : Escapes c e) (h : multiline q true fuel cs = some (out, rest)) :
    multiline q true (fuel + 1) ('\\' :: (e ++ cs)) = some (c :: out, rest) := by
  have hquotes : ¬ 3 ≤ (('\\' :: (e ++ cs)).takeWhile (· == q)).length := by
    rw [List.takeWhile_cons_of_neg (by simpa using hq.symm)]
    decide
  obtain ⟨hfolded, hescape⟩ := he cs
  unfold multiline
  rw [if_neg hquotes]
  split
  · next heq => cases heq
  · next heq => exact absurd (List.cons.inj heq).1 (by decide)
  · next heq =>
    cases heq
    simp only [Bool.true_and, beq_self_eq_true, if_true, hfolded, hescape, Option.bind_eq_bind, Option.bind_some, h]
    rfl

/-- What spells a text between triple quotes reads back as that text. -/
theorem Spells.multiline (hq : q ≠ '\\') (hcontrol : isControl q = false) (h : Spells q escapes run out cs)
    (hrun : run ≤ 2) (hfuel : cs.length < fuel) (hrest : rest.head? ≠ some q) :
    multiline q escapes fuel (out ++ q :: q :: q :: rest) = some (cs, rest) := by
  -- the closing quotes can run together with quotes of the text only at its end
  induction h generalizing fuel with
  | nil =>
    obtain ⟨n, rfl⟩ := Nat.exists_eq_succ_of_ne_zero (Nat.ne_zero_of_lt hfuel)
    exact multiline_close (Nat.zero_le 2) hrest
  | quote hlt h ih =>
    obtain ⟨n, rfl⟩ := Nat.exists_eq_succ_of_ne_zero (Nat.ne_zero_of_lt hfuel)
    obtain ⟨j, hout, hcs, hj⟩ | hfew := (Spells.quote hlt h).leading hq hrun
    · rw [hout, hcs]
      exact multiline_close (by omega) hrest
    · have hquotes := hfew (q :: q :: q :: rest)
      rw [List.cons_append] at hquotes ⊢
      exact multiline_plain (by omega) (fun _ => hq) (.inl hcontrol) (ih hlt (Nat.lt_of_succ_lt_succ hfuel))
  | plain hquote hbackslash hc h ih =>
    obtain ⟨n, rfl⟩ := Nat.exists_eq_succ_of_ne_zero (Nat.ne_zero_of_lt hfuel)
    refine multiline_plain ?_ hbackslash hc (ih (Nat.zero_le 2) (Nat.lt_of_succ_lt_succ hfuel))
    rw [List.takeWhile_cons_of_neg (by simpa using hquote)]
    exact Nat.zero_lt_succ 2
  | escaped hescapes he h ih =>
    obtain ⟨n, rfl⟩ := Nat.exists_eq_succ_of_ne_zero (Nat.ne_zero_of_lt hfuel)
    subst hescapes
    rw [List.cons_append, List.append_assoc]
    exact multiline_escape hq he (ih (Nat.zero_le 2) (Nat.lt_of_succ_lt_succ hfuel))

theorem Spells.length_le (h : Spells q escapes run out cs) : cs.length ≤ out.length := by
  induction h with
  | nil => exact Nat.le_refl _
  | quote _ _ ih => exact Nat.succ_le_succ ih
  | plain _ _ _ _ ih => exact Nat.succ_le_succ ih
  | escaped _ _ _ ih =>
    rw [List.length_cons, List.length_cons, List.length_append]
    omega

theorem Spells.head (hcontrol : isControl q = false) (h : Spells q escapes run out cs) (hcs : '\n' ∉ cs) :
    ∀ c ∈ (out ++ q :: rest).head?, isControl c = false := by
  rintro c hc
  cases h with
  | nil => exact Option.some.inj hc ▸ hcontrol
  | quote => exact Option.some.inj hc ▸ hcontrol
  | plain _ _ hplain =>
    cases hc
    exact hplain.resolve_right fun h => hcs (h ▸ List.mem_cons_self)
  | escaped => exact Option.some.inj hc ▸ by decide

/-! The choice of quotes -/

theorem forall_of_any_needsCode (h : cs.any needsCode = false) : ∀ c ∈ cs, isControl c = false ∨ c = '\n' := by
  intro c hc
  have hcode := List.any_eq_false.mp h c hc
  cases hcontrol : isControl c with
  | false => exact .inl rfl
  | true => exact .inr (by simpa [needsCode, hcontrol] using hcode)

theorem forall_of_quoting_literal (h : quoting cs = .literal) : ∀ c ∈ cs, c ≠ '\'' ∧ isControl c = false := by
  unfold quoting at h
  dsimp only at h
  split at h
  · cases h
  split at h
  · next hplain =>
    simp only [Bool.and_eq_true, Bool.not_eq_true', beq_iff_eq] at hplain
    obtain ⟨⟨hcodes, hsingle⟩, hnewline⟩ := hplain
    intro c hc
    refine ⟨fun heq => not_mem_of_longestRun hsingle (heq ▸ hc), ?_⟩
    refine (forall_of_any_needsCode hcodes c hc).resolve_right ?_
    rintro rfl
    rw [List.contains_iff_mem.mpr hc] at hnewline
    cases hnewline
  · split at h
    · cases h
    split at h
    · cases h
    split at h <;> cases h

theorem spells_of_quoting (h : quoting cs = .multilineLiteral) : Spells '\'' false 0 cs cs := by
  unfold quoting at h
  dsimp only at h
  split at h
  · cases h
  split at h
  · cases h
  split at h
  · cases h
  split at h
  · next hsingle =>
    simp only [Bool.and_eq_true, Bool.not_eq_true', decide_eq_true_eq] at hsingle
    exact spells_self (forall_of_any_needsCode hsingle.1) hsingle.2
  · split at h <;> cases h

/-! Reading a string back -/

theorem skipFirstBreak_start (h : '\n' ∉ cs → ∀ c ∈ out.head?, isControl c = false) :
    skipFirstBreak ((if cs.contains '\n' then ['\n'] else []) ++ out) = out := by
  split
  · rfl
  · next hnewline =>
    have hhead := h fun hc => hnewline (List.contains_iff_mem.mpr hc)
    rw [List.nil_append]
    unfold skipFirstBreak
    split
    · exact absurd (hhead _ rfl) (by decide)
    · exact absurd (hhead _ rfl) (by decide)
    · rfl

theorem string_double (h : ∀ t, cs ≠ '"' :: '"' :: t) (hread : basic (cs.length + 1) cs = some (out, rest)) :
    string ('"' :: cs) = some (String.ofList out, rest) := by
  unfold string
  split
  · next heq => exact (h _ (List.cons.inj heq).2).elim
  · next heq => exact absurd (List.cons.inj heq).1 (by decide)
  · next heq =>
    cases heq
    rw [hread]
    rfl
  · next heq => exact absurd (List.cons.inj heq).1 (by decide)
  · next _ _ hne _ => exact (hne _ rfl).elim

theorem string_single (h : ∀ t, cs ≠ '\'' :: '\'' :: t) (hread : literal cs = some (out, rest)) :
    string ('\'' :: cs) = some (String.ofList out, rest) := by
  unfold string
  split
  · next heq => exact absurd (List.cons.inj heq).1 (by decide)
  · next heq => exact (h _ (List.cons.inj heq).2).elim
  · next heq => exact absurd (List.cons.inj heq).1 (by decide)
  · next heq =>
    cases heq
    rw [hread]
    rfl
  · next _ _ _ hne => exact (hne _ rfl).elim

theorem not_opening (hout : out.head? ≠ some q) (hrest : rest.head? ≠ some q) (t : List Char) :
    out ++ q :: rest ≠ q :: q :: t := by
  intro h
  cases out with
  | nil => exact hrest (congrArg List.head? (List.cons.inj h).2)
  | cons c out => exact hout (congrArg some (List.cons.inj h).1)

theorem Spells.string (hq : q = '"' ∧ escapes = true ∨ q = '\'' ∧ escapes = false) (h : Spells q escapes 0 out cs)
    (hrest : rest.head? ≠ some q) :
    string ([q, q, q] ++ (if cs.contains '\n' then ['\n'] else []) ++ out ++ [q, q, q] ++ rest) =
      some (String.ofList cs, rest) := by
  have hplain : q ≠ '\\' ∧ isControl q = false := by
    obtain ⟨rfl, -⟩ | ⟨rfl, -⟩ := hq <;> decide
  have hstart : skipFirstBreak ((if cs.contains '\n' then ['\n'] else []) ++ (out ++ q :: q :: q :: rest)) =
      out ++ q :: q :: q :: rest := skipFirstBreak_start (h.head hplain.2)
  have hfuel : cs.length < (out ++ q :: q :: q :: rest).length + 1 := by
    have hle := h.length_le
    rw [List.length_append]
    omega
  have hread := h.multiline hplain.1 hplain.2 (Nat.zero_le 2) hfuel hrest
  obtain ⟨rfl, rfl⟩ | ⟨rfl, rfl⟩ := hq <;>
  · simp only [List.append_assoc, List.cons_append, List.nil_append, Toml.string, hstart, hread]
    rfl

/-- A string that is written with any quotes reads back, unless one more quote follows. -/
theorem string_renderChars (hdouble : rest.head? ≠ some '"') (hsingle : rest.head? ≠ some '\'') :
    string (renderChars cs ++ rest) = some (String.ofList cs, rest) := by
  unfold renderChars
  dsimp only
  split
  · rw [List.append_assoc, List.cons_append]
    refine string_double (not_opening head?_escaped hdouble) (basic_escaped ?_)
    have hle := @length_le_escaped cs 0 false
    rw [List.length_append]
    omega
  · next hquoting =>
    have hcs := forall_of_quoting_literal hquoting
    rw [List.append_assoc, List.cons_append]
    exact string_single (not_opening (fun h => (hcs _ (List.mem_of_head? h)).1 rfl) hsingle) (literal_self hcs)
  · exact spells_escaped.string (.inl ⟨rfl, rfl⟩) hdouble
  -- single quotes know no escapes, so here the choice of quotes matters
  · next hquoting => exact (spells_of_quoting hquoting).string (.inr ⟨rfl, rfl⟩) hsingle

end TypeCatalog.Toml
