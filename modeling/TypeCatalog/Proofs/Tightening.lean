import Mathlib.Data.List.Chain
import TypeCatalog.Source.Name

namespace TypeCatalog.Text

variable {a b c : Char} {cs out rest : List Char}

/-! Words -/

theorem wordsOf_blank (h : isBlank c = true) : wordsOf (c :: cs) = wordsOf cs := by
  cases cs <;> simp [wordsOf, h]

theorem wordsOf_single (hc : isBlank c = false) : wordsOf [c] = [[c]] := by
  simp [wordsOf, hc]

theorem wordsOf_last (hc : isBlank c = false) (hb : isBlank b = true) :
    wordsOf (c :: b :: cs) = [c] :: wordsOf cs := by
  rw [wordsOf, if_neg (by simp [hc]), if_pos hb, wordsOf_blank hb]

theorem wordsOf_ne_nil (hc : isBlank c = false) : wordsOf (c :: cs) ≠ [] := by
  cases cs with
  | nil =>
    rw [wordsOf_single hc]
    exact List.cons_ne_nil _ _
  | cons b cs =>
    rw [wordsOf, if_neg (by simp [hc])]
    split
    · exact List.cons_ne_nil _ _
    · split <;> exact List.cons_ne_nil _ _

theorem wordsOf_inner (hc : isBlank c = false) (hb : isBlank b = false) :
    ∃ w ws, wordsOf (b :: cs) = w :: ws ∧ wordsOf (c :: b :: cs) = (c :: w) :: ws := by
  obtain ⟨w, ws, hw⟩ := List.exists_cons_of_ne_nil (wordsOf_ne_nil hb)
  refine ⟨w, ws, hw, ?_⟩
  rw [wordsOf, if_neg (by simp [hc]), if_neg (by simp [hb]), hw]

/-- A word is not empty and has no blanks. -/
def IsWord (w : List Char) : Prop := w ≠ [] ∧ ∀ c ∈ w, isBlank c = false

theorem isWord_of_mem (cs : List Char) : ∀ w ∈ wordsOf cs, IsWord w := by
  match cs with
  | [] => simp [wordsOf]
  | [c] =>
    cases hc : isBlank c with
    | true =>
      rw [wordsOf_blank hc]
      simp [wordsOf]
    | false =>
      rw [wordsOf_single hc]
      simp [IsWord, hc]
  | c :: b :: cs =>
    have ih := isWord_of_mem (b :: cs)
    cases hc : isBlank c with
    | true => rwa [wordsOf_blank hc]
    | false =>
      cases hb : isBlank b with
      | true =>
        rw [wordsOf_blank hb] at ih
        rw [wordsOf_last hc hb]
        exact List.forall_mem_cons.mpr ⟨by simp [IsWord, hc], ih⟩
      | false =>
        obtain ⟨w, ws, hw, hcw⟩ := wordsOf_inner hc hb
        rw [hw] at ih
        obtain ⟨⟨-, hword⟩, hws⟩ := List.forall_mem_cons.mp ih
        rw [hcw]
        exact List.forall_mem_cons.mpr ⟨⟨List.cons_ne_nil c w, List.forall_mem_cons.mpr ⟨hc, hword⟩⟩, hws⟩

theorem flatten_wordsOf (cs : List Char) : (wordsOf cs).flatten = cs.filter (!isBlank ·) := by
  match cs with
  | [] => rfl
  | [c] =>
    cases hc : isBlank c with
    | true => simp [wordsOf, hc]
    | false => simp [wordsOf, hc]
  | c :: b :: cs =>
    have ih := flatten_wordsOf (b :: cs)
    cases hc : isBlank c with
    | true =>
      have hdrop : (c :: b :: cs).filter (!isBlank ·) = (b :: cs).filter (!isBlank ·) :=
        List.filter_cons_of_neg (by simp [hc])
      rw [wordsOf_blank hc, ih, hdrop]
    | false =>
      rw [List.filter_cons_of_pos (by simp [hc]), ← ih]
      cases hb : isBlank b with
      | true =>
        rw [wordsOf_last hc hb, wordsOf_blank hb]
        rfl
      | false =>
        obtain ⟨w, ws, hw, hcw⟩ := wordsOf_inner hc hb
        rw [hw, hcw]
        rfl

/-! Words with single spaces between them -/

section

variable {w v : List Char} {ws : List (List Char)}

theorem intercalate_cons_cons : [' '].intercalate (w :: v :: ws) = w ++ ' ' :: [' '].intercalate (v :: ws) := rfl

theorem intercalate_single : [' '].intercalate [w] = w := List.append_nil w

theorem isBlank_space : isBlank ' ' = true := by decide

theorem filter_intercalate (h : ∀ w ∈ ws, IsWord w) : ([' '].intercalate ws).filter (!isBlank ·) = ws.flatten := by
  induction ws with
  | nil => rfl
  | cons w ws ih =>
    obtain ⟨⟨-, hw⟩, hws⟩ := List.forall_mem_cons.mp h
    have hself : w.filter (!isBlank ·) = w := List.filter_eq_self.mpr fun c hc => by simp [hw c hc]
    cases ws with
    | nil =>
      rw [intercalate_single, hself]
      exact (List.append_nil w).symm
    | cons v ws =>
      rw [intercalate_cons_cons, List.filter_append, hself, List.filter_cons_of_neg (by decide), ih hws]
      rfl

theorem blank_of_mem_intercalate (h : ∀ w ∈ ws, IsWord w) :
    ∀ c ∈ [' '].intercalate ws, isBlank c = true → c = ' ' := by
  induction ws with
  | nil => simp [List.intercalate]
  | cons w ws ih =>
    obtain ⟨⟨-, hw⟩, hws⟩ := List.forall_mem_cons.mp h
    have hself : ∀ c ∈ w, isBlank c = true → c = ' ' := by
      intro c hc hblank
      rw [hw c hc] at hblank
      cases hblank
    cases ws with
    | nil => rwa [intercalate_single]
    | cons v ws =>
      rw [intercalate_cons_cons]
      exact List.forall_mem_append.mpr ⟨hself, List.forall_mem_cons.mpr ⟨fun _ => rfl, ih hws⟩⟩

theorem head?_intercalate (h : ∀ w ∈ ws, IsWord w) : ([' '].intercalate ws).head? ≠ some ' ' := by
  cases ws with
  | nil => simp [List.intercalate]
  | cons w ws =>
    obtain ⟨⟨hne, hw⟩, -⟩ := List.forall_mem_cons.mp h
    obtain ⟨c, cs, rfl⟩ := List.exists_cons_of_ne_nil hne
    have hc : c ≠ ' ' := by
      rintro rfl
      have hfalse := hw ' ' List.mem_cons_self
      rw [isBlank_space] at hfalse
      cases hfalse
    cases ws <;> simpa [List.intercalate] using hc

theorem getLast?_intercalate (h : ∀ w ∈ ws, IsWord w) : ∀ c ∈ ([' '].intercalate ws).getLast?, isBlank c = false := by
  induction ws with
  | nil => simp [List.intercalate]
  | cons w ws ih =>
    obtain ⟨⟨hne, hw⟩, hws⟩ := List.forall_mem_cons.mp h
    cases ws with
    | nil =>
      rw [intercalate_single]
      exact fun c hc => hw c (List.mem_of_getLast? hc)
    | cons v ws =>
      have hv : [' '].intercalate (v :: ws) ≠ [] := by
        obtain ⟨⟨hne, -⟩, -⟩ := List.forall_mem_cons.mp hws
        cases ws with
        | nil => rwa [intercalate_single]
        | cons u ws => rw [intercalate_cons_cons]; simp
      rw [intercalate_cons_cons, List.getLast?_append_of_ne_nil _ (List.cons_ne_nil _ _),
      List.getLast?_cons_of_ne_nil hv]
      exact ih hws

end

/-- The words with a space between any two. -/
def spaced (cs : List Char) : List Char := [' '].intercalate (wordsOf cs)

theorem toList_tupleDisplay (s : String) : (tupleDisplay s).toList = tighten [] (spaced s.toList) := by
  unfold tupleDisplay spaced words
  rw [String.toList_ofList, String.toList_intercalate, List.map_map]
  have hid : String.toList ∘ String.ofList = id := funext fun cs => String.toList_ofList
  rw [hid, List.map_id]
  rfl

theorem spaced_inner (hc : isBlank c = false) (hb : isBlank b = false) :
    spaced (c :: b :: cs) = c :: spaced (b :: cs) := by
  obtain ⟨w, ws, hw, hcw⟩ := wordsOf_inner hc hb
  unfold spaced
  rw [hw, hcw]
  cases ws <;> rfl

theorem spaced_last (hc : isBlank c = false) (hb : isBlank b = true) (h : wordsOf cs ≠ []) :
    spaced (c :: b :: cs) = c :: ' ' :: spaced cs := by
  obtain ⟨w, ws, hw⟩ := List.exists_cons_of_ne_nil h
  unfold spaced
  rw [wordsOf_last hc hb, hw]
  rfl

/-- A text in which blanks are single spaces is its words with spaces between them, up to a space at its end. -/
theorem eq_spaced (cs : List Char) (hblank : ∀ c ∈ cs, isBlank c = true → c = ' ') (hfirst : cs.head? ≠ some ' ')
    (hsingle : cs.IsChain fun a b => a = ' ' → b ≠ ' ') : cs = spaced cs ∨ cs = spaced cs ++ [' '] := by
  have hsolid {c : Char} {cs : List Char} (hblank : ∀ d ∈ c :: cs, isBlank d = true → d = ' ')
      (hne : c ≠ ' ') : isBlank c = false := by
    rw [← Bool.not_eq_true]
    exact fun h => hne (hblank c List.mem_cons_self h)
  -- two characters are looked at, since a space is kept only before a word
  match cs with
  | [] => exact .inl rfl
  | [c] =>
    have hc := hsolid hblank fun h => hfirst (congrArg some h)
    refine .inl ?_
    unfold spaced
    rw [wordsOf_single hc, intercalate_single]
  | c :: b :: cs =>
    have hc := hsolid hblank fun h => hfirst (congrArg some h)
    have hrest := (List.forall_mem_cons.mp hblank).2
    obtain ⟨-, hchain⟩ := List.isChain_cons_cons.mp hsingle
    by_cases hb : b = ' '
    · subst hb
      cases cs with
      | nil =>
        refine .inr ?_
        unfold spaced
        rw [wordsOf_last hc isBlank_space]
        rfl
      | cons d ds =>
        obtain ⟨hbd, hchain⟩ := List.isChain_cons_cons.mp hchain
        have hd := hbd rfl
        have hrest := (List.forall_mem_cons.mp hrest).2
        have ih := eq_spaced (d :: ds) hrest (by simpa using hd) hchain
        rw [spaced_last hc isBlank_space (wordsOf_ne_nil (hsolid hrest hd))]
        exact ih.imp (congrArg fun t => c :: ' ' :: t) (congrArg fun t => c :: ' ' :: t)
    · have ih := eq_spaced (b :: cs) hrest (by simpa using hb) hchain
      rw [spaced_inner hc (hsolid hrest hb)]
      exact ih.imp (congrArg (c :: ·)) (congrArg (c :: ·))

/-! Brackets and commas -/

def closers : List Char := [',', ')', '>', ']']

def openers : List Char := ['(', '<', '[']

/-- Two characters that may stand next to each other. -/
def Adjoins (a b : Char) : Prop :=
  (a = ' ' → b ≠ ' ' ∧ b ∉ closers) ∧ (b = ' ' → a ∉ openers) ∧ (a = ',' → b = ' ' ∨ b ∈ closers)

/-- A text, last character first, without its last space. -/
def trimmed (out : List Char) : List Char :=
  match out with
  | ' ' :: rest => rest
  | _ => out

/-- The text with one more character. -/
def push (out : List Char) (c : Char) : List Char :=
  if c = ',' then ' ' :: ',' :: trimmed out
  else if c ∈ closers then c :: trimmed out
  else if c = ' ' then if out.head?.any fun a => a = ' ' ∨ a ∈ openers then out else ' ' :: out
  else c :: out

theorem push_comma : push out ',' = ' ' :: ',' :: trimmed out := if_pos rfl

theorem push_closer (hc : c ∈ closers) (hne : c ≠ ',') : push out c = c :: trimmed out := by
  unfold push
  rw [if_neg hne, if_pos hc]

theorem any_head?_iff {P : Char → Prop} [DecidablePred P] : out.head?.any (P ·) ↔ ∃ a ∈ out.head?, P a := by
  simp only [Option.any_eq_true, decide_eq_true_eq, Option.mem_def]

theorem push_space_after (h : ∃ a ∈ out.head?, a = ' ' ∨ a ∈ openers) : push out ' ' = out := by
  unfold push
  rw [if_neg (by decide), if_neg (by decide), if_pos rfl, if_pos (any_head?_iff.mpr h)]

theorem push_space (h : ¬ ∃ a ∈ out.head?, a = ' ' ∨ a ∈ openers) : push out ' ' = ' ' :: out := by
  unfold push
  rw [if_neg (by decide), if_neg (by decide), if_pos rfl, if_neg (mt any_head?_iff.mp h)]

theorem push_other (hc : c ∉ closers) (hspace : c ≠ ' ') : push out c = c :: out := by
  have hne : c ≠ ',' := by
    rintro rfl
    exact hc (by decide)
  unfold push
  rw [if_neg hne, if_neg hc, if_neg hspace]

theorem tighten_cons : tighten out (c :: cs) = tighten (push out c) cs := by
  conv_lhs => unfold tighten
  dsimp only
  split
  · rw [push_comma]
    rfl
  · rw [push_closer (by decide) (by decide)]
    rfl
  · rw [push_closer (by decide) (by decide)]
    rfl
  · rw [push_closer (by decide) (by decide)]
    rfl
  · split
    · rw [push_space_after ⟨_, rfl, by decide⟩]
    · rw [push_space_after ⟨_, rfl, by decide⟩]
    · rw [push_space_after ⟨_, rfl, by decide⟩]
    · rw [push_space_after ⟨_, rfl, by decide⟩]
    · next hspace hround hangle hsquare =>
      rw [push_space]
      rintro ⟨a, ha, hopen⟩
      obtain ⟨rest, rfl⟩ := List.head?_eq_some_iff.mp ha
      simp only [openers, List.mem_cons, List.not_mem_nil, or_false] at hopen
      rcases hopen with rfl | rfl | rfl | rfl
      · exact hspace rest rfl
      · exact hround rest rfl
      · exact hangle rest rfl
      · exact hsquare rest rfl
  · next hcomma hround hangle hsquare hspace =>
    rw [push_other _ hspace]
    simp only [closers, List.mem_cons, List.not_mem_nil, or_false, not_or]
    exact ⟨hcomma, hround, hangle, hsquare⟩

theorem tighten_eq_foldl : tighten out cs = (cs.foldl push out).reverse := by
  induction cs generalizing out with
  | nil => rfl
  | cons c cs ih => rw [tighten_cons, ih, List.foldl_cons]

theorem trimmed_of_ne (h : a ≠ ' ') : trimmed (a :: out) = a :: out := by
  unfold trimmed
  split
  · next heq =>
    cases heq
    exact (h rfl).elim
  · rfl

theorem filter_push : (push out c).filter (!isBlank ·) = (c :: out).filter (!isBlank ·) := by
  have htrimmed : (trimmed out).filter (!isBlank ·) = out.filter (!isBlank ·) := by
    unfold trimmed
    split
    · exact (List.filter_cons_of_neg (by decide)).symm
    · rfl
  by_cases hcloser : c ∈ closers
  · by_cases hcomma : c = ','
    · rw [hcomma, push_comma, List.filter_cons_of_neg (by decide), List.filter_cons, List.filter_cons, htrimmed]
    · rw [push_closer hcloser hcomma, List.filter_cons, List.filter_cons, htrimmed]
  · by_cases hspace : c = ' '
    · subst hspace
      rw [List.filter_cons_of_neg (by decide)]
      by_cases hafter : ∃ a ∈ out.head?, a = ' ' ∨ a ∈ openers
      · rw [push_space_after hafter]
      · rw [push_space hafter, List.filter_cons_of_neg (by decide)]
    · rw [push_other hcloser hspace]

theorem filter_foldl_push : (cs.foldl push out).filter (!isBlank ·) = (cs.reverse ++ out).filter (!isBlank ·) := by
  induction cs generalizing out with
  | nil => rfl
  | cons c cs ih => rw [List.foldl_cons, ih, List.filter_append, filter_push, ← List.filter_append, List.reverse_cons,
      List.append_assoc, List.singleton_append]

/-! The result -/

/-- A text, last character first, in which blanks are single spaces that stand as they should. -/
structure Tidy (out : List Char) : Prop where
  blank : ∀ c ∈ out, isBlank c = true → c = ' '
  chain : out.IsChain fun b a => Adjoins a b
  first : out.getLast? ≠ some ' '
  last : out.head? ≠ some ','

theorem space_not_closer : ' ' ∉ closers := by decide

theorem adjoins_closer (ha : a ≠ ' ') (hc : c ∈ closers) : Adjoins a c := by
  refine ⟨fun h => (ha h).elim, ?_, fun _ => .inr hc⟩
  rintro rfl
  exact (space_not_closer hc).elim

theorem getLast?_cons_ne (h : out.getLast? ≠ some ' ') (hc : out = [] → c ≠ ' ') : (c :: out).getLast? ≠ some ' ' := by
  cases out with
  | nil => simpa using hc rfl
  | cons a out => rwa [List.getLast?_cons_cons]

namespace Tidy

theorem nil : Tidy [] := ⟨by simp, .nil, by simp, by simp⟩

theorem trimmed_ne (h : Tidy out) : ∀ a ∈ (trimmed out).head?, a ≠ ' ' := by
  cases out with
  | nil => simp [trimmed]
  | cons b out =>
    by_cases hb : b = ' '
    · subst hb
      intro a ha
      have hadjoins := (List.isChain_cons.mp h.chain).1 a ha
      rintro rfl
      exact (hadjoins.1 rfl).1 rfl
    · rw [trimmed_of_ne hb]
      rintro _ ⟨⟩
      exact hb

theorem trimmed (h : Tidy out) : (∀ c ∈ trimmed out, isBlank c = true → c = ' ') ∧
    (Text.trimmed out).IsChain (fun b a => Adjoins a b) ∧ (Text.trimmed out).getLast? ≠ some ' ' := by
  unfold Text.trimmed
  split
  · next rest =>
    refine ⟨fun c hc => h.blank c (List.mem_cons_of_mem _ hc), (List.isChain_cons.mp h.chain).2, ?_⟩
    cases rest with
    | nil => simp
    | cons a rest =>
      have hfirst := h.first
      rwa [List.getLast?_cons_cons] at hfirst
  · exact ⟨h.blank, h.chain, h.first⟩

/-- Every character leaves a tidy text. -/
theorem push (h : Tidy out) (hc : isBlank c = true → c = ' ') (hstart : out = [] → c ≠ ' ') : Tidy (push out c) := by
  obtain ⟨hblank, hchain, hfirst⟩ := h.trimmed
  -- a closer takes back a space before it, a space is dropped after an opener, and nothing else is changed
  by_cases hcloser : c ∈ closers
  · have hne : c ≠ ' ' := fun heq => space_not_closer (heq ▸ hcloser)
    have hadd : (c :: Text.trimmed out).IsChain fun b a => Adjoins a b :=
      List.isChain_cons.mpr ⟨fun a ha => adjoins_closer (h.trimmed_ne a ha) hcloser, hchain⟩
    have hblanks : ∀ d ∈ c :: Text.trimmed out, isBlank d = true → d = ' ' := List.forall_mem_cons.mpr ⟨hc, hblank⟩
    have hlast : (c :: Text.trimmed out).getLast? ≠ some ' ' := getLast?_cons_ne hfirst fun _ => hne
    by_cases hcomma : c = ','
    · subst hcomma
      rw [push_comma]
      refine ⟨List.forall_mem_cons.mpr ⟨fun _ => rfl, hblanks⟩, ?_, getLast?_cons_ne hlast nofun, by simp⟩
      refine List.isChain_cons_cons.mpr ⟨⟨nofun, fun _ => by decide, fun _ => .inl rfl⟩, hadd⟩
    · rw [push_closer hcloser hcomma]
      exact ⟨hblanks, hadd, hlast, by simpa using hcomma⟩
  · by_cases hspace : c = ' '
    · subst hspace
      by_cases hafter : ∃ a ∈ out.head?, a = ' ' ∨ a ∈ openers
      · rwa [push_space_after hafter]
      · rw [push_space hafter]
        refine ⟨List.forall_mem_cons.mpr ⟨hc, h.blank⟩, ?_, getLast?_cons_ne h.first hstart, by simp⟩
        refine List.isChain_cons.mpr ⟨fun a ha => ?_, h.chain⟩
        exact ⟨fun heq => (hafter ⟨a, ha, .inl heq⟩).elim, fun _ hopen => hafter ⟨a, ha, .inr hopen⟩, fun _ => .inl rfl⟩
    · rw [push_other hcloser hspace]
      refine ⟨List.forall_mem_cons.mpr ⟨hc, h.blank⟩, ?_, getLast?_cons_ne h.first fun _ => hspace, ?_⟩
      · refine List.isChain_cons.mpr ⟨fun a ha => ?_, h.chain⟩
        refine ⟨fun _ => ⟨hspace, hcloser⟩, fun heq => (hspace heq).elim, ?_⟩
        rintro rfl
        exact (h.last ha).elim
      · rintro ⟨⟩
        exact hcloser (by decide)

theorem foldl_push (h : Tidy out) (hblank : ∀ c ∈ cs, isBlank c = true → c = ' ')
    (hstart : out = [] → cs.head? ≠ some ' ') : Tidy (cs.foldl Text.push out) := by
  induction cs generalizing out with
  | nil => exact h
  | cons c cs ih =>
    obtain ⟨hc, hcs⟩ := List.forall_mem_cons.mp hblank
    refine ih (h.push hc fun hnil heq => hstart hnil (congrArg some heq)) hcs fun hnil => ?_
    have hne : Text.push out c ≠ [] := by
      unfold Text.push
      split
      · exact List.cons_ne_nil _ _
      · split
        · exact List.cons_ne_nil _ _
        · split
          · split
            · next hafter =>
              obtain ⟨a, ha, -⟩ := any_head?_iff.mp hafter
              rintro rfl
              cases ha
            · exact List.cons_ne_nil _ _
          · exact List.cons_ne_nil _ _
    exact (hne hnil).elim

end Tidy

/-- After a character that is not blank only a comma leaves a space. -/
theorem push_settled (hc : c ≠ ' ') (h : push out c = ' ' :: rest) : rest.head? = some ',' := by
  by_cases hcloser : c ∈ closers
  · by_cases hcomma : c = ','
    · rw [hcomma, push_comma] at h
      cases h
      rfl
    · rw [push_closer hcloser hcomma] at h
      cases h
      exact (hc rfl).elim
  · rw [push_other hcloser hc] at h
    cases h
    exact (hc rfl).elim

/-! Doing it again -/

/-- The space that is due after a comma. -/
def pend (out : List Char) : List Char := if out.head? = some ',' then ' ' :: out else out

theorem pend_of_ne (h : out.head? ≠ some ',') : pend out = out := if_neg h

/-- A character that may stand where it does is taken over as it is. -/
theorem push_pend (hchain : ∀ a ∈ out.head?, Adjoins a c) (hstart : out = [] → c ≠ ' ') :
    push (pend out) c = pend (c :: out) := by
  have hpend (hne : c ≠ ',') : pend (c :: out) = c :: out := pend_of_ne (by simpa using hne)
  have hcomma : pend (',' :: out) = ' ' :: ',' :: out := if_pos rfl
  -- what a closing character finds before it is the text without the space that is due
  have htrimmed (hc : c ∈ closers) : trimmed (pend out) = out := by
    cases out with
    | nil => rfl
    | cons a out =>
      by_cases ha : a = ','
      · rw [ha]
        rfl
      · rw [pend_of_ne (by simpa using ha)]
        exact trimmed_of_ne fun hspace => ((hchain a rfl).1 hspace).2 hc
  by_cases hcloser : c ∈ closers
  · by_cases hc : c = ','
    · subst hc
      rw [push_comma, htrimmed hcloser, hcomma]
    · rw [push_closer hcloser hc, htrimmed hcloser, hpend hc]
  · have hne : c ≠ ',' := by
      rintro rfl
      exact hcloser (by decide)
    rw [hpend hne]
    cases out with
    | nil => exact push_other hcloser (hstart rfl)
    | cons a out =>
      have hadjoins := hchain a rfl
      by_cases ha : a = ','
      · subst ha
        obtain rfl : c = ' ' := (hadjoins.2.2 rfl).resolve_right hcloser
        exact push_space_after ⟨_, rfl, .inl rfl⟩
      · rw [pend_of_ne (by simpa using ha)]
        by_cases hspace : c = ' '
        · subst hspace
          refine push_space ?_
          rintro ⟨_, ⟨⟩, hbefore | hopen⟩
          · exact (hadjoins.1 hbefore).1 rfl
          · exact hadjoins.2.1 rfl hopen
        · exact push_other hcloser hspace

theorem foldl_push_pend (hchain : (out.reverse ++ cs).IsChain Adjoins) (hstart : out = [] → cs.head? ≠ some ' ') :
    cs.foldl push (pend out) = pend (cs.reverse ++ out) := by
  induction cs generalizing out with
  | nil => rfl
  | cons c cs ih =>
    have hadjoins : ∀ a ∈ out.head?, Adjoins a c := by
      intro a ha
      exact (List.isChain_append.mp hchain).2.2 a (by rwa [List.getLast?_reverse]) c rfl
    have hrest : ((c :: out).reverse ++ cs).IsChain Adjoins := by
      rwa [List.reverse_cons, List.append_assoc]
    rw [List.foldl_cons, push_pend hadjoins fun hnil heq => hstart hnil (congrArg some heq), ih hrest nofun,
      List.reverse_cons, List.append_assoc, List.singleton_append]

theorem foldl_push_nil (hchain : cs.IsChain Adjoins) (hstart : cs.head? ≠ some ' ') :
    cs.foldl push [] = pend cs.reverse := by
  have hfold := @foldl_push_pend cs [] hchain fun _ => hstart
  rwa [List.append_nil] at hfold

/-! Display names -/

theorem reverse_tupleDisplay (s : String) : (tupleDisplay s).toList.reverse = (spaced s.toList).foldl push [] := by
  rw [toList_tupleDisplay, tighten_eq_foldl, List.reverse_reverse]

theorem tidy_tupleDisplay (s : String) : Tidy (tupleDisplay s).toList.reverse := by
  rw [reverse_tupleDisplay]
  exact Tidy.nil.foldl_push (blank_of_mem_intercalate (isWord_of_mem _)) fun _ => head?_intercalate (isWord_of_mem _)

theorem isChain_tupleDisplay (s : String) : (tupleDisplay s).toList.IsChain Adjoins := by
  have h := (tidy_tupleDisplay s).chain
  rwa [← List.isChain_reverse, List.reverse_reverse] at h

theorem unspaced_tupleDisplay (s : String) : unspaced (tupleDisplay s) = unspaced s := by
  have hfilter : (tupleDisplay s).toList.filter (!isBlank ·) = s.toList.filter (!isBlank ·) :=
    calc (tupleDisplay s).toList.filter (!isBlank ·)
      _ = (((spaced s.toList).foldl push []).filter (!isBlank ·)).reverse := by
        rw [← reverse_tupleDisplay, List.filter_reverse, List.reverse_reverse]
      _ = (spaced s.toList).filter (!isBlank ·) := by
        rw [filter_foldl_push, List.append_nil, List.filter_reverse, List.reverse_reverse]
      _ = (wordsOf s.toList).flatten := filter_intercalate (isWord_of_mem _)
      _ = s.toList.filter (!isBlank ·) := flatten_wordsOf s.toList
  unfold unspaced
  rw [hfilter]

/-- A space at the end stands after a comma. -/
theorem getLast?_of_tupleDisplay {s : String} (h : (tupleDisplay s).toList = cs ++ [' ']) : cs.getLast? = some ',' := by
  have hfold : (spaced s.toList).foldl push [] = ' ' :: cs.reverse := by
    rw [← reverse_tupleDisplay, h, List.reverse_append]
    rfl
  rw [← List.head?_reverse]
  rcases List.eq_nil_or_concat' (spaced s.toList) with hnil | ⟨init, c, hconcat⟩
  · rw [hnil] at hfold
    cases hfold
  · have hc : isBlank c = false := getLast?_intercalate (isWord_of_mem _) c (by
      show (spaced s.toList).getLast? = some c
      rw [hconcat, List.getLast?_concat])
    rw [hconcat, List.foldl_append] at hfold
    refine push_settled ?_ hfold
    rintro rfl
    rw [isBlank_space] at hc
    cases hc

theorem tupleDisplay_tupleDisplay (s : String) : tupleDisplay (tupleDisplay s) = tupleDisplay s := by
  rw [← String.toList_inj, ← List.reverse_inj, reverse_tupleDisplay (tupleDisplay s)]
  have htidy := tidy_tupleDisplay s
  have hfirst : (tupleDisplay s).toList.head? ≠ some ' ' := by
    have h := htidy.first
    rwa [List.getLast?_reverse] at h
  have hlast : (tupleDisplay s).toList.getLast? ≠ some ',' := by
    have h := htidy.last
    rwa [List.head?_reverse] at h
  have hblank : ∀ c ∈ (tupleDisplay s).toList, isBlank c = true → c = ' ' :=
    fun c hc => htidy.blank c (List.mem_reverse.mpr hc)
  have hchain := isChain_tupleDisplay s
  have hsettled {cs : List Char} (h : (tupleDisplay s).toList = cs ++ [' ']) := getLast?_of_tupleDisplay h
  generalize (tupleDisplay s).toList = cs at *
  have hsingle : cs.IsChain fun a b => a = ' ' → b ≠ ' ' := hchain.imp fun _ _ h ha => (h.1 ha).1
  rcases eq_spaced cs hblank hfirst hsingle with heq | heq
  · rw [← heq, foldl_push_nil hchain hfirst, pend_of_ne (by rwa [List.head?_reverse])]
  · have hcomma := hsettled heq
    have hstart : (spaced cs).head? ≠ some ' ' := head?_intercalate (isWord_of_mem _)
    rw [heq] at hchain
    have hdue : pend (spaced cs).reverse = ' ' :: (spaced cs).reverse := if_pos (by rwa [List.head?_reverse])
    rw [foldl_push_nil (List.isChain_append.mp hchain).1 hstart, hdue]
    conv_rhs => rw [heq, List.reverse_append]
    rfl

/-- The display form of a text keeps all but the blanks. Its blanks are single spaces: none before a closing bracket or
a comma, none after an opening bracket, and one after a comma unless a closing bracket or a comma follows. It is its
own display form. -/
theorem tupleDisplay_normal (s : String) :
    unspaced (tupleDisplay s) = unspaced s ∧
    (∀ c ∈ (tupleDisplay s).toList, isBlank c = true → c = ' ') ∧
    (∀ before a b after, (tupleDisplay s).toList = before ++ a :: b :: after →
      (a = ' ' → b ≠ ' ' ∧ b ∉ [',', ')', '>', ']']) ∧ (b = ' ' → a ∉ ['(', '<', '['])) ∧
    (∀ before after, (tupleDisplay s).toList = before ++ ',' :: after →
      (∃ c ∈ (after.dropWhile (· == ' ')).head?, c ∈ [',', ')', '>', ']']) ∨
        ∃ rest, after = ' ' :: rest ∧ rest.head? ≠ some ' ') ∧
    tupleDisplay (tupleDisplay s) = tupleDisplay s := by
  have htidy := tidy_tupleDisplay s
  have hchain := isChain_tupleDisplay s
  refine ⟨unspaced_tupleDisplay s, fun c hc => htidy.blank c (List.mem_reverse.mpr hc), ?_, ?_,
    tupleDisplay_tupleDisplay s⟩
  · intro before a b after heq
    rw [heq] at hchain
    have hadjoins := (List.isChain_append_cons_cons.mp hchain).2.1
    exact ⟨hadjoins.1, hadjoins.2.1⟩
  · intro before after heq
    cases after with
    | nil =>
      have hlast := htidy.last
      rw [heq, List.head?_reverse, List.getLast?_concat] at hlast
      exact (hlast rfl).elim
    | cons b rest =>
      rw [heq] at hchain
      obtain ⟨-, hadjoins, hrest⟩ := List.isChain_append_cons_cons.mp hchain
      rcases hadjoins.2.2 rfl with rfl | hcloser
      · refine .inr ⟨rest, rfl, fun hhead => ?_⟩
        exact (((List.isChain_cons.mp hrest).1 ' ' hhead).1 rfl).1 rfl
      · have hne : b ≠ ' ' := fun heq => space_not_closer (heq ▸ hcloser)
        refine .inl ⟨b, ?_, hcloser⟩
        rw [List.dropWhile_cons_of_neg (by simpa using hne)]
        rfl

example : tupleDisplay "( int[ , ]  Id ,string Name )" = "(int[,] Id, string Name)" := by decide +kernel

end TypeCatalog.Text
