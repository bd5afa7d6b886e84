import Mathlib.Algebra.Order.BigOperators.Group.List
import TypeCatalog.Proofs.Quoting

namespace TypeCatalog.Toml

variable {c : Char} {cs ds items key rest : List Char} {levels fuel n : Nat} {item : Reader Value} {v : Value}
  {vs : List Value}

/-! Blanks -/

theorem skipSpace_eq_self (h : ∀ c ∈ cs.head?, c ≠ ' ' ∧ c ≠ '\t') : skipSpace cs = cs := by
  cases cs with
  | nil => rfl
  | cons c cs => exact List.dropWhile_cons_of_neg (by simpa [isSpace] using h c rfl)

theorem skipBlank_cons (hc : c = ' ' ∨ c = '\n') :
    skipBlank ((c :: cs).length + 1) (c :: cs) = skipBlank (cs.length + 1) cs := by
  obtain rfl | rfl := hc <;> rfl

theorem skipBlank_eq_self (h : ∀ c ∈ cs.head?, c ∉ [' ', '\t', '\n', '\r', '#']) :
    skipBlank fuel cs = some cs := by
  cases fuel with
  | zero => rfl
  | succ n =>
    unfold skipBlank
    split
    · exact absurd (h _ rfl) (by decide)
    · exact absurd (h _ rfl) (by decide)
    · exact absurd (h _ rfl) (by decide)
    · exact absurd (h _ rfl) (by decide)
    · exact absurd (h _ rfl) (by decide)
    · rfl

/-! Texts and lists of texts -/

theorem value_eq_scalar (h : ∀ c ∈ cs.head?, c ≠ '[' ∧ c ≠ '\x7b') : value levels cs = scalar cs := by
  cases levels with
  | zero => rfl
  | succ n =>
    unfold value
    split
    · exact absurd rfl (h _ rfl).1
    · exact absurd rfl (h _ rfl).2
    · rfl

theorem toList_renderText (s : String) : (renderText s).toList = renderChars s.toList := String.toList_ofList

theorem renderText_cons (s : String) : ∃ c t, (renderText s).toList = c :: t ∧ (c = '"' ∨ c = '\'') := by
  rw [toList_renderText]
  unfold renderChars
  dsimp only
  split
  · exact ⟨_, _, rfl, .inl rfl⟩
  · exact ⟨_, _, rfl, .inr rfl⟩
  · exact ⟨_, _, rfl, .inl rfl⟩
  · exact ⟨_, _, rfl, .inr rfl⟩

theorem head_renderText {s : String} : ∀ c ∈ ((renderText s).toList ++ rest).head?, c = '"' ∨ c = '\'' := by
  obtain ⟨c, t, hchars, hc⟩ := renderText_cons s
  rw [hchars]
  rintro _ ⟨⟩
  exact hc

theorem value_renderText {s : String} (hrest : ∀ c ∈ rest.head?, c ≠ '"' ∧ c ≠ '\'') :
    value levels ((renderText s).toList ++ rest) = some (.text s, rest) := by
  have hread := @string_renderChars s.toList rest (fun h => (hrest _ h).1 rfl) (fun h => (hrest _ h).2 rfl)
  rw [value_eq_scalar fun c hc => by obtain rfl | rfl := head_renderText c hc <;> decide]
  rw [← toList_renderText, String.ofList_toList] at hread
  obtain ⟨c, t, hchars, hc⟩ := renderText_cons s
  rw [hchars, List.cons_append] at hread ⊢
  obtain rfl | rfl := hc <;>
  · unfold scalar
    rw [hread]
    rfl

/-- The items of a list, each on a line of its own. -/
def itemLines (xs : List String) : List Char :=
  xs.flatMap fun x => "    ".toList ++ (renderText x).toList ++ [',', '\n']

theorem toList_renderList {x y : String} {xs : List String} :
    (renderList (x :: y :: xs)).toList = '[' :: '\n' :: itemLines (x :: y :: xs) ++ [']'] := by
  unfold renderList itemLines
  simp only [String.toList_append, String.toList_join, List.flatMap_map]
  rfl

theorem arrayItems_close (hskip : skipBlank (cs.length + 1) cs = some (']' :: rest)) :
    arrayItems item (fuel + 1) cs = some ([], rest) := by
  unfold arrayItems
  rw [hskip]
  rfl

theorem arrayItems_last (hskip : skipBlank (cs.length + 1) cs = some items) (hopen : ∀ c ∈ items.head?, c ≠ ']')
    (hitem : item items = some (v, ']' :: rest)) : arrayItems item (fuel + 1) cs = some ([v], rest) := by
  unfold arrayItems
  rw [hskip, Option.bind_eq_bind, Option.bind_some]
  split
  · exact absurd rfl (hopen _ rfl)
  · rw [hitem]
    rfl

theorem arrayItems_next (hskip : skipBlank (cs.length + 1) cs = some items) (hopen : ∀ c ∈ items.head?, c ≠ ']')
    (hitem : item items = some (v, ',' :: ds)) (hnext : arrayItems item fuel ds = some (vs, rest)) :
    arrayItems item (fuel + 1) cs = some (v :: vs, rest) := by
  unfold arrayItems
  rw [hskip, Option.bind_eq_bind, Option.bind_some]
  split
  · exact absurd rfl (hopen _ rfl)
  · have hcomma : skipBlank ((',' :: ds).length + 1) (',' :: ds) = some (',' :: ds) := rfl
    simp only [hitem, Option.bind_eq_bind, Option.bind_some, hcomma, hnext]
    rfl

theorem open_renderText {s : String} : ∀ c ∈ ((renderText s).toList ++ rest).head?, c ≠ ']' := by
  intro c hc
  obtain rfl | rfl := head_renderText c hc <;> decide

theorem skipBlank_renderText {s : String} :
    skipBlank fuel ((renderText s).toList ++ rest) = some ((renderText s).toList ++ rest) := by
  refine skipBlank_eq_self fun c hc => ?_
  obtain rfl | rfl := head_renderText c hc <;> decide

theorem skipBlank_itemLines {x : String} {xs : List String} :
    skipBlank (('\n' :: itemLines (x :: xs) ++ rest).length + 1) ('\n' :: itemLines (x :: xs) ++ rest) =
      some ((renderText x).toList ++ (',' :: '\n' :: itemLines xs ++ rest)) := by
  have hlines : '\n' :: itemLines (x :: xs) ++ rest =
      '\n' :: ' ' :: ' ' :: ' ' :: ' ' :: ((renderText x).toList ++ (',' :: '\n' :: itemLines xs ++ rest)) := by
    simp [itemLines]
  rw [hlines, skipBlank_cons (.inr rfl), skipBlank_cons (.inl rfl), skipBlank_cons (.inl rfl),
    skipBlank_cons (.inl rfl), skipBlank_cons (.inl rfl), skipBlank_renderText]

theorem arrayItems_itemLines {xs : List String} (hfuel : xs.length < fuel) :
    arrayItems (value levels) fuel ('\n' :: itemLines xs ++ ']' :: rest) = some (xs.map .text, rest) := by
  induction xs generalizing fuel with
  | nil =>
    obtain ⟨n, rfl⟩ := Nat.exists_eq_succ_of_ne_zero (Nat.ne_zero_of_lt hfuel)
    exact arrayItems_close (skipBlank_cons (.inr rfl))
  | cons x xs ih =>
    obtain ⟨n, rfl⟩ := Nat.exists_eq_succ_of_ne_zero (Nat.ne_zero_of_lt hfuel)
    refine arrayItems_next skipBlank_itemLines open_renderText ?_ (ih (Nat.lt_of_succ_lt_succ hfuel))
    exact value_renderText (by rintro _ ⟨⟩; decide)

theorem length_le_itemLines (xs : List String) : xs.length ≤ (itemLines xs).length := by
  induction xs with
  | nil => exact Nat.zero_le _
  | cons x xs ih =>
    have hlines : itemLines (x :: xs) = "    ".toList ++ (renderText x).toList ++ [',', '\n'] ++ itemLines xs :=
      List.flatMap_cons
    rw [hlines, List.length_append, List.length_append, List.length_cons, List.length_cons]
    omega

theorem value_list (hitems : arrayItems (value levels) (cs.length + 1) cs = some (vs, rest)) :
    value (levels + 1) ('[' :: cs) = some (.list vs, rest) := by
  simp only [value, hitems]
  rfl

theorem value_renderList {xs : List String} :
    value (levels + 1) ((renderList xs).toList ++ rest) = some (.list (xs.map .text), rest) := by
  match xs with
  | [] => rfl
  | [x] =>
    have hchars : (renderList [x]).toList ++ rest = '[' :: ((renderText x).toList ++ ']' :: rest) := by
      unfold renderList
      simp only [String.toList_append, List.append_assoc]
      rfl
    rw [hchars]
    refine value_list (arrayItems_last skipBlank_renderText open_renderText ?_)
    exact value_renderText (by rintro _ ⟨⟩; decide)
  | x :: y :: xs =>
    have hle := length_le_itemLines (x :: y :: xs)
    rw [toList_renderList, List.append_assoc, List.cons_append]
    refine value_list (arrayItems_itemLines ?_)
    simp only [List.length_append, List.length_cons] at hle ⊢
    omega

/-! Tokens -/

theorem span_eq {p : Char → Bool} (hcs : ∀ c ∈ cs, p c = true) (hrest : ∀ c ∈ rest.head?, p c = false) :
    (cs ++ rest).span p = (cs, rest) := by
  have hnone : rest.takeWhile p = [] := by
    cases rest with
    | nil => rfl
    | cons c rest => exact List.takeWhile_cons_of_neg (by rw [hrest c rfl]; exact Bool.false_ne_true)
  have hall : rest.dropWhile p = rest := by
    cases rest with
    | nil => rfl
    | cons c rest => exact List.dropWhile_cons_of_neg (by rw [hrest c rfl]; exact Bool.false_ne_true)
  rw [List.span_eq_takeWhile_dropWhile, List.takeWhile_append_of_pos hcs, List.dropWhile_append_of_pos hcs, hnone,
    hall, List.append_nil]

theorem value_eq_token (h : ∀ c ∈ cs.head?, c.isAlphanum = true) : value levels cs = token cs := by
  rw [value_eq_scalar fun c hc => by constructor <;> (rintro rfl; exact absurd (h _ hc) (by decide))]
  unfold scalar
  split
  · exact absurd (h _ rfl) (by decide)
  · exact absurd (h _ rfl) (by decide)
  · rfl

theorem value_renderBool {b : Bool} (hrest : ∀ c ∈ rest.head?, isTokenChar c = false) :
    value levels ((renderBool b).toList ++ rest) = some (.bool b, rest) := by
  cases b with
  | false =>
    have hspan : ("false".toList ++ rest).span isTokenChar = ("false".toList, rest) :=
      span_eq (List.all_eq_true.mp (by decide)) hrest
    rw [renderBool, if_neg Bool.false_ne_true, value_eq_token (by rintro _ ⟨⟩; decide), token, hspan]
    rfl
  | true =>
    have hspan : ("true".toList ++ rest).span isTokenChar = ("true".toList, rest) :=
      span_eq (List.all_eq_true.mp (by decide)) hrest
    rw [renderBool, if_pos rfl, value_eq_token (by rintro _ ⟨⟩; decide), token, hspan]
    rfl

/-! Numbers -/

theorem isDigits_of_all (hne : cs ≠ []) (hcs : ∀ c ∈ cs, c.isDigit = true) : isDigits Char.isDigit cs = true := by
  induction cs with
  | nil => exact absurd rfl hne
  | cons c cs ih =>
    obtain ⟨hc, hcs⟩ := List.forall_mem_cons.mp hcs
    unfold isDigits
    split
    · next heq => cases heq
    · next heq =>
      cases heq
      exact hc
    · next heq =>
      cases heq
      exact absurd (hcs '_' List.mem_cons_self) (by decide)
    · next hone _ heq =>
      cases heq
      rw [hc, ih hone hcs]
      rfl

theorem head?_toDigits (h : (Nat.toDigits 10 n).head? = some '0') : n = 0 := by
  induction n using Nat.strongRecOn with
  | ind n ih =>
    by_cases hlt : n < 10
    · have hdigit : ∀ m < 10, [Nat.digitChar m].head? = some '0' → m = 0 := by decide
      rw [Nat.toDigits_of_lt_base hlt] at h
      exact hdigit n hlt h
    · rw [Nat.toDigits_of_base_le (by decide) (Nat.le_of_not_lt hlt),
        List.head?_append_of_ne_nil _ Nat.toDigits_ne_nil] at h
      have hzero := ih (n / 10) (by omega) h
      omega

theorem leadingZero_toDigits : leadingZero (Nat.toDigits 10 n) = false := by
  unfold leadingZero
  split
  · next heq =>
    obtain rfl := head?_toDigits (congrArg List.head? heq)
    cases heq
  · rfl

theorem digitValue_eq {base : Nat} (hcs : ∀ c ∈ cs, c.isDigit = true) :
    digitValue base cs = Nat.ofDigitChars base cs 0 := by
  unfold digitValue Nat.ofDigitChars
  generalize 0 = start
  induction cs generalizing start with
  | nil => rfl
  | cons c cs ih =>
    obtain ⟨hc, hcs⟩ := List.forall_mem_cons.mp hcs
    have hdigit : Hexadecimal.digit? c = some (c.toNat - '0'.toNat) := if_pos hc
    rw [List.filterMap_cons_some hdigit, List.foldl_cons, List.foldl_cons, ih hcs]

theorem isDigit_toDigits : ∀ c ∈ Nat.toDigits 10 n, c.isDigit = true :=
  fun _ => Nat.isDigit_of_mem_toDigits (by decide) (by decide)

theorem unsigned_eq_self (hcs : ∀ c ∈ cs, c.isDigit = true) : unsigned cs = (false, cs) := by
  unfold unsigned
  split
  · exact absurd (hcs _ List.mem_cons_self) (by decide)
  · exact absurd (hcs _ List.mem_cons_self) (by decide)
  · rfl

theorem integer?_toDigits (hn : n ≤ 9223372036854775807) : integer? (Nat.toDigits 10 n) = some (n : Int) := by
  have hdigits : ∀ c ∈ Nat.toDigits 10 n, c.isDigit = true := isDigit_toDigits
  have hvalue : digitValue 10 (Nat.toDigits 10 n) = n := by
    rw [digitValue_eq hdigits, Nat.ofDigitChars_toDigits (by decide) (by decide)]
  have hrange : inRange (n : Int) = some (n : Int) := if_pos (by omega)
  unfold integer?
  dsimp only
  split
  · next heq => exact absurd (hdigits 'x' (heq ▸ by simp)) (by decide)
  · next heq => exact absurd (hdigits 'o' (heq ▸ by simp)) (by decide)
  · next heq => exact absurd (hdigits 'b' (heq ▸ by simp)) (by decide)
  · rw [unsigned_eq_self hdigits, isDigits_of_all Nat.toDigits_ne_nil hdigits, leadingZero_toDigits, hvalue]
    exact hrange

theorem value_number (hn : n ≤ 9223372036854775807) (hrest : ∀ c ∈ rest.head?, isTokenChar c = false) :
    value levels ((toString n).toList ++ rest) = some (.int n, rest) := by
  have hdigits : ∀ c ∈ Nat.toDigits 10 n, c.isDigit = true := isDigit_toDigits
  have halphanum : ∀ c ∈ Nat.toDigits 10 n, c.isAlphanum = true := fun c hc => by
    rw [Char.isAlphanum, hdigits c hc, Bool.or_true]
  have hspan : (Nat.toDigits 10 n ++ rest).span isTokenChar = (Nat.toDigits 10 n, rest) :=
    span_eq (fun c hc => by simp [isTokenChar, halphanum c hc]) hrest
  have htrue : (Nat.toDigits 10 n == "true".toList) = false := by
    refine beq_eq_false_iff_ne.mpr fun heq => ?_
    exact absurd (hdigits 't' (heq ▸ by decide)) (by decide)
  have hfalse : (Nat.toDigits 10 n == "false".toList) = false := by
    refine beq_eq_false_iff_ne.mpr fun heq => ?_
    exact absurd (hdigits 'f' (heq ▸ by decide)) (by decide)
  have hchars : (toString n).toList = Nat.toDigits 10 n := Nat.toList_repr
  rw [hchars, value_eq_token]
  · unfold token
    rw [hspan]
    simp only [htrue, hfalse, integer?_toDigits hn]
    rfl
  · intro c hc
    rw [List.head?_append_of_ne_nil _ Nat.toDigits_ne_nil] at hc
    exact halphanum c (List.mem_of_head? hc)

end TypeCatalog.Toml
