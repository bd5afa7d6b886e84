import TypeCatalog.Text.Emoji
import TypeCatalog.Text.Hidden
import TypeCatalog.Text.Ligature
import TypeCatalog.Text.Wide

namespace TypeCatalog.Text

/-- The columns that a character takes on a terminal when it stands alone. -/
def charWidth (c : Char) : Nat :=
  if c.toNat ≤ 0xa0 then 1
  else if c == '\u17d8' then 3
  else if c == '\u17a4' then 2
  else if isHidden c then 0
  else if wides.has c then 2
  else 1

/-- What stands to the right of a character and may change its columns. `joined` when a joiner comes in
between. -/
inductive Follow where
  | plain | lineFeed
  | emoji | joiner | keycap | tone
  | flag | flags | joinedFlag | evenFlags | oddFlags
  | tagEnd | tagLetters (n : Nat) | tagDigits (n : Nat)
  | alef | subscript
  | lamed (joined : Bool) | ya (joined : Bool) | vowelYa
  | tifinagh (joined : Bool) | linkedTifinagh
  | lastTone | turkicI (joined : Bool)
  | kiratE | kiratAi
  deriving DecidableEq

/-- A selector right after a character. -/
inductive Selector where
  | none | emoji | text | wide
  deriving DecidableEq

/-- The text to the right of a character, as far as it matters. -/
structure Right where
  follow : Follow
  selector : Selector
  deriving DecidableEq

namespace Follow

def isLigature : Follow → Bool
  | alef | subscript | lamed _ | ya _ | vowelYa | tifinagh _ | linkedTifinagh | lastTone | turkicI _ =>
    true
  | _ => false

/-- Whether ignored characters may stand before this part of a ligature. -/
def isOpen (f : Follow) : Bool := f.isLigature && f != alef

def join : Follow → Follow
  | lamed _ => lamed true
  | ya _ => ya true
  | tifinagh _ => tifinagh true
  | turkicI _ => turkicI true
  | f => f

/-- Whether an emoji that comes before belongs to the same picture. -/
def isJoined (f : Follow) : Bool := f == joiner || f == keycap

end Follow

namespace Right

def ofFollow (f : Follow) : Right := ⟨f, .none⟩

def empty : Right := ofFollow .plain

def withoutSelector (r : Right) : Right := if r.follow.isLigature then ofFollow r.follow else empty

end Right

def isJoiner (c : Char) : Bool := c == '\u200d'
def isBlackFlag (c : Char) : Bool := c.toNat == 0x1f3f4
def isTagLetter (c : Char) : Bool := 0xe0061 ≤ c.toNat && c.toNat ≤ 0xe007a
def isTagDigit (c : Char) : Bool := 0xe0030 ≤ c.toNat && c.toNat ≤ 0xe0039

/-- Columns and effect of a character that does not combine with what follows. -/
def alone (c : Char) : Int × Right :=
  let n := c.toNat
  if n = 0xfe0f then (0, ⟨.plain, .emoji⟩)
  else if n = 0xfe0e then (0, ⟨.plain, .text⟩)
  else if n = 0xfe01 then (0, ⟨.plain, .wide⟩)
  else if isFlagLetter c then (1, .ofFollow .flag)
  else if isSkinTone c then (2, .ofFollow .tone)
  else if emojis.has c then (2, .ofFollow .emoji)
  else if alefs.has c then (1, .ofFollow .alef)
  else if n = 0x5dc then (1, .ofFollow (.lamed false))
  else if subscripts.has c then (1, .ofFollow .subscript)
  else if n = 0x1a10 then (1, .ofFollow (.ya false))
  else if tifinagh.has c then (1, .ofFollow (.tifinagh false))
  else if lastTones.has c then (1, .ofFollow .lastTone)
  else if n = 0x10c03 then (1, .ofFollow (.turkicI false))
  else if n = 0x16d67 then (1, .ofFollow .kiratE)
  else if n = 0x16d68 then (1, .ofFollow .kiratAi)
  else (charWidth c, .empty)

/-- Columns and effect of an emoji part. -/
def joinPicture? (f : Follow) (c : Char) : Option (Int × Follow) :=
  match f with
  | .emoji => if isJoiner c then some (0, .joiner) else none
  | .tone =>
    if toneBases.has c then some (0, .emoji) else if isJoiner c then some (0, .joiner) else none
  | .flag => if isFlagLetter c then some (1, .flags) else none
  | .flags =>
    if isFlagLetter c then some (1, .flags) else if isJoiner c then some (0, .joiner) else none
  | .joinedFlag => if isFlagLetter c then some (-1, .evenFlags) else none
  | .oddFlags =>
    if isFlagLetter c then some (-1, .evenFlags) else if isJoiner c then some (0, .joiner) else none
  | .evenFlags =>
    if isFlagLetter c then some (3, .oddFlags) else if isJoiner c then some (0, .joiner) else none
  | .joiner =>
    if c == '\u20e3' then some (0, .keycap)
    else if isFlagLetter c then some (1, .joinedFlag)
    else if isSkinTone c then some (0, .tone)
    else if c.toNat = 0xe007f then some (0, .tagEnd)
    else if emojis.has c then some (0, .emoji)
    else none
  | .tagEnd =>
    if isTagLetter c then some (0, .tagLetters 1)
    else if isTagDigit c then some (0, .tagDigits 1)
    else none
  | .tagLetters n =>
    if isTagLetter c && n < 6 then some (0, .tagLetters (n + 1))
    else if isTagDigit c && n < 5 then some (0, .tagDigits 1)
    else if isBlackFlag c && 3 ≤ n then some (0, .emoji)
    else none
  | .tagDigits n =>
    if isTagDigit c && n < 3 then some (0, .tagDigits (n + 1))
    else if isBlackFlag c && n = 3 then some (0, .emoji)
    else none
  | _ => none

/-- Columns and effect of a letter that makes a ligature with what follows. -/
def joinLetter? (f : Follow) (c : Char) : Option (Int × Follow) :=
  let n := c.toNat
  match f with
  | .alef =>
    if lams.has c then some (0, .plain)
    else if isHidden c && !unjoining.has c then some (0, .alef)
    else none
  | .subscript => if n = 0x17d2 then some (-1, .plain) else none
  | .lamed true => if n = 0x5d0 then some (0, .plain) else none
  | .ya true => if n = 0x1a17 then some (0, .vowelYa) else none
  | .vowelYa => if n = 0x1a15 then some (0, .plain) else none
  | .tifinagh joined =>
    if n = 0x2d7f then some (1, .linkedTifinagh)
    else if joined && tifinagh.has c then some (0, .plain)
    else none
  | .linkedTifinagh => if tifinagh.has c then some (-1, .plain) else none
  | .lastTone => if firstTones.has c then some (0, .plain) else none
  | .turkicI true => if n = 0x10c32 then some (0, .plain) else none
  | .kiratE =>
    if n = 0x16d63 || n = 0x16d69 then some (0, .plain)
    else if n = 0x16d67 then some (0, .kiratAi)
    else if n = 0x16d68 then some (1, .kiratE)
    else none
  | .kiratAi => if n = 0x16d63 then some (0, .plain) else none
  | _ => none

/-- Columns and effect of a character before a text that is not plain and starts with no selector for
this character. -/
def combined (c : Char) (f : Follow) : Int × Right :=
  if f.isOpen && isJoiner c then (0, .ofFollow f.join)
  else if f.isOpen && selectors.has c then (0, .ofFollow f)
  else
    match (joinLetter? f c).or (joinPicture? f c) with
    | some (w, f) => (w, .ofFollow f)
    | none => alone c

/-- The columns that a character adds to the text on its right, and the text with it. -/
def place (c : Char) (r : Right) : Int × Right :=
  if r.selector = .emoji ∧ emojiBases.has c then
    (if r.follow.isJoined then 0 else 2, .ofFollow .emoji)
  else
    let r := if r.selector = .emoji then r.withoutSelector else r
    if c = '\n' then (1, .ofFollow .lineFeed)
    else if c = '\r' ∧ r.follow = .lineFeed then (0, .empty)
    else if c.toNat ≤ 0xa0 then (1, .empty)
    else if r = .empty then alone c
    else if c = '\ufe0f' then
      (0, ⟨if r.follow.isLigature || r.follow.isJoined then r.follow else .plain, .emoji⟩)
    else if c = '\ufe0e' then (0, ⟨if r.follow.isLigature then r.follow else .plain, .text⟩)
    else if r.selector = .text ∧ textBases.has c then (1, .empty)
    else if r.selector = .wide ∧ quotationMarks.has c then (2, .empty)
    else combined c r.follow

def columns (cs : List Char) : Int × Right :=
  cs.foldr (fun c (w, r) => ((place c r).1 + w, (place c r).2)) (0, .empty)

/-- The columns that a line takes. -/
def width (s : String) : Nat := (columns s.toList).1.toNat

end TypeCatalog.Text
