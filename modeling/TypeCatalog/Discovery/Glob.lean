namespace TypeCatalog

/-- A piece of a wildcard pattern over paths. -/
inductive GlobPiece where
  | literal (c : Char)
  /-- One byte that is no slash: `?`. -/
  | anyByte
  /-- Bytes without a slash: `*`. -/
  | anyName
  /-- Any directories before a name: `**` at the start. -/
  | anyDirectories
  /-- Everything below a directory: `**` after a slash, at the end. -/
  | anythingBelow
  /-- A slash, or any directories between two slashes: `**` between slashes. -/
  | anyBetween
  | oneOf (negated : Bool) (ranges : List (Char × Char))
  | branches (alternatives : List (List GlobPiece))

abbrev Glob := List GlobPiece

namespace Glob

/-! Reading -/

/-- A group of alternatives that is still open: the pieces before it and its finished alternatives,
both latest first. -/
structure Group where
  before : List GlobPiece
  finished : List Glob

/-- Reads the ranges of a class. A range is widened to the character after a dash; `none` if it would
be empty. -/
def ranges (last : Char × Char) : List Char → Option (List (Char × Char))
  | [] => some [last]
  | ['-'] => some [last, ('-', '-')]
  | '-' :: c :: cs => if c < last.1 then none else ranges (last.1, c) cs
  | c :: cs => (ranges (c, c) cs).map (last :: ·)

/-- What stands after an opening bracket: whether the class is negated, its characters, and what
follows the closing bracket if there is one. The first character is never the closing one. -/
def classParts (cs : List Char) : Bool × List Char × Option (List Char) :=
  let (negated, body) := match cs with
    | '!' :: r | '^' :: r => (true, r)
    | _ => (false, cs)
  match body with
  | [] => (negated, [], none)
  | c :: r =>
    match r.dropWhile (· != ']') with
    | [] => (negated, c :: r, none)
    | _ :: after => (negated, c :: r.takeWhile (· != ']'), some after)

theorem length_of_classParts {cs : List Char} {negated : Bool} {body after : List Char}
    (h : classParts cs = (negated, body, some after)) : after.length < cs.length := by
  have key : ∀ (b : List Char) (c : Char) (r : List Char), b = c :: r →
      ∀ d, r.dropWhile (· != ']') = d :: after → after.length < b.length := by
    intro b c r hb d hd
    have := (List.dropWhile_sublist (l := r) (· != ']')).length_le
    simp [hd] at this
    simp [hb]
    omega
  unfold classParts at h
  split at h
  rename_i negated' body' hsplit
  have hbody : body'.length ≤ cs.length := by
    split at hsplit <;> simp_all
  split at h
  · simp at h
  · rename_i c r
    split at h
    · simp at h
    · rename_i d after' hd
      simp at h
      obtain ⟨-, -, rfl⟩ := h
      have := key _ c r rfl d hd
      omega

def rangesOf : List Char → Option (List (Char × Char))
  | [] => some []
  | c :: cs => ranges (c, c) cs

/-- What two stars mean after the character `prev` and the pieces `current`, before `rest`: the new
pieces, and whether a slash after the stars belongs to them. -/
def doubleStar (prev : Option Char) (current : List GlobPiece) (nested : Bool) (rest : List Char) :
    List GlobPiece × Bool :=
  let plain := (.anyName :: .anyName :: current, false)
  match current with
  | [] =>
    match rest with
    | [] => ([.anyDirectories], false)
    | c :: _ => if c == '/' then ([.anyDirectories], true) else plain
  | piece :: pieces =>
    if prev != some '/' && (!nested || (prev != some ',' && prev != some '\x7b')) then plain
    else
      let merged := fun (p : GlobPiece) => match piece with
        | .anyDirectories => .anyDirectories :: pieces
        | .anythingBelow => .anythingBelow :: pieces
        | _ => p :: pieces
      match rest with
      | [] => (merged .anythingBelow, false)
      | c :: _ =>
        if nested && (c == ',' || c == '\x7d') then (merged .anythingBelow, false)
        else if c == '/' then (merged .anyBetween, true)
        else plain

/-- Reads a pattern. `prev` is the last character read, `current` the pieces of the innermost open
alternative, latest first, and `outer` the open groups, innermost first. `classes` is cleared after a
bracket that is never closed; if `lenient` allows one, it and later ones stand for themselves. -/
def read (lenient : Bool) (classes : Bool) (prev : Option Char) (current : List GlobPiece)
    (outer : List Group) (cs : List Char) : Option Glob :=
  match cs with
  | [] => if outer.isEmpty then some current.reverse else none
  | '?' :: rest => read lenient classes (some '?') (.anyByte :: current) outer rest
  | '*' :: '*' :: rest =>
    match doubleStar prev current (!outer.isEmpty) rest with
    | (pieces, true) => read lenient classes (some '/') pieces outer (rest.drop 1)
    | (pieces, false) => read lenient classes (some '*') pieces outer rest
  | '*' :: rest => read lenient classes (some '*') (.anyName :: current) outer rest
  | '[' :: rest =>
    if classes then
      match h : classParts rest with
      | (negated, body, some after) =>
        have := length_of_classParts h
        match rangesOf body with
        | some rs => read lenient classes (some ']') (.oneOf negated rs :: current) outer after
        | none => none
      | (_, body, none) =>
        if lenient && (rangesOf body).isSome then
          read lenient false (some '[') (.literal '[' :: current) outer rest
        else none
    else read lenient classes (some '[') (.literal '[' :: current) outer rest
  | '\x7b' :: rest => read lenient classes (some '\x7b') [] (⟨current, []⟩ :: outer) rest
  | '\x7d' :: rest =>
    match outer with
    | [] => none
    | g :: gs =>
      let group := .branches (current.reverse :: g.finished).reverse
      read lenient classes (some '\x7d') (group :: g.before) gs rest
  | ',' :: rest =>
    match outer with
    | [] => read lenient classes (some ',') (.literal ',' :: current) outer rest
    | g :: gs =>
      read lenient classes (some ',') [] (⟨g.before, current.reverse :: g.finished⟩ :: gs) rest
  | '\\' :: c :: rest => read lenient classes (some c) (.literal c :: current) outer rest
  | ['\\'] => none
  | c :: rest => read lenient classes (some c) (.literal c :: current) outer rest
termination_by cs.length
decreasing_by all_goals (simp only [List.length_cons, List.length_drop]; omega)

def parse? (lenient : Bool) (s : List Char) : Option Glob := read lenient true none [] [] s

/-! Matching -/

abbrev Bytes := List UInt8

def slash : UInt8 := 47

/-- Every way to drop bytes from the front. -/
def suffixes : Bytes → List Bytes
  | [] => [[]]
  | b :: bs => (b :: bs) :: suffixes bs

/-- What follows the slashes, one rest for each. -/
def afterSlashes : Bytes → List Bytes
  | [] => []
  | b :: bs => if b == slash then bs :: afterSlashes bs else afterSlashes bs

/-- Every way to drop bytes of the first name from the front. -/
def withinName : Bytes → List Bytes
  | [] => [[]]
  | b :: bs => if b == slash then [b :: bs] else (b :: bs) :: withinName bs

/-- The bytes that a range of characters covers: those between the last byte of the first character
and the first byte of the last, and the other bytes of both. -/
def coversByte (b : UInt8) (r : Char × Char) : Bool :=
  let low := String.utf8EncodeChar r.1
  let high := String.utf8EncodeChar r.2
  low.contains b || high.contains b
    || (r.1 != r.2 && low.getLastD 0 ≤ b && b ≤ high.headD 0)

mutual

/-- Whether a piece can never take anything, being a group of empty alternatives. -/
def isVoidPiece : GlobPiece → Bool
  | .branches gs => areVoid gs
  | _ => false

def isVoid : Glob → Bool
  | [] => true
  | p :: ps => isVoidPiece p && isVoid ps

def areVoid : List Glob → Bool
  | [] => true
  | g :: gs => isVoid g && areVoid gs

end

mutual

/-- What can be left of a path after a piece has taken its share. Empty alternatives do not count
unless there are no others. -/
def leftPiece : GlobPiece → Bytes → List Bytes
  | .literal c, s =>
    let bytes := String.utf8EncodeChar c
    if bytes.isPrefixOf s then [s.drop bytes.length] else []
  | .anyByte, s =>
    match s with
    | b :: bs => if b == slash then [] else [bs]
    | [] => []
  | .anyName, s => withinName s
  | .anyDirectories, s => s :: afterSlashes s
  | .anythingBelow, s =>
    match s with
    | b :: bs => if b == slash then suffixes bs else []
    | [] => []
  | .anyBetween, s =>
    match s with
    | b :: bs => if b == slash then bs :: afterSlashes bs else []
    | [] => []
  | .oneOf negated rs, s =>
    match s with
    | b :: bs => if rs.any (coversByte b) != negated then [bs] else []
    | [] => []
  | .branches gs, s => if areVoid gs then [s] else leftAny gs s

/-- What can be left of one of several rests after the whole pattern. -/
def left : Glob → List Bytes → List Bytes
  | [], rests => rests
  | p :: ps, rests => left ps (rests.flatMap (leftPiece p)).eraseDups

def leftAny : List Glob → Bytes → List Bytes
  | [], _ => []
  | g :: gs, s => (if isVoid g then [] else left g [s]) ++ leftAny gs s

end

/-- Whether the pattern takes a whole path. Two stars alone take everything. -/
def accepts (g : Glob) (path : String) : Bool :=
  match g with
  | [.anyDirectories] => true
  | _ => (left g [path.toUTF8.toList]).contains []

end Glob

end TypeCatalog
