import Mathlib
import TypeCatalog.Proofs.Positions

namespace TypeCatalog

/-- A point between the bytes of a text: the line breaks before it and the bytes since the last one. -/
structure Point where
  line : Nat
  column : Nat
  deriving DecidableEq

namespace Point

variable {p q : Point}

instance : Preorder Point := Preorder.lift fun p => toLex (p.line, p.column)

theorem le_iff : p ≤ q ↔ p.line < q.line ∨ p.line = q.line ∧ p.column ≤ q.column := Prod.Lex.toLex_le_toLex

def after (text : List UInt8) : Point := ⟨text.count 10, (text.rtakeWhile (· != 10)).length⟩

theorem after_concat (text : List UInt8) (b : UInt8) :
    after (text ++ [b]) =
      if b = 10 then ⟨(after text).line + 1, 0⟩ else ⟨(after text).line, (after text).column + 1⟩ := by
  unfold after
  rw [List.count_append, List.rtakeWhile_concat]
  by_cases hb : b = 10
  · simp [hb]
  · simp [hb]

theorem after_le_append (text more : List UInt8) : after text ≤ after (text ++ more) := by
  induction more using List.reverseRecOn with
  | nil => simp
  | append_singleton more b ih =>
    apply ih.trans
    rw [← List.append_assoc, after_concat, le_iff]
    by_cases hb : b = 10
    · simp [hb]
    · simp [hb]

theorem after_take_le (bytes : List UInt8) {m n : Nat} (h : m ≤ n) :
    after (bytes.take m) ≤ after (bytes.take n) := by
  obtain ⟨more, hmore⟩ := List.take_prefix_take_left (l := bytes) h
  rw [← hmore]
  exact after_le_append _ _

-- The counters of `advance` are those of the text that is already behind it.
theorem advance_after (text bytes : List UInt8) (n : Nat) :
    TreeEntry.advance (after text).line (after text).column n bytes =
      ((after (text ++ bytes.take n)).line, (after (text ++ bytes.take n)).column) := by
  induction n generalizing text bytes with
  | zero => simp [TreeEntry.advance]
  | succ n ih =>
    cases bytes with
    | nil => simp [TreeEntry.advance]
    | cons b bytes =>
      have h := ih (text ++ [b]) bytes
      rw [List.append_assoc, List.singleton_append, after_concat] at h
      unfold TreeEntry.advance
      rw [List.take_succ_cons, ← h]
      by_cases hb : b = 10
      · simp [hb]
      · simp [hb]

theorem advance_zero (bytes : List UInt8) (n : Nat) :
    TreeEntry.advance 0 0 n bytes = ((after (bytes.take n)).line, (after (bytes.take n)).column) :=
  advance_after [] bytes n

structure Fits (p : Point) : Prop where
  line : p.line < UInt32.size
  column : p.column < UInt16.size

def cut (p : Point) : Point := ⟨p.line % UInt32.size, p.column % UInt16.size⟩

theorem fits_cut (p : Point) : p.cut.Fits := ⟨Nat.mod_lt _ (by decide), Nat.mod_lt _ (by decide)⟩

theorem cut_eq_self_iff : p.cut = p ↔ p.Fits := by
  constructor
  · intro h
    rw [← h]
    exact fits_cut p
  · intro h
    unfold cut
    rw [Nat.mod_eq_of_lt h.line, Nat.mod_eq_of_lt h.column]

/-- The point as people count, from line 1 and column 1. -/
def counted (p : Point) : Point := ⟨p.line + 1, p.column + 1⟩

theorem Fits.of_counted (h : p.counted.Fits) : p.Fits :=
  ⟨Nat.lt_of_succ_lt h.line, Nat.lt_of_succ_lt h.column⟩

def text (p : Point) : String := toString p.line ++ ":" ++ toString p.column

theorem toList_text (p : Point) : p.text.toList = p.line.repr.toList ++ ':' :: p.column.repr.toList := by
  simp [text]

theorem ne_colon_of_mem_repr (n : Nat) : ∀ c ∈ n.repr.toList, (c != ':') = true := by
  intro c hc
  rw [Nat.toList_repr] at hc
  have := Nat.isDigit_of_mem_toDigits (by decide) (by decide) hc
  rw [bne_iff_ne]
  rintro rfl
  contradiction

theorem text_inj : p.text = q.text ↔ p = q := by
  constructor
  · intro h
    have hchars := congrArg String.toList h
    rw [toList_text, toList_text] at hchars
    -- The line ends at the first colon.
    have hline := congrArg (List.takeWhile (· != ':')) hchars
    have hcolumn := congrArg (List.dropWhile (· != ':')) hchars
    simp only [List.takeWhile_append_of_pos (ne_colon_of_mem_repr _), List.takeWhile_cons, bne_self_eq_false,
      Bool.false_eq_true, if_false, List.append_nil, String.toList_inj, Nat.repr_inj] at hline
    simp only [List.dropWhile_append_of_pos (ne_colon_of_mem_repr _), List.dropWhile_cons, bne_self_eq_false,
      Bool.false_eq_true, if_false, List.cons.injEq, true_and, String.toList_inj, Nat.repr_inj] at hcolumn
    cases p
    cases q
    rw [Point.mk.injEq]
    exact ⟨hline, hcolumn⟩
  · rintro rfl
    rfl

end Point

namespace Span

variable {s : Span} {p q : Point}

def first (s : Span) : Point := ⟨s.startLine.toNat, s.startColumn.toNat⟩

def last (s : Span) : Point := ⟨s.endLine.toNat, s.endColumn.toNat⟩

def ofPoints (p q : Point) : Span := between p.line p.column q.line q.column

theorem first_ofPoints (p q : Point) : (ofPoints p q).first = p.cut := by
  simp [first, ofPoints, between, Point.cut]

theorem last_ofPoints (p q : Point) : (ofPoints p q).last = q.cut := by
  simp [last, ofPoints, between, Point.cut]

theorem contains_iff {line : UInt32} {column : UInt16} :
    s.contains line column = true ↔
      s.first ≤ ⟨line.toNat, column.toNat⟩ ∧ (⟨line.toNat, column.toNat⟩ : Point) ≤ s.last := by
  simp only [contains, first, last, Point.le_iff, Bool.and_eq_true, decide_eq_true_eq, Bool.not_eq_true',
    Bool.and_eq_false_iff, beq_eq_false_iff_ne, decide_eq_false_iff_not, ne_eq, UInt32.le_iff_toNat_le,
    UInt16.lt_iff_toNat_lt, ← UInt32.toNat_inj]
  omega

/-- The point can be asked for and is inside. -/
def Covers (s : Span) (p : Point) : Prop :=
  ∃ (line : UInt32) (column : UInt16), p = ⟨line.toNat, column.toNat⟩ ∧ s.contains line column = true

theorem covers_iff : s.Covers p ↔ p.Fits ∧ s.first ≤ p ∧ p ≤ s.last := by
  constructor
  · rintro ⟨line, column, rfl, h⟩
    exact ⟨⟨line.toNat_lt_size, column.toNat_lt_size⟩, contains_iff.mp h⟩
  · rintro ⟨hfits, h⟩
    have hp : p = ⟨(UInt32.ofNat p.line).toNat, (UInt16.ofNat p.column).toNat⟩ := by
      rw [UInt32.toNat_ofNat_of_lt' hfits.line, UInt16.toNat_ofNat_of_lt' hfits.column]
    refine ⟨.ofNat p.line, .ofNat p.column, hp, contains_iff.mpr ?_⟩
    rwa [← hp]

/-- The span runs forward and has both ends of a stretch inside. -/
structure Spans (s : Span) (p q : Point) : Prop where
  forward : s.first ≤ s.last
  covers_first : s.Covers p
  covers_last : s.Covers q

theorem spans_iff (h : p ≤ q) : (ofPoints p q).Spans p q ↔ p.Fits ∧ q.Fits := by
  constructor
  · intro hs
    exact ⟨(covers_iff.mp hs.covers_first).1, (covers_iff.mp hs.covers_last).1⟩
  · rintro ⟨hp, hq⟩
    have hfirst : (ofPoints p q).first = p := (first_ofPoints p q).trans (Point.cut_eq_self_iff.mpr hp)
    have hlast : (ofPoints p q).last = q := (last_ofPoints p q).trans (Point.cut_eq_self_iff.mpr hq)
    constructor
    · rwa [hfirst, hlast]
    · rw [covers_iff, hfirst, hlast]
      exact ⟨hp, le_rfl, h⟩
    · rw [covers_iff, hfirst, hlast]
      exact ⟨hq, h, le_rfl⟩

theorem text_eq (s : Span) : s.text = s.first.counted.cut.text := by
  simp [text, Point.text, first, Point.counted, Point.cut]

/-- The text names a point as people count, with no number lost when one is added. -/
structure Names (s : Span) (p : Point) : Prop where
  fits : s.first.counted.Fits
  text : s.text = p.counted.text

theorem names_iff : (ofPoints p q).Names p ↔ p.counted.Fits := by
  constructor
  · intro h
    have hcut : (ofPoints p q).first.counted.cut = p.counted := by
      rw [← Point.text_inj, ← text_eq]
      exact h.text
    rw [← hcut]
    exact Point.fits_cut _
  · intro h
    have hfirst : (ofPoints p q).first = p :=
      (first_ofPoints p q).trans (Point.cut_eq_self_iff.mpr h.of_counted)
    constructor
    · rwa [hfirst]
    · rw [text_eq, hfirst, Point.cut_eq_self_iff.mpr h]

end Span

namespace Node

variable {P : NodeInfo → Prop}

def Throughout (P : NodeInfo → Prop) (n : Node) : Prop := ∀ above, ∀ c ∈ n.cursors above, P c.node.info

theorem throughout_mk {i : NodeInfo} {cs : List Node} (hi : P i) (hcs : ∀ n ∈ cs, n.Throughout P) :
    (mk i cs).Throughout P := by
  intro above c hc
  unfold cursors at hc
  rcases List.mem_cons.mp hc with rfl | hc
  · exact hi
  · obtain ⟨n, hn, hc⟩ := mem_cursorsAll.mp hc
    exact hcs n hn _ c hc

end Node

namespace TreeEntry

theorem span_info (source : ByteArray) (bytes : List UInt8) (index : Nat) (e : TreeEntry) :
    (e.info source bytes index).span =
      Span.ofPoints (Point.after (bytes.take e.start)) (Point.after (bytes.take e.stop)) := by
  unfold info spanOf
  rw [Point.advance_zero, Point.advance_zero]
  rfl

def Tells (source : ByteArray) (bytes : List UInt8) (entries : List TreeEntry) (i : NodeInfo) : Prop :=
  ∃ e, entries[i.index]? = some e ∧ i = e.info source bytes i.index

/-- What `assemble` holds: the trees that wait for their parent, and the last one built. -/
structure Grown (P : NodeInfo → Prop) (s : Array (List Node) × Option Node) : Prop where
  waiting : ∀ (i : Nat) (ns : List Node), s.1[i]? = some ns → ∀ n ∈ ns, n.Throughout P
  last : ∀ n, s.2 = some n → n.Throughout P

variable {P : NodeInfo → Prop}

theorem grown_start (k : Nat) : Grown P (Array.replicate k [], none) := by
  constructor
  · intro i ns hns n hn
    rw [Array.getElem?_replicate] at hns
    split at hns
    · cases hns
      contradiction
    · contradiction
  · simp

theorem Grown.node {below : Array (List Node)} {root : Option Node} (h : Grown P (below, root)) {i : NodeInfo}
    (hi : P i) (k : Nat) : (Node.mk i (below.getD k [])).Throughout P := by
  apply Node.throughout_mk hi
  intro n hn
  rw [Array.getD_eq_getD_getElem?] at hn
  cases hns : below[k]? with
  | none => simp [hns] at hn
  | some ns =>
    rw [hns] at hn
    exact h.waiting k ns hns n hn

theorem Grown.modify {below : Array (List Node)} {root : Option Node} (h : Grown P (below, root)) {n : Node}
    (hn : n.Throughout P) (k : Nat) : Grown P (below.modify k (n :: ·), some n) := by
  constructor
  · intro i ns hns m hm
    rw [Array.getElem?_modify] at hns
    split at hns
    · obtain ⟨old, hold, rfl⟩ := Option.map_eq_some_iff.mp hns
      rcases List.mem_cons.mp hm with rfl | hm
      · exact hn
      · exact h.waiting i old hold m hm
    · exact h.waiting i ns hns m hm
  · intro m hm
    cases hm
    exact hn

theorem assemble_tells {source : ByteArray} {bytes : List UInt8} {entries : List TreeEntry} {root : Node}
    (h : assemble source bytes entries = some root) : root.Throughout (Tells source bytes entries) := by
  unfold assemble at h
  refine Grown.last ?_ root h
  apply List.foldrRecOn
  · exact grown_start _
  · rintro ⟨below, last⟩ hgrown ⟨e, i⟩ hmem
    have he : entries[i]? = some e := List.mk_mem_zipIdx_iff_getElem?.mp hmem
    have hnode := hgrown.node (i := e.info source bytes i) ⟨e, he, rfl⟩ i
    dsimp only
    split
    · exact hgrown.modify hnode _
    · exact ⟨hgrown.waiting, fun n hn => by cases hn; exact hnode⟩

end TreeEntry

namespace SourceUnit

variable {path : Path} {source : String} {entries : List TreeEntry} {u : SourceUnit} {c : Cursor}

theorem ofEntries?_eq_some (h : ofEntries? path source entries = some u) :
    u.source = source ∧ TreeEntry.assemble source.toUTF8 source.toUTF8.toList entries = some u.root := by
  unfold ofEntries? at h
  obtain ⟨root, hroot, hu⟩ := Option.bind_eq_some_iff.mp h
  cases hu
  exact ⟨rfl, hroot⟩

def pointAt (u : SourceUnit) (offset : Nat) : Point := Point.after (u.source.toUTF8.toList.take offset)

theorem pointAt_eq (h : ofEntries? path source entries = some u) (offset : Nat) :
    u.pointAt offset = Point.after (source.toUTF8.toList.take offset) := by
  unfold pointAt
  rw [(ofEntries?_eq_some h).1]

theorem entry_of_within (h : ofEntries? path source entries = some u) (hc : Cursor.Within u.top c) :
    ∃ e, entries[c.index]? = some e ∧ c.span = Span.ofPoints (u.pointAt e.start) (u.pointAt e.stop) := by
  obtain ⟨-, hroot⟩ := ofEntries?_eq_some h
  obtain ⟨e, he, hinfo⟩ := TreeEntry.assemble_tells hroot [] c (Node.mem_cursors hc)
  refine ⟨e, he, ?_⟩
  rw [pointAt_eq h, pointAt_eq h, ← TreeEntry.span_info source.toUTF8 _ c.index]
  exact congrArg NodeInfo.span hinfo

/-- A span has both ends of its node inside exactly when they fit its numbers, and its text names the start exactly
when that still fits as people count. -/
theorem spans_faithful (h : ofEntries? path source entries = some u) (hc : Cursor.Within u.top c) :
    ∃ e, entries[c.index]? = some e ∧
      (e.start ≤ e.stop → (c.span.Spans (u.pointAt e.start) (u.pointAt e.stop) ↔
        (u.pointAt e.start).Fits ∧ (u.pointAt e.stop).Fits)) ∧
      (c.span.Names (u.pointAt e.start) ↔ (u.pointAt e.start).counted.Fits) := by
  obtain ⟨e, he, hspan⟩ := entry_of_within h hc
  rw [hspan]
  refine ⟨e, he, ?_, Span.names_iff⟩
  intro hle
  exact Span.spans_iff (Point.after_take_le _ hle)

end SourceUnit

namespace Sample

def accented : String := "class\n/*Ü*/ B\x7b\x7d"

def accentedEntries : List TreeEntry :=
  [⟨none, "compilation_unit", 0, 16, none, true, false, false⟩,
   ⟨some 0, "class_declaration", 0, 16, none, true, false, false⟩,
   ⟨some 1, "class", 0, 5, none, false, false, false⟩,
   ⟨some 1, "comment", 6, 12, none, true, false, false⟩,
   ⟨some 1, "identifier", 13, 14, some "name", true, false, false⟩,
   ⟨some 1, "declaration_list", 14, 16, some "body", true, false, false⟩,
   ⟨some 5, "\x7b", 14, 15, none, false, false, false⟩,
   ⟨some 5, "\x7d", 15, 16, none, false, false, false⟩]

theorem accented_name : ((SourceUnit.ofEntries? ⟨"B.cs"⟩ accented accentedEntries).bind fun u =>
    (u.findAll "identifier" (some "B")).head?.map (·.index)) = some 4 := by
  decide +kernel

theorem spans_faithful_accented :
    ∃ u c, SourceUnit.ofEntries? ⟨"B.cs"⟩ accented accentedEntries = some u ∧ u.top.Within c ∧ c.text = "B" ∧
      c.span.Spans ⟨1, 7⟩ ⟨1, 8⟩ ∧ c.span.Names ⟨1, 7⟩ := by
  obtain ⟨u, hu, hname⟩ := Option.bind_eq_some_iff.mp accented_name
  obtain ⟨c, hhead, hindex⟩ := Option.map_eq_some_iff.mp hname
  obtain ⟨hmem, hmatch⟩ := List.mem_filter.mp (List.mem_of_mem_head? hhead)
  have hc : u.top.Within c := (Node.preorder_within hmem).1
  obtain ⟨-, htext⟩ : c.kind = "identifier" ∧ "B" = c.text := by simpa using hmatch
  obtain ⟨e, he, hspans, hnames⟩ := SourceUnit.spans_faithful hu hc
  rw [hindex] at he
  cases he
  have hfirst : u.pointAt 13 = ⟨1, 7⟩ := (SourceUnit.pointAt_eq hu 13).trans (by decide +kernel)
  have hlast : u.pointAt 14 = ⟨1, 8⟩ := (SourceUnit.pointAt_eq hu 14).trans (by decide +kernel)
  rw [hfirst] at hspans hnames
  rw [hlast] at hspans
  refine ⟨u, c, hu, hc, htext.symm, (hspans (by decide)).mpr ?_, hnames.mpr ?_⟩
  · exact ⟨⟨by decide, by decide⟩, ⟨by decide, by decide⟩⟩
  · exact ⟨by decide, by decide⟩

end Sample

end TypeCatalog
