import TypeCatalog.Proofs.Interruption
import TypeCatalog.Proofs.Scoping

namespace TypeCatalog

open Act Session

theorem Descriptor.nodeCountAll_append (ds es : List Descriptor) :
    nodeCountAll (ds ++ es) = nodeCountAll ds + nodeCountAll es := by
  induction ds with
  | nil => rw [List.nil_append, nodeCountAll, Nat.zero_add]
  | cons d ds ih => rw [List.cons_append, nodeCountAll, nodeCountAll, ih, Nat.add_assoc]

/-! What a resolution leaves of references and usages -/

namespace Analysis

variable {u : SourceUnit} {owner : TypeId} {allowCreate : Bool} {c : Cursor} {s t : Session}

end Analysis

namespace Scan

/-! The places of the second pass and what becomes of them -/

/-- A use of a type in a declaration of a file, with the documented type of that declaration. -/
structure Occurrence where
  unit : SourceUnit
  owner : TypeId
  site : Site

/-- What becomes of an occurrence: its type is resolved and the usage recorded, or a failure is noted. -/
inductive Verdict where
  | used (root : Descriptor) (usage : Usage)
  | failed (failure : Failure)

namespace Verdict

def root? : Verdict → Option Descriptor
  | used root _ => some root
  | failed _ => none

def usage? : Verdict → Option Usage
  | used _ usage => some usage
  | failed _ => none

def failure? : Verdict → Option Failure
  | used _ _ => none
  | failed failure => some failure

end Verdict

/-- A failure as it is reported. -/
def failureOf (path : Path) (span : Option Span) (e : ScanError) : Failure :=
  { path, span, code := e.code, message := e.message }

variable {allowCreate : Bool} {s t v : Session} {p : Occurrence} {ps qs : List Occurrence} {d : Verdict}
  {ds es : List Verdict} {m : Summary} {fs : List Failure} {rows more : List Reference}

/-- One occurrence is seen to, from `s` to `t`. -/
inductive Visited (allowCreate : Bool) (s : Session) (p : Occurrence) : Verdict → Session → Prop
  | used {a : Analysis} {reference : ReferenceId} {id : UsageId} {v w t : Session}
      (ha : (Analysis.ofNode p.unit p.owner allowCreate p.site.type).outcome s = (.ok a, v))
      (hr : (a.resolve .standard).outcome v = (.ok reference, w))
      (hu : w.addUsage p.owner reference p.site.role p.site.member = .ok (id, t)) :
      Visited allowCreate s p (.used a.root ⟨id, p.owner, reference, p.site.role, p.site.member⟩) t
  | failed {e : ScanError} {t : Session}
      (he : (resolveSite allowCreate p.unit p.owner p.site.type).outcome s = (.error e, t))
      (hrecoverable : e.isRecoverable = true) :
      Visited allowCreate s p (.failed (failureOf p.unit.path (some p.site.type.span) e)) t

/-- The occurrences are seen to one after the other, with these verdicts. -/
inductive Visits (allowCreate : Bool) : Session → List Occurrence → List Verdict → Session → Prop
  | nil {s : Session} : Visits allowCreate s [] [] s
  | cons {s t v : Session} {p : Occurrence} {ps : List Occurrence} {d : Verdict} {ds : List Verdict}
      (first : Visited allowCreate s p d t) (rest : Visits allowCreate t ps ds v) :
      Visits allowCreate s (p :: ps) (d :: ds) v

theorem Visits.append (h : Visits allowCreate s ps ds t) (k : Visits allowCreate t qs es v) :
    Visits allowCreate s (ps ++ qs) (ds ++ es) v := by
  induction h with
  | nil => exact k
  | cons first _ ih => exact .cons first (ih k)

theorem Visits.length (h : Visits allowCreate s ps ds t) : ds.length = ps.length := by
  induction h with
  | nil => rfl
  | cons _ _ ih => rw [List.length_cons, List.length_cons, ih]

/-! The rows that the verdicts account for -/

/-- The rows of `t` are those of `s` and these: a usage for each one that the verdicts record, and for each the tree of
its descriptor, whose only row without a parent is the one that the usage names. -/
structure Books (s t : Session) (ds : List Verdict) (rows : List Reference) : Prop where
  usages : t.usages = s.usages ++ ds.filterMap Verdict.usage?
  references : t.references = s.references ++ rows
  nodes : rows.length = Descriptor.nodeCountAll (ds.filterMap Verdict.root?)
  roots : (rows.filter (·.parent.isNone)).map (·.id) = (ds.filterMap Verdict.usage?).map (·.reference)

theorem Books.trans (h : Books s t ds rows) (k : Books t v es more) : Books s v (ds ++ es) (rows ++ more) where
  usages := by rw [k.usages, h.usages, List.filterMap_append, List.append_assoc]
  references := by rw [k.references, h.references, List.append_assoc]
  nodes := by rw [List.length_append, h.nodes, k.nodes, List.filterMap_append, Descriptor.nodeCountAll_append]
  roots := by rw [List.filter_append, List.map_append, h.roots, k.roots, List.filterMap_append, List.map_append]

end Scan

/-! The summary -/

namespace Summary

open Scan

variable {m : Summary} {fs : List Failure} {d : Verdict}

/-- The summary with one more verdict. -/
def enter (m : Summary) : Verdict → Summary
  | .used _ _ => { m with usages := m.usages + 1 }
  | .failed failure =>
    { m with
      failureCount := m.failureCount + 1
      failures := if m.failures.length < maxFailures then m.failures ++ [failure] else m.failures }

/-- The summary counts these failures, and holds the first of them. -/
structure Lists (m : Summary) (fs : List Failure) : Prop where
  count : m.failureCount = fs.length
  first : m.failures = fs.take maxFailures

theorem Lists.concat (h : m.Lists fs) : (m.enter d).Lists (fs ++ d.failure?.toList) := by
  cases d with
  | used root usage =>
    rw [Verdict.failure?, Option.toList_none, List.append_nil]
    exact ⟨h.count, h.first⟩
  | failed failure =>
    refine ⟨?_, ?_⟩
    · rw [List.length_append, ← h.count]
      rfl
    · unfold Summary.enter
      dsimp only [Verdict.failure?, Option.toList]
      rw [h.first, List.length_take]
      split
      · next hlt =>
        rw [List.take_of_length_le (by omega), List.take_of_length_le (by simp; omega)]
      · next hge => rw [List.take_append_of_le_length (by omega)]

theorem Lists.append (h : m.Lists fs) (ds : List Verdict) : (ds.foldl enter m).Lists (fs ++ ds.filterMap Verdict.failure?) := by
  induction ds generalizing m fs with
  | nil => simpa using h
  | cons d ds ih =>
    have hfirst : (d :: ds).filterMap Verdict.failure? = d.failure?.toList ++ ds.filterMap Verdict.failure? := by
      cases d <;> rfl
    rw [hfirst, ← List.append_assoc]
    exact ih h.concat

end Summary

namespace Scan

variable {allowCreate : Bool} {s t o : Session} {u : SourceUnit} {owner : TypeId} {m m' : Summary} {ps : List Occurrence}

/-! The second pass -/

variable {inputs : List (Path × Except ScanError SourceUnit)} {fs : List Failure}

end Scan

namespace Sample

end Sample

end TypeCatalog
