import TypeCatalog.Resolve.Analysis
import TypeCatalog.Resolve.Find

namespace TypeCatalog

/-- A descriptor tree with what every node names. -/
inductive Binding where
  | mk (resolved : Resolved) (rank : Nat) (children : List Binding)

namespace Chain

mutual

/-- Resolves what is below a descriptor that names `r`. Elements of a tuple are resolved already. -/
def bindTree (chain : Chain) (scope : Scope) (r : Resolved) : Descriptor → Act ResolveError Binding
  | .mk _ form rank _ as => do
    let ready := if form == .tuple then r.elements else []
    let children ← bindArguments chain scope ready as
    return .mk r rank children

def bindArguments (chain : Chain) (scope : Scope) (ready : List Resolved) :
    List Descriptor → Act ResolveError (List Binding)
  | [] => return []
  | d :: ds => do
    let r ← match ready with
      | r :: _ => pure r
      | [] => chain.resolve scope d
    let child ← bindTree chain scope r d
    let children ← bindArguments chain scope ready.tail ds
    return child :: children

end

end Chain

namespace Binding

mutual

/-- Commits a binding and adds its references, parents before children. -/
def stage (parent : Option ReferenceId) : Binding → Act ResolveError ReferenceId
  | .mk r rank children => do
    let named ← Act.perform .catalog r.commit
    let id ← Act.perform .catalog (·.addReference named rank parent)
    stageAll id children
    return id

def stageAll (parent : ReferenceId) : List Binding → Act ResolveError Unit
  | [] => return ()
  | b :: bs => do
    let _ ← stage (some parent) b
    stageAll parent bs

end

end Binding

namespace Analysis

def scope (a : Analysis) : Scope := ⟨a.container, a.fileContexts, a.allowCreate⟩

/-- Resolves the analysed type and adds its reference tree, which has the shape of the descriptor.
Nothing that needs no permission to create is added unless every node resolves. -/
def resolve (chain : Chain) (a : Analysis) : Act ResolveError ReferenceId := do
  let s ← get
  if !s.isDocumented a.container then
    throw (.invalidAnalysis ("container " ++ a.container.text ++ " is not a documented type"))
  if (s.sourceFile? a.file).isNone then
    throw (.invalidAnalysis ("source file " ++ a.file.text ++ " is not catalogued"))
  let r ← chain.resolve a.scope a.root
  let tree ← chain.bindTree a.scope r a.root
  tree.stage none

end Analysis

end TypeCatalog
