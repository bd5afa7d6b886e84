import TypeCatalog.Span

namespace TypeCatalog

/-- What a syntax node says of itself. `index` is its place in pre-order and tells nodes apart; `text`
and `span` are the source it covers; `start` is its first byte. Tokens without a grammar name of
their own are not `named`. -/
structure NodeInfo where
  index : Nat
  kind : String
  field : Option String
  named : Bool
  hasError : Bool
  missing : Bool
  start : Nat
  text : String
  span : Span
  deriving DecidableEq, Repr

inductive Node where
  | mk (info : NodeInfo) (children : List Node)

namespace Node

def info : Node → NodeInfo
  | mk i _ => i

def children : Node → List Node
  | mk _ cs => cs

def kind (n : Node) : String := n.info.kind
def text (n : Node) : String := n.info.text
def span (n : Node) : Span := n.info.span

/-- Error nodes, missing tokens and every node above one. -/
def isBroken (n : Node) : Bool :=
  n.kind == "ERROR" || n.info.missing || n.info.hasError

end Node

/-- A node together with the nodes above it, the nearest first. -/
structure Cursor where
  node : Node
  ancestors : List Node

namespace Cursor

def kind (c : Cursor) : String := c.node.kind
def text (c : Cursor) : String := c.node.text
def span (c : Cursor) : Span := c.node.span
def index (c : Cursor) : Nat := c.node.info.index

def child (c : Cursor) (n : Node) : Cursor := ⟨n, c.node :: c.ancestors⟩

def children (c : Cursor) : List Cursor := c.node.children.map c.child

def namedChildren (c : Cursor) : List Cursor := c.children.filter (·.node.info.named)

def field? (c : Cursor) (f : String) : Option Cursor :=
  c.children.find? (·.node.info.field == some f)

/-- The first child, tokens included, of one of these kinds. -/
def childOf? (c : Cursor) (kinds : List String) : Option Cursor :=
  c.children.find? fun x => kinds.contains x.kind

def hasChildOf (c : Cursor) (kind : String) : Bool := c.children.any (·.kind == kind)

/-- The cursors along a path of nodes. -/
def along : List Node → List Cursor
  | [] => []
  | n :: above => ⟨n, above⟩ :: along above

/-- The cursors above `c`, the nearest first. -/
def enclosing (c : Cursor) : List Cursor := along c.ancestors

theorem sizeOf_node_of_mem_children {c d : Cursor} (h : d ∈ c.children) :
    sizeOf d.node < sizeOf c.node := by
  obtain ⟨n, hn, rfl⟩ := List.mem_map.1 h
  rcases c with ⟨⟨i, cs⟩, above⟩
  have := List.sizeOf_lt_of_mem hn
  simp only [child, Node.children, Node.mk.sizeOf_spec] at this ⊢
  omega

theorem sizeOf_node_of_field? {c d : Cursor} {f : String} (h : c.field? f = some d) :
    sizeOf d.node < sizeOf c.node :=
  sizeOf_node_of_mem_children (List.mem_of_find?_eq_some h)

end Cursor

mutual

/-- The node and its named descendants, each before its own descendants. -/
def Node.preorder (above : List Node) : Node → List Cursor
  | .mk i cs => ⟨.mk i cs, above⟩ :: Node.preorderAll (.mk i cs :: above) cs

def Node.preorderAll (above : List Node) : List Node → List Cursor
  | [] => []
  | n :: ns => (if n.info.named then Node.preorder above n else []) ++ Node.preorderAll above ns

end

def Cursor.preorder (c : Cursor) : List Cursor := c.node.preorder c.ancestors

mutual

/-- The node, or else the first below it among named nodes, that has the property `p`. -/
def Node.findDescendant (p : Cursor → Bool) (above : List Node) : Node → Option Cursor
  | .mk i cs =>
    if p ⟨.mk i cs, above⟩ then some ⟨.mk i cs, above⟩ else Node.findAmong p (.mk i cs :: above) cs

def Node.findAmong (p : Cursor → Bool) (above : List Node) : List Node → Option Cursor
  | [] => none
  | n :: ns =>
    match if n.info.named then Node.findDescendant p above n else none with
    | some found => some found
    | none => Node.findAmong p above ns

end

def Cursor.findDescendant (p : Cursor → Bool) (c : Cursor) : Option Cursor :=
  c.node.findDescendant p c.ancestors

end TypeCatalog
