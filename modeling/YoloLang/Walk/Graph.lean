import YoloLang.Walk.Observer

/-!
A walk kept as a graph. Every rule that is entered and every token that is taken is a node, hung
below the innermost rule that is open at that time.
-/

namespace YoloLang

inductive WalkNode where
  | rule (name : String)
  | token (kind : Kind) (text : String)
deriving DecidableEq, Repr

/-- Line ends and the end of the text are known by their kind alone. -/
def WalkNode.label : WalkNode → String
  | rule name => name
  | token .newline _ => Kind.newline.name
  | token .eof _ => Kind.eof.name
  | token kind text => s!"{kind.name}: {text}"

/-- An edge has the place of the child among the children of its parent. -/
structure WalkEdge where
  parent : Nat
  child : Nat
  position : Nat
deriving DecidableEq, Repr

namespace WalkEdge

/-- The two nodes of an edge. -/
def ends (e : WalkEdge) : Nat × Nat := (e.parent, e.child)

/-- Edges are ordered by their positions, and then by their children. -/
def isBefore (a b : WalkEdge) : Bool :=
  a.position < b.position || a.position == b.position && a.child ≤ b.child

end WalkEdge

/-- The open rules are kept with the innermost first. -/
structure WalkGraph where
  nodes : Array WalkNode
  links : Array WalkEdge
  unclosed : List Nat
deriving DecidableEq, Repr

namespace WalkGraph

def empty : WalkGraph := ⟨#[], #[], []⟩

def edges (g : WalkGraph) : Array (Nat × Nat) := g.links.map WalkEdge.ends

/-- The edges from a node. -/
def outgoing (g : WalkGraph) (n : Nat) : List WalkEdge :=
  (g.links.filter fun e => e.parent == n).toList

/-- A new node hangs below the innermost open rule, if there is one, behind what hangs there. -/
def add (g : WalkGraph) (node : WalkNode) : WalkGraph :=
  let index := g.nodes.size
  let links := match g.unclosed with
    | [] => g.links
    | parent :: _ => g.links.push ⟨parent, index, (g.outgoing parent).length⟩
  ⟨g.nodes.push node, links, g.unclosed⟩

def token (g : WalkGraph) (kind : Kind) (text : String) : WalkGraph := g.add (.token kind text)

def enter (g : WalkGraph) (rule : String) : WalkGraph :=
  { g.add (.rule rule) with unclosed := g.nodes.size :: g.unclosed }

/-- With no rule open there is nothing to leave. -/
def leave (g : WalkGraph) : WalkGraph := { g with unclosed := g.unclosed.tail }

def watch : Observer WalkGraph := fun g event =>
  match event with
  | .enter rule => g.enter rule.name
  | .leave => g.leave
  | .token t => g.token t.kind t.text

def root? (g : WalkGraph) : Option WalkNode := g.nodes[0]?

/-- In whatever order the edges are met, the children come in the order of their positions. -/
def inOrder (edges : List WalkEdge) : List Nat :=
  (edges.mergeSort WalkEdge.isBefore).map WalkEdge.child

def children (g : WalkGraph) (n : Nat) : List WalkNode :=
  (inOrder (g.outgoing n)).filterMap fun child => g.nodes[child]?

namespace Dot

/-- A label stands between quotes; its lines end in a mark that sets them to the left. -/
def escape (c : Char) : List Char :=
  if c = '"' ∨ c = '\\' then ['\\', c]
  else if c = '\n' then ['\\', 'l']
  else [c]

def quoted (label : String) : String :=
  "\"" ++ String.ofList (label.toList.flatMap escape) ++ "\""

def nodeLine (node : WalkNode) (i : Nat) : String :=
  s!"    {i} [ label = " ++ quoted node.label ++ " ]\n"

def edgeLine (edge : Nat × Nat) : String := s!"    {edge.1} -> {edge.2} [ ]\n"

end Dot

/-- The graph in the language of dot: its nodes, then its edges. -/
def dot (g : WalkGraph) : String :=
  "digraph \x7b\n" ++ String.join (g.nodes.toList.zipIdx.map fun (node, i) => Dot.nodeLine node i)
    ++ String.join (g.edges.toList.map Dot.edgeLine) ++ "\x7d\n"

end WalkGraph
end YoloLang
