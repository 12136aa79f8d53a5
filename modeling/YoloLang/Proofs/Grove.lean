import Mathlib.Data.List.Induction
import Mathlib.Data.List.Nodup
import YoloLang.Walk.Graph

/-!
Graphs made call by call. A grove is a row of trees as they are entered and left; the graph that is
told of one gets a node for each of its rules and tokens, in order, and an edge to each from the
rule it stands below. Main statement: in every graph that calls make, the positions of the edges
from a node are the numbers from zero on, so its children come in the order in which they were
added, however the edges are met.
-/

namespace YoloLang

namespace WalkGraph

/-! Calls. -/

/-- What a graph is told. -/
inductive Call where
  | enter (rule : String)
  | leave
  | token (kind : Kind) (text : String)
deriving DecidableEq, Repr

def Call.node? : Call → Option WalkNode
  | enter rule => some (.rule rule)
  | leave => none
  | token kind text => some (.token kind text)

def apply (g : WalkGraph) : Call → WalkGraph
  | .enter rule => g.enter rule
  | .leave => g.leave
  | .token kind text => g.token kind text

/-- The graph that these calls make. -/
def ofCalls (calls : List Call) : WalkGraph := calls.foldl apply .empty

/-- An edge from a node to one of its children. -/
def Edge (g : WalkGraph) (parent child : Nat) : Prop := (parent, child) ∈ g.edges.toList

instance (g : WalkGraph) (parent child : Nat) : Decidable (g.Edge parent child) :=
  inferInstanceAs (Decidable ((parent, child) ∈ g.edges.toList))

/-- The children of a node among these edges. -/
def sons (n : Nat) (edges : List (Nat × Nat)) : List Nat :=
  (edges.filter fun e => e.1 == n).map Prod.snd

theorem sons_cons (n : Nat) (e : Nat × Nat) (es : List (Nat × Nat)) :
    sons n (e :: es) = if e.1 = n then e.2 :: sons n es else sons n es := by
  by_cases same : e.1 = n <;> simp [sons, same]

theorem sons_append (n : Nat) (es es' : List (Nat × Nat)) :
    sons n (es ++ es') = sons n es ++ sons n es' := by
  simp [sons]

theorem mem_sons {n c : Nat} {es : List (Nat × Nat)} : c ∈ sons n es ↔ (n, c) ∈ es := by
  simp [sons]

/-- Where the children of a node stand, in the order in which they were added. -/
def below (g : WalkGraph) (n : Nat) : List Nat := sons n g.edges.toList

theorem mem_below {g : WalkGraph} {n c : Nat} : c ∈ g.below n ↔ g.Edge n c := mem_sons

/-! One call. -/

/-- The edge to a node that is added now. -/
def hung (g : WalkGraph) : List WalkEdge :=
  (g.unclosed.head?.map fun p => ⟨p, g.nodes.size, (g.outgoing p).length⟩).toList

section Add

variable (g : WalkGraph) (node : WalkNode)

@[simp] theorem nodes_add : (g.add node).nodes = g.nodes.push node := rfl

@[simp] theorem links_add : (g.add node).links.toList = g.links.toList ++ g.hung := by
  simp only [add, hung]
  cases g.unclosed <;> simp

theorem outgoing_eq (n : Nat) : g.outgoing n = g.links.toList.filter fun e => e.parent == n := by
  simp [outgoing]

theorem edges_eq : g.edges.toList = g.links.toList.map WalkEdge.ends := by
  simp [edges]

theorem below_eq (n : Nat) : g.below n = (g.outgoing n).map WalkEdge.child := by
  simp [below, sons, edges_eq, outgoing_eq, List.filter_map, Function.comp_def, WalkEdge.ends]

end Add

/-- What holds of a graph that is made by calls. -/
structure Sound (g : WalkGraph) : Prop where
  positions : ∀ n, (g.outgoing n).map WalkEdge.position = List.range (g.outgoing n).length
  ordered : (g.links.toList.map WalkEdge.child).Pairwise (· < ·)
  down : ∀ e ∈ g.links.toList, e.parent < e.child ∧ e.child < g.nodes.size
  unclosed : ∀ p ∈ g.unclosed, p < g.nodes.size

theorem sound_empty : Sound .empty := by
  constructor <;> simp [empty, outgoing]

theorem outgoing_add (g : WalkGraph) (node : WalkNode) (n : Nat) :
    (g.add node).outgoing n = g.outgoing n ++ g.hung.filter fun e => e.parent == n := by
  rw [outgoing_eq, links_add, List.filter_append, ← outgoing_eq]

theorem mem_hung {g : WalkGraph} {e : WalkEdge} :
    e ∈ g.hung ↔ ∃ p, g.unclosed.head? = some p ∧ e = ⟨p, g.nodes.size, (g.outgoing p).length⟩ := by
  rw [hung, Option.mem_toList, Option.map_eq_some_iff]
  exact exists_congr fun p => and_congr_right fun _ => eq_comm

namespace Sound

variable {g : WalkGraph}

theorem add (h : g.Sound) (node : WalkNode) : (g.add node).Sound := by
  constructor
  case positions =>
    intro n
    have old := h.positions n
    rw [outgoing_add, hung]
    cases g.unclosed with
    | nil => simpa using old
    | cons p ps =>
        by_cases same : p = n
        · subst same
          simp [old, List.range_succ]
        · simpa [same] using old
  case ordered =>
    rw [links_add, List.map_append]
    refine List.pairwise_append.mpr ⟨h.ordered, ?_, ?_⟩
    · rw [hung]
      cases g.unclosed.head? <;> simp
    · intro c old c' new
      obtain ⟨e, mem, rfl⟩ := List.mem_map.mp old
      obtain ⟨e', mem', rfl⟩ := List.mem_map.mp new
      obtain ⟨p, -, rfl⟩ := mem_hung.mp mem'
      exact (h.down e mem).2
  case down =>
    intro e mem
    rw [links_add] at mem
    rw [nodes_add, Array.size_push]
    obtain old | new := List.mem_append.mp mem
    · obtain ⟨less, inside⟩ := h.down e old
      exact ⟨less, Nat.lt_succ_of_lt inside⟩
    · obtain ⟨p, first, rfl⟩ := mem_hung.mp new
      exact ⟨h.unclosed p (List.mem_of_head? first), Nat.lt_succ_self _⟩
  case unclosed =>
    intro p mem
    rw [nodes_add, Array.size_push]
    exact Nat.lt_succ_of_lt (h.unclosed p mem)

theorem apply (h : g.Sound) (call : Call) : (g.apply call).Sound := by
  cases call with
  | token kind text => exact h.add _
  | leave =>
      obtain ⟨positions, ordered, down, unclosed⟩ := h
      exact ⟨positions, ordered, down, fun p mem => unclosed p (List.mem_of_mem_tail mem)⟩
  | enter rule =>
      obtain ⟨positions, ordered, down, unclosed⟩ := h.add (.rule rule)
      refine ⟨positions, ordered, down, ?_⟩
      intro p mem
      obtain rfl | mem := List.mem_cons.mp mem
      · change g.nodes.size < (g.nodes.push _).size
        simp
      · exact unclosed p mem

end Sound

theorem sound_ofCalls (calls : List Call) : (ofCalls calls).Sound := by
  induction calls using List.reverseRecOn with
  | nil => exact sound_empty
  | append_singleton calls call ih =>
      rw [ofCalls, List.foldl_concat]
      exact ih.apply call

/-! The order of children. -/

section Order

variable {g : WalkGraph} {n : Nat}

/-- However the edges from a node are met, its children come in the order in which they were
added. -/
theorem Sound.inOrder_eq (h : g.Sound) {es : List WalkEdge} (met : es.Perm (g.outgoing n)) :
    inOrder es = g.below n := by
  have distinct : ((g.outgoing n).map WalkEdge.position).Nodup := by
    rw [h.positions]
    exact List.nodup_range
  have sorted : (g.outgoing n).Pairwise fun a b => a.isBefore b = true := by
    have rising : (g.outgoing n).Pairwise fun a b => a.position < b.position := by
      rw [← List.pairwise_map, h.positions]
      exact List.pairwise_lt_range
    exact rising.imp fun less => by simp [WalkEdge.isBefore, less]
  have sorted' : (es.mergeSort WalkEdge.isBefore).Pairwise fun a b => a.isBefore b = true := by
    refine List.pairwise_mergeSort ?_ ?_ es
    · intro a b c
      simp only [WalkEdge.isBefore, Bool.or_eq_true, Bool.and_eq_true, decide_eq_true_eq,
        beq_iff_eq]
      omega
    · intro a b
      simp only [WalkEdge.isBefore, Bool.or_eq_true, Bool.and_eq_true, decide_eq_true_eq,
        beq_iff_eq]
      omega
  rw [inOrder, below_eq]
  have perm : (es.mergeSort WalkEdge.isBefore).Perm (g.outgoing n) :=
    (List.mergeSort_perm es _).trans met
  refine congrArg _ (List.Perm.eq_of_pairwise ?_ sorted' sorted perm)
  intro a b mem mem' before before'
  have mem := perm.subset mem
  refine List.inj_on_of_nodup_map distinct mem mem' ?_
  simp only [WalkEdge.isBefore, Bool.or_eq_true, Bool.and_eq_true, decide_eq_true_eq, beq_iff_eq]
    at before before'
  omega

/-- The children of a node stand in the order in which they were added. -/
theorem Sound.children_eq (h : g.Sound) (n : Nat) :
    g.children n = (g.below n).filterMap fun child => g.nodes[child]? := by
  rw [children, h.inOrder_eq (List.Perm.refl _)]

end Order

/-! Edges. -/

namespace Sound

variable {g : WalkGraph} {p q n : Nat}

theorem down_of_edge (h : g.Sound) (edge : g.Edge p n) : p < n ∧ n < g.nodes.size := by
  rw [Edge, edges_eq] at edge
  obtain ⟨e, mem, same⟩ := List.mem_map.mp edge
  obtain ⟨rfl, rfl⟩ := Prod.mk.inj same
  exact h.down e mem

theorem nodup_children (h : g.Sound) : (g.edges.toList.map Prod.snd).Nodup := by
  rw [edges_eq, List.map_map]
  exact h.ordered.imp Nat.ne_of_lt

/-- No node has two parents. -/
theorem parent_unique (h : g.Sound) (edge : g.Edge p n) (edge' : g.Edge q n) : p = q :=
  congrArg Prod.fst (List.inj_on_of_nodup_map h.nodup_children edge edge' rfl)

end Sound

end WalkGraph

open WalkGraph

/-! Groves. -/

/-- Trees of rules and tokens, one after the other. -/
inductive Grove where
  | nil
  | token (kind : Kind) (text : String) (after : Grove)
  | rule (name : String) (below after : Grove)

namespace Grove

/-- What a graph is told on the way around the trees. -/
def calls : Grove → List Call
  | nil => []
  | token kind text after => .token kind text :: after.calls
  | rule name below after => .enter name :: (below.calls ++ .leave :: after.calls)

def size : Grove → Nat
  | nil => 0
  | token _ _ after => after.size + 1
  | rule _ below after => below.size + after.size + 1

/-- The nodes of the graph of a grove. -/
def nodes : Grove → List WalkNode
  | nil => []
  | token kind text after => .token kind text :: after.nodes
  | rule name below after => .rule name :: (below.nodes ++ after.nodes)

/-- The edges of the graph of a grove below a node, the first tree standing at the second one. -/
def edges : Grove → Nat → Nat → List (Nat × Nat)
  | nil, _, _ => []
  | token _ _ after, p, n => (p, n) :: after.edges p (n + 1)
  | rule _ below after, p, n =>
      (p, n) :: (below.edges n (n + 1) ++ after.edges p (n + 1 + below.size))

/-- Where the trees begin when the first stands at this node. -/
def roots : Grove → Nat → List Nat
  | nil, _ => []
  | token _ _ after, n => n :: after.roots (n + 1)
  | rule _ below after, n => n :: after.roots (n + 1 + below.size)

theorem length_nodes (t : Grove) : t.nodes.length = t.size := by
  induction t with
  | nil => rfl
  | token kind text after ih => simp [nodes, size, ih]
  | rule name below after ih ih' => simp [nodes, size, ih, ih']

/-- The second graph is the first one with a grove below one of its nodes. -/
structure Hangs (t : Grove) (p : Nat) (g g' : WalkGraph) : Prop where
  nodes : g'.nodes.toList = g.nodes.toList ++ t.nodes
  edges : g'.edges.toList = g.edges.toList ++ t.edges p g.nodes.size
  unclosed : g'.unclosed = g.unclosed

theorem edges_add {g : WalkGraph} {p : Nat} (inside : g.unclosed.head? = some p)
    (node : WalkNode) : (g.add node).edges.toList = g.edges.toList ++ [(p, g.nodes.size)] := by
  simp [edges_eq, hung, inside, WalkEdge.ends]

/-- What a graph makes of a grove when some rule is open. -/
theorem hangs_foldl (t : Grove) {g : WalkGraph} {p : Nat} (inside : g.unclosed.head? = some p) :
    t.Hangs p g (t.calls.foldl WalkGraph.apply g) := by
  induction t generalizing g p with
  | nil => exact ⟨by simp [calls, nodes], by simp [calls, edges], rfl⟩
  | token kind text after ih =>
      obtain ⟨nodes', edges', unclosed⟩ := ih (g := g.add (.token kind text)) inside
      rw [edges_add inside] at edges'
      exact ⟨nodes'.trans (by simp [nodes]), edges'.trans (by simp [edges]), unclosed⟩
  | rule name below after ih ih' =>
      obtain ⟨nodes₁, edges₁, unclosed₁⟩ := ih (g := g.enter name) (p := g.nodes.size) rfl
      rw [calls, List.foldl_cons, List.foldl_append, List.foldl_cons]
      generalize made : below.calls.foldl WalkGraph.apply (g.apply (.enter name)) = g₁
      change below.calls.foldl WalkGraph.apply (g.enter name) = g₁ at made
      rw [made] at nodes₁ edges₁ unclosed₁
      have size₁ : g₁.nodes.size = g.nodes.size + 1 + below.size := by
        have length := congrArg List.length nodes₁
        simp only [Array.length_toList, List.length_append, length_nodes, enter, nodes_add,
          Array.size_push] at length
        exact length
      have left : g₁.leave.unclosed = g.unclosed := congrArg List.tail unclosed₁
      obtain ⟨nodes₂, edges₂, unclosed₂⟩ := ih' (g := g₁.leave) (p := p) (left ▸ inside)
      have entered : (g.enter name).edges.toList = g.edges.toList ++ [(p, g.nodes.size)] :=
        edges_add inside (.rule name)
      constructor
      case nodes =>
        refine nodes₂.trans ?_
        change g₁.nodes.toList ++ _ = _
        rw [nodes₁]
        simp [enter, nodes]
      case edges =>
        refine edges₂.trans ?_
        change g₁.edges.toList ++ after.edges p g₁.nodes.size = _
        rw [edges₁, entered, size₁]
        simp [enter, edges]
      case unclosed => exact unclosed₂.trans left

/-! The edges of a grove. -/

open WalkGraph

variable {t : Grove} {p n q : Nat}

/-- Only the nodes of a grove and the one it hangs below have children in it. -/
theorem sons_of_outside (t : Grove) (other : q ≠ p) (outside : q < n ∨ n + t.size ≤ q) :
    sons q (t.edges p n) = [] := by
  induction t generalizing p n with
  | nil => rfl
  | token kind text after ih =>
      rw [size] at outside
      rw [edges, sons_cons, if_neg (Ne.symm other), ih other (by omega)]
  | rule name below after ih ih' =>
      rw [size] at outside
      rw [edges, sons_cons, if_neg (Ne.symm other), sons_append, ih (by omega) (by omega),
        ih' other (by omega), List.append_nil]

theorem sons_parent (t : Grove) (before : p < n) : sons p (t.edges p n) = t.roots n := by
  induction t generalizing n with
  | nil => rfl
  | token kind text after ih =>
      rw [edges, sons_cons, if_pos rfl, ih (by omega), roots]
  | rule name below after ih ih' =>
      have inside : sons p (below.edges n (n + 1)) = [] :=
        below.sons_of_outside (by omega) (.inl (by omega))
      rw [edges, sons_cons, if_pos rfl, sons_append, inside, ih' (by omega), roots,
        List.nil_append]

theorem snd_edges (t : Grove) (p n : Nat) : (t.edges p n).map Prod.snd = List.range' n t.size := by
  induction t generalizing p n with
  | nil => rfl
  | token kind text after ih =>
      rw [edges, List.map_cons, ih, size, List.range'_succ]
  | rule name below after ih ih' =>
      rw [edges, List.map_cons, List.map_append, ih, ih', size, List.range'_succ,
        List.range'_append_1]

/-! Groves that stand in a graph. -/

variable {g : WalkGraph}

/-- The trees stand in the graph one after the other, the first one at this node. -/
def Planted (g : WalkGraph) : Grove → Nat → Prop
  | nil, _ => True
  | token kind text after, n =>
      g.nodes[n]? = some (.token kind text) ∧ g.below n = [] ∧ after.Planted g (n + 1)
  | rule name below after, n =>
      g.nodes[n]? = some (.rule name) ∧ g.below n = below.roots (n + 1) ∧
        below.Planted g (n + 1) ∧ after.Planted g (n + 1 + below.size)

theorem planted_of_edges (t : Grove) (before : p < n)
    (found : ∀ i < t.size, g.nodes[n + i]? = t.nodes[i]?)
    (hung : ∀ q, n ≤ q → q < n + t.size → g.below q = sons q (t.edges p n)) : t.Planted g n := by
  induction t generalizing p n with
  | nil => trivial
  | token kind text after ih =>
      simp only [size, edges, sons_cons] at found hung
      have outside : sons n (after.edges p (n + 1)) = [] :=
        after.sons_of_outside (by omega) (.inl (by omega))
      refine ⟨by simpa [nodes] using found 0 (by omega), ?_, ih (p := p) (by omega) ?_ ?_⟩
      · rw [hung n (by omega) (by omega), if_neg (by omega), outside]
      · intro i inside
        rw [Nat.add_right_comm]
        exact found (i + 1) (by omega)
      · intro q behind inside
        rw [hung q (by omega) (by omega), if_neg (by omega)]
  | rule name below after ih ih' =>
      simp only [size, edges, sons_cons, sons_append] at found hung
      have outside : sons n (after.edges p (n + 1 + below.size)) = [] :=
        after.sons_of_outside (by omega) (.inl (by omega))
      refine ⟨by simpa [nodes] using found 0 (by omega), ?_, ih (p := n) (by omega) ?_ ?_,
        ih' (p := p) (by omega) ?_ ?_⟩
      · rw [hung n (by omega) (by omega), if_neg (by omega), outside, List.append_nil,
          sons_parent below (by omega)]
      · intro i inside
        have found := found (i + 1) (by omega)
        rw [Nat.add_right_comm]
        rw [nodes, List.getElem?_cons_succ, List.getElem?_append_left (by rwa [length_nodes])]
          at found
        exact found
      · intro q behind inside
        have apart : sons q (after.edges p (n + 1 + below.size)) = [] :=
          after.sons_of_outside (by omega) (.inl (by omega))
        rw [hung q (by omega) (by omega), if_neg (by omega), apart, List.append_nil]
      · intro i inside
        have found := found (below.size + i + 1) (by omega)
        rw [nodes, List.getElem?_cons_succ, ← length_nodes, List.getElem?_append_right (by omega),
          Nat.add_sub_cancel_left, length_nodes] at found
        rw [← found]
        congr 1
        omega
      · intro q behind inside
        have apart : sons q (below.edges n (n + 1)) = [] :=
          below.sons_of_outside (by omega) (.inr (by omega))
        rw [hung q (by omega) (by omega), if_neg (by omega), apart, List.nil_append]

/-! The graph of a single rule. -/

/-- A rule with these trees below it, and nothing else. -/
def under (t : Grove) (name : String) : Grove := rule name t nil

/-- The graph of a rule with these trees below it. -/
def drawn (t : Grove) (name : String) : WalkGraph := ofCalls (t.under name).calls

theorem exists_drawn (t : Grove) (name : String) :
    ∃ g, t.Hangs 0 (WalkGraph.empty.enter name) g ∧ t.drawn name = g.leave := by
  refine ⟨_, t.hangs_foldl rfl, ?_⟩
  rw [drawn, ofCalls, under, calls, List.foldl_cons, List.foldl_append]
  rfl

theorem nodes_drawn (t : Grove) (name : String) :
    (t.drawn name).nodes.toList = .rule name :: t.nodes := by
  obtain ⟨g, hangs, same⟩ := t.exists_drawn name
  rw [same]
  exact hangs.nodes

theorem edges_drawn (t : Grove) (name : String) :
    (t.drawn name).edges.toList = t.edges 0 1 := by
  obtain ⟨g, hangs, same⟩ := t.exists_drawn name
  rw [same]
  exact hangs.edges.trans (by simp [WalkGraph.edges, enter, add, empty])

theorem size_drawn (t : Grove) (name : String) : (t.drawn name).nodes.size = t.size + 1 := by
  rw [← Array.length_toList, nodes_drawn, List.length_cons, length_nodes]

/-- A rule and what is below it stand in the graph of the rule. -/
theorem planted_drawn (t : Grove) (name : String) : (t.under name).Planted (t.drawn name) 0 := by
  have hung (q : Nat) : (t.drawn name).below q = sons q (t.edges 0 1) :=
    congrArg (sons q) (edges_drawn t name)
  refine ⟨?_, (hung 0).trans (t.sons_parent Nat.one_pos), ?_, trivial⟩
  · rw [← Array.getElem?_toList, nodes_drawn]
    rfl
  · refine t.planted_of_edges Nat.one_pos (fun i inside => ?_) fun q _ _ => hung q
    rw [← Array.getElem?_toList, nodes_drawn, Nat.add_comm, List.getElem?_cons_succ]

end Grove
end YoloLang
