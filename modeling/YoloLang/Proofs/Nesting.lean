import Mathlib.Data.List.Sort
import YoloLang.Proofs.Grove

/-!
The forest that calls make, balanced or not. Main statement: a node hangs below the innermost rule
that is open when it is added, its children come in the order in which they are added, and a walk
through the graph of one balanced rule gives back the calls.
-/

namespace YoloLang

namespace WalkGraph

/-! Calls that come to nothing in the end. -/

/-- Tokens and rules that are all left again, each behind what is entered in it. -/
inductive Balanced : List Call → Prop where
  | nil : Balanced []
  | token (kind : Kind) (text : String) {calls : List Call} (more : Balanced calls) :
      Balanced (.token kind text :: calls)
  | rule (rule : String) {within calls : List Call} (inner : Balanced within)
      (more : Balanced calls) : Balanced (.enter rule :: (within ++ .leave :: calls))

/-- The rule at this node is open behind these calls, and every rule in it has been left. -/
def Innermost (calls : List Call) (n : Nat) : Prop :=
  ∃ outer rule inner, calls = outer ++ .enter rule :: inner ∧ Balanced inner ∧
    n = (outer.filterMap Call.node?).length

namespace Balanced

variable {xs ys : List Call}

theorem append (h : Balanced xs) (h' : Balanced ys) : Balanced (xs ++ ys) := by
  induction h with
  | nil => exact h'
  | token kind text _ ih => exact .token kind text ih
  | rule rule inner _ _ ih => simpa using Balanced.rule rule inner ih

/-- They are the way around some trees. -/
theorem exists_grove (h : Balanced xs) : ∃ t : Grove, t.calls = xs := by
  induction h with
  | nil => exact ⟨.nil, rfl⟩
  | token kind text _ ih =>
      obtain ⟨after, rfl⟩ := ih
      exact ⟨.token kind text after, rfl⟩
  | rule rule _ _ ih ih' =>
      obtain ⟨below, rfl⟩ := ih
      obtain ⟨after, rfl⟩ := ih'
      exact ⟨.rule rule below after, rfl⟩

end Balanced

/-! Rules that are open. -/

theorem ofCalls_append (xs ys : List Call) : ofCalls (xs ++ ys) = ys.foldl apply (ofCalls xs) :=
  List.foldl_append

theorem nodes_ofCalls (calls : List Call) :
    (ofCalls calls).nodes.toList = calls.filterMap Call.node? := by
  induction calls using List.reverseRecOn with
  | nil => rfl
  | append_singleton calls call ih =>
      rw [ofCalls_append, List.filterMap_append, ← ih]
      cases call with
      | leave => simp [apply, leave, Call.node?]
      | enter | token => simp [apply, enter, token, Call.node?]

theorem size_ofCalls (calls : List Call) :
    (ofCalls calls).nodes.size = (calls.filterMap Call.node?).length := by
  rw [← nodes_ofCalls, Array.length_toList]

/-- A rule stays open behind balanced calls. -/
theorem unclosed_of_balanced {outer inner : List Call} (h : Balanced inner) (rule : String) :
    (ofCalls (outer ++ .enter rule :: inner)).unclosed =
      (ofCalls outer).nodes.size :: (ofCalls outer).unclosed := by
  obtain ⟨t, rfl⟩ := h.exists_grove
  rw [ofCalls_append, List.foldl_cons]
  exact (t.hangs_foldl rfl).unclosed

/-- The open rules and where they were entered, the innermost first. -/
theorem exists_of_unclosed (calls : List Call) {p : Nat} {ps : List Nat}
    (inside : (ofCalls calls).unclosed = p :: ps) :
    ∃ outer rule inner, calls = outer ++ .enter rule :: inner ∧ Balanced inner ∧
      p = (ofCalls outer).nodes.size ∧ (ofCalls outer).unclosed = ps := by
  induction size : calls.length using Nat.strongRecOn generalizing calls p ps with
  | ind size ih =>
      cases calls using List.reverseRecOn with
      | nil => contradiction
      | append_singleton calls call =>
          rw [List.length_append, List.length_singleton] at size
          rw [ofCalls_append] at inside
          cases call with
          | enter rule =>
              obtain ⟨rfl, rfl⟩ := List.cons.inj inside
              exact ⟨calls, rule, [], rfl, .nil, rfl, rfl⟩
          | token kind text =>
              obtain ⟨outer, rule, inner, rfl, balanced, place, rest⟩ :=
                ih _ (by omega) calls inside rfl
              exact ⟨outer, rule, inner ++ [.token kind text], by simp,
                balanced.append (.token kind text .nil), place, rest⟩
          | leave =>
              -- The rule that is left is balanced, and so is the one around it up to here.
              obtain ⟨q, outside⟩ : ∃ q, (ofCalls calls).unclosed = q :: p :: ps := by
                change (ofCalls calls).unclosed.tail = p :: ps at inside
                generalize (ofCalls calls).unclosed = unclosed at inside
                cases unclosed with
                | nil => contradiction
                | cons q qs => exact ⟨q, congrArg _ inside⟩
              obtain ⟨between, rule', inner', rfl, balanced', -, rest'⟩ :=
                ih _ (by omega) calls outside rfl
              obtain ⟨outer, rule, inner, rfl, balanced, place, rest⟩ :=
                ih between.length (by simp at size; omega) between rest' rfl
              refine ⟨outer, rule, inner ++ .enter rule' :: (inner' ++ [.leave]), by simp,
                balanced.append (.rule rule' balanced' .nil), place, rest⟩

theorem innermost_iff {calls : List Call} {p : Nat} :
    Innermost calls p ↔ (ofCalls calls).unclosed.head? = some p := by
  constructor
  · rintro ⟨outer, rule, inner, rfl, balanced, rfl⟩
    rw [unclosed_of_balanced balanced, size_ofCalls]
    rfl
  · intro first
    obtain ⟨ps, inside⟩ := List.head?_eq_some_iff.mp first
    obtain ⟨outer, rule, inner, whole, balanced, rfl, -⟩ := exists_of_unclosed calls inside
    exact ⟨outer, rule, inner, whole, balanced, size_ofCalls outer⟩

/-! Edges to a node. -/

section Edges

variable {g : WalkGraph} {p n : Nat}

theorem edge_add {node : WalkNode} :
    (g.add node).Edge p n ↔ g.Edge p n ∨ g.unclosed.head? = some p ∧ n = g.nodes.size := by
  simp only [Edge, edges_eq, links_add, List.map_append, List.mem_append, List.mem_map, mem_hung]
  refine or_congr_right ⟨?_, ?_⟩
  · rintro ⟨_, ⟨q, first, rfl⟩, same⟩
    obtain ⟨rfl, rfl⟩ := Prod.mk.inj same
    exact ⟨first, rfl⟩
  · rintro ⟨first, rfl⟩
    exact ⟨_, ⟨p, first, rfl⟩, rfl⟩

/-- What is added later hangs nothing else above a node. -/
theorem edge_foldl (calls : List Call) (inside : n < g.nodes.size) :
    (calls.foldl apply g).Edge p n ↔ g.Edge p n := by
  induction calls generalizing g with
  | nil => exact Iff.rfl
  | cons call calls ih =>
      have added (node : WalkNode) : (g.add node).Edge p n ↔ g.Edge p n := by
        rw [edge_add, or_iff_left fun new => Nat.ne_of_lt inside new.2]
      have larger (node : WalkNode) : n < (g.add node).nodes.size := by
        rw [nodes_add, Array.size_push]
        exact Nat.lt_succ_of_lt inside
      rw [List.foldl_cons]
      cases call with
      | leave => exact ih inside
      | token kind text => exact (ih (larger _)).trans (added _)
      | enter rule =>
          exact (ih (g := g.enter rule) (larger (.rule rule))).trans (added (.rule rule))

/-- A node hangs below the rule that is open when it is added, or below none. -/
theorem edge_ofCalls {before after : List Call} {call : Call} (adds : call ≠ .leave) :
    (ofCalls (before ++ call :: after)).Edge p (before.filterMap Call.node?).length ↔
      Innermost before p := by
  have sound := sound_ofCalls before
  have fresh : ¬ (ofCalls before).Edge p (ofCalls before).nodes.size := fun edge =>
    Nat.lt_irrefl _ (sound.down_of_edge edge).2
  have added (node : WalkNode) :
      ((ofCalls before).add node).Edge p (ofCalls before).nodes.size ↔
        (ofCalls before).unclosed.head? = some p := by
    rw [edge_add, or_iff_right fresh, and_iff_left rfl]
  have inside (node : WalkNode) :
      (ofCalls before).nodes.size < ((ofCalls before).add node).nodes.size := by
    rw [nodes_add, Array.size_push]
    exact Nat.lt_succ_self _
  rw [innermost_iff, ← size_ofCalls, ofCalls_append, List.foldl_cons]
  cases call with
  | leave => contradiction
  | token kind text => exact (edge_foldl after (inside _)).trans (added _)
  | enter rule =>
      exact (edge_foldl (g := (ofCalls before).enter rule) after (inside (.rule rule))).trans
        (added (.rule rule))

/-- The children of a node are in the order of their numbers. -/
theorem Sound.below_eq_filter (h : g.Sound) (n : Nat) :
    g.below n = (List.range g.nodes.size).filter fun child => g.Edge n child := by
  have rising : (g.below n).Pairwise (· < ·) := by
    rw [below_eq, outgoing_eq]
    exact h.ordered.sublist (List.filter_sublist.map _)
  refine rising.eq_of_mem_iff (List.pairwise_lt_range.filter _) fun child => ?_
  rw [mem_below, List.mem_filter, List.mem_range, decide_eq_true_eq]
  exact ⟨fun edge => ⟨(h.down_of_edge edge).2, edge⟩, And.right⟩

end Edges

/-! Walks through a graph. -/

/-- What is called on the way into a node. -/
def opening : WalkNode → Call
  | .rule name => .enter name
  | .token kind text => .token kind text

/-- What is called behind all that is below a node. -/
def closing : WalkNode → List Call
  | .rule _ => [.leave]
  | .token .. => []

/-- A walk through these nodes and, below each of them, through its children: the nodes in the order
in which they are visited, and the calls that are made. -/
inductive Walked (g : WalkGraph) : List Nat → List Nat → List Call → Prop where
  | nil : Walked g [] [] []
  | node {n : Nat} {ns visited visited' : List Nat} {calls calls' : List Call} {node : WalkNode}
      (found : g.nodes[n]? = some node)
      (below : Walked g (inOrder (g.outgoing n)) visited calls)
      (more : Walked g ns visited' calls') :
      Walked g (n :: ns) (n :: (visited ++ visited'))
        (opening node :: (calls ++ (closing node ++ calls')))

section Walks

variable {g : WalkGraph} {n : Nat} {ns visited : List Nat} {calls : List Call}

theorem walked_nil : g.Walked [] visited calls ↔ visited = [] ∧ calls = [] := by
  constructor
  · rintro ⟨⟩
    exact ⟨rfl, rfl⟩
  · rintro ⟨rfl, rfl⟩
    exact .nil

/-- A walk that begins with a node in its place. -/
theorem walked_cons (sound : g.Sound) {node : WalkNode} (found : g.nodes[n]? = some node) :
    g.Walked (n :: ns) visited calls ↔ ∃ inner within visited' calls',
      g.Walked (g.below n) inner within ∧ g.Walked ns visited' calls' ∧
        visited = n :: (inner ++ visited') ∧
        calls = opening node :: (within ++ (closing node ++ calls')) := by
  constructor
  · intro h
    cases h with
    | node found' below more =>
        obtain rfl := Option.some.inj (found.symm.trans found')
        rw [sound.inOrder_eq (List.Perm.refl _)] at below
        exact ⟨_, _, _, _, below, more, rfl, rfl⟩
  · rintro ⟨inner, within, visited', calls', below, more, rfl, rfl⟩
    rw [← sound.inOrder_eq (List.Perm.refl _)] at below
    exact .node found below more

/-- The walk through a grove visits its nodes one after the other and makes its calls again. -/
theorem walked_of_planted (sound : g.Sound) {t : Grove} (planted : t.Planted g n) :
    g.Walked (t.roots n ++ ns) visited calls ↔ ∃ visited' calls', g.Walked ns visited' calls' ∧
      visited = List.range' n t.size ++ visited' ∧ calls = t.calls ++ calls' := by
  induction t generalizing n ns visited calls with
  | nil => simp [Grove.roots, Grove.size, Grove.calls]
  | token kind text after ih =>
      obtain ⟨found, ends, planted⟩ := planted
      rw [Grove.roots, List.cons_append, walked_cons sound found, ends]
      simp only [walked_nil, ih planted, Grove.size, List.range'_succ]
      constructor
      · rintro ⟨_, _, _, _, ⟨rfl, rfl⟩, ⟨visited', calls', more, rfl, rfl⟩, rfl, rfl⟩
        exact ⟨visited', calls', more, rfl, rfl⟩
      · rintro ⟨visited', calls', more, rfl, rfl⟩
        exact ⟨[], [], _, _, ⟨rfl, rfl⟩, ⟨visited', calls', more, rfl, rfl⟩, rfl, rfl⟩
  | rule name below after ih ih' =>
      obtain ⟨found, hung, planted, planted'⟩ := planted
      have inner {visited calls} : g.Walked (g.below n) visited calls ↔
          visited = List.range' (n + 1) below.size ∧ calls = below.calls := by
        rw [hung, ← List.append_nil (below.roots (n + 1)), ih planted]
        simp [walked_nil]
      rw [Grove.roots, List.cons_append, walked_cons sound found]
      have numbers : List.range' n (below.size + after.size + 1) =
          n :: (List.range' (n + 1) below.size ++ List.range' (n + 1 + below.size) after.size) := by
        rw [List.range'_succ, List.range'_append_1]
      simp only [inner, ih' planted', Grove.size, numbers]
      constructor
      · rintro ⟨_, _, _, _, ⟨rfl, rfl⟩, ⟨visited', calls', more, rfl, rfl⟩, rfl, rfl⟩
        exact ⟨visited', calls', more, by simp only [List.cons_append, List.append_assoc],
          by simp [Grove.calls, opening, closing]⟩
      · rintro ⟨visited', calls', more, rfl, rfl⟩
        exact ⟨_, _, _, _, ⟨rfl, rfl⟩, ⟨visited', calls', more, rfl, rfl⟩,
          by simp only [List.cons_append, List.append_assoc],
          by simp [Grove.calls, opening, closing]⟩

/-- The walk through one balanced rule visits all nodes in order and makes the calls again. -/
theorem walked_of_balanced {inner : List Call} (h : Balanced inner) (rule : String)
    {visited : List Nat} {told : List Call} :
    let calls := .enter rule :: (inner ++ [.leave])
    (ofCalls calls).Walked [0] visited told ↔
      visited = List.range (ofCalls calls).nodes.size ∧ told = calls := by
  intro calls
  obtain ⟨t, rfl⟩ := h.exists_grove
  have walk : (t.drawn rule).Walked ([0] ++ []) visited told ↔ _ :=
    walked_of_planted (sound_ofCalls _) (t.planted_drawn rule)
  have size : (t.under rule).size = (t.drawn rule).nodes.size := (t.size_drawn rule).symm
  refine walk.trans ?_
  simp only [walked_nil, size, List.range_eq_range']
  constructor
  · rintro ⟨_, _, ⟨rfl, rfl⟩, rfl, rfl⟩
    exact ⟨List.append_nil _, List.append_nil _⟩
  · rintro ⟨rfl, rfl⟩
    exact ⟨[], [], ⟨rfl, rfl⟩, (List.append_nil _).symm, (List.append_nil _).symm⟩

end Walks

/-! The graph of any calls. -/

/-- A forest in order: what the calls add, each below the innermost rule that was open at that time,
and the children of a node in the order in which they were added, however the edges are met. -/
structure Mirrors (g : WalkGraph) (calls : List Call) : Prop where
  nodes : g.nodes.toList = calls.filterMap Call.node?
  parent : ∀ before call after, calls = before ++ call :: after → call ≠ .leave →
    ∀ p, g.Edge p (before.filterMap Call.node?).length ↔ Innermost before p
  single : ∀ p q n, g.Edge p n → g.Edge q n → p = q
  once : g.edges.toList.Nodup
  down : ∀ p n, g.Edge p n → p < n ∧ n < g.nodes.size
  order : ∀ n edges, edges.Perm (g.outgoing n) →
    inOrder edges = (List.range g.nodes.size).filter fun child => g.Edge n child
  children : ∀ n, g.children n =
    ((List.range g.nodes.size).filter fun child => g.Edge n child).filterMap (g.nodes[·]?)

theorem mirrors_of_calls (calls : List Call) : (ofCalls calls).Mirrors calls := by
  have sound := sound_ofCalls calls
  constructor
  case nodes => exact nodes_ofCalls calls
  case parent =>
    rintro before call after rfl adds p
    exact edge_ofCalls adds
  case single => exact fun p q n edge edge' => sound.parent_unique edge edge'
  case once => exact sound.nodup_children.of_map
  case down => exact fun p n edge => sound.down_of_edge edge
  case order =>
    intro n edges met
    rw [sound.inOrder_eq met, sound.below_eq_filter]
  case children =>
    intro n
    rw [sound.children_eq, sound.below_eq_filter]

/-- To leave with no rule open changes nothing. -/
theorem ofCalls_leave {before : List Call} (outside : ∀ p, ¬ Innermost before p)
    (after : List Call) : ofCalls (before ++ .leave :: after) = ofCalls (before ++ after) := by
  have none : (ofCalls before).unclosed = [] := by
    rw [← List.head?_eq_none_iff]
    exact Option.eq_none_iff_forall_ne_some.mpr fun p first => outside p (innermost_iff.mpr first)
  have same : (ofCalls before).leave = ofCalls before := by
    generalize ofCalls before = g at none
    cases g
    cases none
    rfl
  rw [ofCalls_append, ofCalls_append, List.foldl_cons]
  exact congrArg (after.foldl apply) same

/-- Calls in any order make a forest in order, and to leave with nothing open does nothing to it. If
they are one balanced rule, the only walk through the graph from its first node visits all nodes in
the order in which they were added and makes the same calls again. -/
theorem forest_of_calls (calls : List Call) :
    (ofCalls calls).Mirrors calls ∧
      (∀ before after, calls = before ++ .leave :: after → (∀ p, ¬ Innermost before p) →
        ofCalls calls = ofCalls (before ++ after)) ∧
      ∀ rule inner, calls = .enter rule :: (inner ++ [.leave]) → Balanced inner →
        (ofCalls calls).root? = some (.rule rule) ∧
          ∀ visited told, (ofCalls calls).Walked [0] visited told ↔
            visited = List.range (ofCalls calls).nodes.size ∧ told = calls := by
  refine ⟨mirrors_of_calls calls, ?_, ?_⟩
  · rintro before after rfl outside
    exact ofCalls_leave outside after
  · rintro rule inner rfl balanced
    refine ⟨?_, fun visited told => walked_of_balanced balanced rule⟩
    have nodes := nodes_ofCalls (.enter rule :: (inner ++ [.leave]))
    rw [root?, ← Array.getElem?_toList, nodes]
    rfl

/-- Two statements of a program, and one call to leave too many. -/
theorem forest_of_statements :
    let calls : List Call := [.enter "PROGRAM", .enter "STATEMENT-GOTO",
      .token (.keyword .GOTO) "GOTO", .leave, .enter "NEWLINE", .leave, .leave]
    (ofCalls calls).children 0 = [.rule "STATEMENT-GOTO", .rule "NEWLINE"] ∧
      (ofCalls calls).Walked [0] [0, 1, 2, 3] calls ∧
      ofCalls (calls ++ [.leave]) = ofCalls calls := by
  intro calls
  have balanced : Balanced [.enter "STATEMENT-GOTO", .token (.keyword .GOTO) "GOTO", .leave,
      .enter "NEWLINE", .leave] :=
    .rule _ (.token _ _ .nil) (.rule _ .nil .nil)
  obtain ⟨mirrors, -, walk⟩ := forest_of_calls calls
  have outside (p : Nat) : ¬ Innermost calls p := by
    rw [innermost_iff]
    exact nofun
  refine ⟨?_, ?_, ?_⟩
  · rw [mirrors.children]
    decide +kernel
  · exact ((walk "PROGRAM" _ rfl balanced).2 _ _).mpr ⟨rfl, rfl⟩
  · exact (forest_of_calls (calls ++ [.leave])).2.1 calls [] rfl outside

end WalkGraph
end YoloLang
