import Mathlib.Data.List.Forall2
import Mathlib.Data.List.Nodup
import Mathlib.Logic.ExistsUnique
import Mathlib.Logic.Relation
import YoloLang.Proofs.Account
import YoloLang.Proofs.Compile
import YoloLang.Proofs.Grove

/-!
The graph of a forest. A graph that sees the events of a forest gets a node for each of its rules
and tokens, in the order of the walk around it, and an edge to each from the rule it stands below.
Main statement: the graph of a tree whose rules follow their productions is a derivation tree.
-/

namespace YoloLang

namespace WalkGraph

/-- The ends of the tree below these nodes, from left to right. -/
inductive Frontier (g : WalkGraph) : List Nat → List WalkNode → Prop where
  | nil : Frontier g [] []
  | leaf {n : Nat} {ns : List Nat} {node : WalkNode} {nodes : List WalkNode}
      (ends : g.below n = []) (found : g.nodes[n]? = some node) (more : Frontier g ns nodes) :
      Frontier g (n :: ns) (node :: nodes)
  | inner {n : Nat} {ns : List Nat} {nodes : List WalkNode} (some : g.below n ≠ [])
      (more : Frontier g (g.below n ++ ns) nodes) : Frontier g (n :: ns) nodes

end WalkGraph

/-- A node that can stand for a symbol. -/
def Symbol.Fits : Symbol → WalkNode → Prop
  | token kind, .token kind' _ => kind' = kind
  | rule r, .rule name => name = r.name
  | token _, .rule _ | rule _, .token .. => False

/-- A single tree of the program, with these ends from left to right. -/
structure WalkGraph.Derivation (g : WalkGraph) (leaves : List WalkNode) : Prop where
  root : g.root? = some (.rule (Rule.phrase .program).name)
  down : ∀ p n, g.Edge p n → p < n ∧ n < g.nodes.size
  parent : ∀ n, 0 < n → n < g.nodes.size → ∃! p, g.Edge p n
  once : g.edges.toList.Nodup
  reached : ∀ n < g.nodes.size, Relation.ReflTransGen g.Edge 0 n
  production : ∀ n name, g.nodes[n]? = some (.rule name) → ∃ r ss, r.name = name ∧
    Production r ss ∧ List.Forall₂ Symbol.Fits ss (g.children n)
  ends : ∀ n node, g.nodes[n]? = some node →
    (g.below n = [] ↔ ∃ kind text, node = .token kind text)
  frontier : g.Frontier [0] leaves

/-! Forests as groves. -/

def Event.call : Event → WalkGraph.Call
  | enter r => .enter r.name
  | leave => .leave
  | token t => .token t.kind t.text

theorem WalkGraph.watch_eq (g : WalkGraph) (event : Event) :
    g.watch event = g.apply event.call := by
  cases event <;> rfl

namespace Forest

open WalkGraph

/-- What a graph keeps of a forest. -/
def grove : Forest → Grove
  | nil => .nil
  | token t after => .token t.kind t.text after.grove
  | rule r below after => .rule r.name below.grove after.grove

theorem calls_grove (f : Forest) : f.grove.calls = f.events.map Event.call := by
  induction f with
  | nil => rfl
  | token t after ih => simp [grove, Grove.calls, events, ih, Event.call]
  | rule r below after ih ih' => simp [grove, Grove.calls, events, ih, ih', Event.call]

variable {f : Forest} {n : Nat} {g : WalkGraph}

/-- What stands at a node: a token without children, or a rule with one of its productions. -/
inductive Settled (g : WalkGraph) (n : Nat) : Prop where
  | token {kind : Kind} {text : String} (found : g.nodes[n]? = some (.token kind text))
      (ends : g.below n = [])
  | rule {r : Rule} {ss : List Symbol} (found : g.nodes[n]? = some (.rule r.name))
      (some : g.below n ≠ []) (production : Production r ss)
      (fits : List.Forall₂ Symbol.Fits ss (g.children n))

theorem fits_of_planted (h : f.grove.Planted g n) :
    List.Forall₂ Symbol.Fits f.symbols
      ((f.grove.roots n).filterMap fun child => g.nodes[child]?) := by
  induction f generalizing n with
  | nil => exact .nil
  | token t after ih =>
      obtain ⟨found, -, more⟩ := h
      rw [grove, Grove.roots, List.filterMap_cons, found]
      exact .cons rfl (ih more)
  | rule r below after _ ih =>
      obtain ⟨found, -, -, more⟩ := h
      rw [grove, Grove.roots, List.filterMap_cons, found]
      exact .cons rfl (ih more)

/-- The rule of a tree is settled with what stands below it. -/
theorem settled_of_production (sound : g.Sound) {below : Forest} {r : Rule}
    (found : g.nodes[n]? = some (.rule r.name)) (hung : g.below n = below.grove.roots (n + 1))
    (planted : below.grove.Planted g (n + 1)) (production : Production r below.symbols)
    (some : below.symbols ≠ []) : Settled g n := by
  have fits : List.Forall₂ Symbol.Fits below.symbols (g.children n) := by
    rw [sound.children_eq, hung]
    exact fits_of_planted planted
  refine .rule found ?_ production fits
  intro none
  rw [sound.children_eq, none] at fits
  exact some (List.forall₂_nil_right_iff.mp fits)

theorem settled_of_planted (sound : g.Sound) (h : f.grove.Planted g n) (derived : f.Derived)
    (inner : .phrase .program ∉ f.symbols) :
    ∀ q, n ≤ q → q < n + f.grove.size → Settled g q := by
  induction f generalizing n with
  | nil =>
      intro q behind inside
      simp only [grove, Grove.size] at inside
      omega
  | token t after ih =>
      obtain ⟨found, ends, more⟩ := h
      rw [symbols, List.mem_cons, not_or] at inner
      intro q behind inside
      simp only [grove, Grove.size] at inside
      by_cases first : q = n
      · exact first ▸ .token found ends
      · exact ih more derived inner.2 q (by omega) (by omega)
  | rule r below after ih ih' =>
      obtain ⟨found, hung, planted, more⟩ := h
      obtain ⟨production, derived, derived'⟩ := derived
      rw [symbols, List.mem_cons, not_or] at inner
      have some := production.ne_nil fun program => inner.1 (program ▸ rfl)
      intro q behind inside
      simp only [grove, Grove.size] at inside
      by_cases first : q = n
      · exact first ▸ settled_of_production sound found hung planted production some
      · by_cases under : q < n + 1 + below.grove.size
        · exact ih planted derived production.program_not_mem q (by omega) (by omega)
        · exact ih' more derived' inner.2 q (by omega) (by omega)

/-- The ends of the trees are their tokens. -/
theorem frontier_of_planted (sound : g.Sound) (h : f.grove.Planted g n) (derived : f.Derived)
    (inner : .phrase .program ∉ f.symbols) {ns : List Nat} {ls : List WalkNode}
    (more : g.Frontier ns ls) :
    g.Frontier (f.grove.roots n ++ ns) ((f.tokens.map fun t => .token t.kind t.text) ++ ls) := by
  induction f generalizing n ns ls with
  | nil => exact more
  | token t after ih =>
      obtain ⟨found, ends, planted⟩ := h
      rw [symbols, List.mem_cons, not_or] at inner
      exact .leaf ends found (ih planted derived inner.2 more)
  | rule r below after ih ih' =>
      obtain ⟨found, hung, planted, planted'⟩ := h
      obtain ⟨production, derived, derived'⟩ := derived
      rw [symbols, List.mem_cons, not_or] at inner
      have some := production.ne_nil fun program => inner.1 (program ▸ rfl)
      have under := ih planted derived production.program_not_mem
        (ih' planted' derived' inner.2 more)
      have branches : g.below n ≠ [] := by
        obtain ⟨_, ends⟩ | ⟨_, branches, _, _⟩ :=
          settled_of_production sound found hung planted production some
        · simp_all
        · exact branches
      rw [tokens, List.map_append, List.append_assoc]
      exact .inner branches (hung ▸ under)

/-! The graph of a whole program. -/

/-- The graph of a program with these trees below it. -/
def drawn (below : Forest) : WalkGraph := below.grove.drawn (Rule.phrase .program).name

theorem foldl_program (below : Forest) :
    (Event.enter (.phrase .program) :: (below.events ++ [.leave])).foldl WalkGraph.watch .empty =
      below.drawn := by
  have calls : (below.grove.under (Rule.phrase .program).name).calls =
      (Event.enter (.phrase .program) :: (below.events ++ [.leave])).map Event.call := by
    simp [Grove.under, Grove.calls, calls_grove, Event.call]
  rw [drawn, Grove.drawn, calls, ofCalls, List.foldl_map]
  exact congrArg (fun step => List.foldl step _ _) (funext₂ watch_eq)

theorem sound_drawn (below : Forest) : below.drawn.Sound := sound_ofCalls _

theorem size_drawn (below : Forest) : below.drawn.nodes.size = below.grove.size + 1 :=
  below.grove.size_drawn _

theorem settled_drawn {below : Forest} (production : Production (.phrase .program) below.symbols)
    (derived : below.Derived) (some : below.symbols ≠ []) (q : Nat)
    (inside : q < below.drawn.nodes.size) : Settled below.drawn q := by
  rw [size_drawn] at inside
  obtain ⟨found, hung, planted, -⟩ := below.grove.planted_drawn (Rule.phrase .program).name
  by_cases first : q = 0
  · exact first ▸ settled_of_production below.sound_drawn found hung planted production some
  · exact settled_of_planted below.sound_drawn planted derived production.program_not_mem q
      (by omega) (by omega)

/-- Every node but the first hangs below another one. -/
theorem exists_edge (below : Forest) {q : Nat} (inner : 0 < q)
    (inside : q < below.drawn.nodes.size) : ∃ p, below.drawn.Edge p q := by
  rw [size_drawn] at inside
  have mem : q ∈ (below.grove.edges 0 1).map Prod.snd := by
    rw [Grove.snd_edges, List.mem_range'_1]
    omega
  rw [← below.grove.edges_drawn (Rule.phrase .program).name] at mem
  obtain ⟨⟨p, _⟩, edge, rfl⟩ := List.mem_map.mp mem
  exact ⟨p, edge⟩

theorem derivation_drawn {below : Forest}
    (production : Production (.phrase .program) below.symbols) (derived : below.Derived)
    (some : below.symbols ≠ []) :
    below.drawn.Derivation (below.tokens.map fun t => .token t.kind t.text) := by
  have sound := below.sound_drawn
  obtain ⟨first, hung, planted, -⟩ := below.grove.planted_drawn (Rule.phrase .program).name
  have settled := settled_drawn production derived some
  have within {q : Nat} {node : WalkNode} (found : below.drawn.nodes[q]? = Option.some node) :
      q < below.drawn.nodes.size := (Array.getElem?_eq_some_iff.mp found).1
  constructor
  case root => exact first
  case down => exact fun p q edge => sound.down_of_edge edge
  case parent =>
    intro q inner inside
    obtain ⟨p, edge⟩ := below.exists_edge inner inside
    exact ⟨p, edge, fun p' edge' => sound.parent_unique edge' edge⟩
  case once => exact sound.nodup_children.of_map
  case reached =>
    intro q inside
    induction q using Nat.strongRecOn with
    | ind q ih =>
        obtain rfl | inner := Nat.eq_zero_or_pos q
        · exact .refl
        · obtain ⟨p, edge⟩ := below.exists_edge inner inside
          have less := (sound.down_of_edge edge).1
          exact (ih p less (by omega)).tail edge
  case production =>
    intro q name found
    obtain ⟨found', -⟩ | ⟨found', -, production, fits⟩ := settled q (within found)
    · simp [found'] at found
    · obtain rfl := WalkNode.rule.inj (Option.some.inj (found'.symm.trans found))
      exact ⟨_, _, rfl, production, fits⟩
  case ends =>
    intro q node found
    obtain ⟨found', ends⟩ | ⟨found', branches, -, -⟩ := settled q (within found)
    · obtain rfl := Option.some.inj (found'.symm.trans found)
      simp [ends]
    · obtain rfl := Option.some.inj (found'.symm.trans found)
      simp [branches]
  case frontier =>
    have under := frontier_of_planted sound planted derived production.program_not_mem .nil
    obtain ⟨found, -⟩ | ⟨-, branches, -, -⟩ := settled 0 (by rw [size_drawn]; omega)
    · exact nomatch Option.some.inj (first.symm.trans found)
    · rw [List.append_nil] at under
      refine .inner branches ?_
      change below.drawn.below 0 = _ at hung
      rw [hung]
      simpa using under

theorem tokens_of_symbols {f : Forest} (none : f.symbols = []) : f.tokens = [] := by
  cases f with
  | nil => rfl
  | token | rule => simp [symbols] at none

end Forest

theorem tokenize_ne_nil {source : String} {tokens : List Token}
    (lexed : tokenize source = .ok tokens) : tokens ≠ [] := by
  obtain ⟨⟨⟨span, ends⟩, -, -⟩, rfl⟩ := tokenize_eq_ok.mp lexed
  rw [Feed.ofCursor] at ends ⊢
  split at ends
  · simp at ends
  · rename_i t next call
    simp [Cursor.kind_ne_eof_ofSource call]

/-- A text that compiles with a graph has been read with the graph as the observer. -/
theorem Compiler.exists_watched {c : Compiler} {source path : String} {k : Compilation}
    (wanted : c.graph = some path) (h : (c.compileText source).1 = .ok k) :
    ∃ r : Reading WalkGraph,
      r = .ofFeed WalkGraph.watch (.ofCursor (.ofSource source)) (.empty c.output) .empty ∧
        r.result = .ok k.declarations ∧ k.graph = some r.watcher := by
  rw [compileText, wanted] at h
  obtain ⟨result, -, graph⟩ := eq_of_finish h
  exact ⟨_, rfl, result, graph.symm⟩

/-- The graph of a text that compiles is a derivation tree whose ends are the tokens of the text. -/
theorem Compiler.graph_of_compileText {c : Compiler} {source path : String} {k : Compilation}
    (wanted : c.graph = some path) (h : (c.compileText source).1 = .ok k) :
    ∃ g tokens, k.graph = some g ∧ tokenize source = .ok tokens ∧
      g.Derivation (tokens.map fun t => .token t.kind t.text) := by
  obtain ⟨r, rfl, result, graph⟩ := exists_watched wanted h
  have lexed := Reading.tokenize_of_result result
  obtain ⟨⟨⟨span, ends⟩, -, -⟩, -⟩ := tokenize_eq_ok.mp lexed
  obtain ⟨below, done, account⟩ := Reading.exists_account (Feed.lexical_ofCursor (.ofSource source))
    (Feed.barrier?_of_eof ends 1) c.output
  obtain ⟨-, all, production, derived⟩ := account.of_result result
  rw [account.watcher, Forest.foldl_program] at graph
  have some : below.symbols ≠ [] := by
    intro none
    have empty := Forest.tokens_of_symbols none
    rw [all] at empty
    exact tokenize_ne_nil lexed empty
  exact ⟨_, _, graph, lexed, all ▸ Forest.derivation_drawn production derived some⟩

theorem Compiler.graph_of_assignment :
    ∃ k g tokens, ((⟨"out.c", some "out.dot"⟩ : Compiler).compileText "LET a = 1").1 = .ok k ∧
      k.graph = some g ∧ tokenize "LET a = 1" = .ok tokens ∧
        g.Derivation (tokens.map fun t => .token t.kind t.text) := by
  have compiled : ∃ k, ((⟨"out.c", some "out.dot"⟩ : Compiler).compileText "LET a = 1").1 = .ok k :=
    ⟨_, by cbv⟩
  obtain ⟨k, compiled⟩ := compiled
  obtain ⟨g, tokens, derivation⟩ := graph_of_compileText rfl compiled
  exact ⟨k, g, tokens, compiled, derivation⟩

end YoloLang
