import YoloLang.Proofs.Production
import YoloLang.Walk.Observer

/-!
Derivation trees one after the other, and the rules that are still open with what stands below them
already. Main statement: closing the open rules one by one gives a single tree of the whole program.
-/

namespace YoloLang

inductive Forest where
  | nil
  | token (token : Token) (after : Forest)
  | rule (rule : Rule) (below after : Forest)

namespace Forest

/-- The walk around the trees, from left to right. -/
def events : Forest → List Event
  | nil => []
  | token t after => .token t :: after.events
  | rule r below after => .enter r :: (below.events ++ .leave :: after.events)

def tokens : Forest → List Token
  | nil => []
  | token t after => t :: after.tokens
  | rule _ below after => below.tokens ++ after.tokens

/-- What stands at the top of the trees. -/
def symbols : Forest → List Symbol
  | nil => []
  | token t after => .token t.kind :: after.symbols
  | rule r _ after => .rule r :: after.symbols

/-- What stands below a rule is one of its productions, everywhere. -/
def Derived : Forest → Prop
  | nil => True
  | token _ after => after.Derived
  | rule r below after => Production r below.symbols ∧ below.Derived ∧ after.Derived

def append : Forest → Forest → Forest
  | nil, g => g
  | token t after, g => token t (after.append g)
  | rule r below after, g => rule r below (after.append g)

/-- Tokens without a rule above them. -/
def row : List Token → Forest
  | [] => nil
  | t :: ts => token t (row ts)

theorem events_append (f g : Forest) : (f.append g).events = f.events ++ g.events := by
  induction f with
  | nil => rfl
  | token t after ih => simp [append, events, ih]
  | rule r below after _ ih => simp [append, events, ih]

theorem tokens_append (f g : Forest) : (f.append g).tokens = f.tokens ++ g.tokens := by
  induction f with
  | nil => rfl
  | token t after ih => simp [append, tokens, ih]
  | rule r below after _ ih => simp [append, tokens, ih]

theorem symbols_append (f g : Forest) : (f.append g).symbols = f.symbols ++ g.symbols := by
  induction f with
  | nil => rfl
  | token t after ih => simp [append, symbols, ih]
  | rule r below after _ ih => simp [append, symbols, ih]

theorem derived_append {f g : Forest} : (f.append g).Derived ↔ f.Derived ∧ g.Derived := by
  induction f with
  | nil => simp [append, Derived]
  | token t after ih => simp [append, Derived, ih]
  | rule r below after _ ih => simp [append, Derived, ih, and_assoc]

theorem events_row (ts : List Token) : (row ts).events = ts.map .token := by
  induction ts with
  | nil => rfl
  | cons t ts ih => simp [row, events, ih]

theorem tokens_row (ts : List Token) : (row ts).tokens = ts := by
  induction ts with
  | nil => rfl
  | cons t ts ih => simp [row, tokens, ih]

theorem symbols_row (ts : List Token) : (row ts).symbols = ts.map fun t => .token t.kind := by
  induction ts with
  | nil => rfl
  | cons t ts ih => simp [row, symbols, ih]

theorem derived_row (ts : List Token) : (row ts).Derived := by
  induction ts with
  | nil => trivial
  | cons t ts ih => exact ih

end Forest

/-- The open rules, the program first, each with what stands below it up to the next one. -/
inductive Stem where
  | root (below : Forest)
  | rule (outer : Stem) (rule : Rule) (below : Forest)

namespace Stem

def events : Stem → List Event
  | root below => .enter (.phrase .program) :: below.events
  | rule outer r below => outer.events ++ .enter r :: below.events

def depth : Stem → Nat
  | root _ => 1
  | rule outer _ _ => outer.depth + 1

def tokens : Stem → List Token
  | root below => below.tokens
  | rule outer _ below => outer.tokens ++ below.tokens

def Derived : Stem → Prop
  | root below => below.Derived
  | rule outer _ below => outer.Derived ∧ below.Derived

/-- More below the innermost rule. -/
def push : Stem → Forest → Stem
  | root below, f => root (below.append f)
  | rule outer r below, f => rule outer r (below.append f)

theorem events_push (s : Stem) (f : Forest) : (s.push f).events = s.events ++ f.events := by
  cases s <;> simp [push, events, Forest.events_append]

theorem depth_push (s : Stem) (f : Forest) : (s.push f).depth = s.depth := by
  cases s <;> rfl

theorem tokens_push (s : Stem) (f : Forest) : (s.push f).tokens = s.tokens ++ f.tokens := by
  cases s <;> simp [push, tokens, Forest.tokens_append]

theorem derived_push {s : Stem} {f : Forest} : (s.push f).Derived ↔ s.Derived ∧ f.Derived := by
  cases s <;> simp [push, Derived, Forest.derived_append, and_assoc]

/-- What stands below the program when all rules in it are closed, the innermost first, with more
below that one. -/
def closed : Stem → Forest → Forest
  | root below, f => below.append f
  | rule outer r below, f => outer.closed (.rule r (below.append f) .nil)

theorem events_closed (s : Stem) (f : Forest) :
    .enter (.phrase .program) :: ((s.closed f).events ++ [.leave]) =
      s.events ++ f.events ++ List.replicate s.depth .leave := by
  induction s generalizing f with
  | root below => simp [closed, events, depth, Forest.events_append]
  | rule outer r below ih =>
      rw [closed, ih, depth, List.replicate_succ]
      simp [events, Forest.events, Forest.events_append]

theorem tokens_closed (s : Stem) (f : Forest) : (s.closed f).tokens = s.tokens ++ f.tokens := by
  induction s generalizing f with
  | root below => exact Forest.tokens_append below f
  | rule outer r below ih =>
      rw [closed, ih]
      simp [tokens, Forest.tokens, Forest.tokens_append]

end Stem
end YoloLang
