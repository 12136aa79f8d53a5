import YoloLang.Proofs.Stack

/-!
Which kinds a part of the grammar can begin with, and which kinds must not come after a task. Main
statement: what a row of tasks gives begins with one of its first kinds.
-/

namespace YoloLang

open Leaf

/-! The kinds a part can begin with. -/

namespace Chain

def signs : Chain → List Kind
  | comparison => [.eqEq, .notEq, .lt, .ltEq, .gt, .gtEq]
  | sum => [.plus, .minus]
  | product => [.asterisk, .slash]

theorem mem_signs_of_joins {c : Chain} {k : Kind} (h : c.joins k = true) : k ∈ c.signs := by
  cases c <;> cases k <;> first | contradiction | decide

theorem joins_eof (c : Chain) : c.joins .eof = false := by
  cases c <;> rfl

end Chain

namespace Form

def firsts : List Kind := all.map fun form => .keyword form.keyword

theorem keyword_mem_firsts (form : Form) : Kind.keyword form.keyword ∈ firsts := by
  cases form <;> decide

theorem eof_not_mem_firsts : Kind.eof ∉ firsts := by decide

end Form

def Phrase.firsts : Phrase → List Kind
  | program => []
  | newline => [.newline]
  | forInit => [.keyword .LET]
  | forStep => [.identifier]
  | comparison | expression | term | unary =>
      [.number, .identifier, .openParen, .plus, .minus]
  | primary => [.number, .identifier, .openParen]

namespace Part

def firsts : Part → List Kind
  | phrase p => p.firsts
  | chain c => c.signs
  | statement | statements => Form.firsts

def skips : Part → Bool
  | phrase _ | statement => false
  | chain _ | statements => true

end Part

/-- The first of these leaves has one of these kinds. -/
def Begins (kinds : List Kind) (ls : List Leaf) : Prop :=
  ∃ l rest, ls = l :: rest ∧ l.token.kind ∈ kinds

namespace Begins

variable {kinds : List Kind} {ls : List Leaf}

theorem cons {l : Leaf} (h : l.token.kind ∈ kinds) (ls : List Leaf) : Begins kinds (l :: ls) :=
  ⟨l, ls, rfl, h⟩

theorem append (h : Begins kinds ls) (more : List Leaf) : Begins kinds (ls ++ more) := by
  obtain ⟨l, rest, rfl, first⟩ := h
  exact cons first (rest ++ more)

theorem mono {wider : List Kind} (h : Begins kinds ls) (sub : ∀ k ∈ kinds, k ∈ wider) :
    Begins wider ls := by
  obtain ⟨l, rest, whole, first⟩ := h
  exact ⟨l, rest, whole, sub _ first⟩

/-- What comes after a part that can be skipped may be what begins. -/
theorem append_or {more : List Kind} {skips : Bool} {rest : List Leaf}
    (front : (ls = [] ∧ skips = true) ∨ Begins kinds ls) (back : rest = [] ∨ Begins more rest) :
    ls ++ rest = [] ∨ Begins (kinds ++ if skips then more else []) (ls ++ rest) := by
  obtain ⟨rfl, rfl⟩ | begins := front
  · refine back.imp id fun h => h.mono ?_
    intro k mem
    exact List.mem_append_right _ mem
  · refine .inr ((begins.append rest).mono ?_)
    intro k mem
    exact List.mem_append_left _ mem

end Begins

/-- A part that cannot be skipped begins with one of its first kinds. -/
theorem Tree.leaves_begin {part : Part} (t : Tree part) :
    (t.leaves = [] ∧ part.skips = true) ∨ Begins part.firsts t.leaves := by
  induction t with
  | done | empty => exact .inl ⟨rfl, rfl⟩
  | number t | identifier t => exact .inr (.cons (by simp [plain, naming, t.2.1]; decide) _)
  | group t | newline t | forInit t | forStep t | printText t | print t | branch t | loop t
  | count t | label t | goto t | assign t | input t =>
      exact .inr (.cons (by simp [plain, naming, t.2.1]; decide) _)
  | link c sign => exact .inr (.cons (Chain.mem_signs_of_joins sign.2.1) _)
  | signed sign =>
      have first : sign.1.kind ∈ Chain.sum.signs := Chain.mem_signs_of_joins sign.2.1
      exact .inr (.mono (.cons first _) (by decide))
  | unsigned operand ih => exact .inr ((ih.resolve_left (by simp [Part.skips])).mono (by decide))
  | term first more ih => exact .inr ((ih.resolve_left (by simp [Part.skips])).append _)
  | expression first more ih => exact .inr ((ih.resolve_left (by simp [Part.skips])).append _)
  | comparison first sign second more ih =>
      exact .inr ((ih.resolve_left (by simp [Part.skips])).append _)
  | cons first rest ih => exact .inr ((ih.resolve_left (by simp [Part.skips])).append _)

namespace Task

/-- The kinds this task can begin with, apart from what comes after it. -/
def firsts : Task → List Kind
  | .phrase p => p.firsts
  | .expect k => [k]
  | .name _ => [.identifier]
  | .lineEnd | .newlines => [.newline]
  | .statements => Form.firsts
  | .block stop => .keyword stop :: Form.firsts
  | .printed => .string :: Phrase.expression.firsts
  | .compared => Chain.comparison.signs
  | .chain c => c.signs
  | .sign => Chain.sum.signs
  | .operand => Phrase.primary.firsts
  | .close | .write _ | .writeLine _ | .writeHeader _ | .labels => []

/-- Whether this task can be done without a token. -/
def skips : Task → Bool
  | .close | .write _ | .writeLine _ | .writeHeader _ | .labels | .newlines | .statements
  | .chain _ | .sign => true
  | _ => false

/-- The kinds that must not come next, for the task would take them for its own. -/
def avoids : Task → List Kind
  | .phrase .newline | .newlines => [.newline]
  | .phrase .term | .chain .product => Chain.product.signs
  | .phrase .forInit | .phrase .forStep | .phrase .expression | .printed | .compared
  | .chain .sum => Chain.sum.signs ++ Chain.product.signs
  | .phrase .comparison | .chain .comparison =>
      Chain.comparison.signs ++ (Chain.sum.signs ++ Chain.product.signs)
  | .sign => Chain.sum.signs
  | .statements => Kind.all
  | _ => []

/-- The tasks of a program after its header and before its end. -/
def isInner : Task → Bool
  | .phrase .program | .writeHeader _ | .labels | .expect .eof => false
  | .block stop => .keyword stop ∉ Form.firsts
  | _ => true

end Task

def firsts : List Task → List Kind
  | [] => []
  | t :: ts => t.firsts ++ if t.skips then firsts ts else []

/-- No task can take a token that is meant for a later one. -/
def Guarded : List Task → Prop
  | [] => True
  | t :: ts => t.isInner = true ∧ (∀ k ∈ firsts ts, k ∉ t.avoids) ∧ Guarded ts

theorem begins_of_gives {ts : List Task} {ls : List Leaf} {x : String} (h : Gives ts ls x) :
    ls = [] ∨ Begins (firsts ts) ls := by
  induction ts generalizing ls x with
  | nil => exact .inl h.1
  | cons t ts ih =>
      cases t with
      | close | writeHeader | labels => exact Begins.append_or (.inl ⟨rfl, rfl⟩) (ih h)
      | write | writeLine =>
          obtain ⟨y, h, -⟩ := h
          exact Begins.append_or (.inl ⟨rfl, rfl⟩) (ih h)
      | phrase | chain | statements | operand =>
          obtain ⟨t, rest, y, h, rfl, -⟩ := h
          exact Begins.append_or t.leaves_begin (ih h)
      | expect | lineEnd =>
          obtain ⟨t, rest, h, rfl⟩ := h
          exact Begins.append_or (.inr (.cons (by simp [plain, Task.firsts, t.2.1]) [])) (ih h)
      | name =>
          obtain ⟨t, rest, y, h, rfl, -⟩ := h
          exact Begins.append_or (.inr (.cons (by simp [naming, Task.firsts, t.2.1]) [])) (ih h)
      | newlines =>
          obtain ⟨lines, rest, h, rfl⟩ := h
          cases lines with
          | nil => exact Begins.append_or (.inl ⟨rfl, rfl⟩) (ih h)
          | cons t lines =>
              exact Begins.append_or (.inr (.cons (by simp [plain, Task.firsts, t.2.1]) _)) (ih h)
      | block stop =>
          obtain ⟨t, s, rest, y, h, rfl, -⟩ := h
          have begins : Begins (Task.block stop).firsts (t.leaves ++ [plain s]) := by
            obtain ⟨none, -⟩ | begins := t.leaves_begin
            · rw [none]
              exact .cons (by simp [plain, Task.firsts, s.2.1]) []
            · exact (begins.append _).mono fun k mem => List.mem_cons_of_mem _ mem
          rw [List.append_cons]
          exact Begins.append_or (.inr begins) (ih h)
      | printed =>
          obtain ⟨rest, y, h, ⟨t, rfl, -⟩ | ⟨t, rfl, -⟩⟩ := h
          · exact Begins.append_or (.inr (.cons (by simp [plain, Task.firsts, t.2.1]) [])) (ih h)
          · have begins := t.leaves_begin.resolve_left (by simp [Part.skips])
            have wider : Begins Task.printed.firsts t.leaves :=
              begins.mono fun k mem => List.mem_cons_of_mem _ mem
            exact Begins.append_or (.inr wider) (ih h)
      | compared =>
          obtain ⟨s, t, rest, y, h, rfl, -⟩ := h
          have first : s.1.kind ∈ Chain.comparison.signs := Chain.mem_signs_of_joins s.2.1
          exact Begins.append_or (.inr (.cons first t.leaves)) (ih h)
      | sign =>
          obtain h | ⟨s, rest, y, h, rfl, -⟩ := h
          · exact Begins.append_or (.inl ⟨rfl, rfl⟩) (ih h)
          · have first : s.1.kind ∈ Chain.sum.signs := Chain.mem_signs_of_joins s.2.1
            exact Begins.append_or (.inr (.cons first [])) (ih h)

/-- The next of these leaves is the current token, or there is none and the token is the end. -/
def Shows (a : Token) : List Leaf → Prop
  | [] => a.kind = .eof
  | l :: _ => l.token = a

theorem Begins.kind_mem {kinds : List Kind} {a : Token} {ls : List Leaf} (h : Begins kinds ls)
    (shown : Shows a ls) : a.kind ∈ kinds := by
  obtain ⟨l, rest, rfl, first⟩ := h
  have same : l.token = a := shown
  exact same ▸ first

/-- What comes after a guarded task is not what the task looks for. -/
theorem not_mem_avoids_of_guarded {t : Task} {ts : List Task} {a : Token} {ls : List Leaf}
    {x : String} (guard : Guarded (t :: ts)) (h : Gives ts ls x) (shown : Shows a ls) :
    a.kind = .eof ∨ a.kind ∉ t.avoids := by
  obtain rfl | begins := begins_of_gives h
  · exact .inl shown
  · exact .inr (guard.2.1 _ (begins.kind_mem shown))

end YoloLang
