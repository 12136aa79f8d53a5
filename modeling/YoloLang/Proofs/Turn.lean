import YoloLang.Grammar.Fault
import YoloLang.Proofs.Follow
import YoloLang.Walk.Observer

/-!
The grammar of a walk by itself: what a task makes of the current token, apart from names and from
all that is kept on the way. Main statement: the ways in which a task turns.
-/

namespace YoloLang

open Leaf

/-- The leaf that a task takes, if it takes one, what it writes, and the tasks in its place. -/
structure Turn where
  taken : Option Leaf
  text : String
  next : List Task

def Form.turn (a : Token) (again : Task) : Except GrammarFault Turn :=
  match Form.ofKind? a.kind with
  | none => .error (.invalidStatement a.text a.kind)
  | some form => .ok ⟨some (plain a), "", form.body ++ [.phrase .newline, .close, again]⟩

namespace Task

def turn (a : Token) : Task → Except GrammarFault Turn
  | .phrase p => .ok ⟨none, "", p.body ++ [.close]⟩
  | .close | .writeHeader _ | .labels => .ok ⟨none, "", []⟩
  | .write s => .ok ⟨none, s, []⟩
  | .writeLine s => .ok ⟨none, s ++ "\n", []⟩
  | .expect k =>
      if a.kind = k then .ok ⟨some (plain a), "", []⟩ else .error (.expected k a.kind)
  | .name role =>
      if a.kind = .identifier then .ok ⟨some (naming role.mention a), role.code a.text, []⟩
      else .error (.expected .identifier a.kind)
  | .lineEnd =>
      if a.kind = .newline then .ok ⟨some (plain a), "", []⟩ else .error (.missingNewline a.kind)
  | .newlines =>
      if a.kind = .newline then .ok ⟨some (plain a), "", [.newlines]⟩ else .ok ⟨none, "", []⟩
  | .statements => if a.kind = .eof then .ok ⟨none, "", []⟩ else Form.turn a .statements
  | .block stop =>
      if a.kind = .keyword stop then .ok ⟨some (plain a), "", []⟩
      else if a.kind = .eof then .error (.unterminatedBlock stop)
      else Form.turn a (.block stop)
  | .printed =>
      if a.kind = .string then .ok ⟨some (plain a), CText.printText a.text, []⟩
      else .ok ⟨none, "",
        [.write "printf(\"%.2f\\n\", (float)(", .phrase .expression, .writeLine "));"]⟩
  | .compared =>
      if a.kind.isComparison then .ok ⟨some (plain a), a.text, [.phrase .expression]⟩
      else .error (.expectedComparison a.text)
  | .chain c =>
      if c.joins a.kind then .ok ⟨some (plain a), a.text, [.phrase c.operand, .chain c]⟩
      else .ok ⟨none, "", []⟩
  | .sign => if a.kind.isSign then .ok ⟨some (plain a), a.text, []⟩ else .ok ⟨none, "", []⟩
  | .operand =>
      match a.kind with
      | .number => .ok ⟨some (plain a), a.text, []⟩
      | .identifier => .ok ⟨some (naming .operand a), a.text, []⟩
      | .openParen =>
          .ok ⟨some (plain a), a.text, [.phrase .expression, .expect .closeParen, .write ")"]⟩
      | kind => .error (.unexpected a.text kind)

end Task

/-- How many rules are open after an event. -/
def Event.level (n : Nat) : Event → Nat
  | .enter _ => n + 1
  | .leave => n - 1
  | .token _ => n

namespace Task

/-- The beginning of a statement. -/
def begins (a : Token) : List Event :=
  (Form.ofKind? a.kind).elim [] fun form => [.enter (.statement form), .token a]

/-- What is seen of a task that turns. -/
def shown (a : Token) (r : Turn) : Task → List Event
  | .phrase p => [.enter (.phrase p)]
  | .close => [.leave]
  | .statements => begins a
  | .block stop => if a.kind = .keyword stop then [.token a] else begins a
  | _ => r.taken.toList.map fun l => .token l.token

/-- What is seen of a task that is broken off. A name that breaks a rule is read all the same,
unless it stands in an expression. -/
inductive Broken (a : Token) : Task → List Event → Prop where
  | before (t : Task) : Broken a t []
  | within (t : Task) {form : Form} (kind : a.kind = .keyword form.keyword) :
      Broken a t [.enter (.statement form)]
  | behind {role : Role} (kind : a.kind = .identifier) (given : role.mention ≠ .target) :
      Broken a (.name role) [.token a]

section Shown

variable {a : Token} {r : Turn} {form : Form} {stop : Keyword}

theorem begins_of_kind (kind : a.kind = .keyword form.keyword) :
    begins a = [.enter (.statement form), .token a] := by
  rw [begins, Form.ofKind?_eq_some_iff.mpr kind]
  rfl

theorem shown_noStatement (kind : a.kind = .eof) : shown a r .statements = [] := by
  rw [shown, begins, kind]
  rfl

theorem shown_statements (kind : a.kind = .keyword form.keyword) :
    shown a r .statements = [.enter (.statement form), .token a] :=
  begins_of_kind kind

theorem shown_stop (kind : a.kind = .keyword stop) : shown a r (.block stop) = [.token a] :=
  if_pos kind

theorem shown_block (kind : a.kind = .keyword form.keyword) (more : a.kind ≠ .keyword stop) :
    shown a r (.block stop) = [.enter (.statement form), .token a] :=
  (if_neg more).trans (begins_of_kind kind)

end Shown

end Task

/-- The ways in which an inner task turns, with what it has found of the current token. -/
inductive Turns (a : Token) : Task → Turn → Prop where
  | phrase (p : Phrase) : Turns a (.phrase p) ⟨none, "", p.body ++ [.close]⟩
  | close : Turns a .close ⟨none, "", []⟩
  | write (s : String) : Turns a (.write s) ⟨none, s, []⟩
  | writeLine (s : String) : Turns a (.writeLine s) ⟨none, s ++ "\n", []⟩
  | expect {k : Kind} (kind : a.kind = k) : Turns a (.expect k) ⟨some (plain a), "", []⟩
  | name (role : Role) (kind : a.kind = .identifier) :
      Turns a (.name role) ⟨some (naming role.mention a), role.code a.text, []⟩
  | lineEnd (kind : a.kind = .newline) : Turns a .lineEnd ⟨some (plain a), "", []⟩
  | newline (kind : a.kind = .newline) : Turns a .newlines ⟨some (plain a), "", [.newlines]⟩
  | noNewline (kind : a.kind ≠ .newline) : Turns a .newlines ⟨none, "", []⟩
  | noStatement (kind : a.kind = .eof) : Turns a .statements ⟨none, "", []⟩
  | statement (form : Form) (kind : a.kind = .keyword form.keyword) :
      Turns a .statements
        ⟨some (plain a), "", form.body ++ [.phrase .newline, .close, .statements]⟩
  | stop {stop : Keyword} (kind : a.kind = .keyword stop) :
      Turns a (.block stop) ⟨some (plain a), "", []⟩
  | inBlock {stop : Keyword} (form : Form) (kind : a.kind = .keyword form.keyword)
      (more : a.kind ≠ .keyword stop) :
      Turns a (.block stop)
        ⟨some (plain a), "", form.body ++ [.phrase .newline, .close, .block stop]⟩
  | text (kind : a.kind = .string) :
      Turns a .printed ⟨some (plain a), CText.printText a.text, []⟩
  | value (kind : a.kind ≠ .string) :
      Turns a .printed ⟨none, "",
        [.write "printf(\"%.2f\\n\", (float)(", .phrase .expression, .writeLine "));"]⟩
  | compared (sign : a.kind.isComparison = true) :
      Turns a .compared ⟨some (plain a), a.text, [.phrase .expression]⟩
  | link {c : Chain} (joins : c.joins a.kind = true) :
      Turns a (.chain c) ⟨some (plain a), a.text, [.phrase c.operand, .chain c]⟩
  | noLink {c : Chain} (joins : ¬ c.joins a.kind = true) : Turns a (.chain c) ⟨none, "", []⟩
  | signed (sign : a.kind.isSign = true) : Turns a .sign ⟨some (plain a), a.text, []⟩
  | unsigned (sign : ¬ a.kind.isSign = true) : Turns a .sign ⟨none, "", []⟩
  | number (kind : a.kind = .number) : Turns a .operand ⟨some (plain a), a.text, []⟩
  | identifier (kind : a.kind = .identifier) :
      Turns a .operand ⟨some (naming .operand a), a.text, []⟩
  | group (kind : a.kind = .openParen) :
      Turns a .operand
        ⟨some (plain a), a.text, [.phrase .expression, .expect .closeParen, .write ")"]⟩

theorem turns_of_form {a : Token} {again : Task} {r : Turn} (h : Form.turn a again = .ok r) :
    ∃ form : Form, a.kind = .keyword form.keyword ∧
      r = ⟨some (plain a), "", form.body ++ [.phrase .newline, .close, again]⟩ := by
  simp only [Form.turn] at h
  split at h <;> simp only [Except.ok.injEq, reduceCtorEq] at h
  rename_i form known
  exact ⟨form, Form.ofKind?_eq_some_iff.mp known, h.symm⟩

theorem turns_of_turn {a : Token} {t : Task} {r : Turn} (inner : t.isInner = true)
    (h : t.turn a = .ok r) : Turns a t r := by
  cases t with
  | phrase p =>
      obtain rfl := Except.ok.inj h
      exact .phrase p
  | close =>
      obtain rfl := Except.ok.inj h
      exact .close
  | write s =>
      obtain rfl := Except.ok.inj h
      exact .write s
  | writeLine s =>
      obtain rfl := Except.ok.inj h
      exact .writeLine s
  | writeHeader | labels => contradiction
  | statements =>
      simp only [Task.turn] at h
      split at h
      · obtain rfl := Except.ok.inj h
        exact .noStatement ‹_›
      · obtain ⟨form, kind, rfl⟩ := turns_of_form h
        exact .statement form kind
  | block stop =>
      simp only [Task.turn] at h
      split at h
      · obtain rfl := Except.ok.inj h
        exact .stop ‹_›
      · split at h
        · contradiction
        · obtain ⟨form, kind, rfl⟩ := turns_of_form h
          exact .inBlock form kind ‹_›
  | expect | name | lineEnd | compared =>
      simp only [Task.turn] at h
      split at h <;> simp only [Except.ok.injEq, reduceCtorEq] at h
      subst h
      constructor
      assumption
  | newlines | printed | chain | sign =>
      simp only [Task.turn] at h
      split at h <;> obtain rfl := Except.ok.inj h
      all_goals
        constructor
        assumption
  | operand =>
      simp only [Task.turn] at h
      split at h <;> simp only [Except.ok.injEq, reduceCtorEq] at h <;> subst h
      all_goals
        constructor
        assumption

/-- A leaf that is taken is the current token, and only identifiers are names. -/
theorem taken_of_turn {a : Token} {t : Task} {r : Turn} {l : Leaf} (inner : t.isInner = true)
    (h : t.turn a = .ok r) (taken : r.taken = some l) :
    l.token = a ∧ a.kind ≠ .eof ∧ (l.mention.isSome → a.kind = .identifier) := by
  have plainly (kind : a.kind ≠ .eof) (same : some (plain a) = some l) :
      l.token = a ∧ a.kind ≠ .eof ∧ (l.mention.isSome → a.kind = .identifier) := by
    obtain rfl := Option.some.inj same
    exact ⟨rfl, kind, by simp [plain]⟩
  have named {m : Mention} (kind : a.kind = .identifier) (same : some (naming m a) = some l) :
      l.token = a ∧ a.kind ≠ .eof ∧ (l.mention.isSome → a.kind = .identifier) := by
    obtain rfl := Option.some.inj same
    exact ⟨rfl, by simp [kind], fun _ => kind⟩
  have joined {c : Chain} (joins : c.joins a.kind = true) : a.kind ≠ .eof := by
    intro eof
    simp [eof, Chain.joins_eof] at joins
  cases turns_of_turn inner h with
  | phrase | close | write | writeLine | noNewline | noStatement | value | noLink | unsigned =>
      contradiction
  | expect kind =>
      refine plainly ?_ taken
      rw [kind]
      rintro rfl
      contradiction
  | name role kind => exact named kind taken
  | lineEnd kind | newline kind | statement form kind | stop kind | inBlock form kind | text kind
  | number kind | group kind => exact plainly (by simp [kind]) taken
  | compared sign => exact plainly (joined (c := .comparison) sign) taken
  | link joins => exact plainly (joined joins) taken
  | signed sign => exact plainly (joined (c := .sum) sign) taken
  | identifier kind => exact named kind taken

end YoloLang
