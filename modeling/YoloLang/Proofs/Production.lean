import Mathlib.Logic.Basic
import YoloLang.Grammar.Task

/-!
The productions of the grammar: what can stand directly below a rule, by kind for tokens and by name
for rules. Main statement: the row of tasks of a rule spells nothing but its productions.
-/

namespace YoloLang

inductive Symbol where
  | token (kind : Kind)
  | rule (rule : Rule)
deriving DecidableEq, Repr

namespace Symbol

abbrev word (word : Keyword) : Symbol := token (.keyword word)

abbrev phrase (phrase : Phrase) : Symbol := rule (.phrase phrase)

def newlines (n : Nat) : List Symbol := List.replicate n (token .newline)

/-- Statements stand one after the other below the rule that they are in. -/
def statements (forms : List Form) : List Symbol := forms.map fun form => rule (.statement form)

/-- Operands with a sign before each. -/
def links (operand : Phrase) (signs : List Kind) : List Symbol :=
  signs.flatMap fun sign => [token sign, phrase operand]

end Symbol

open YoloLang.Symbol

inductive Production : Rule → List Symbol → Prop where
  | program (n : Nat) (forms : List Form) :
      Production (.phrase .program) (newlines n ++ statements forms)
  | newline (n : Nat) : Production (.phrase .newline) (newlines (n + 1))
  | forInit : Production (.phrase .forInit)
      [word .LET, token .identifier, token .eq, phrase .expression]
  | forStep : Production (.phrase .forStep) [token .identifier, token .eq, phrase .expression]
  | comparison (sign : Kind) (signs : List Kind)
      (compare : ∀ k ∈ sign :: signs, k.isComparison = true) :
      Production (.phrase .comparison) (phrase .expression :: links .expression (sign :: signs))
  | expression (signs : List Kind) (sums : ∀ k ∈ signs, k.isSign = true) :
      Production (.phrase .expression) (phrase .term :: links .term signs)
  | term (signs : List Kind) (factors : ∀ k ∈ signs, k.isFactorSign = true) :
      Production (.phrase .term) (phrase .unary :: links .unary signs)
  | unsigned : Production (.phrase .unary) [phrase .primary]
  | signed {sign : Kind} (signs : sign.isSign = true) :
      Production (.phrase .unary) [token sign, phrase .primary]
  | number : Production (.phrase .primary) [token .number]
  | identifier : Production (.phrase .primary) [token .identifier]
  | group : Production (.phrase .primary)
      [token .openParen, phrase .expression, token .closeParen]
  | printText : Production (.statement .print)
      [word .PRINT, token .string, phrase .newline]
  | print : Production (.statement .print) [word .PRINT, phrase .expression, phrase .newline]
  | branch (forms : List Form) : Production (.statement .branch)
      (word .IF :: token .openParen :: phrase .comparison :: token .closeParen :: word .THEN ::
        phrase .newline :: (statements forms ++ [word .ENDIF, phrase .newline]))
  | loop (forms : List Form) : Production (.statement .loop)
      (word .WHILE :: token .openParen :: phrase .comparison :: token .closeParen :: word .REPEAT ::
        phrase .newline :: (statements forms ++ [word .ENDWHILE, phrase .newline]))
  | count (forms : List Form) : Production (.statement .count)
      (word .FOR :: token .openParen :: phrase .forInit :: token .semicolon ::
        phrase .comparison :: token .semicolon :: phrase .forStep :: token .closeParen ::
          word .REPEAT :: phrase .newline ::
            (statements forms ++ [word .ENDFOR, phrase .newline]))
  | label : Production (.statement .label)
      [word .LABEL, token .identifier, phrase .newline]
  | goto : Production (.statement .goto) [word .GOTO, token .identifier, phrase .newline]
  | assign : Production (.statement .assign)
      [word .LET, token .identifier, token .eq, phrase .expression, phrase .newline]
  | input : Production (.statement .input)
      [word .INPUT, token .identifier, phrase .newline]

/-- Only a program can be empty. -/
theorem Production.ne_nil {r : Rule} {ss : List Symbol} (h : Production r ss)
    (inner : r ≠ .phrase .program) : ss ≠ [] := by
  cases h with
  | program => contradiction
  | newline => simp [newlines]
  | _ => simp

/-- A program does not stand below another rule. -/
theorem Production.program_not_mem {r : Rule} {ss : List Symbol} (h : Production r ss) :
    .phrase .program ∉ ss := by
  cases h <;> simp [newlines, statements, links]

/-! What tasks spell. -/

/-- What a task adds below the rule that is open. -/
def Task.Spells : Task → List Symbol → Prop
  | .phrase p, ss => [.phrase p] = ss
  | .expect kind, ss => [token kind] = ss
  | .name _, ss => [token .identifier] = ss
  | .lineEnd, ss => [token .newline] = ss
  | .newlines, ss => ∃ n, Symbol.newlines n = ss
  | .statements, ss => ∃ forms, Symbol.statements forms = ss
  | .block stop, ss => ∃ forms, Symbol.statements forms ++ [word stop] = ss
  | .printed, ss => [token .string] = ss ∨ [.phrase .expression] = ss
  | .compared, ss =>
      ∃ sign : Kind, sign.isComparison = true ∧ [token sign, .phrase .expression] = ss
  | .chain c, ss => ∃ signs, (∀ k ∈ signs, c.joins k = true) ∧ links c.operand signs = ss
  | .sign, ss => [] = ss ∨ ∃ sign : Kind, sign.isSign = true ∧ [token sign] = ss
  | .operand, ss =>
      [token .number] = ss ∨ [token .identifier] = ss ∨
        [token .openParen, .phrase .expression, token .closeParen] = ss
  | .close, ss | .write _, ss | .writeLine _, ss | .writeHeader _, ss | .labels, ss => [] = ss

/-- What the tasks of a row add one after the other. -/
def Spells : List Task → List Symbol → Prop
  | [], ss => [] = ss
  | t :: ts, ss => ∃ xs, t.Spells xs ∧ ∃ ys, Spells ts ys ∧ xs ++ ys = ss

@[simp] theorem spells_nil {ss : List Symbol} : Spells [] ss ↔ [] = ss := Iff.rfl

@[simp] theorem spells_cons {t : Task} {ts : List Task} {ss : List Symbol} :
    Spells (t :: ts) ss ↔ ∃ xs, t.Spells xs ∧ ∃ ys, Spells ts ys ∧ xs ++ ys = ss := Iff.rfl

/-- A rule is spelled by its row of tasks. -/
theorem production_of_phrase {p : Phrase} {ss : List Symbol} (h : Spells p.body ss) :
    Production (.phrase p) ss := by
  cases p <;> simp [Phrase.body, Task.Spells] at h
  case program =>
    obtain ⟨n, forms, rfl⟩ := h
    exact .program n forms
  case newline =>
    obtain ⟨n, rfl⟩ := h
    exact .newline n
  case forInit =>
    obtain rfl := h
    exact .forInit
  case forStep =>
    obtain rfl := h
    exact .forStep
  case comparison =>
    obtain ⟨sign, compares, signs, all, rfl⟩ := h
    exact .comparison sign signs (List.forall_mem_cons.mpr ⟨compares, all⟩)
  case expression =>
    obtain ⟨signs, all, rfl⟩ := h
    exact .expression signs all
  case term =>
    obtain ⟨signs, all, rfl⟩ := h
    exact .term signs all
  case unary =>
    obtain rfl | ⟨sign, signs, rfl⟩ := h
    · exact .unsigned
    · exact .signed signs
  case primary =>
    obtain rfl | rfl | rfl := h
    · exact .number
    · exact .identifier
    · exact .group

/-- A statement is spelled by its keyword and the row of tasks behind it. -/
theorem production_of_form {form : Form} {ss : List Symbol}
    (h : Spells (form.body ++ [.phrase .newline]) ss) :
    Production (.statement form) (word form.keyword :: ss) := by
  cases form <;> simp [Form.body, Form.condition, Form.blockBody, Task.Spells] at h
  case print =>
    obtain rfl | rfl := h
    · exact .printText
    · exact .print
  case branch =>
    obtain ⟨forms, rfl⟩ := h
    exact .branch forms
  case loop =>
    obtain ⟨forms, rfl⟩ := h
    exact .loop forms
  case count =>
    obtain ⟨forms, rfl⟩ := h
    exact .count forms
  case label =>
    obtain rfl := h
    exact .label
  case goto =>
    obtain rfl := h
    exact .goto
  case assign =>
    obtain rfl := h
    exact .assign
  case input =>
    obtain rfl := h
    exact .input

end YoloLang
