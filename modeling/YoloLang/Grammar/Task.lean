import YoloLang.Grammar.Rule

/-!
What is left to do while a program is read. A rule is a row of tasks: tokens to take, rules within
it, and C text to write in between. Some tasks look at the current token to choose what follows.
Their cost bounds how many of them a token can call for.
-/

namespace YoloLang

/-- Operands in a row, with signs between them. -/
inductive Chain where
  | comparison
  | sum
  | product
deriving DecidableEq, Repr

namespace Chain

def joins : Chain → Kind → Bool
  | comparison => Kind.isComparison
  | sum => Kind.isSign
  | product => Kind.isFactorSign

def operand : Chain → Phrase
  | comparison => .expression
  | sum => .term
  | product => .unary

end Chain

/-- What a statement does with the name it gives. -/
inductive Role where
  | assigned
  | counter
  | stepped
  | read
  | marked
  | sought
deriving DecidableEq, Repr

inductive Task where
  | phrase (phrase : Phrase)
  | close
  | expect (kind : Kind)
  | name (role : Role)
  | write (text : String)
  | writeLine (text : String)
  | writeHeader (text : String)
  | lineEnd
  | newlines
  | statements
  | block (stop : Keyword)
  | printed
  | compared
  | chain (chain : Chain)
  | sign
  | operand
  | labels
deriving DecidableEq, Repr

def Phrase.body : Phrase → List Task
  | program =>
      [.writeHeader "#include <stdio.h>", .writeHeader "int main()\x7b", .newlines, .statements,
        .writeLine "return 0;", .writeLine "\x7d", .labels]
  | newline => [.lineEnd, .newlines]
  | forInit => [.expect (.keyword .LET), .name .counter, .expect .eq, .phrase .expression]
  | forStep => [.name .stepped, .expect .eq, .phrase .expression]
  | comparison => [.phrase .expression, .compared, .chain .comparison]
  | expression => [.phrase .term, .chain .sum]
  | term => [.phrase .unary, .chain .product]
  | unary => [.sign, .phrase .primary]
  | primary => [.operand]

namespace Form

/-- The condition of a block, from its bracket to the end of its line. -/
def condition (before : Keyword) : List Task :=
  [.phrase .comparison, .expect .closeParen, .expect (.keyword before), .phrase .newline]

def blockBody (stop : Keyword) : List Task :=
  [.writeLine ")\x7b", .block stop, .writeLine "\x7d"]

/-- What follows the keyword of a statement, up to the end of its line. -/
def body : Form → List Task
  | print => [.printed]
  | branch => [.expect .openParen, .write "if("] ++ condition .THEN ++ blockBody .ENDIF
  | loop => [.expect .openParen, .write "while("] ++ condition .REPEAT ++ blockBody .ENDWHILE
  | count =>
      [.expect .openParen, .write "for(", .phrase .forInit, .expect .semicolon, .write ";",
        .phrase .comparison, .expect .semicolon, .write ";", .phrase .forStep, .expect .closeParen,
        .expect (.keyword .REPEAT), .phrase .newline] ++ blockBody .ENDFOR
  | label => [.name .marked]
  | goto => [.name .sought]
  | assign => [.name .assigned, .expect .eq, .phrase .expression, .writeLine ";"]
  | input => [.name .read]

end Form

/-- One more than what the body and the closing of a phrase cost. -/
def Phrase.cost : Phrase → Nat
  | program => 9
  | newline => 4
  | forInit => 17
  | forStep => 16
  | comparison => 16
  | expression => 12
  | term => 9
  | unary => 6
  | primary => 3

namespace Task

def cost : Task → Nat
  | phrase p => p.cost
  | printed => 15
  | _ => 1

def costs : List Task → Nat
  | [] => 0
  | t :: ts => t.cost + costs ts

/-- More than any statement costs after its keyword. -/
def perToken : Nat := 80

theorem costs_nil : costs [] = 0 := rfl

theorem costs_cons (t : Task) (ts : List Task) : costs (t :: ts) = t.cost + costs ts := rfl

theorem costs_append (xs ys : List Task) : costs (xs ++ ys) = costs xs + costs ys := by
  induction xs with
  | nil => simp [costs]
  | cons x xs ih => simp [costs, ih, Nat.add_assoc]

theorem cost_pos (t : Task) : 0 < t.cost := by
  cases t with
  | phrase p => cases p <;> decide
  | printed => decide
  | _ => exact Nat.one_pos

end Task

theorem Phrase.costs_body (p : Phrase) : Task.costs p.body + 1 < p.cost := by
  cases p <;> decide

theorem Form.costs_body (form : Form) : Task.costs form.body + 6 < Task.perToken := by
  cases form <;> decide

end YoloLang
