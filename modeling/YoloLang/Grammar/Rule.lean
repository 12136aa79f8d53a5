import YoloLang.Token.Kind

/-!
The rules of the grammar.

    program     = newlines, statements
    statement   = "PRINT", (expression | string), newline
                | "IF", "(", comparison, ")", "THEN", newline, statements, "ENDIF", newline
                | "WHILE", "(", comparison, ")", "REPEAT", newline, statements, "ENDWHILE", newline
                | "FOR", "(", for-init, ";", comparison, ";", for-step, ")", "REPEAT", newline,
                  statements, "ENDFOR", newline
                | "LABEL", name, newline
                | "GOTO", name, newline
                | "LET", name, "=", expression, newline
                | "INPUT", name, newline
    for-init    = "LET", name, "=", expression
    for-step    = name, "=", expression
    comparison  = expression, comparison sign, expression, more such pairs
    expression  = term, pairs of "+" or "-" and a term
    term        = unary, pairs of "*" or "/" and a unary
    unary       = an optional "+" or "-", primary
    primary     = number | name | "(", expression, ")"
    newline     = one line end or more
-/

namespace YoloLang

/-- The forms of a statement. Each has a keyword of its own that starts it. -/
inductive Form where
  | print
  | branch
  | loop
  | count
  | label
  | goto
  | assign
  | input
deriving DecidableEq, Repr

namespace Form

def all : List Form := [.print, .branch, .loop, .count, .label, .goto, .assign, .input]

def keyword : Form → Keyword
  | print => .PRINT
  | branch => .IF
  | loop => .WHILE
  | count => .FOR
  | label => .LABEL
  | goto => .GOTO
  | assign => .LET
  | input => .INPUT

def ofKind? (kind : Kind) : Option Form := all.find? fun form => .keyword form.keyword == kind

theorem ofKind?_eq_some_iff {kind : Kind} {form : Form} :
    ofKind? kind = some form ↔ kind = .keyword form.keyword := by
  constructor
  · intro h
    have found := List.find?_some h
    exact (beq_iff_eq.mp found).symm
  · rintro rfl
    cases form <;> rfl

end Form

/-- The rules within statements, and the whole program. -/
inductive Phrase where
  | program
  | newline
  | forInit
  | forStep
  | comparison
  | expression
  | term
  | unary
  | primary
deriving DecidableEq, Repr

inductive Rule where
  | phrase (phrase : Phrase)
  | statement (form : Form)
deriving DecidableEq, Repr

def Rule.name : Rule → String
  | phrase .program => "PROGRAM"
  | phrase .newline => "NEWLINE"
  | phrase .forInit => "FOR-INIT"
  | phrase .forStep => "FOR-STEP"
  | phrase .comparison => "COMPARISON"
  | phrase .expression => "EXPRESSION"
  | phrase .term => "TERM"
  | phrase .unary => "UNARY"
  | phrase .primary => "PRIMARY"
  | statement form => "STATEMENT-" ++ form.keyword.text

end YoloLang
