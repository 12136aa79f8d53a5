import YoloLang.Grammar.Task
import YoloLang.Lexeme.Basic
import YoloLang.Token.Basic

/-!
Syntax trees of the grammar, one constructor for each way a rule can be taken. A tree holds every
token of its part of a program, so its leaves in order are what it derives. Its code is the C text
of the part, and an expression stands in it as its tokens are spelled.
-/

namespace YoloLang

/-- Some text has this token as a lexeme. -/
def Token.Lexed (t : Token) : Prop :=
  ∃ cs l, Lexeme.read cs = .ok l ∧ t.kind = l.kind ∧ t.text = l.text

abbrev Terminal (kind : Kind) := {t : Token // t.kind = kind ∧ t.Lexed}

abbrev Sign (isSign : Kind → Bool) := {t : Token // isSign t.kind = true ∧ t.Lexed}

/-! The C text of statements. -/

namespace CText

def printText (text : String) : String := "printf(\"" ++ text ++ "\\n\");\n"

def printNumber (value : String) : String :=
  "printf(\"%.2f\\n\", (float)(" ++ value ++ "));\n"

theorem printNumber_eq (value : String) :
    printNumber value = "printf(\"%.2f\\n\", (float)(" ++ value ++ "));\n" := rfl

/-- A variable with what it is given to follow. -/
def assigned (name : String) : String := name ++ " = "

def counter (name : String) : String := "int " ++ name ++ " = "

/-- Reads a number. Without one the variable is zero and the word in its place is dropped. -/
def scan (name : String) : String :=
  "if(0==scanf(\"%f\", &" ++ name ++ ")) \x7b\n" ++ name ++ " = 0;\n"
    ++ "scanf(\"%*s\");\n" ++ "\x7d\n"

theorem scan_eq (name : String) :
    scan name = "if(0==scanf(\"%f\", &" ++ name ++ ")) \x7b\n" ++ name ++ " = 0;\n"
      ++ "scanf(\"%*s\");\n" ++ "\x7d\n" := rfl

def marker (name : String) : String := name ++ ":\n"

def jump (name : String) : String := "goto " ++ name ++ ";\n"

def block (word condition body : String) : String :=
  word ++ "(" ++ condition ++ ")\x7b\n" ++ body ++ "\x7d\n"

end CText

/-- What a token says about the name it spells. -/
inductive Mention where
  | target
  | operand
  | stepped
  | marked
  | sought
deriving DecidableEq, Repr

structure Leaf where
  token : Token
  mention : Option Mention
deriving Repr

namespace Leaf

def plain (t : Token) : Leaf := ⟨t, none⟩

def naming (mention : Mention) (t : Token) : Leaf := ⟨t, some mention⟩

/-- The C text of leaves in a row, with nothing between them. -/
def spelling : List Leaf → String
  | [] => ""
  | l :: ls => l.token.text ++ spelling ls

theorem spelling_append (xs ys : List Leaf) :
    spelling (xs ++ ys) = spelling xs ++ spelling ys := by
  induction xs with
  | nil => simp [spelling]
  | cons x xs ih => simp only [List.cons_append, spelling, ih, String.append_assoc]

end Leaf

inductive Part where
  | phrase (phrase : Phrase)
  | chain (chain : Chain)
  | statement
  | statements
deriving DecidableEq, Repr

inductive Tree : Part → Type where
  | number (number : Terminal .number) : Tree (.phrase .primary)
  | identifier (name : Terminal .identifier) : Tree (.phrase .primary)
  | group (opening : Terminal .openParen) (inner : Tree (.phrase .expression))
      (closing : Terminal .closeParen) : Tree (.phrase .primary)
  | unsigned (operand : Tree (.phrase .primary)) : Tree (.phrase .unary)
  | signed (sign : Sign Kind.isSign) (operand : Tree (.phrase .primary)) : Tree (.phrase .unary)
  | term (first : Tree (.phrase .unary)) (more : Tree (.chain .product)) : Tree (.phrase .term)
  | expression (first : Tree (.phrase .term)) (more : Tree (.chain .sum)) :
      Tree (.phrase .expression)
  | comparison (first : Tree (.phrase .expression)) (sign : Sign Kind.isComparison)
      (second : Tree (.phrase .expression)) (more : Tree (.chain .comparison)) :
      Tree (.phrase .comparison)
  | done (chain : Chain) : Tree (.chain chain)
  | link (chain : Chain) (sign : Sign chain.joins) (operand : Tree (.phrase chain.operand))
      (more : Tree (.chain chain)) : Tree (.chain chain)
  | newline (first : Terminal .newline) (more : List (Terminal .newline)) :
      Tree (.phrase .newline)
  | forInit (word : Terminal (.keyword .LET)) (name : Terminal .identifier) (eq : Terminal .eq)
      (value : Tree (.phrase .expression)) : Tree (.phrase .forInit)
  | forStep (name : Terminal .identifier) (eq : Terminal .eq)
      (value : Tree (.phrase .expression)) : Tree (.phrase .forStep)
  | printText (word : Terminal (.keyword .PRINT)) (text : Terminal .string)
      (ends : Tree (.phrase .newline)) : Tree .statement
  | print (word : Terminal (.keyword .PRINT)) (value : Tree (.phrase .expression))
      (ends : Tree (.phrase .newline)) : Tree .statement
  | branch (word : Terminal (.keyword .IF)) (opening : Terminal .openParen)
      (condition : Tree (.phrase .comparison)) (closing : Terminal .closeParen)
      (before : Terminal (.keyword .THEN)) (line : Tree (.phrase .newline))
      (body : Tree .statements) (stop : Terminal (.keyword .ENDIF))
      (ends : Tree (.phrase .newline)) : Tree .statement
  | loop (word : Terminal (.keyword .WHILE)) (opening : Terminal .openParen)
      (condition : Tree (.phrase .comparison)) (closing : Terminal .closeParen)
      (before : Terminal (.keyword .REPEAT)) (line : Tree (.phrase .newline))
      (body : Tree .statements) (stop : Terminal (.keyword .ENDWHILE))
      (ends : Tree (.phrase .newline)) : Tree .statement
  | count (word : Terminal (.keyword .FOR)) (opening : Terminal .openParen)
      (init : Tree (.phrase .forInit)) (semicolon : Terminal .semicolon)
      (condition : Tree (.phrase .comparison)) (semicolon' : Terminal .semicolon)
      (step : Tree (.phrase .forStep)) (closing : Terminal .closeParen)
      (before : Terminal (.keyword .REPEAT)) (line : Tree (.phrase .newline))
      (body : Tree .statements) (stop : Terminal (.keyword .ENDFOR))
      (ends : Tree (.phrase .newline)) : Tree .statement
  | label (word : Terminal (.keyword .LABEL)) (name : Terminal .identifier)
      (ends : Tree (.phrase .newline)) : Tree .statement
  | goto (word : Terminal (.keyword .GOTO)) (name : Terminal .identifier)
      (ends : Tree (.phrase .newline)) : Tree .statement
  | assign (word : Terminal (.keyword .LET)) (name : Terminal .identifier) (eq : Terminal .eq)
      (value : Tree (.phrase .expression)) (ends : Tree (.phrase .newline)) : Tree .statement
  | input (word : Terminal (.keyword .INPUT)) (name : Terminal .identifier)
      (ends : Tree (.phrase .newline)) : Tree .statement
  | empty : Tree .statements
  | cons (first : Tree .statement) (rest : Tree .statements) : Tree .statements

namespace Tree

open Leaf

def leaves {part : Part} : Tree part → List Leaf
  | number t => [plain t]
  | identifier t => [naming .operand t]
  | group opening inner closing => plain opening :: (inner.leaves ++ [plain closing])
  | unsigned operand => operand.leaves
  | signed sign operand => plain sign :: operand.leaves
  | term first more | expression first more => first.leaves ++ more.leaves
  | comparison first sign second more =>
      first.leaves ++ plain sign :: (second.leaves ++ more.leaves)
  | done _ => []
  | link _ sign operand more => plain sign :: (operand.leaves ++ more.leaves)
  | newline first more => plain first :: more.map (plain ·.1)
  | forInit word name eq value =>
      plain word :: naming .target name :: plain eq :: value.leaves
  | forStep name eq value => naming .stepped name :: plain eq :: value.leaves
  | printText word text ends => plain word :: plain text :: ends.leaves
  | print word value ends => plain word :: (value.leaves ++ ends.leaves)
  | branch word opening condition closing before line body stop ends
  | loop word opening condition closing before line body stop ends =>
      plain word :: plain opening :: (condition.leaves ++ plain closing :: plain before ::
        (line.leaves ++ (body.leaves ++ plain stop :: ends.leaves)))
  | count word opening init semicolon condition semicolon' step closing before line body stop
      ends =>
      plain word :: plain opening :: (init.leaves ++ plain semicolon :: (condition.leaves ++
        plain semicolon' :: (step.leaves ++ plain closing :: plain before ::
          (line.leaves ++ (body.leaves ++ plain stop :: ends.leaves)))))
  | label word name ends => plain word :: naming .marked name :: ends.leaves
  | goto word name ends => plain word :: naming .sought name :: ends.leaves
  | assign word name eq value ends =>
      plain word :: naming .target name :: plain eq :: (value.leaves ++ ends.leaves)
  | input word name ends => plain word :: naming .target name :: ends.leaves
  | empty => []
  | cons first rest => first.leaves ++ rest.leaves

def code {part : Part} : Tree part → String
  | newline _ _ => ""
  | forInit _ name _ value => CText.counter name.1.text ++ spelling value.leaves
  | forStep name _ value => CText.assigned name.1.text ++ spelling value.leaves
  | printText _ text _ => CText.printText text.1.text
  | print _ value _ => CText.printNumber (spelling value.leaves)
  | branch _ _ condition _ _ _ body _ _ =>
      CText.block "if" (spelling condition.leaves) body.code
  | loop _ _ condition _ _ _ body _ _ =>
      CText.block "while" (spelling condition.leaves) body.code
  | count _ _ init _ condition _ step _ _ _ body _ _ =>
      CText.block "for" (init.code ++ ";" ++ spelling condition.leaves ++ ";" ++ step.code)
        body.code
  | label _ name _ => CText.marker name.1.text
  | goto _ name _ => CText.jump name.1.text
  | assign _ name _ value _ => CText.assigned name.1.text ++ spelling value.leaves ++ ";\n"
  | input _ name _ => CText.scan name.1.text
  | empty => ""
  | cons first rest => first.code ++ rest.code
  | operand => spelling operand.leaves

@[simp] theorem code_newline (t : Tree (.phrase .newline)) : t.code = "" := by
  cases t; rfl

/-! The parts of an expression stand in C text as they are spelled. -/

@[simp] theorem code_primary (t : Tree (.phrase .primary)) : t.code = spelling t.leaves := by
  cases t <;> rfl

@[simp] theorem code_unary (t : Tree (.phrase .unary)) : t.code = spelling t.leaves := by
  cases t <;> rfl

@[simp] theorem code_term (t : Tree (.phrase .term)) : t.code = spelling t.leaves := by
  cases t; rfl

@[simp] theorem code_expression (t : Tree (.phrase .expression)) :
    t.code = spelling t.leaves := by
  cases t; rfl

@[simp] theorem code_comparison (t : Tree (.phrase .comparison)) :
    t.code = spelling t.leaves := by
  cases t; rfl

@[simp] theorem code_operand {c : Chain} (t : Tree (.phrase c.operand)) :
    t.code = spelling t.leaves := by
  cases c with
  | comparison => exact code_expression t
  | sum => exact code_term t
  | product => exact code_unary t

@[simp] theorem code_chain {c : Chain} (t : Tree (.chain c)) : t.code = spelling t.leaves := by
  cases t <;> rfl

end Tree
end YoloLang
