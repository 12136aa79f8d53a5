import YoloLang.Grammar.Task
import YoloLang.Walk.Basic

/-!
One task of a walk. A step does its task and says what is to be done in its place, or stops the
walk with a fault; the state is then as the fault found it, with the C text written so far. A step
that calls for more work than its task was worth has taken a token, which is why every walk ends.
-/

namespace YoloLang

inductive Move (σ : Type) where
  | go (next : List Task) (walk : Walk σ)
  | stop (fault : Located Fault) (walk : Walk σ)

variable {σ : Type}

namespace Walk

/-- The current token does not fit. -/
def refuse (w : Walk σ) (fault : GrammarFault) : Move σ :=
  .stop ⟨.grammar fault, some w.current.span⟩ w

def blame (w : Walk σ) (token : Token) (fault : NameFault) : Move σ :=
  .stop ⟨.naming fault, some token.span⟩ w

/-- Takes the current token and goes on, if nothing bars the token that comes into the window. -/
def take (o : Observer σ) (w : Walk σ) (goOn : Walk σ → Move σ) : Move σ :=
  match w.feed.barrier? 2 with
  | some fault => .stop fault.lexing w
  | none => goOn (w.taken o)

/-- Copies the current token into the C text and takes it. -/
def copy (o : Observer σ) (w : Walk σ) (goOn : Walk σ → Move σ) : Move σ :=
  (w.written w.current.text).take o goOn

/-- Begins a statement at its keyword. At its end what comes after it is done again. -/
def statement (o : Observer σ) (w : Walk σ) (again : Task) : Move σ :=
  match Form.ofKind? w.current.kind with
  | none => w.refuse (.invalidStatement w.current.text w.current.kind)
  | some form =>
      (w.entered o (.statement form)).take o
        (.go (form.body ++ [.phrase .newline, .close, again]))

/-- What a statement does with the name it gives, once the name is taken. -/
def name (w : Walk σ) (token : Token) : Role → Move σ
  | .assigned => .go [] ((w.declared token.text).written s!"{token.text} = ")
  | .counter => .go [] ((w.declared token.text).written s!"int {token.text} = ")
  | .stepped =>
      if token.text ∈ w.declarations.vars then .go [] (w.written s!"{token.text} = ")
      else w.blame token (.undeclaredVariable token.text)
  | .read =>
      .go [] <| (w.declared token.text)
        |>.lineWritten ("if(0==scanf(\"%f\", &" ++ token.text ++ ")) \x7b")
        |>.lineWritten s!"{token.text} = 0;"
        |>.lineWritten "scanf(\"%*s\");"
        |>.lineWritten "\x7d"
  | .marked =>
      if token.text ∈ w.declarations.labels then w.blame token (.duplicateLabel token.text)
      else
        .go [] { w.lineWritten s!"{token.text}:" with
          declarations := w.declarations.addLabel token.text }
  | .sought =>
      .go [] { w.lineWritten s!"goto {token.text};" with
        declarations := w.declarations.addGoto token.text token.span }

/-- A number, a variable that has a value, or an expression in brackets. -/
def operand (o : Observer σ) (w : Walk σ) : Move σ :=
  match w.current.kind with
  | .number => w.copy o (.go [])
  | .identifier =>
      if w.current.text ∈ w.declarations.vars then w.copy o (.go [])
      else w.blame w.current (.undeclaredVariable w.current.text)
  | .openParen => w.copy o (.go [.phrase .expression, .expect .closeParen, .write ")"])
  | kind => w.refuse (.unexpected w.current.text kind)

/-- A string is printed as it stands, an expression with two decimals. -/
def printed (o : Observer σ) (w : Walk σ) : Move σ :=
  if w.current.kind = .string then
    (w.lineWritten ("printf(\"" ++ w.current.text ++ "\\n\");")).take o (.go [])
  else
    .go [.write "printf(\"%.2f\\n\", (float)(", .phrase .expression, .writeLine "));"] w

/-- Every label that is sought must be given somewhere in the program. -/
def labels (w : Walk σ) : Move σ :=
  match w.declarations.missingLabel? with
  | some (name, span) => .stop ⟨.naming (.undeclaredLabel name), some span⟩ w
  | none => .go [] w

def step (o : Observer σ) (w : Walk σ) : Task → Move σ
  | .phrase phrase => .go (phrase.body ++ [.close]) (w.entered o (.phrase phrase))
  | .close => .go [] (w.left o)
  | .expect kind =>
      if w.current.kind = kind then w.take o (.go [])
      else w.refuse (.expected kind w.current.kind)
  | .name role =>
      if w.current.kind = .identifier then w.take o (name · w.current role)
      else w.refuse (.expected .identifier w.current.kind)
  | .write text => .go [] (w.written text)
  | .writeLine text => .go [] (w.lineWritten text)
  | .writeHeader text => .go [] (w.headerWritten text)
  | .lineEnd =>
      if w.current.kind = .newline then w.take o (.go [])
      else w.refuse (.missingNewline w.current.kind)
  | .newlines => if w.current.kind = .newline then w.take o (.go [.newlines]) else .go [] w
  | .statements => if w.current.kind = .eof then .go [] w else w.statement o .statements
  | .block stop =>
      if w.current.kind = .keyword stop then w.take o (.go [])
      else if w.current.kind = .eof then w.refuse (.unterminatedBlock stop)
      else w.statement o (.block stop)
  | .printed => w.printed o
  | .compared =>
      if w.current.kind.isComparison then w.copy o (.go [.phrase .expression])
      else w.refuse (.expectedComparison w.current.text)
  | .chain chain =>
      if chain.joins w.current.kind then
        w.copy o (.go [.phrase chain.operand, .chain chain])
      else .go [] w
  | .sign => if w.current.kind.isSign then w.copy o (.go []) else .go [] w
  | .operand => w.operand o
  | .labels => w.labels

end Walk
end YoloLang
