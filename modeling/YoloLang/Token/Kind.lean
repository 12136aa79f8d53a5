import YoloLang.Token.Keyword

/-!
Kinds of tokens, and the kind a word has: a reserved word, a truth value in any mix of cases, or
else an identifier.
-/

namespace YoloLang

inductive Kind where
  | eof
  | newline
  | number
  | identifier
  | string
  | boolean
  | keyword (word : Keyword)
  | eq
  | plus
  | minus
  | asterisk
  | slash
  | eqEq
  | notEq
  | lt
  | ltEq
  | gt
  | gtEq
  | openParen
  | closeParen
  | semicolon
deriving DecidableEq, Repr

namespace Kind

def all : List Kind :=
  [.eof, .newline, .number, .identifier, .string, .boolean, .eq, .plus, .minus, .asterisk, .slash,
    .eqEq, .notEq, .lt, .ltEq, .gt, .gtEq, .openParen, .closeParen, .semicolon]
    ++ Keyword.all.map .keyword

/-- The name used in messages. -/
def name : Kind → String
  | eof => "EOF"
  | newline => "NEWLINE"
  | number => "NUMBER"
  | identifier => "IDENT"
  | string => "STRING"
  | boolean => "BOOLEAN"
  | keyword word => word.text
  | eq => "EQ"
  | plus => "PLUS"
  | minus => "MINUS"
  | asterisk => "ASTERISK"
  | slash => "SLASH"
  | eqEq => "EQEQ"
  | notEq => "NOTEQ"
  | lt => "LT"
  | ltEq => "LTEQ"
  | gt => "GT"
  | gtEq => "GTEQ"
  | openParen => "OPEN_PAREN"
  | closeParen => "CLOSE_PAREN"
  | semicolon => "SEMICOLON"

/-- The name used in token dumps. -/
def tag : Kind → String
  | eof => "Eof"
  | newline => "Newline"
  | number => "Number"
  | identifier => "Identifier"
  | string => "String"
  | boolean => "Boolean"
  | keyword word => s!"Keyword({word.tag})"
  | eq => "Eq"
  | plus => "Plus"
  | minus => "Minus"
  | asterisk => "Asterisk"
  | slash => "Slash"
  | eqEq => "EqEq"
  | notEq => "NotEq"
  | lt => "Lt"
  | ltEq => "LtEq"
  | gt => "Gt"
  | gtEq => "GtEq"
  | openParen => "LParen"
  | closeParen => "RParen"
  | semicolon => "SemiColon"

def ofName? (name : String) : Option Kind := all.find? (·.name == name)

def isComparison : Kind → Bool
  | eqEq | notEq | lt | ltEq | gt | gtEq => true
  | _ => false

def isSign : Kind → Bool
  | plus | minus => true
  | _ => false

def isFactorSign : Kind → Bool
  | asterisk | slash => true
  | _ => false

/-- The words for truth values, whatever the case of their ASCII letters. -/
def isTruth (word : String) : Bool :=
  let lower := word.toList.map Char.toLower
  lower == ['t', 'r', 'u', 'e'] || lower == ['f', 'a', 'l', 's', 'e']

def ofWord (word : String) : Kind :=
  match Keyword.ofWord? word with
  | some k => .keyword k
  | none => if isTruth word then .boolean else .identifier

theorem mem_all (k : Kind) : k ∈ all := by
  cases k <;> simp [all, Keyword.mem_all]

end Kind
end YoloLang
