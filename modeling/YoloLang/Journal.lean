import YoloLang.Declarations
import YoloLang.Grammar.Rule
import YoloLang.Token.Basic

/-!
What a run notes down while it works, in the order it happens. Each note has a level, and a run
shows the notes up to the level it is asked for.
-/

namespace YoloLang

inductive Level where
  | info
  | debug
  | trace
deriving DecidableEq, Repr

namespace Level

def rank : Level → Nat
  | info => 1
  | debug => 2
  | trace => 3

/-- The name in a column five wide. -/
def column : Level → String
  | info => " INFO"
  | debug => "DEBUG"
  | trace => "TRACE"

end Level

inductive Note where
  | lexed (token : Token)
  | entered (rule : Rule) (current : Token)
  | header (line : String)
  | parsed (vars labels : Nat)
  | declared (vars labels : List String)
  | wrote (path : String)
  | wroteGraph (path : String)
deriving Repr

namespace Note

def level : Note → Level
  | lexed _ | entered .. => .trace
  | header _ | parsed .. | declared .. => .debug
  | wrote _ | wroteGraph _ => .info

def message : Note → String
  | lexed token => s!"lexed {token.dump} at {token.span.cited}"
  | entered rule current => s!"{rule.name} at {current.dump}"
  | header line => "header: " ++ line
  | parsed vars labels => s!"parsed program with {vars} variables and {labels} labels"
  | declared vars labels =>
      "declared variables [" ++ ", ".intercalate vars ++ "] and labels ["
        ++ ", ".intercalate labels ++ "]"
  | wrote path => "wrote " ++ Text.Quoted.string path
  | wroteGraph path => "wrote parse graph to " ++ Text.Quoted.string path

end Note
end YoloLang
