import YoloLang.Token.Kind
import YoloLang.Text.Quoted

/-!
Faults found while a program is read: places where its tokens leave the grammar, and names that
break a rule although the tokens are in order.
-/

namespace YoloLang

inductive GrammarFault where
  | expected (wanted found : Kind)
  | missingNewline (found : Kind)
  | invalidStatement (text : String) (kind : Kind)
  | expectedComparison (text : String)
  | unexpected (text : String) (kind : Kind)
  | unterminatedBlock (wanted : Keyword)
deriving DecidableEq, Repr

def GrammarFault.message : GrammarFault → String
  | expected wanted found => s!"expected {wanted.name}, got {found.name}"
  | missingNewline found => s!"expected a new line after statement, got {found.name}"
  | invalidStatement text kind => s!"invalid statement at {Text.Quoted.string text} ({kind.name})"
  | expectedComparison text => s!"expected comparison operator at {Text.Quoted.string text}"
  | unexpected text kind => s!"unexpected token at {Text.Quoted.string text} ({kind.name})"
  | unterminatedBlock wanted => s!"reached end of file before {wanted.text}"

inductive NameFault where
  | undeclaredVariable (name : String)
  | duplicateLabel (name : String)
  | undeclaredLabel (name : String)
deriving DecidableEq, Repr

def NameFault.message : NameFault → String
  | undeclaredVariable name => s!"referencing variable before assignment: {name}"
  | duplicateLabel name => s!"label already exists: {name}"
  | undeclaredLabel name => s!"attempting to GOTO to undeclared label: {name}"

end YoloLang
