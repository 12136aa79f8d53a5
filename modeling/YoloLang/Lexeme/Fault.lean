import YoloLang.Text.Quoted

/-!
Faults in the characters of a source text. Nothing is read past one.
-/

namespace YoloLang

inductive LexFault where
  | expectedNotEq (found : Char)
  | illegalInString (found : Char)
  | unterminatedString
  | missingDecimals
  | unknown (found : Char)
deriving DecidableEq, Repr

def LexFault.message : LexFault → String
  | expectedNotEq c => "expected \"!=\", got \"!\" followed by " ++ Text.Quoted.char c
  | illegalInString c => "illegal character in string: " ++ Text.Quoted.char c
  | unterminatedString => "unterminated string"
  | missingDecimals => "number required after decimal point"
  | unknown c => "unknown token: " ++ Text.Quoted.char c

end YoloLang
