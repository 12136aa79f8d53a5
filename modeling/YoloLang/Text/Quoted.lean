import YoloLang.Text.Plain

/-!
Quoted forms of characters and texts for messages. Tabs, returns, newlines, NUL, the backslash and
the surrounding quote are written with a backslash, and a character without a shape of its own as
its code point in braces.
-/

namespace YoloLang.Text.Quoted

def escape (quote c : Char) : List Char :=
  if c = '\x00' then ['\\', '0']
  else if c = '\t' then ['\\', 't']
  else if c = '\r' then ['\\', 'r']
  else if c = '\n' then ['\\', 'n']
  else if c = '\\' ∨ c = quote then ['\\', c]
  else if isPlain c then [c]
  else ['\\', 'u', '\x7b'] ++ Nat.toDigits 16 c.toNat ++ ['\x7d']

def char (c : Char) : String :=
  String.ofList ('\'' :: escape '\'' c ++ ['\''])

def string (s : String) : String :=
  String.ofList ('"' :: s.toList.flatMap (escape '"') ++ ['"'])

end YoloLang.Text.Quoted
