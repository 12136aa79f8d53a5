/-!
The lines of a text. A line ends at a newline, which is not part of it, and neither is a carriage
return just before that newline. A text that ends in a newline has no empty line after it.
-/

namespace YoloLang.Text

def lines : List Char → List (List Char)
  | [] => []
  | '\n' :: cs => [] :: lines cs
  | '\r' :: '\n' :: cs => [] :: lines cs
  | c :: cs =>
      match lines cs with
      | [] => [[c]]
      | line :: rest => (c :: line) :: rest

theorem lines_eq_nil_iff {cs : List Char} : lines cs = [] ↔ cs = [] := by
  fun_cases lines cs <;> simp_all

end YoloLang.Text
