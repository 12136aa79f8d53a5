/-!
The reserved words. A word is reserved only in capitals.
-/

namespace YoloLang

inductive Keyword where
  | LABEL | GOTO | PRINT | INPUT | LET
  | IF | THEN | ENDIF | WHILE | REPEAT | ENDWHILE | FOR | ENDFOR
deriving DecidableEq, Repr

namespace Keyword

def all : List Keyword :=
  [.LABEL, .GOTO, .PRINT, .INPUT, .LET, .IF, .THEN, .ENDIF, .WHILE, .REPEAT, .ENDWHILE, .FOR,
    .ENDFOR]

def text : Keyword → String
  | LABEL => "LABEL"
  | GOTO => "GOTO"
  | PRINT => "PRINT"
  | INPUT => "INPUT"
  | LET => "LET"
  | IF => "IF"
  | THEN => "THEN"
  | ENDIF => "ENDIF"
  | WHILE => "WHILE"
  | REPEAT => "REPEAT"
  | ENDWHILE => "ENDWHILE"
  | FOR => "FOR"
  | ENDFOR => "ENDFOR"

/-- The word in mixed case, as token dumps show it. -/
def tag : Keyword → String
  | LABEL => "Label"
  | GOTO => "Goto"
  | PRINT => "Print"
  | INPUT => "Input"
  | LET => "Let"
  | IF => "If"
  | THEN => "Then"
  | ENDIF => "EndIf"
  | WHILE => "While"
  | REPEAT => "Repeat"
  | ENDWHILE => "EndWhile"
  | FOR => "For"
  | ENDFOR => "EndFor"

def ofWord? (word : String) : Option Keyword := all.find? (·.text == word)

theorem mem_all (k : Keyword) : k ∈ all := by cases k <;> decide

theorem text_injective {j k : Keyword} (h : j.text = k.text) : j = k := by
  cases j <;> cases k <;> simp_all [text]

theorem ofWord?_eq_some_iff {word : String} {k : Keyword} :
    ofWord? word = some k ↔ word = k.text := by
  constructor
  · intro h
    have found := List.find?_some h
    exact (beq_iff_eq.mp found).symm
  · rintro rfl
    cases k <;> simp [ofWord?, all, text]

end Keyword
end YoloLang
