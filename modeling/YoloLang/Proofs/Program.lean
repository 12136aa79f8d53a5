import YoloLang.Proofs.Completion
import YoloLang.Proofs.Names

/-!
Whole programs as trees, the sequences of tokens that are programs or can be made into one, and the
C text of a program: its statements one after the other below a header that declares what they give
a value to.
-/

namespace YoloLang

open Leaf

namespace CText

def declaration (name : String) : String := "float " ++ name ++ ";\n"

def opening : String := "#include <stdio.h>\n" ++ "int main()\x7b\n"

theorem opening_eq : opening = "#include <stdio.h>\n" ++ "int main()\x7b\n" := rfl

def header (vars : List String) : String := opening ++ String.join (vars.map declaration)

def footer : String := "return 0;\n\x7d\n"

theorem header_nil : header [] = opening := by
  simp [header]

theorem header_snoc (vars : List String) (name : String) :
    header (vars ++ [name]) = header vars ++ declaration name := by
  simp [header, String.append_assoc]

end CText

structure Program where
  leading : List (Terminal .newline)
  body : Tree .statements

namespace Program

def leaves (p : Program) : List Leaf := p.leading.map (plain ·.1) ++ p.body.leaves

def tokens (p : Program) : List Token := p.leaves.map Leaf.token

/-- Every variable is declared at the place of the first statement that gives it a value. -/
def header (p : Program) : String := CText.header (names .target p.leaves).eraseDups

def code (p : Program) : String := p.body.code ++ CText.footer

end Program

/-- The grammar has a program with these tokens. -/
def Sentence (tokens : List Token) : Prop := ∃ p : Program, p.tokens = tokens

/-- Some program begins with these tokens. -/
def Viable (tokens : List Token) : Prop := ∃ p : Program, tokens <+: p.tokens

/-! A program and the row of tasks that it is read by. -/

theorem gives_program (p : Program) : Gives [.newlines, .statements] p.leaves p.body.code := by
  simpa [Program.leaves] using (Gives.nil.statements p.body).newlines p.leading

theorem program_of_gives {ls : List Leaf} {x : String} (h : Gives [.newlines, .statements] ls x) :
    ∃ p : Program, p.leaves = ls ∧ p.body.code = x := by
  obtain ⟨leading, _, ⟨body, _, _, ⟨rfl, rfl⟩, rfl, rfl⟩, rfl⟩ := h
  exact ⟨⟨leading, body⟩, by simp [Program.leaves], by simp⟩

theorem guarded_program : Guarded [.newlines, .statements] := by
  have statements : Guarded [.statements] := ⟨rfl, by simp [firsts], trivial⟩
  exact statements.cons rfl (by simp [Task.firsts, Task.avoids, Form.firsts, Form.all]) (by
    simp [firsts])

end YoloLang
