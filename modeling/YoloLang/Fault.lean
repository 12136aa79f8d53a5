import YoloLang.Files.Fault
import YoloLang.Grammar.Fault
import YoloLang.Lexeme.Fault
import YoloLang.Source.Report

/-!
All that can stop a compilation. The first fault ends it.
-/

namespace YoloLang

inductive Fault where
  | lexing (fault : LexFault)
  | grammar (fault : GrammarFault)
  | naming (fault : NameFault)
  | file (fault : FileFault)
deriving DecidableEq, Repr

def Fault.message : Fault → String
  | lexing fault => "lexing error: " ++ fault.message
  | grammar fault => "syntax error: " ++ fault.message
  | naming fault => "semantic error: " ++ fault.message
  | file fault => fault.message

namespace Located

def message (e : Located Fault) : String := e.cause.message

def lexing (e : Located LexFault) : Located Fault := e.map .lexing

/-- A fault outside the source text has no place in it. -/
def file (fault : FileFault) : Located Fault := ⟨.file fault, none⟩

def shown (e : Located Fault) (source : String) : String := (e.map Fault.message).render source

end Located
end YoloLang
