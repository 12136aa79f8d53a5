import YoloLang.Walk.Graph
import YoloLang.Walk.Run

/-!
Compilers. A compiler knows where the C text goes and, if the graph of the parse is wanted too,
where that goes.
-/

namespace YoloLang

structure Compiler where
  output : String
  graph : Option String
deriving DecidableEq, Repr

/-- A program that was compiled, with the graph of its parse if one was wanted. -/
structure Compilation where
  file : CFile
  declarations : Declarations
  graph : Option WalkGraph
deriving DecidableEq, Repr

namespace Compiler

def defaultOutput : String := "out.c"

/-- The compiler with the given destinations, the output going to its usual place if none is. -/
def withPaths (output graph : Option String) : Compiler := ⟨output.getD defaultOutput, graph⟩

def finish {σ : Type} (graph : σ → Option WalkGraph) (r : Reading σ) :
    Except (Located Fault) Compilation × Array Note :=
  match r.result with
  | .error fault => (.error fault, r.journal)
  | .ok d =>
      (.ok ⟨r.file, d, graph r.watcher⟩, r.journal.push (.declared d.vars d.labels))

/-- Compiles a text in memory. Nothing is written. -/
def compileText (c : Compiler) (source : String) :
    Except (Located Fault) Compilation × Array Note :=
  let feed := Feed.ofCursor (.ofSource source)
  let file := CFile.empty c.output
  match c.graph with
  | some _ => finish some (.ofFeed WalkGraph.watch feed file .empty)
  | none => finish (fun _ => none) (.ofFeed Observer.silent feed file ())

end Compiler
end YoloLang
