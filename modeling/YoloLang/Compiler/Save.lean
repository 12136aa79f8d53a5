import YoloLang.Compiler.Basic
import YoloLang.Files.Basic

/-!
Compiling from file to file. The C text goes where the compiler that made it was told to write, and
only when it is written the graph goes where the writing compiler was told. A program with a fault
leaves all files alone.
-/

namespace YoloLang.Compiler

variable {m : Type → Type} [Monad m] [Files m]

def writeGraph (c : Compiler) (k : Compilation) : m (Except (Located Fault) Unit × Array Note) := do
  match c.graph, k.graph with
  | some path, some graph =>
      match ← Files.write path graph.dot with
      | .error fault => return (.error (.file fault), #[])
      | .ok () => return (.ok (), #[.wroteGraph path])
  | _, _ => return (.ok (), #[])

def save (c : Compiler) (k : Compilation) : m (Except (Located Fault) Unit × Array Note) := do
  match ← Files.write k.file.path k.file.text with
  | .error fault => return (.error (.file fault), #[])
  | .ok () =>
      let (result, notes) ← c.writeGraph k
      return (result, #[.wrote k.file.path] ++ notes)

/-- Compiles a text and writes what comes of it. -/
def compileSource (c : Compiler) (source : String) :
    m (Except (Located Fault) Compilation × Array Note) := do
  match c.compileText source with
  | (.error fault, notes) => return (.error fault, notes)
  | (.ok k, notes) =>
      let (result, written) ← c.save k
      return (result.map fun () => k, notes ++ written)

def compile (c : Compiler) (path : String) :
    m (Except (Located Fault) Compilation × Array Note) := do
  match ← Files.read path with
  | .error fault => return (.error (.file fault), #[])
  | .ok source => c.compileSource source

end YoloLang.Compiler
