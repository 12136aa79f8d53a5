import YoloLang.Compiler.Basic
import YoloLang.Files.Basic
import YoloLang.Files.Path
import YoloLang.Text.Quoted

/-!
Which destinations a compiler accepts. A file can be written where no folder is, in a folder that is
there; whether the file is there already does not matter.
-/

namespace YoloLang

inductive DestinationFault where
  | isDirectory (path : String)
  | noParent (parent : String) (fault : FileFault)
  | parentIsFile (parent : String)
deriving DecidableEq, Repr

def DestinationFault.message : DestinationFault → String
  | isDirectory path => Text.Quoted.string path ++ " is a directory, can't write to it"
  | noParent parent fault => Text.Quoted.string parent ++ " does not exist: " ++ fault.message
  | parentIsFile parent => Text.Quoted.string parent ++ " is not a directory"

variable {m : Type → Type} [Monad m] [Files m]

def checkDestination (path : String) : m (Option DestinationFault) := do
  match ← Files.status path with
  | .ok .folder => return some (.isDirectory path)
  | _ =>
      let parent := Path.folder path
      match ← Files.status parent with
      | .ok .folder => return none
      | .ok .file => return some (.parentIsFile parent)
      | .error fault => return some (.noParent parent fault)

/-- A compiler with these destinations, if they can be written. The output is checked before the
graph. -/
def Compiler.setUp (output graph : Option String) : m (Except DestinationFault Compiler) := do
  let compiler := Compiler.withPaths output graph
  match ← checkDestination compiler.output with
  | some fault => return .error fault
  | none =>
      match compiler.graph with
      | none => return .ok compiler
      | some path =>
          match ← checkDestination path with
          | some fault => return .error fault
          | none => return .ok compiler

end YoloLang
