import YoloLang.Compiler.Destination
import YoloLang.Compiler.Save
import YoloLang.Files.Disk

/-!
Work on a disk with one compiler at a time: building another one, compiling files and texts, and
writing the last compilation that succeeded.
-/

namespace YoloLang

structure Session where
  disk : Disk
  compiler : Option Compiler
  compilation : Option Compilation

inductive Action where
  | setUp (output graph : Option String)
  | compile (path : String)
  | compileText (source : String)
  | save
deriving DecidableEq, Repr

/-- Without a compiler, or a compilation to write, nothing is done. -/
inductive Answer where
  | ready (result : Except DestinationFault Compiler)
  | compiled (result : Except (Located Fault) Compilation)
  | saved (result : Except (Located Fault) Unit)
  | idle

namespace Session

def start (disk : Disk) : Session := ⟨disk, none, none⟩

/-- A compilation that failed leaves the one before it in place. -/
def keep (s : Session) (disk : Disk) (result : Except (Located Fault) Compilation) :
    Answer × Session :=
  (.compiled result,
    { s with
      disk := disk
      compilation := match result with
        | .ok k => some k
        | .error _ => s.compilation })

def act (s : Session) : Action → Answer × Session
  | .setUp output graph =>
      match (Compiler.setUp output graph : StateM Disk _).run s.disk with
      | (.ok c, disk) => (.ready (.ok c), { s with disk := disk, compiler := some c })
      | (.error fault, disk) => (.ready (.error fault), { s with disk := disk })
  | .compile path =>
      match s.compiler with
      | none => (.idle, s)
      | some c =>
          let ((result, _), disk) := (c.compile path : StateM Disk _).run s.disk
          s.keep disk result
  | .compileText source =>
      match s.compiler with
      | none => (.idle, s)
      | some c => s.keep s.disk (c.compileText source).1
  | .save =>
      match s.compiler, s.compilation with
      | some c, some k =>
          let ((result, _), disk) := (c.save k : StateM Disk _).run s.disk
          (.saved result, { s with disk := disk })
      | _, _ => (.idle, s)

end Session
end YoloLang
