import YoloLang.Files.Fault

/-!
What a compiler asks of the place where its files are.
-/

namespace YoloLang

inductive Status where
  | file
  | folder
deriving DecidableEq, Repr

/-- Reading gives a text, and writing puts a text in place of all that a file held. -/
class Files (m : Type → Type) where
  read : String → m (Except FileFault String)
  status : String → m (Except FileFault Status)
  write : String → String → m (Except FileFault Unit)

end YoloLang
