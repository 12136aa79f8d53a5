import YoloLang.Files.Fault

/-!
The C text of a program while it grows. Declarations go into the header and statements into the
code, each only ever longer, and the file holds the header before the code.
-/

namespace YoloLang

structure CFile where
  path : String
  header : String
  code : String
deriving DecidableEq, Repr

namespace CFile

/-- Nothing is stored before the text is complete, so the path is only remembered. -/
def empty (path : String) : CFile := ⟨path, "", ""⟩

def write (f : CFile) (text : String) : CFile := { f with code := f.code ++ text }

def writeLine (f : CFile) (text : String) : CFile := { f with code := f.code ++ text ++ "\n" }

def writeHeader (f : CFile) (text : String) : CFile :=
  { f with header := f.header ++ text ++ "\n" }

def text (f : CFile) : String := f.header ++ f.code

/-- What a device with room for so many bytes takes, and whether that is less than everything. -/
def storedIn (f : CFile) (room : Option Nat) : ByteArray × Option FileFault :=
  let bytes := f.text.toUTF8
  match room with
  | none => (bytes, none)
  | some n => if bytes.size ≤ n then (bytes, none) else (bytes.extract 0 n, some .shortWrite)

end CFile
end YoloLang
