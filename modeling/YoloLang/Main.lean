import YoloLang.CommandLine.Run

/-!
The program. It reads and writes real files, and prints what the command line calls for.
-/

namespace YoloLang

/-- The reasons the library tells apart are known by their numbers. -/
def FileFault.ofError (e : IO.Error) : FileFault :=
  match e with
  | .noFileOrDirectory .. | .noSuchThing .. => .notFound
  | .inappropriateType _ code _ | .invalidArgument _ code _ =>
      if code = 20 then .notADirectory
      else if code = 21 then .isADirectory
      else if code = 36 then .nameTooLong
      else .other (toString e)
  | e => .other (toString e)

def attempt {α : Type} (act : IO (Except FileFault α)) : IO (Except FileFault α) := do
  try act catch e => return .error (.ofError e)

instance : Files IO where
  read path := attempt do
    match String.fromUTF8? (← IO.FS.readBinFile path) with
    | some text => return .ok text
    | none => return .error .notText
  status path := do
    -- Only a folder has a dot in it.
    let opened ← attempt (Except.ok <$> IO.FS.Handle.mk (path ++ "/.") .read)
    match opened with
    | .ok _ | .error .isADirectory => return if path.isEmpty then .error .notFound else .ok .folder
    | .error .notADirectory => attempt (Except.ok <$> (do
        discard (IO.FS.Handle.mk path .read)
        return .file))
    | .error fault => return .error fault
  write path text := attempt (Except.ok <$> IO.FS.writeFile path text)

end YoloLang

open YoloLang in
def main (words : List String) : IO UInt32 := do
  let outcome ← (CommandLine.run words : IO CommandLine.Outcome)
  IO.print outcome.printed
  IO.eprint outcome.finish.complaint
  return UInt32.ofNat outcome.finish.code
