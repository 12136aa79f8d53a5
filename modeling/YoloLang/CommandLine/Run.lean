import YoloLang.CommandLine.Invocation
import YoloLang.Compiler.Destination
import YoloLang.Compiler.Save

/-!
What a command line does: compile a file, or list the tokens of one. Notes and listed tokens are
printed as they come about. A fault in the program is reported over its source text; a file that
cannot be read, or a destination that cannot be written, is reported before any work is done.
-/

namespace YoloLang.CommandLine

inductive Finish where
  | success
  | fault (text : String)
  /-- Messages, each with the next as its cause. -/
  | report (messages : List String)
  | usage (fault : UsageFault)
deriving DecidableEq, Repr

def Finish.code : Finish → Nat
  | success => 0
  | fault _ | report _ => 1
  | usage _ => 2

/-- Messages one below the other, with their numbers. -/
def reportText (messages : List String) : String :=
  "Error: \n" ++ String.join (messages.zipIdx.map fun (message, i) => s!"   {i}: {message}\n")

/-- What is printed as an error. -/
def Finish.complaint : Finish → String
  | success => ""
  | fault text => text
  | report messages => reportText messages
  | usage misuse => "error: " ++ misuse.message ++ "\n"

structure Outcome where
  printed : String
  finish : Finish
deriving DecidableEq, Repr

def version : String := "0.0.0"

def help : String :=
  "Translates yolo programs into C\n\nUsage: yoloc [OPTIONS] <source file>\n\nArguments:\n"
    ++ "  <source file>  The yolo source file to compile\n\nOptions:\n"
    ++ "  -v...                  \n"
    ++ "  -q...                  \n"
    ++ "  -o, --output <OUTPUT>  Where to write the generated C [default: out.c]\n"
    ++ "      --graph <dot file> Record the parse and write it as a graphviz dot file\n"
    ++ "      --tokens           Print the token stream instead of compiling\n"
    ++ "  -h, --help             Print help\n"
    ++ "  -V, --version          Print version\n"

def line (a : Invocation) (level : Level) (message : String) : String :=
  if a.shows level then level.column ++ " " ++ message ++ "\n" else ""

def notes (a : Invocation) (journal : Array Note) : String :=
  String.join (journal.toList.map fun n => line a n.level n.message)

def padLeft (width : Nat) (s : String) : String :=
  String.ofList (List.replicate (width - s.length) ' ') ++ s

def padRight (width : Nat) (s : String) : String :=
  s ++ String.ofList (List.replicate (width - s.length) ' ')

/-- The place of a token, its kind and its text. -/
def tokenLine (t : Token) : String :=
  padLeft 8 t.span.cited ++ " " ++ padRight 10 t.kind.name ++ " " ++ Text.Quoted.string t.text
    ++ "\n"

def listed (a : Invocation) (t : Token) : String :=
  line a .trace (Note.lexed t).message ++ tokenLine t

def faultText (source : String) (e : Located Fault) : String :=
  "error: " ++ e.shown source ++ "\n"

def listTokens (a : Invocation) (source : String) : Outcome :=
  let feed := Feed.ofCursor (.ofSource source)
  let lines := String.join (feed.ahead.map (listed a))
  match feed.ending with
  | .eof span => ⟨lines ++ line a .trace (Note.lexed (.eof span)).message, .success⟩
  | .fault fault => ⟨lines, .fault (faultText source fault.lexing)⟩

variable {m : Type → Type} [Monad m] [Files m]

/-- A fault is told over the source, wherever it comes from. -/
def finish {α : Type} (source : String) : Except (Located Fault) α → Finish
  | .ok _ => .success
  | .error e => .fault (faultText source e)

def compile (a : Invocation) (source : String) : m Outcome := do
  match ← Compiler.setUp (some a.output) a.graph with
  | .error fault => return ⟨"", .report [fault.message]⟩
  | .ok compiler =>
      let (result, journal) ← compiler.compileSource source
      return ⟨notes a journal, finish source result⟩

def Outcome.after (printed : String) (o : Outcome) : Outcome :=
  { o with printed := printed ++ o.printed }

/-- What is printed before the source is read. -/
def preamble (a : Invocation) : String :=
  line a .trace ("starting yoloc with args: " ++ a.dump)
    ++ line a .debug ("yoloc version: " ++ version)

def perform (a : Invocation) : m Outcome := do
  match ← Files.read a.file with
  | .error fault =>
      return ⟨preamble a, .report ["could not read " ++ Text.Quoted.string a.file, fault.message]⟩
  | .ok source =>
      if a.tokens then return (listTokens a source).after (preamble a)
      else return (← compile a source).after (preamble a)

def run (words : List String) : m Outcome :=
  match Invocation.parse Compiler.defaultOutput words with
  | .error .help => return ⟨help, .success⟩
  | .error .version => return ⟨"yoloc_cli " ++ version ++ "\n", .success⟩
  | .error (.usage fault) => return ⟨"", .usage fault⟩
  | .ok a => perform a

end YoloLang.CommandLine
