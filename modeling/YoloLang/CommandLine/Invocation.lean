import YoloLang.Journal

/-!
The command line. Its words are read from left to right, and the first thing wrong with one ends the
reading, as does a wish for help or for the version. What the words say together is looked at last.
-/

namespace YoloLang

structure Invocation where
  verbose : Nat
  quiet : Nat
  file : String
  output : String
  graph : Option String
  tokens : Bool
deriving DecidableEq, Repr

inductive UsageFault where
  | unknown (word : String)
  | unexpected (word : String)
  | missingValue
  | emptyValue
  | repeated (option : String)
  | conflict (option other : String)
  | missingFile
deriving DecidableEq, Repr

def UsageFault.message : UsageFault → String
  | unknown word => "unexpected argument " ++ Text.Quoted.string word
  | unexpected word => "only one source file can be compiled, found " ++ Text.Quoted.string word
  | missingValue => "an option lacks its value"
  | emptyValue => "a path must not be empty"
  | repeated option => option ++ " is given too often"
  | conflict option other => option ++ " cannot be used with " ++ other
  | missingFile => "a source file is required"

/-- Why no arguments come out of a command line. -/
inductive Halt where
  | help
  | version
  | usage (fault : UsageFault)
deriving DecidableEq, Repr

namespace Invocation

/-- The words that take a path: two options, and the source file by its place. -/
inductive Target where
  | file
  | output
  | graph
deriving DecidableEq, Repr

/-- What the words so far say. An option may still wait for its value, and after two dashes every
word is a file. -/
structure Draft where
  verbose : Nat
  quiet : Nat
  file : Option String
  output : Option String
  graph : Option String
  tokens : Bool
  waiting : Option Target
  literal : Bool
deriving DecidableEq, Repr

namespace Draft

def empty : Draft := ⟨0, 0, none, none, none, false, none, false⟩

def fail {α : Type} (fault : UsageFault) : Except Halt α := .error (.usage fault)

def give (d : Draft) (target : Target) (path : String) : Except Halt Draft :=
  match target with
  | .file =>
      if d.file.isSome then fail (.unexpected path)
      else if path.isEmpty then fail .emptyValue
      else .ok { d with file := some path }
  | .output =>
      if path.isEmpty then fail .emptyValue
      else if d.output.isSome then fail (.repeated "--output")
      else .ok { d with output := some path }
  | .graph =>
      if path.isEmpty then fail .emptyValue
      else if d.graph.isSome then fail (.repeated "--graph")
      else .ok { d with graph := some path }

/-- Each level of talk can be asked for twice. -/
def flag (d : Draft) : Char → Except Halt Draft
  | 'v' => if d.verbose < 2 then .ok { d with verbose := d.verbose + 1 } else fail (.repeated "-v")
  | 'q' => if d.quiet < 2 then .ok { d with quiet := d.quiet + 1 } else fail (.repeated "-q")
  | 'h' => .error .help
  | 'V' => .error .version
  | c => fail (.unknown (String.ofList ['-', c]))

/-- Short options after one dash. The rest of the word is the value of one that takes a value. -/
def cluster (d : Draft) : List Char → Except Halt Draft
  | [] => .ok d
  | ['o'] => .ok { d with waiting := some .output }
  | 'o' :: '=' :: value => d.give .output (String.ofList value)
  | 'o' :: value => d.give .output (String.ofList value)
  | c :: rest => do (← d.flag c).cluster rest

def long (d : Draft) (name : String) (value : Option String) : Except Halt Draft :=
  match name, value with
  | "output", some path => d.give .output path
  | "output", none => .ok { d with waiting := some .output }
  | "graph", some path => d.give .graph path
  | "graph", none => .ok { d with waiting := some .graph }
  | "tokens", none =>
      if d.tokens then fail (.repeated "--tokens") else .ok { d with tokens := true }
  | "help", none => .error .help
  | "version", none => .error .version
  | _, _ => fail (.unknown ("--" ++ name))

/-- An option that waits for its value takes no other option for it. -/
def ready (d : Draft) : Except Halt Unit :=
  if d.waiting.isSome then fail .missingValue else .ok ()

def word (d : Draft) (arg : String) : Except Halt Draft :=
  match d.literal, arg.toList with
  | false, ['-', '-'] => do
      d.ready
      return { d with literal := true }
  | false, '-' :: '-' :: body => do
      d.ready
      let name := body.takeWhile (· != '=')
      let value := (body.drop name.length).tail?
      d.long (String.ofList name) (value.map String.ofList)
  | false, '-' :: c :: rest => do
      d.ready
      d.cluster (c :: rest)
  | _, _ =>
      match d.waiting with
      | some target => { d with waiting := none }.give target arg
      | none => d.give .file arg

def finish (d : Draft) (defaultOutput : String) : Except Halt Invocation := do
  d.ready
  if 0 < d.verbose ∧ 0 < d.quiet then fail (.conflict "-v" "-q")
  else if d.tokens ∧ d.graph.isSome then fail (.conflict "--tokens" "--graph")
  else
    match d.file with
    | none => fail .missingFile
    | some file =>
        return ⟨d.verbose, d.quiet, file, d.output.getD defaultOutput, d.graph, d.tokens⟩

end Draft

def parse (defaultOutput : String) (words : List String) : Except Halt Invocation := do
  (← words.foldlM Draft.word .empty).finish defaultOutput

/-- Notes are shown down to this rank: none, or from those of general interest to all. -/
def rank (a : Invocation) : Nat := if 0 < a.quiet then 0 else 1 + a.verbose

def shows (a : Invocation) (level : Level) : Bool := level.rank ≤ a.rank

def dump (a : Invocation) : String :=
  let graph := match a.graph with
    | none => "None"
    | some path => "Some(" ++ Text.Quoted.string path ++ ")"
  "Args \x7b logging: LoggingArgs \x7b verbose: " ++ toString a.verbose ++ ", quiet: "
    ++ toString a.quiet ++ " \x7d, file: " ++ Text.Quoted.string a.file ++ ", output: "
    ++ Text.Quoted.string a.output ++ ", graph: " ++ graph ++ ", tokens: " ++ toString a.tokens
    ++ " \x7d"

end Invocation
end YoloLang
