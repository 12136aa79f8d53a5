import YoloLang.CFile
import YoloLang.Fault
import YoloLang.Journal
import YoloLang.Token.Feed
import YoloLang.Walk.Observer

/-!
The state of a walk over a program: the tokens to come, the C text and the names so far, what the
observer has made of the walk, and the notes taken.
-/

namespace YoloLang

/-- The depth counts the rules that have been entered and not left. -/
structure Walk (σ : Type) where
  feed : Feed
  file : CFile
  declarations : Declarations
  watcher : σ
  depth : Nat
  journal : Array Note

namespace Walk

variable {σ : Type}

def current (w : Walk σ) : Token := w.feed.current

def entered (o : Observer σ) (rule : Rule) (w : Walk σ) : Walk σ :=
  { w with
    watcher := o w.watcher (.enter rule)
    depth := w.depth + 1
    journal := w.journal.push (.entered rule w.feed.current) }

def left (o : Observer σ) (w : Walk σ) : Walk σ :=
  { w with watcher := o w.watcher .leave, depth := w.depth - 1 }

/-- All that is still open is left, the innermost rule first. -/
def leftAll (o : Observer σ) (w : Walk σ) : Walk σ := Nat.repeat (left o) w.depth w

/-- The window moves on by one token, and one more comes into it. -/
def taken (o : Observer σ) (w : Walk σ) : Walk σ :=
  { w with
    feed := w.feed.tail
    watcher := o w.watcher (.token w.feed.current)
    journal := w.journal.push (.lexed (w.feed.token 2)) }

def written (text : String) (w : Walk σ) : Walk σ := { w with file := w.file.write text }

def lineWritten (text : String) (w : Walk σ) : Walk σ :=
  { w with file := w.file.writeLine text }

def headerWritten (text : String) (w : Walk σ) : Walk σ :=
  { w with file := w.file.writeHeader text, journal := w.journal.push (.header text) }

/-- A variable is declared in the header the first time it is given a value. -/
def declared (name : String) (w : Walk σ) : Walk σ :=
  if name ∈ w.declarations.vars then w
  else { w.headerWritten s!"float {name};" with declarations := w.declarations.addVar name }

end Walk
end YoloLang
