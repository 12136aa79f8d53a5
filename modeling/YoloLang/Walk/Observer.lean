import YoloLang.Grammar.Rule
import YoloLang.Token.Basic

/-!
Observers of a walk. An observer sees every rule that is entered or left and every token that is
taken, and keeps a state of its own; the walk never looks at that state.
-/

namespace YoloLang

inductive Event where
  | enter (rule : Rule)
  | leave
  | token (token : Token)
deriving Repr

abbrev Observer (σ : Type) := σ → Event → σ

namespace Observer

def silent : Observer Unit := fun _ _ => ()

/-- Keeps all that happens, in order. -/
def recorder : Observer (Array Event) := Array.push

end Observer
end YoloLang
