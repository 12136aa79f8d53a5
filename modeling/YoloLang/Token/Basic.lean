import YoloLang.Source.Span
import YoloLang.Token.Kind
import YoloLang.Text.Quoted

/-!
Tokens. Two tokens are the same token when kind and text agree, wherever they stand.
-/

namespace YoloLang

structure Token where
  text : String
  kind : Kind
  span : Span
deriving Repr

namespace Token

def agrees (a b : Token) : Bool := a.kind == b.kind && a.text == b.text

def dump (t : Token) : String := s!"{t.kind.tag}({Text.Quoted.string t.text})"

/-- The token at the end of a text. -/
def eof (span : Span) : Token := ⟨"", .eof, span⟩

theorem agrees_iff {a b : Token} : a.agrees b = true ↔ a.kind = b.kind ∧ a.text = b.text := by
  simp [agrees]

end Token
end YoloLang
