import YoloLang.Lexeme.Basic
import YoloLang.Source.Report
import YoloLang.Token.Basic

/-!
A cursor moves over a source text token by token and never back. The text has a newline added, so
that the last statement is ended too. At the end of the text the cursor keeps answering with the
end token, and at a fault with that fault; read as a sequence it stops after either.
-/

namespace YoloLang

structure Cursor where
  rest : List Char
  position : Position
  exhausted : Bool
deriving Repr

namespace Cursor

def ofSource (source : String) : Cursor := ⟨source.toList ++ ['\n'], .start, false⟩

def drop (c : Cursor) (n : Nat) : Cursor :=
  { c with rest := c.rest.drop n, position := c.position.after (c.rest.take n) }

def skipBlanks (c : Cursor) : Cursor := c.drop (Lexeme.skipped c.rest).length

/-- The region of the one character that a lexeme breaks off at. -/
def faultSpan (c : Cursor) (before : List Char) : Span :=
  (c.position.after before).span ((c.rest.drop before.length).head?.map Char.utf8Size |>.getD 0)

/-- A fault leaves the cursor behind the blanks it has skipped. -/
def nextToken (c : Cursor) : Except (Located LexFault) Token × Cursor :=
  let start := c.skipBlanks
  match Lexeme.read start.rest with
  | .ok lexeme =>
      let span := start.position.span (utf8Length lexeme.raw)
      (.ok ⟨lexeme.text, lexeme.kind, span⟩, start.drop lexeme.raw.length)
  | .error bad => (.error ⟨bad.fault, some (start.faultSpan bad.before)⟩, start)

/-- The next item of the sequence of tokens before the end, a fault being its last item. -/
def next (c : Cursor) : Option (Except (Located LexFault) Token) × Cursor :=
  if c.exhausted then (none, c) else
    match c.nextToken with
    | (.ok token, after) =>
        if token.kind = .eof then (none, { after with exhausted := true })
        else (some (.ok token), after)
    | (.error fault, after) => (some (.error fault), { after with exhausted := true })

theorem length_skipBlanks_le (c : Cursor) : c.skipBlanks.rest.length ≤ c.rest.length := by
  simp [skipBlanks, drop]

theorem length_nextToken_lt {c after : Cursor} {token : Token}
    (h : c.nextToken = (.ok token, after)) (kind : token.kind ≠ .eof) :
    after.rest.length < c.rest.length := by
  unfold nextToken at h
  simp only at h
  split at h <;> simp only [Prod.mk.injEq, Except.ok.injEq, reduceCtorEq, false_and] at h
  rename_i lexeme eq
  obtain ⟨rfl, rfl⟩ := h
  obtain ⟨rest, whole⟩ := Lexeme.read_prefix eq
  have nonempty := List.length_pos_iff.mpr (Lexeme.read_raw_ne_nil eq kind)
  have le := length_skipBlanks_le c
  simp only [drop, whole, List.length_drop, List.length_append] at le ⊢
  omega

theorem length_next_lt {c after : Cursor} {token : Token}
    (h : c.next = (some (.ok token), after)) : after.rest.length < c.rest.length := by
  unfold next at h
  split at h
  · simp at h
  · split at h
    · rename_i eq
      split at h
      · simp at h
      · rename_i kind
        simp only [Prod.mk.injEq, Option.some.injEq, Except.ok.injEq] at h
        obtain ⟨rfl, rfl⟩ := h
        exact length_nextToken_lt eq kind
    · simp at h

/-- Everything the sequence still has, and the cursor at its end. -/
def drain (c : Cursor) : List (Except (Located LexFault) Token) × Cursor :=
  match h : c.next with
  | (none, after) => ([], after)
  | (some (.error fault), after) => ([.error fault], after)
  | (some (.ok token), after) =>
      have := length_next_lt h
      let (rest, stop) := after.drain
      (.ok token :: rest, stop)
termination_by c.rest.length

end Cursor
end YoloLang
