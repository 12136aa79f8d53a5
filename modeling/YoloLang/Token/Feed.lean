import YoloLang.Token.Cursor

/-!
What a source still has to offer: the tokens that come, and what stops them, the end of the text or
a fault. A program is read through a window of two tokens, the current one and the one after it,
so a fault is met two tokens before its place.
-/

namespace YoloLang

inductive Ending where
  | eof (span : Span)
  | fault (fault : Located LexFault)
deriving Repr

structure Feed where
  ahead : List Token
  ending : Ending
deriving Repr

namespace Feed

def ofCursor (c : Cursor) : Feed :=
  match h : c.nextToken with
  | (.error fault, _) => ⟨[], .fault fault⟩
  | (.ok token, after) =>
      if kind : token.kind = .eof then ⟨[], .eof token.span⟩
      else
        have := Cursor.length_nextToken_lt h kind
        let rest := ofCursor after
        ⟨token :: rest.ahead, rest.ending⟩
termination_by c.rest.length

/-- The token a position of the feed shows: the end token from the end on. -/
def token (f : Feed) (i : Nat) : Token :=
  f.ahead[i]?.getD <| .eof <| match f.ending with
    | .eof span => span
    | .fault fault => fault.span.getD .start

def current (f : Feed) : Token := f.token 0

/-- The fault that bars the window from showing the tokens up to a position. -/
def barrier? (f : Feed) (i : Nat) : Option (Located LexFault) :=
  match f.ending with
  | .eof _ => none
  | .fault fault => if (f.ahead.drop i).isEmpty then some fault else none

theorem barrier?_of_eof {f : Feed} {span : Span} (h : f.ending = .eof span) (i : Nat) :
    f.barrier? i = none := by
  simp only [barrier?, h]

theorem barrier?_of_fault {f : Feed} {fault : Located LexFault} (h : f.ending = .fault fault)
    (i : Nat) : f.barrier? i = if f.ahead.length ≤ i then some fault else none := by
  simp only [barrier?, h, List.isEmpty_iff, List.drop_eq_nil_iff]

def tail (f : Feed) : Feed := { f with ahead := f.ahead.tail }

theorem ahead_ne_nil_of_current {f : Feed} (h : f.current.kind ≠ .eof) : f.ahead ≠ [] := by
  intro empty
  simp [current, token, empty, Token.eof] at h

end Feed

/-- All tokens of a source before its end. -/
def tokenize (source : String) : Except (Located LexFault) (List Token) :=
  let feed := Feed.ofCursor (.ofSource source)
  match feed.ending with
  | .eof _ => .ok feed.ahead
  | .fault fault => .error fault

end YoloLang
