/-!
Places in a source text. Offsets and lengths count bytes of UTF-8. Lines and columns count from
one, and a column is a number of characters, so a tab is one column wide.
-/

namespace YoloLang

structure Span where
  offset : Nat
  length : Nat
  line : Nat
  column : Nat
deriving DecidableEq, Repr

/-- The empty region before all text. -/
def Span.start : Span := ⟨0, 0, 1, 1⟩

def Span.isEmpty (s : Span) : Bool := s.length == 0

/-- Line and column, as messages cite a place. -/
def Span.cited (s : Span) : String := s!"{s.line}:{s.column}"

/-- A place between two characters. -/
structure Position where
  offset : Nat
  line : Nat
  column : Nat
deriving DecidableEq, Repr

namespace Position

def start : Position := ⟨0, 1, 1⟩

def next (p : Position) (c : Char) : Position :=
  if c = '\n' then ⟨p.offset + c.utf8Size, p.line + 1, 1⟩
  else ⟨p.offset + c.utf8Size, p.line, p.column + 1⟩

def after (p : Position) (cs : List Char) : Position := cs.foldl next p

def span (p : Position) (length : Nat) : Span := ⟨p.offset, length, p.line, p.column⟩

theorem after_cons (p : Position) (c : Char) (cs : List Char) :
    p.after (c :: cs) = (p.next c).after cs := rfl

theorem after_append (p : Position) (xs ys : List Char) :
    p.after (xs ++ ys) = (p.after xs).after ys :=
  List.foldl_append ..

end Position

/-- Bytes of UTF-8. -/
def utf8Length (cs : List Char) : Nat := cs.foldr (fun c n => c.utf8Size + n) 0

theorem utf8Length_append (xs ys : List Char) :
    utf8Length (xs ++ ys) = utf8Length xs + utf8Length ys := by
  induction xs with
  | nil => simp [utf8Length]
  | cons x xs ih => simp_all [utf8Length, Nat.add_assoc]

theorem Position.offset_after (p : Position) (cs : List Char) :
    (p.after cs).offset = p.offset + utf8Length cs := by
  induction cs generalizing p with
  | nil => rfl
  | cons c cs ih =>
      rw [after_cons, ih, next]
      split <;> simp [utf8Length] <;> omega

end YoloLang
