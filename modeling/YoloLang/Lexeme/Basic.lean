import YoloLang.Lexeme.Fault
import YoloLang.Token.Kind
import YoloLang.Text.Numeric

/-!
Lexemes: the stretches of text that make tokens. A reader looks at the text that is left and either
names the lexeme at its start or says what is wrong with it, and after how many characters. Every
reader takes the longest lexeme there is.
-/

namespace YoloLang

structure Lexeme where
  kind : Kind
  raw : List Char
deriving DecidableEq, Repr

/-- Where a lexeme breaks off: the characters of it that were still in order. -/
structure Malformed where
  fault : LexFault
  before : List Char
deriving DecidableEq, Repr

namespace Lexeme

/-- A string is known by what stands between its quotes, any other lexeme by all of it. -/
def text (l : Lexeme) : String :=
  String.ofList (if l.kind = .string then l.raw.tail.dropLast else l.raw)

/-- The lexemes with one spelling, each before its own beginnings. -/
def fixed : List (List Char × Kind) :=
  [(['\n'], .newline), (['=', '='], .eqEq), (['!', '='], .notEq), (['<', '='], .ltEq),
    (['>', '='], .gtEq), (['='], .eq), (['<'], .lt), (['>'], .gt), (['+'], .plus), (['-'], .minus),
    (['*'], .asterisk), (['/'], .slash), (['('], .openParen), ([')'], .closeParen),
    ([';'], .semicolon)]

/-- Strings end up in format strings, so they have no backslash and no percent sign. -/
def inString (c : Char) : Bool := !(c == '"' || Text.isControl c || c == '\\' || c == '%')

def readString (afterQuote : List Char) : Except Malformed Lexeme :=
  let body := afterQuote.takeWhile inString
  match afterQuote.dropWhile inString with
  | '"' :: _ => .ok ⟨.string, '"' :: body ++ ['"']⟩
  | [] | '\n' :: _ => .error ⟨.unterminatedString, '"' :: body⟩
  | c :: _ => .error ⟨.illegalInString c, '"' :: body⟩

def readNumber (cs : List Char) : Except Malformed Lexeme :=
  let whole := cs.takeWhile Text.isDigit
  match cs.dropWhile Text.isDigit with
  | '.' :: rest =>
      let decimals := rest.takeWhile Text.isDigit
      if decimals.isEmpty then .error ⟨.missingDecimals, whole ++ ['.']⟩
      else .ok ⟨.number, whole ++ '.' :: decimals⟩
  | _ => .ok ⟨.number, whole⟩

def readWord (c : Char) (cs : List Char) : Lexeme :=
  let raw := c :: cs.takeWhile Text.isAlphanumeric
  ⟨.ofWord (String.ofList raw), raw⟩

def readFixed (c : Char) (cs : List Char) : Except Malformed Lexeme :=
  match fixed.find? fun (spelling, _) => spelling.isPrefixOf (c :: cs) with
  | some (spelling, kind) => .ok ⟨kind, spelling⟩
  | none =>
      if c = '!' then .error ⟨.expectedNotEq (cs.headD '\x00'), []⟩
      else .error ⟨.unknown c, []⟩

def read : List Char → Except Malformed Lexeme
  | [] => .ok ⟨.eof, []⟩
  | c :: cs =>
      if c = '"' then readString cs
      else if Text.isDigit c then readNumber (c :: cs)
      else if Text.isAlphabetic c then .ok (readWord c cs)
      else readFixed c cs

def isGap (c : Char) : Bool := c == ' ' || c == '\t' || c == '\r'

/-- Blanks and a comment before a lexeme. A newline is a lexeme of its own, and ends a comment. -/
def skipped (cs : List Char) : List Char :=
  let gap := cs.takeWhile isGap
  match cs.dropWhile isGap with
  | '#' :: rest => gap ++ '#' :: rest.takeWhile (· != '\n')
  | _ => gap

theorem readString_prefix {cs : List Char} {l : Lexeme} (h : readString cs = .ok l) :
    ∃ rest, '"' :: cs = l.raw ++ rest := by
  have split := List.takeWhile_append_dropWhile (p := inString) (l := cs)
  unfold readString at h
  split at h <;> simp only [Except.ok.injEq, reduceCtorEq] at h
  rename_i rest tail
  subst h
  exact ⟨rest, by simp [← tail, split]⟩

theorem readNumber_prefix {cs : List Char} {l : Lexeme} (h : readNumber cs = .ok l) :
    ∃ rest, cs = l.raw ++ rest := by
  have split := List.takeWhile_append_dropWhile (p := Text.isDigit) (l := cs)
  unfold readNumber at h
  split at h
  · rename_i rest tail
    simp only at h
    split at h <;> simp only [Except.ok.injEq, reduceCtorEq] at h
    subst h
    refine ⟨rest.dropWhile Text.isDigit, ?_⟩
    simp [List.takeWhile_append_dropWhile, ← tail, split]
  · simp only [Except.ok.injEq] at h
    subst h
    exact ⟨_, split.symm⟩

theorem readFixed_prefix {c : Char} {cs : List Char} {l : Lexeme} (h : readFixed c cs = .ok l) :
    ∃ rest, c :: cs = l.raw ++ rest := by
  unfold readFixed at h
  split at h
  · rename_i found
    simp only [Except.ok.injEq] at h
    subst h
    have starts := List.find?_some found
    obtain ⟨rest, whole⟩ := List.isPrefixOf_iff_prefix.mp starts
    exact ⟨rest, whole.symm⟩
  · split at h <;> simp at h

/-- A lexeme is read off the start of the text. -/
theorem read_prefix {cs : List Char} {l : Lexeme} (h : read cs = .ok l) :
    ∃ rest, cs = l.raw ++ rest := by
  unfold read at h
  split at h
  · simp only [Except.ok.injEq] at h
    subst h
    exact ⟨[], rfl⟩
  · rename_i c cs
    split at h
    · rename_i quote
      exact quote ▸ readString_prefix h
    · split at h
      · exact readNumber_prefix h
      · split at h
        · simp only [Except.ok.injEq] at h
          subst h
          exact ⟨cs.dropWhile Text.isAlphanumeric, by
            simp [readWord, List.takeWhile_append_dropWhile]⟩
        · exact readFixed_prefix h

theorem readNumber_raw_ne_nil {c : Char} {cs : List Char} {l : Lexeme}
    (digit : Text.isDigit c = true) (h : readNumber (c :: cs) = .ok l) : l.raw ≠ [] := by
  unfold readNumber at h
  split at h
  · simp only at h
    split at h <;> simp only [Except.ok.injEq, reduceCtorEq] at h
    simp [← h]
  · simp only [Except.ok.injEq] at h
    simp [← h, digit]

/-- Only the end of the text has an empty lexeme. -/
theorem read_raw_ne_nil {cs : List Char} {l : Lexeme} (h : read cs = .ok l)
    (kind : l.kind ≠ .eof) : l.raw ≠ [] := by
  unfold read at h
  split at h
  · simp only [Except.ok.injEq] at h
    subst h
    contradiction
  · split at h
    · unfold readString at h
      split at h <;> simp only [Except.ok.injEq, reduceCtorEq] at h
      simp [← h]
    · split at h
      · rename_i digit
        exact readNumber_raw_ne_nil digit h
      · split at h
        · simp only [Except.ok.injEq] at h
          simp [← h, readWord]
        · unfold readFixed at h
          split at h
          · rename_i found
            have mem := List.mem_of_find?_eq_some found
            simp only [Except.ok.injEq] at h
            subst h
            intro empty
            simp only at empty
            subst empty
            simp [fixed] at mem
          · split at h <;> simp at h

end Lexeme
end YoloLang
