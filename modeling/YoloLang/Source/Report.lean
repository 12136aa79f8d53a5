import YoloLang.Source.Span
import YoloLang.Text.Blank
import YoloLang.Text.Lines

/-!
Messages with a place, and their display over the source. The display quotes up to two lines
before the place and one after it, with line numbers in a gutter, and marks the place below its
line. A place past the last line is marked just after the text of that last line.
-/

namespace YoloLang

structure Located (α : Type) where
  cause : α
  span : Option Span
deriving DecidableEq, Repr

/-- What is marked below a quoted line: a column and how many tildes from there. -/
structure Marker where
  line : Nat
  column : Nat
  length : Nat
deriving DecidableEq, Repr

namespace Marker

/-- The place is marked where it is, or after the last line if it lies below all lines. -/
def ofSpan (span : Span) (lines : List (List Char)) : Marker :=
  if span.line ≤ lines.length then ⟨span.line, span.column, span.length⟩
  else ⟨lines.length, (Text.trimEnd (lines.getLast?.getD [])).length + 1, 0⟩

/-- An empty region gets a caret, any other as many tildes as its length says. -/
def drawn (m : Marker) (width : Nat) : List Char :=
  List.replicate (width + 3 + (m.column - 1)) ' '
    ++ if m.length = 0 then ['^'] else List.replicate m.length '~'

def firstLine (m : Marker) : Nat := max (m.line - 2) 1

def lastLine (m : Marker) (count : Nat) : Nat := min (m.line + 1) count

end Marker

namespace Report

def decimal (n : Nat) : List Char := Nat.toDigits 10 n

def quotedLine (width number : Nat) (line : List Char) : List Char :=
  List.replicate (width - (decimal number).length) ' ' ++ decimal number
    ++ [' ', '|', ' '] ++ Text.trimEnd line

/-- The lines around a place, each with its number, and the marker after the line it belongs to. -/
def excerpt (span : Span) (lines : List (List Char)) : List (List Char) :=
  if lines.isEmpty then [] else
    let marker := Marker.ofSpan span lines
    let last := marker.lastLine lines.length
    let width := (decimal last).length
    ((lines.take last).drop (marker.firstLine - 1)).zipIdx marker.firstLine |>.flatMap
      fun (line, number) =>
        quotedLine width number line :: if number = marker.line then [marker.drawn width] else []

end Report

namespace Located

def map {α β : Type} (f : α → β) (e : Located α) : Located β := ⟨f e.cause, e.span⟩

def heading (e : Located String) : String :=
  match e.span with
  | none => e.cause
  | some span => s!"{e.cause}\n  -> {span.cited}"

def render (e : Located String) (source : String) : String :=
  let quoted := match e.span with
    | none => []
    | some span => Report.excerpt span (Text.lines source.toList)
  e.heading ++ "\n" ++ String.ofList (quoted.flatMap (· ++ ['\n']))

end Located
end YoloLang
