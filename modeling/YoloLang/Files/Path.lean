/-!
Paths as texts. Slashes cut a path into segments, some of which name nothing: the empty ones and
single dots.
-/

namespace YoloLang.Path

def segments : List Char → List (List Char)
  | [] => [[]]
  | '/' :: cs => [] :: segments cs
  | c :: cs => (c :: (segments cs).headD []) :: (segments cs).tail

def joined (segments : List (List Char)) : List Char := List.intercalate ['/'] segments

def namesNothing (segment : List Char) : Bool := segment == [] || segment == ['.']

def dropIdle (segments : List (List Char)) : List (List Char) :=
  (segments.reverse.dropWhile namesNothing).reverse

/-- A slash in front starts at the root, and a dot in front names the folder the path starts from;
either is kept apart from what follows it. -/
def front : List Char → List Char × List Char
  | '/' :: cs => (['/'], cs)
  | ['.'] => (['.'], [])
  | '.' :: '/' :: cs => (['.'], '/' :: cs)
  | cs => ([], cs)

/-- The text of a path without its last segment that names something. The root has no parent, and
neither has the empty path. -/
def parent? (path : String) : Option String :=
  let (front, body) := front path.toList
  match dropIdle (segments body) with
  | [] => if front = ['.'] then some "" else none
  | named => some (String.ofList (front ++ joined (dropIdle named.dropLast)))

/-- The folder that holds what a path names, a dot if the path has no folder in it. -/
def folder (path : String) : String :=
  match parent? path with
  | some parent => if parent.isEmpty then "." else parent
  | none => "."

theorem segments_ne_nil (cs : List Char) : segments cs ≠ [] := by
  fun_cases segments cs <;> simp

/-- Cutting loses nothing. -/
theorem joined_segments (cs : List Char) : joined (segments cs) = cs := by
  fun_induction segments cs with
  | case1 => rfl
  | case2 cs ih =>
      cases h : segments cs with
      | nil => exact absurd h (segments_ne_nil cs)
      | cons s rest => simp_all [joined]
  | case3 c cs _ ih =>
      cases h : segments cs with
      | nil => exact absurd h (segments_ne_nil cs)
      | cons s rest => cases rest <;> simp_all [joined]

end YoloLang.Path
