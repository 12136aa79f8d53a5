import YoloLang.Proofs.Shape
import YoloLang.Proofs.Tree

/-!
How C splits the text of an expression: each piece is the longest there is at its place. Main
statement: the text of a token is a piece when what comes after it can neither continue it nor
make a longer sign with it.
-/

namespace YoloLang

namespace CText

/-- The signs of C that can stand in an expression, each before its own beginnings. -/
def signs : List (List Char) :=
  [['+', '+'], ['-', '-'], ['=', '='], ['!', '='], ['<', '='], ['>', '='], ['+'], ['-'], ['*'],
    ['/'], ['<'], ['>'], ['('], [')']]

def startsWord (c : Char) : Bool := Text.isAlphabetic c || c == '_'

def inWord (c : Char) : Bool := Text.isAlphanumeric c || c == '_'

def number (cs : List Char) : List Char :=
  let whole := cs.takeWhile Text.isDigit
  match cs.dropWhile Text.isDigit with
  | '.' :: rest => whole ++ '.' :: rest.takeWhile Text.isDigit
  | _ => whole

/-- The longest piece at the start of a text. A character that begins none stands for itself. -/
def piece (c : Char) (cs : List Char) : List Char :=
  if Text.isDigit c then number (c :: cs)
  else if startsWord c then c :: cs.takeWhile inWord
  else (signs.find? (·.isPrefixOf (c :: cs))).getD [c]

def pieces : List Char → List (List Char)
  | [] => []
  | c :: cs => piece c cs :: pieces (cs.drop ((piece c cs).length - 1))
termination_by cs => cs.length

/-- The pieces that C takes this text for. -/
def split (text : String) : List String := (pieces text.toList).map String.ofList

example : split "a--a" = ["a", "--", "a"] := by cbv

/-- A piece that is all of the text of a token leaves what comes after it. -/
theorem pieces_append {c : Char} {cs rest : List Char} (whole : piece c (cs ++ rest) = c :: cs) :
    pieces (c :: (cs ++ rest)) = (c :: cs) :: pieces rest := by
  rw [pieces, whole]
  simp

theorem number_append {digits rest : List Char} (decimal : ∀ c ∈ digits, Text.isDigit c = true)
    (ends : ∀ c ∈ rest.head?, Text.isDigit c = false ∧ c ≠ '.') :
    number (digits ++ rest) = digits := by
  have none : rest.takeWhile Text.isDigit = [] ∧ rest.dropWhile Text.isDigit = rest := by
    cases rest with
    | nil => simp
    | cons c rest => simp [(ends c rfl).1]
  rw [number]
  rw [List.takeWhile_append_of_pos decimal, List.dropWhile_append_of_pos decimal, none.1, none.2]
  split
  · exact absurd rfl (ends '.' rfl).2
  · exact List.append_nil digits

theorem number_append_fraction {digits decimals rest : List Char}
    (decimal : ∀ c ∈ digits, Text.isDigit c = true)
    (decimal' : ∀ c ∈ decimals, Text.isDigit c = true)
    (ends : ∀ c ∈ rest.head?, Text.isDigit c = false) :
    number (digits ++ '.' :: (decimals ++ rest)) = digits ++ '.' :: decimals := by
  have point : Text.isDigit '.' = false := by decide
  have none : rest.takeWhile Text.isDigit = [] := by
    cases rest with
    | nil => rfl
    | cons c rest => simp [ends c rfl]
  rw [number]
  rw [List.takeWhile_append_of_pos decimal, List.dropWhile_append_of_pos decimal]
  simp only [List.takeWhile_cons, List.dropWhile_cons, point]
  simp [List.takeWhile_append_of_pos decimal', none]

theorem piece_number {c : Char} {cs : List Char} (digit : Text.isDigit c = true) :
    piece c cs = number (c :: cs) := by
  rw [piece, if_pos digit]

theorem piece_word {c : Char} {cs rest : List Char} (first : Text.isAlphabetic c = true)
    (more : ∀ d ∈ cs, Text.isAlphanumeric d = true) (ends : ∀ d ∈ rest.head?, inWord d = false) :
    piece c (cs ++ rest) = c :: cs := by
  have inside : ∀ d ∈ cs, inWord d = true := fun d mem => by simp [inWord, more d mem]
  have none : rest.takeWhile inWord = [] := by
    cases rest with
    | nil => rfl
    | cons c rest => simp [ends c rfl]
  have starts : startsWord c = true := by simp [startsWord, first]
  simp [piece, Text.not_digit_of_alphabetic first, starts, List.takeWhile_append_of_pos inside,
    none]

theorem signs_start : ∀ raw ∈ signs,
    raw.head?.all (fun c => !Text.isDigit c && !startsWord c) = true := by decide

theorem find_self : ∀ raw ∈ signs, signs.find? (·.isPrefixOf raw) = some raw := by decide

/-- The longest sign at the start of a text is this one, unless the next character makes a longer
one with it. -/
theorem find_sign {c : Char} {cs rest : List Char} (mem : c :: cs ∈ signs)
    (ends : ∀ d ∈ rest.head?, c :: (cs ++ [d]) ∉ signs) :
    signs.find? (·.isPrefixOf (c :: (cs ++ rest))) = some (c :: cs) := by
  cases rest with
  | nil => simpa using find_self _ mem
  | cons d rest =>
      have longer := ends d rfl
      have differs {e : Char} (ne : d ≠ e) : (e == d) = false :=
        beq_eq_false_iff_ne.mpr (Ne.symm ne)
      simp only [signs, List.mem_cons, List.cons.injEq, List.not_mem_nil, or_false] at mem
      rcases mem with ⟨rfl, rfl⟩ | ⟨rfl, rfl⟩ | ⟨rfl, rfl⟩ | ⟨rfl, rfl⟩ | ⟨rfl, rfl⟩ | ⟨rfl, rfl⟩ |
        ⟨rfl, rfl⟩ | ⟨rfl, rfl⟩ | ⟨rfl, rfl⟩ | ⟨rfl, rfl⟩ | ⟨rfl, rfl⟩ | ⟨rfl, rfl⟩ | ⟨rfl, rfl⟩ |
        ⟨rfl, rfl⟩ <;> simp [signs] at longer <;>
        simp [signs, List.isPrefixOf, List.find?, differs, longer]

theorem piece_sign {c : Char} {cs rest : List Char} (mem : c :: cs ∈ signs)
    (ends : ∀ d ∈ rest.head?, c :: (cs ++ [d]) ∉ signs) : piece c (cs ++ rest) = c :: cs := by
  have start : (!Text.isDigit c && !startsWord c) = true := signs_start _ mem
  simp only [Bool.and_eq_true, Bool.not_eq_true'] at start
  simp [piece, start, find_sign mem ends]

/-- Two equal signs of a sum in a row are one piece. -/
theorem piece_fused {c : Char} (sign : c = '+' ∨ c = '-') (rest : List Char) :
    piece c (c :: rest) = [c, c] := by
  obtain rfl | rfl := sign <;> cbv

end CText
end YoloLang
