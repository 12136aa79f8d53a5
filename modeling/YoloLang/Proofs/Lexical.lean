import Mathlib.Data.List.Basic
import YoloLang.Lexeme.Basic

/-!
The lexemes of the language said without a reader: how the tokens of each kind are spelled, what may
stand before one, and where a text that begins with none breaks off.
-/

namespace YoloLang.Lexeme

/-! How tokens are spelled. -/

/-- A character that a string can hold. -/
def Literal (c : Char) : Prop := Text.isControl c = false ∧ c ≠ '"' ∧ c ≠ '\\' ∧ c ≠ '%'

/-- The kind of a word. Reserved words come first, then the truth values in any case. -/
inductive Word (text : String) : Kind → Prop where
  | reserved (word : Keyword) (same : text = word.text) : Word text (.keyword word)
  | truth (free : ∀ word : Keyword, text ≠ word.text)
      (truth : text.toLower = "true" ∨ text.toLower = "false") : Word text .boolean
  | name (free : ∀ word : Keyword, text ≠ word.text)
      (other : ¬ (text.toLower = "true" ∨ text.toLower = "false")) : Word text .identifier

def symbols : List (String × Kind) :=
  [("==", .eqEq), ("!=", .notEq), ("<=", .ltEq), (">=", .gtEq), ("=", .eq), ("<", .lt), (">", .gt),
    ("+", .plus), ("-", .minus), ("*", .asterisk), ("/", .slash), ("(", .openParen),
    (")", .closeParen), (";", .semicolon)]

inductive Spelled : List Char → Kind → Prop where
  | newline : Spelled ['\n'] .newline
  | string {body : List Char} (plain : ∀ c ∈ body, Literal c) :
      Spelled ('"' :: body ++ ['"']) .string
  | whole {digits : List Char} (some : digits ≠ [])
      (decimal : ∀ c ∈ digits, Text.isDigit c = true) : Spelled digits .number
  | fraction {digits decimals : List Char} (some : digits ≠ [])
      (decimal : ∀ c ∈ digits, Text.isDigit c = true) (some' : decimals ≠ [])
      (decimal' : ∀ c ∈ decimals, Text.isDigit c = true) :
      Spelled (digits ++ '.' :: decimals) .number
  | word {c : Char} {cs : List Char} {kind : Kind} (first : Text.isAlphabetic c = true)
      (more : ∀ d ∈ cs, Text.isAlphanumeric d = true)
      (named : Word (String.ofList (c :: cs)) kind) : Spelled (c :: cs) kind
  | symbol {text : String} {kind : Kind} (mem : (text, kind) ∈ symbols) :
      Spelled text.toList kind

/-- The lexeme at the start of a text, of all those that it begins with. -/
structure Longest (cs raw : List Char) (kind : Kind) : Prop where
  spelled : Spelled raw kind
  only : ∀ kind', Spelled raw kind' → kind' = kind
  begins : raw <+: cs
  longest : ∀ raw' kind', Spelled raw' kind' → raw' <+: cs → raw'.length ≤ raw.length

/-- A number that goes on with a point and no digit behind it. -/
def OpenDecimal (cs : List Char) : Prop :=
  ∃ digits rest, cs = digits ++ '.' :: rest ∧ digits ≠ [] ∧
    (∀ c ∈ digits, Text.isDigit c = true) ∧ ∀ c ∈ rest.head?, Text.isDigit c = false

/-- What is wrong with a text that begins with no lexeme, and what of it is still in order. -/
inductive Breaks : List Char → LexFault → List Char → Prop where
  | bang {rest : List Char} (next : rest.head? ≠ some '=') :
      Breaks ('!' :: rest) (.expectedNotEq (rest.headD '\x00')) []
  | illegal {body rest : List Char} {c : Char} (plain : ∀ d ∈ body, Literal d)
      (bad : ¬ Literal c) (quote : c ≠ '"') (line : c ≠ '\n') :
      Breaks ('"' :: body ++ c :: rest) (.illegalInString c) ('"' :: body)
  | unterminated {body rest : List Char} (plain : ∀ d ∈ body, Literal d)
      (line : ∀ c ∈ rest.head?, c = '\n') :
      Breaks ('"' :: body ++ rest) .unterminatedString ('"' :: body)
  | decimals {digits rest : List Char} (some : digits ≠ [])
      (decimal : ∀ c ∈ digits, Text.isDigit c = true)
      (none : ∀ c ∈ rest.head?, Text.isDigit c = false) :
      Breaks (digits ++ '.' :: rest) .missingDecimals (digits ++ ['.'])
  | unknown {c : Char} {rest : List Char}
      (none : ∀ raw kind, Spelled raw kind → raw.head? ≠ some c) :
      Breaks (c :: rest) (.unknown c) []

/-- What is skipped before a lexeme: blanks, and a comment up to the end of its line. Nothing more
of the sort follows. -/
inductive Gap : List Char → List Char → Prop where
  | blanks {gap rest : List Char} (blank : ∀ c ∈ gap, c = ' ' ∨ c = '\t' ∨ c = '\r')
      (ends : ∀ c ∈ rest.head?, c ≠ ' ' ∧ c ≠ '\t' ∧ c ≠ '\r' ∧ c ≠ '#') : Gap gap rest
  | comment {gap body rest : List Char} (blank : ∀ c ∈ gap, c = ' ' ∨ c = '\t' ∨ c = '\r')
      (line : '\n' ∉ body) (ends : ∀ c ∈ rest.head?, c = '\n') : Gap (gap ++ '#' :: body) rest

/-! Readers and spellings. -/

theorem inString_iff {c : Char} : inString c = true ↔ Literal c := by
  simp only [inString, Literal, Bool.not_eq_true', Bool.or_eq_false_iff, beq_eq_false_iff_ne]
  constructor
  · rintro ⟨⟨⟨quote, control⟩, slash⟩, percent⟩
    exact ⟨control, quote, slash, percent⟩
  · rintro ⟨control, quote, slash, percent⟩
    exact ⟨⟨⟨quote, control⟩, slash⟩, percent⟩

theorem word_ofWord (text : String) : Word text (.ofWord text) := by
  have lower : text.toLower.toList = text.toList.map Char.toLower := String.toList_map
  have truth : Kind.isTruth text = true ↔ text.toLower = "true" ∨ text.toLower = "false" := by
    simp [Kind.isTruth, ← String.toList_inj, lower]
  rw [Kind.ofWord]
  cases found : Keyword.ofWord? text with
  | some word => exact .reserved word (Keyword.ofWord?_eq_some_iff.mp found)
  | none =>
      have free (word : Keyword) : text ≠ word.text := by
        intro same
        rw [Keyword.ofWord?_eq_some_iff.mpr same] at found
        contradiction
      by_cases known : Kind.isTruth text = true
      · simpa [known] using Word.truth free (truth.mp known)
      · simpa [known] using Word.name free (mt truth.mpr known)

theorem Word.unique {text : String} {j k : Kind} (h : Word text j) (h' : Word text k) :
    j = k := by
  cases h with
  | reserved word same =>
      cases h' with
      | reserved word' same' => rw [Keyword.text_injective (same.symm.trans same')]
      | truth free | name free => exact absurd same (free word)
  | truth free truth =>
      cases h' with
      | reserved word same => exact absurd same (free word)
      | truth => rfl
      | name _ other => exact absurd truth other
  | name free other =>
      cases h' with
      | reserved word same => exact absurd same (free word)
      | truth _ truth => exact absurd truth other
      | name => rfl

theorem mem_fixed_iff {raw : List Char} {kind : Kind} :
    (raw, kind) ∈ fixed ↔
      raw = ['\n'] ∧ kind = .newline ∨ (String.ofList raw, kind) ∈ symbols := by
  simp [fixed, symbols, ← String.toList_inj]

theorem spelled_of_fixed {raw : List Char} {kind : Kind} (mem : (raw, kind) ∈ fixed) :
    Spelled raw kind := by
  obtain ⟨rfl, rfl⟩ | mem := mem_fixed_iff.mp mem
  · exact .newline
  · simpa using Spelled.symbol mem

theorem Spelled.kind_ne_eof {raw : List Char} {kind : Kind} (h : Spelled raw kind) :
    kind ≠ .eof := by
  cases h with
  | newline | string | whole | fraction => simp
  | word _ _ named => cases named <;> simp
  | symbol mem =>
      rintro rfl
      simp [symbols] at mem

theorem Spelled.ne_nil {raw : List Char} {kind : Kind} (h : Spelled raw kind) : raw ≠ [] := by
  cases h with
  | newline | string | fraction | word => simp
  | whole some => exact some
  | symbol mem =>
      have all : ∀ s ∈ symbols, s.1.toList ≠ [] := by decide
      exact all _ mem

/-- Only the lexeme of a line's end has such an end in it. -/
theorem Spelled.unbroken {raw : List Char} {kind : Kind} (h : Spelled raw kind)
    (other : kind ≠ .newline) : '\n' ∉ raw := by
  intro mem
  have decimal (digits : ∀ c ∈ raw, c = '.' ∨ Text.isDigit c = true) : False :=
    absurd (digits '\n' mem) (by decide)
  cases h with
  | newline => exact other rfl
  | string plain =>
      have inside : Literal '\n' := plain '\n' (by simpa using mem)
      exact absurd inside.1 (by decide)
  | whole some digits => exact decimal fun c mem => .inr (digits c mem)
  | fraction some digits some' digits' => exact decimal (by grind)
  | word first more =>
      obtain rfl | mem := List.mem_cons.mp mem
      · exact absurd first (by decide)
      · exact absurd (more '\n' mem) (by decide)
  | symbol mem' =>
      have all : ∀ s ∈ symbols, '\n' ∉ s.1.toList := by decide
      exact all _ mem' mem

theorem Spelled.eq_newline {raw : List Char} (h : Spelled raw .newline) : raw = ['\n'] := by
  cases h with
  | newline => rfl
  | word _ _ named => cases named
  | symbol mem => simp [symbols] at mem

theorem Spelled.eq_of_line {raw : List Char} {kind : Kind} (h : Spelled raw kind)
    (line : '\n' ∈ raw) : raw = ['\n'] ∧ kind = .newline := by
  have newline : kind = .newline := by
    by_contra other
    exact h.unbroken other line
  subst newline
  exact ⟨h.eq_newline, rfl⟩

/-- A run of characters ends where another sort of character follows. -/
theorem span_eq {p : Char → Bool} {xs ys : List Char} (all : ∀ x ∈ xs, p x = true)
    (stops : ∀ y ∈ ys.head?, p y = false) :
    (xs ++ ys).takeWhile p = xs ∧ (xs ++ ys).dropWhile p = ys := by
  rw [List.takeWhile_append_of_pos all, List.dropWhile_append_of_pos all]
  cases ys with
  | nil => simp
  | cons y ys => simp [stops y rfl]

/-- What a run leaves does not begin with a character of its sort. -/
theorem exists_span (p : Char → Bool) (cs : List Char) :
    ∃ xs ys, cs = xs ++ ys ∧ (∀ x ∈ xs, p x = true) ∧ ∀ y ∈ ys.head?, p y = false := by
  refine ⟨cs.takeWhile p, cs.dropWhile p, List.takeWhile_append_dropWhile.symm, ?_, ?_⟩
  · exact fun x mem => List.all_eq_true.mp List.all_takeWhile x mem
  · intro y first
    have := List.head?_dropWhile_not p cs
    simp_all

theorem isGap_iff {c : Char} : isGap c = true ↔ c = ' ' ∨ c = '\t' ∨ c = '\r' := by
  simp [isGap, or_assoc]

/-- What is skipped is a gap. -/
theorem gap_skipped (cs : List Char) : ∃ rest, cs = skipped cs ++ rest ∧ Gap (skipped cs) rest := by
  obtain ⟨gap, rest, rfl, all, ends⟩ := exists_span isGap cs
  have span := span_eq all ends
  have blank (c : Char) (mem : c ∈ gap) := isGap_iff.mp (all c mem)
  by_cases comment : rest.head? = some '#'
  · obtain ⟨rest, rfl⟩ := List.head?_eq_some_iff.mp comment
    obtain ⟨body, rest, rfl, line, stops⟩ := exists_span (· != '\n') rest
    have span' := span_eq line stops
    have skips : skipped (gap ++ '#' :: (body ++ rest)) = gap ++ '#' :: body := by
      simp [skipped, span.1, span.2, span'.1]
    refine ⟨rest, by simp [skips], ?_⟩
    rw [skips]
    exact .comment blank (fun mem => by simpa using line _ mem) (by simpa using stops)
  · have skips : skipped (gap ++ rest) = gap := by
      simp only [skipped, span.1, span.2]
      split <;> simp_all
    refine ⟨rest, by rw [skips], ?_⟩
    rw [skips]
    refine .blanks blank fun c first => ?_
    have other : c ≠ '#' := by
      rintro rfl
      exact comment first
    simpa [isGap, other, and_assoc] using ends c first

/-- A gap is all that is skipped. -/
theorem skipped_of_gap {gap rest : List Char} (h : Gap gap rest) : skipped (gap ++ rest) = gap := by
  cases h with
  | blanks blank ends =>
      have all : ∀ c ∈ gap, isGap c = true := fun c mem => isGap_iff.mpr (blank c mem)
      have stops : ∀ c ∈ rest.head?, isGap c = false := fun c first => by simp [isGap, ends c first]
      have span := span_eq all stops
      simp only [skipped, span.1, span.2]
      split
      · exact absurd rfl (ends '#' rfl).2.2.2
      · rfl
  | @comment gap body rest blank line ends =>
      have all : ∀ c ∈ gap, isGap c = true := fun c mem => isGap_iff.mpr (blank c mem)
      have stops : ∀ c ∈ ('#' :: (body ++ rest)).head?, isGap c = false := by simp [isGap]
      have span := span_eq all stops
      have inLine : ∀ c ∈ body, (c != '\n') = true := fun c mem => by
        simpa using fun same : c = '\n' => line (same ▸ mem)
      have atEnd : ∀ c ∈ rest.head?, (c != '\n') = false := fun c first => by simp [ends c first]
      have span' := span_eq inLine atEnd
      simp [skipped, span.1, span.2, span'.1]

end YoloLang.Lexeme
