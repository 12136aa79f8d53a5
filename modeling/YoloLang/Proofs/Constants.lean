import Mathlib.Algebra.Order.Field.Rat
import Mathlib.Data.List.Induction
import YoloLang.Proofs.Compile
import YoloLang.Proofs.Lines

/-!
Numbers and the constants of C that they are written as. Main statement: C finds in an expression
the numbers it was written with, and takes one for its value if and only if it has a point, does not
begin with a zero, or is less than eight.
-/

namespace YoloLang

open Leaf

/-- The value of a number in base ten. -/
def Lexeme.decimal (text : List Char) : Rat :=
  let whole := text.takeWhile Text.isDigit
  let decimals := (text.dropWhile Text.isDigit).drop 1
  Nat.ofDigitChars 10 (whole ++ decimals) 0 / 10 ^ decimals.length

namespace CText

def isConstant (piece : List Char) : Bool := piece.head?.any Text.isDigit

/-- The value of a constant. Without a point it is octal if it begins with a zero, and there are no
octal digits above seven. -/
def constant? (text : List Char) : Option Rat :=
  if '.' ∉ text ∧ text.head? = some '0' then
    if text.all (· ≤ '7') then some (Nat.ofDigitChars 8 text 0) else none
  else some (Lexeme.decimal text)

/-! Octal and decimal. -/

variable {digits : List Char}

theorem ofDigitChars_concat (base : Nat) (digits : List Char) (c : Char) :
    Nat.ofDigitChars base (digits ++ [c]) 0 =
      base * Nat.ofDigitChars base digits 0 + (c.toNat - '0'.toNat) := by
  rw [Nat.ofDigitChars_append, Nat.ofDigitChars_cons, Nat.ofDigitChars_nil]

theorem octal_le_decimal (digits : List Char) :
    Nat.ofDigitChars 8 digits 0 ≤ Nat.ofDigitChars 10 digits 0 := by
  induction digits using List.reverseRecOn with
  | nil => rfl
  | append_singleton digits c ih =>
      rw [ofDigitChars_concat, ofDigitChars_concat]
      omega

theorem char_le_iff {c d : Char} : c ≤ d ↔ c.toNat ≤ d.toNat := by
  rw [Char.le_def, UInt32.le_iff_toNat_le]
  rfl

theorem digit_iff {c : Char} : Text.isDigit c = true ↔ 48 ≤ c.toNat ∧ c.toNat ≤ 57 := by
  simp [Text.isDigit, char_le_iff]

theorem eq_zero_of_decimal (decimal : ∀ c ∈ digits, Text.isDigit c = true)
    (none : Nat.ofDigitChars 10 digits 0 = 0) : ∀ c ∈ digits, c = '0' := by
  induction digits using List.reverseRecOn with
  | nil => simp
  | append_singleton digits c ih =>
      obtain ⟨more, last⟩ := List.forall_mem_append.mp decimal
      rw [ofDigitChars_concat, show '0'.toNat = 48 from rfl] at none
      have digit := digit_iff.mp (last c (by simp))
      refine List.forall_mem_append.mpr ⟨ih more (by omega), ?_⟩
      have zero : c.toNat = '0'.toNat := by
        rw [show '0'.toNat = 48 from rfl]
        omega
      simpa using Char.toNat_inj.mp zero

/-- Digits are the same number in both bases if and only if they are one octal digit behind
zeros. -/
theorem octal_eq_decimal_iff (decimal : ∀ c ∈ digits, Text.isDigit c = true) :
    (∀ c ∈ digits, c ≤ '7') ∧ Nat.ofDigitChars 8 digits 0 = Nat.ofDigitChars 10 digits 0 ↔
      Nat.ofDigitChars 10 digits 0 < 8 := by
  obtain rfl | ⟨digits, c, rfl⟩ := digits.eq_nil_or_concat'
  · simp
  · obtain ⟨more, last⟩ := List.forall_mem_append.mp decimal
    have digit := digit_iff.mp (last c (by simp))
    have less := octal_le_decimal digits
    have zero : '0'.toNat = 48 := rfl
    have seven : c ≤ '7' ↔ c.toNat ≤ 55 := char_le_iff
    rw [ofDigitChars_concat, ofDigitChars_concat, zero]
    constructor
    · rintro ⟨octal, same⟩
      have := seven.mp (octal c (by simp))
      omega
    · intro small
      have zeros := eq_zero_of_decimal more (by omega)
      refine ⟨List.forall_mem_append.mpr ⟨fun d mem => ?_, ?_⟩, by omega⟩
      · rw [zeros d mem]
        decide
      · simpa using seven.mpr (by omega)

theorem decimal_digits (decimal : ∀ c ∈ digits, Text.isDigit c = true) :
    Lexeme.decimal digits = Nat.ofDigitChars 10 digits 0 := by
  have ends : ∀ c ∈ ([] : List Char).head?, Text.isDigit c = false := by simp
  have span := Lexeme.span_eq decimal ends
  rw [List.append_nil] at span
  simp [Lexeme.decimal, span.1, span.2]

end CText

/-- A number without a point is digits alone. -/
theorem Lexeme.Spelled.digits {raw : List Char} (h : Spelled raw .number) (point : '.' ∉ raw) :
    ∀ c ∈ raw, Text.isDigit c = true := by
  cases h with
  | whole _ decimal => exact decimal
  | fraction => simp at point
  | word _ _ named => cases named
  | symbol mem => simp [symbols] at mem

/-- C takes a number for its value unless it is read as octal, with another value or with none. -/
theorem Token.Lexed.constant_eq_iff {t : Token} (h : t.Lexed) (kind : t.kind = .number) :
    CText.constant? t.text.toList = some (Lexeme.decimal t.text.toList) ↔
      '.' ∈ t.text.toList ∨ t.text.toList.head? ≠ some '0' ∨
        Lexeme.decimal t.text.toList < 8 := by
  have spelled : Lexeme.Spelled t.text.toList .number :=
    kind ▸ h.spelled (by simp [kind]) (by simp [kind])
  generalize t.text.toList = text at *
  by_cases octal : '.' ∉ text ∧ text.head? = some '0'
  · have decimal := spelled.digits octal.1
    rw [CText.constant?, if_pos octal, CText.decimal_digits decimal]
    have same := CText.octal_eq_decimal_iff decimal
    have octals : text.all (· ≤ '7') = true ↔ ∀ c ∈ text, c ≤ '7' := by simp
    simp only [octal.1, octal.2, ne_eq, not_true_eq_false, false_or]
    rw [Nat.cast_lt_ofNat, ← same, ← octals]
    split
    · rename_i all
      simp only [all, Option.some.injEq, Nat.cast_inj, true_and]
    · rename_i large
      simp only [large, reduceCtorEq, false_and]
  · rw [CText.constant?, if_neg octal]
    simp
    tauto

example : CText.constant? ['0', '1', '0'] = some 8 ∧ CText.constant? ['0', '9'] = none := by
  constructor <;> rfl

/-! The constants of an expression. -/

theorem Lexeme.Spelled.isConstant_iff {raw : List Char} {kind : Kind} (h : Spelled raw kind) :
    CText.isConstant raw = true ↔ kind = .number := by
  cases h with
  | newline | string => simp [CText.isConstant, Text.isDigit]
  | whole some decimal | fraction some decimal =>
      obtain ⟨d, ds, rfl⟩ := List.exists_cons_of_ne_nil some
      simpa [CText.isConstant] using decimal d (by simp)
  | word first _ named =>
      have other := Text.not_digit_of_alphabetic first
      cases named <;> simp [CText.isConstant, other]
  | symbol mem =>
      have all : ∀ s ∈ symbols, CText.isConstant s.1.toList = false ∧ s.2 ≠ .number := by decide
      have other := all _ mem
      simp only [other.1, other.2, Bool.false_eq_true]

theorem Token.Lexed.isConstant_iff {t : Token} (h : t.Lexed) (other : t.kind ≠ .string) :
    CText.isConstant t.text.toList = true ↔ t.kind = .number := by
  obtain ⟨_, l, read, kind, text⟩ := h
  rw [kind] at other ⊢
  rw [text, Lexeme.text_of_ne_string other, String.toList_ofList]
  obtain ⟨-, rfl⟩ | spelled := Lexeme.eof_or_spelled read
  · simp [CText.isConstant]
  · exact spelled.isConstant_iff

/-- The numbers among these leaves, in order. -/
def numbers (ls : List Leaf) : List (List Char) :=
  (ls.filter (·.token.kind = .number)).map (·.token.text.toList)

theorem numbers_cons (l : Leaf) (ls : List Leaf) :
    numbers (l :: ls) =
      if l.token.kind = .number then l.token.text.toList :: numbers ls else numbers ls := by
  rw [numbers, List.filter_cons]
  split <;> simp_all [numbers]

namespace CText

/-- A piece that is all of a token is a constant if the token is a number. -/
theorem constants_cons {l : Leaf} {ls : List Leaf} (lexed : l.token.Lexed)
    (other : l.token.kind ≠ .string) {ps : List (List Char)}
    (more : ps.filter isConstant = numbers ls) :
    (l.token.text.toList :: ps).filter isConstant = numbers (l :: ls) := by
  rw [List.filter_cons, numbers_cons, more]
  simp only [lexed.isConstant_iff other]

end CText

/-- The pieces that a row of tokens is taken for and that are constants are its numbers. -/
theorem Taken.constants {ls : List Leaf} {ps : List (List Char)} (h : Taken ls ps)
    (lexed : ∀ l ∈ ls, l.token.Lexed) (other : ∀ l ∈ ls, l.token.kind ≠ .string) :
    ps.filter CText.isConstant = numbers ls := by
  induction h with
  | nil => rfl
  | own l _ ih =>
      obtain ⟨here, lexed⟩ := List.forall_mem_cons.mp lexed
      obtain ⟨other, others⟩ := List.forall_mem_cons.mp other
      exact CText.constants_cons here other (ih lexed others)
  | @fused a b c sign same text ls ps _ ih =>
      have number : a.token.kind ≠ .number := by
        intro number
        simp [number, Kind.isSign] at sign
      have digit : CText.isConstant [c] = false := by
        rw [← text]
        simpa using mt ((lexed a (by simp)).isConstant_iff (other a (by simp))).mp number
      have digit' : CText.isConstant [c, c] = false := by simpa [CText.isConstant] using digit
      have tail := ih (fun l mem => lexed l (by simp [mem])) fun l mem => other l (by simp [mem])
      rw [numbers_cons, if_neg number, numbers_cons, if_neg (same ▸ number), ← tail]
      simp [digit']

/-- The pieces of a value that are constants are its numbers. -/
theorem Formula.constants {ls : List Leaf} (h : Formula ls) :
    (CText.pieces (spelling ls).toList).filter CText.isConstant = numbers ls :=
  h.taken.constants h.lexed (h.kind_ne rfl fun k => by cases k <;> rfl)

/-! Every number is part of a value. -/

/-- The numbers among the leaves stand in these values. -/
def Held (values : List (List Leaf)) (ls : List Leaf) : Prop :=
  ∀ l ∈ ls, l.token.kind = .number → ∃ v ∈ values, l ∈ v

namespace Held

variable {vs ws : List (List Leaf)} {ls : List Leaf}

theorem nil : Held vs [] := by simp [Held]

theorem append_iff {xs ys : List Leaf} : Held vs (xs ++ ys) ↔ Held vs xs ∧ Held vs ys :=
  List.forall_mem_append

theorem terminal_iff {kind : Kind} (other : kind ≠ .number) (t : Terminal kind)
    (mention : Option Mention) : Held vs (⟨t.1, mention⟩ :: ls) ↔ Held vs ls := by
  have none : t.1.kind ≠ .number := fun same => other (t.2.1.symm.trans same)
  simp [Held, none]

theorem terminals {kind : Kind} (other : kind ≠ .number) (ts : List (Terminal kind)) :
    Held vs (ts.map (plain ·.1)) := by
  induction ts with
  | nil => exact .nil
  | cons t ts ih => rwa [List.map_cons, plain, terminal_iff other]

theorem of_mem (mem : ls ∈ vs) : Held vs ls := fun _ mem' _ => ⟨ls, mem, mem'⟩

theorem left (h : Held vs ls) : Held (vs ++ ws) ls := by
  intro l mem number
  obtain ⟨v, mem', inside⟩ := h l mem number
  exact ⟨v, List.mem_append_left ws mem', inside⟩

theorem right (h : Held ws ls) : Held (vs ++ ws) ls := by
  intro l mem number
  obtain ⟨v, mem', inside⟩ := h l mem number
  exact ⟨v, List.mem_append_right vs mem', inside⟩

end Held

namespace Tree

theorem held_newline {vs : List (List Leaf)} (t : Tree (.phrase .newline)) :
    Held vs t.leaves := by
  cases t with
  | newline first more =>
      rw [leaves, plain, Held.terminal_iff (by simp)]
      exact .terminals (by simp) more

theorem held_value (t : Tree (.phrase .expression)) : Held t.values t.leaves := by
  cases t with
  | expression => exact .of_mem (by simp [values, leaves])

theorem held_condition (t : Tree (.phrase .comparison)) : Held t.values t.leaves := by
  cases t with
  | comparison => exact .of_mem (by simp [values, leaves])

theorem held_init (t : Tree (.phrase .forInit)) : Held t.values t.leaves := by
  cases t with
  | forInit _ _ _ value =>
      simpa [leaves, values, plain, naming, Held.terminal_iff] using value.held_value

theorem held_step (t : Tree (.phrase .forStep)) : Held t.values t.leaves := by
  cases t with
  | forStep _ _ value =>
      simpa [leaves, values, plain, naming, Held.terminal_iff] using value.held_value

/-- The numbers of statements stand in their values. -/
theorem held {part : Part} (t : Tree part) (whole : part = .statement ∨ part = .statements) :
    Held t.values t.leaves := by
  induction t with
  | printText | label | goto | input =>
      simp [leaves, plain, naming, Held.terminal_iff, held_newline]
  | print _ value | assign _ _ _ value =>
      simpa [leaves, values, plain, naming, Held.append_iff, Held.terminal_iff, held_newline] using
        value.held_value
  | branch _ _ condition _ _ _ body _ _ _ _ ih | loop _ _ condition _ _ _ body _ _ _ _ ih =>
      have first : Held (condition.values ++ body.values) condition.leaves :=
        condition.held_condition.left
      have second : Held (condition.values ++ body.values) body.leaves := (ih (.inr rfl)).right
      simpa [leaves, values, plain, Held.append_iff, Held.terminal_iff, held_newline] using
        And.intro first second
  | count _ _ init _ condition _ step _ _ _ body _ _ _ _ _ _ ih =>
      rw [values, List.append_assoc, List.append_assoc]
      simp only [leaves, plain, Held.append_iff, Held.terminal_iff, held_newline, ne_eq,
        reduceCtorEq, not_false_eq_true, true_and, and_true]
      exact ⟨init.held_init.left, condition.held_condition.left.right,
        step.held_step.left.right.right, (ih (.inr rfl)).right.right.right⟩
  | empty => exact .nil
  | cons first rest ih ih' =>
      exact Held.append_iff.mpr ⟨(ih (.inl rfl)).left, (ih' (.inr rfl)).right⟩
  | _ => simp at whole

end Tree

namespace Compiler

variable {c : Compiler} {source : String}

/-- C finds the numbers of a compiled text as constants, and takes them for their values but for
those that it reads as octal. -/
theorem constants_of_compileText {k : Compilation} (h : (c.compileText source).1 = .ok k) :
    ∃ p : Program, tokenize source = .ok p.tokens ∧
      ∀ q : Program, tokenize source = .ok q.tokens →
        (∀ l ∈ q.leaves, l.token.kind = .number → ∃ ls ∈ q.body.values, l ∈ ls) ∧
        ∀ ls ∈ q.body.values, Within (spelling ls) k.file.code ∧
          (CText.pieces (spelling ls).toList).filter CText.isConstant = numbers ls ∧
          ∀ number ∈ numbers ls,
            CText.constant? number = some (Lexeme.decimal number) ↔
              '.' ∈ number ∨ number.head? ≠ some '0' ∨ Lexeme.decimal number < 8 := by
  obtain ⟨tokens, p, lexed, translation⟩ := translation_of_compileText h
  refine ⟨p, by rw [translation.derived, lexed], ?_⟩
  intro q lexed'
  have derived : q.tokens = tokens := Except.ok.inj (lexed'.symm.trans lexed)
  refine ⟨?_, fun ls mem => ⟨?_, ?_, ?_⟩⟩
  · exact Held.append_iff.mpr ⟨.terminals (by simp) q.leading, q.body.held (.inr rfl)⟩
  · rw [translation.code, ← (translation.only q derived).2]
    exact (q.body.within_code ls mem).left _
  · exact (q.body.formula_of_mem_values ls mem).constants
  · intro number mem'
    obtain ⟨l, inside, rfl⟩ := List.mem_map.mp mem'
    obtain ⟨inside, kind⟩ := List.mem_filter.mp inside
    have lexed := (q.body.formula_of_mem_values ls mem).lexed l inside
    exact lexed.constant_eq_iff (by simpa using kind)

theorem constants_of_leading_zero :
    ∃ p : Program, tokenize "LET a = 010" = .ok p.tokens ∧
      ∀ ls ∈ p.body.values, ∀ number ∈ numbers ls,
        CText.constant? number = some (Lexeme.decimal number) ↔
          '.' ∈ number ∨ number.head? ≠ some '0' ∨ Lexeme.decimal number < 8 := by
  have compiled : ∃ k, ((⟨"out.c", none⟩ : Compiler).compileText "LET a = 010").1 = .ok k :=
    ⟨_, by cbv⟩
  obtain ⟨k, compiled⟩ := compiled
  obtain ⟨p, lexed, all⟩ := constants_of_compileText compiled
  exact ⟨p, lexed, fun ls mem => ((all p lexed).2 ls mem).2.2⟩

end Compiler

end YoloLang
