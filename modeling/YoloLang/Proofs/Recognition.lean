import YoloLang.Proofs.Lexical

/-!
Reading a text at its start. Main statements: a text is read as the longest lexeme that it begins
with, and otherwise it breaks off at one place for one cause; a lexeme that is parted from what
comes after it is read by itself.
-/

namespace YoloLang.Lexeme

/-! One reader for each first character. -/

section Readers

variable {c : Char} {cs body digits rest : List Char}

theorem digit_ne_quote (digit : Text.isDigit c = true) : c ≠ '"' := by
  rintro rfl
  contradiction

theorem read_quote (cs : List Char) : read ('"' :: cs) = readString cs := rfl

theorem read_digit (digit : Text.isDigit c = true) : read (c :: cs) = readNumber (c :: cs) := by
  simp [read, digit, digit_ne_quote digit]

theorem read_digits (some : digits ≠ []) (decimal : ∀ d ∈ digits, Text.isDigit d = true) :
    read (digits ++ rest) = readNumber (digits ++ rest) := by
  obtain ⟨d, ds, rfl⟩ := List.exists_cons_of_ne_nil some
  exact read_digit (decimal d (by simp))

theorem read_letter (letter : Text.isAlphabetic c = true) :
    read (c :: cs) = .ok (readWord c cs) := by
  have quote : c ≠ '"' := by
    rintro rfl
    contradiction
  simp [read, quote, Text.not_digit_of_alphabetic letter, letter]

theorem fixed_start {raw : List Char} {kind : Kind} (mem : (raw, kind) ∈ fixed) :
    ∃ c cs, raw = c :: cs ∧ ∀ rest, read (c :: rest) = readFixed c rest := by
  have start : ∀ p ∈ fixed, p.1.head?.any fun c =>
      c ≠ '"' && !Text.isDigit c && !Text.isAlphabetic c := by decide
  have first := start _ mem
  cases raw with
  | nil => simp at first
  | cons c cs =>
      simp only [List.head?_cons, Option.any_some, Bool.and_eq_true, decide_eq_true_eq,
        Bool.not_eq_true'] at first
      exact ⟨c, cs, rfl, fun rest => by simp [read, first]⟩

theorem span_inString (plain : ∀ d ∈ body, Literal d) (stops : ∀ d ∈ rest.head?, ¬ Literal d) :
    (body ++ rest).takeWhile inString = body ∧ (body ++ rest).dropWhile inString = rest :=
  span_eq (fun d mem => inString_iff.mpr (plain d mem)) fun d mem => by
    simpa using mt inString_iff.mp (stops d mem)

theorem readString_closed (plain : ∀ d ∈ body, Literal d) :
    readString (body ++ '"' :: rest) = .ok ⟨.string, '"' :: body ++ ['"']⟩ := by
  have stops : ∀ d ∈ ('"' :: rest).head?, ¬ Literal d := by simp [Literal]
  have span := span_inString plain stops
  simp only [readString, span.1, span.2]

theorem readString_line (plain : ∀ d ∈ body, Literal d) (line : ∀ d ∈ rest.head?, d = '\n') :
    readString (body ++ rest) = .error ⟨.unterminatedString, '"' :: body⟩ := by
  have stops : ∀ d ∈ rest.head?, ¬ Literal d := by
    intro d first
    rw [line d first]
    simp [Literal, Text.isControl]
  have span := span_inString plain stops
  simp only [readString, span.1, span.2]
  cases rest with
  | nil => simp
  | cons d rest =>
      obtain rfl := line d rfl
      simp

theorem readString_illegal (plain : ∀ d ∈ body, Literal d) (bad : ¬ Literal c) (quote : c ≠ '"')
    (line : c ≠ '\n') :
    readString (body ++ c :: rest) = .error ⟨.illegalInString c, '"' :: body⟩ := by
  have stops : ∀ d ∈ (c :: rest).head?, ¬ Literal d := by simpa using bad
  have span := span_inString plain stops
  simp only [readString, span.1, span.2]

theorem readNumber_whole (decimal : ∀ d ∈ digits, Text.isDigit d = true)
    (ends : ∀ d ∈ rest.head?, Text.isDigit d = false) (point : rest.head? ≠ some '.') :
    readNumber (digits ++ rest) = .ok ⟨.number, digits⟩ := by
  have span := span_eq decimal ends
  simp only [readNumber, span.1, span.2]
  split
  · simp at point
  · rfl

theorem readNumber_point {decimals : List Char} (decimal : ∀ d ∈ digits, Text.isDigit d = true)
    (decimal' : ∀ d ∈ decimals, Text.isDigit d = true)
    (ends : ∀ d ∈ rest.head?, Text.isDigit d = false) :
    readNumber (digits ++ '.' :: (decimals ++ rest)) =
      if decimals = [] then .error ⟨.missingDecimals, digits ++ ['.']⟩
      else .ok ⟨.number, digits ++ '.' :: decimals⟩ := by
  have point : ∀ d ∈ ('.' :: (decimals ++ rest)).head?, Text.isDigit d = false := by
    simp [Text.isDigit]
  have span := span_eq decimal point
  have span' := span_eq decimal' ends
  simp [readNumber, span.1, span.2, span'.1]

theorem readFixed_of_find {p : List Char × Kind}
    (found : fixed.find? (·.1.isPrefixOf (c :: cs)) = some p) :
    readFixed c cs = .ok ⟨p.2, p.1⟩ := by
  rw [readFixed]
  split
  · rename_i spelling kind found'
    obtain rfl := Option.some.inj (found.symm.trans found')
    rfl
  · rename_i none
    exact absurd (found.symm.trans none) (by simp)

theorem readFixed_of_find_none (none : fixed.find? (·.1.isPrefixOf (c :: cs)) = none) :
    readFixed c cs =
      if c = '!' then .error ⟨.expectedNotEq (cs.headD '\x00'), []⟩
      else .error ⟨.unknown c, []⟩ := by
  rw [readFixed]
  split
  · rename_i found
    exact absurd (none.symm.trans found) (by simp)
  · rfl

theorem readFixed_of_prefix {raw : List Char} {kind : Kind} (mem : (raw, kind) ∈ fixed)
    (begins : raw <+: c :: cs) :
    ∃ l, readFixed c cs = .ok l ∧ (l.raw, l.kind) ∈ fixed ∧ raw.length ≤ l.raw.length := by
  have longer : fixed.Pairwise fun p q => p.1 <+: q.1 → q.1.length ≤ p.1.length := by decide
  cases found : fixed.find? (·.1.isPrefixOf (c :: cs)) with
  | none =>
      have other := List.find?_eq_none.mp found _ mem
      exact absurd (List.isPrefixOf_iff_prefix.mpr begins) other
  | some p =>
      obtain ⟨starts, before, after, whole, none⟩ := List.find?_eq_some_iff_append.mp found
      refine ⟨⟨p.2, p.1⟩, readFixed_of_find found, List.mem_of_find?_eq_some found, ?_⟩
      rw [whole] at mem longer
      obtain early | late := List.mem_append.mp mem
      · have other := none _ early
        simp [List.isPrefixOf_iff_prefix.mpr begins] at other
      · obtain rfl | late := List.mem_cons.mp late
        · exact Nat.le_refl _
        · obtain shorter | longer' := Nat.le_total p.1.length raw.length
          · -- The entry that is found stands before this one, so it is not a part of it.
            have starts := List.isPrefixOf_iff_prefix.mp starts
            have pairs := (List.pairwise_cons.mp (List.pairwise_append.mp longer).2.1).1 _ late
            exact pairs (List.prefix_of_prefix_length_le starts begins shorter)
          · exact longer'

/-- Every beginning of a fixed lexeme is one, that of `!=` apart. -/
theorem single_mem_fixed {raw : List Char} {kind : Kind} (mem : (raw, kind) ∈ fixed)
    (first : raw.head? = some c) : c = '!' ∨ ∃ kind', ([c], kind') ∈ fixed := by
  have single : ∀ p ∈ fixed, p.1.head?.all fun c =>
      decide (c = '!') || fixed.any fun q => q.1 = [c] := by decide
  have known := single _ mem
  simp only [first, Option.all_some, Bool.or_eq_true, decide_eq_true_eq, List.any_eq_true] at known
  obtain bang | ⟨⟨raw', kind'⟩, mem', rfl⟩ := known
  · exact .inl bang
  · exact .inr ⟨kind', mem'⟩

theorem read_of_not_spelled (none : ∀ raw kind, Spelled raw kind → raw.head? ≠ some c) :
    read (c :: rest) = .error ⟨.unknown c, []⟩ := by
  have quote : c ≠ '"' := by
    rintro rfl
    exact none _ _ (.string (List.forall_mem_nil _)) rfl
  have digit : Text.isDigit c = false := by
    by_contra digit
    exact none [c] _ (.whole (by simp) (by simpa using digit)) rfl
  have letter : Text.isAlphabetic c = false := by
    by_contra letter
    exact none [c] _ (.word (by simpa using letter) (by simp) (word_ofWord _)) rfl
  have bang : c ≠ '!' := by
    rintro rfl
    have mem : ("!=", Kind.notEq) ∈ symbols := by simp [symbols]
    exact none _ _ (.symbol mem) rfl
  have unfixed : fixed.find? (·.1.isPrefixOf (c :: rest)) = .none := by
    refine List.find?_eq_none.mpr ?_
    rintro ⟨raw, kind⟩ mem starts
    obtain ⟨d, ds, rfl, -⟩ := fixed_start mem
    obtain rfl : d = c := (List.cons_prefix_cons.mp (List.isPrefixOf_iff_prefix.mp starts)).1
    exact none _ _ (spelled_of_fixed mem) rfl
  simp [read, quote, digit, letter, readFixed_of_find_none unfixed, bang]

/-- What a reader answers is right: a lexeme of this kind, or what is wrong with the text. -/
def Settled (cs : List Char) : Except Malformed Lexeme → Prop
  | .ok l => Spelled l.raw l.kind
  | .error bad => Breaks cs bad.fault bad.before

theorem settled_readString (cs : List Char) : Settled ('"' :: cs) (readString cs) := by
  obtain ⟨body, rest, rfl, all, stops⟩ := exists_span inString cs
  have plain (d : Char) (mem : d ∈ body) : Literal d := inString_iff.mp (all d mem)
  by_cases line : ∀ d ∈ rest.head?, d = '\n'
  · rw [readString_line plain line]
    exact .unterminated plain line
  · cases rest with
    | nil => simp at line
    | cons d rest =>
        have line : d ≠ '\n' := by simpa using line
        have bad : ¬ Literal d := fun literal => by
          simpa [inString_iff.mpr literal] using stops d rfl
        by_cases quote : d = '"'
        · rw [quote, readString_closed plain]
          exact .string plain
        · rw [readString_illegal plain bad quote line]
          exact .illegal plain bad quote line

theorem settled_readNumber (digit : Text.isDigit c = true) :
    Settled (c :: cs) (readNumber (c :: cs)) := by
  obtain ⟨digits, rest, whole, decimal, ends⟩ := exists_span Text.isDigit (c :: cs)
  have some : digits ≠ [] := by
    rintro rfl
    rw [List.nil_append] at whole
    simp [← whole, digit] at ends
  rw [whole]
  by_cases point : rest.head? = .some '.'
  · obtain ⟨rest, rfl⟩ := List.head?_eq_some_iff.mp point
    obtain ⟨decimals, rest, rfl, decimal', ends'⟩ := exists_span Text.isDigit rest
    rw [readNumber_point decimal decimal' ends']
    by_cases none : decimals = []
    · rw [if_pos none, none]
      exact .decimals some decimal ends'
    · rw [if_neg none]
      exact .fraction some decimal none decimal'
  · rw [readNumber_whole decimal ends point]
    exact .whole some decimal

theorem settled_readWord (letter : Text.isAlphabetic c = true) :
    Settled (c :: cs) (.ok (readWord c cs)) :=
  .word letter (fun d mem => List.all_eq_true.mp List.all_takeWhile d mem) (word_ofWord _)

/-- The first character of a lexeme that is neither a string nor a number nor a word. -/
theorem fixed_of_spelled {raw : List Char} {kind : Kind} (h : Spelled raw kind)
    (first : raw.head? = some c) (quote : c ≠ '"') (digit : ¬ Text.isDigit c = true)
    (letter : ¬ Text.isAlphabetic c = true) : (raw, kind) ∈ fixed := by
  cases h with
  | newline => simp [fixed]
  | string => exact absurd (by simpa using first.symm) quote
  | whole some decimal | fraction some decimal =>
      obtain ⟨d, ds, rfl⟩ := List.exists_cons_of_ne_nil some
      obtain rfl : d = c := by simpa using first
      exact absurd (decimal d (by simp)) digit
  | word letter' =>
      obtain rfl : _ = c := by simpa using first
      exact absurd letter' letter
  | symbol mem => exact mem_fixed_iff.mpr (.inr (by simpa using mem))

theorem settled_readFixed (quote : c ≠ '"') (digit : ¬ Text.isDigit c = true)
    (letter : ¬ Text.isAlphabetic c = true) : Settled (c :: cs) (readFixed c cs) := by
  rw [readFixed]
  split
  · rename_i found
    exact spelled_of_fixed (List.mem_of_find?_eq_some found)
  · rename_i unfixed
    have other {raw : List Char} {kind : Kind} (mem : (raw, kind) ∈ fixed) :
        ¬ raw <+: c :: cs := fun begins =>
      List.find?_eq_none.mp unfixed _ mem (List.isPrefixOf_iff_prefix.mpr begins)
    by_cases bang : c = '!'
    · rw [if_pos bang, bang]
      refine .bang fun equal => ?_
      obtain ⟨rest, rfl⟩ := List.head?_eq_some_iff.mp equal
      have mem : (['!', '='], Kind.notEq) ∈ fixed := by simp [fixed]
      exact other mem (bang ▸ ⟨rest, rfl⟩)
    · rw [if_neg bang]
      refine .unknown fun raw kind spelled first => ?_
      have mem := fixed_of_spelled spelled first quote digit letter
      obtain rfl | ⟨kind', single⟩ := single_mem_fixed mem first
      · contradiction
      · exact other single ⟨cs, rfl⟩

theorem settled_read (some : cs ≠ []) : Settled cs (read cs) := by
  obtain ⟨c, cs, rfl⟩ := List.exists_cons_of_ne_nil some
  rw [read]
  split
  · rename_i quote
    exact quote ▸ settled_readString cs
  · rename_i quote
    split
    · rename_i digit
      exact settled_readNumber digit
    · rename_i digit
      split
      · rename_i letter
        exact settled_readWord letter
      · rename_i letter
        exact settled_readFixed quote digit letter

theorem read_of_breaks {fault : LexFault} {before : List Char} (h : Breaks cs fault before) :
    read cs = .error ⟨fault, before⟩ := by
  cases h with
  | @bang rest next =>
      have unfixed : fixed.find? (·.1.isPrefixOf ('!' :: rest)) = none := by
        cases rest with
        | nil => decide
        | cons d rest =>
            have next : d ≠ '=' := by simpa using next
            simp [fixed, List.isPrefixOf, next.symm]
      have mem : (['!', '='], Kind.notEq) ∈ fixed := by simp [fixed]
      obtain ⟨_, _, same, read⟩ := fixed_start mem
      obtain ⟨rfl, -⟩ := List.cons.inj same
      simp [read, readFixed_of_find_none unfixed]
  | illegal plain bad quote line => exact readString_illegal plain bad quote line
  | unterminated plain line => exact readString_line plain line
  | @decimals digits rest some decimal none =>
      rw [read_digits some decimal]
      simpa using readNumber_point decimal (List.forall_mem_nil _) none
  | unknown none => exact read_of_not_spelled none

end Readers

/-! A lexeme by itself. -/

/-- Characters that no lexeme goes on with. -/
def parts (c : Char) : Bool := isGap c || c == '#' || c == '\n'

theorem eq_of_parts {c : Char} (h : parts c = true) :
    c = ' ' ∨ c = '\t' ∨ c = '\r' ∨ c = '#' ∨ c = '\n' := by
  simpa [parts, isGap, or_assoc] using h

theorem not_digit_of_parts {c : Char} (h : parts c = true) : Text.isDigit c = false := by
  obtain rfl | rfl | rfl | rfl | rfl := eq_of_parts h <;> decide

theorem not_alphanumeric_of_parts {c : Char} (h : parts c = true) :
    Text.isAlphanumeric c = false := by
  obtain rfl | rfl | rfl | rfl | rfl := eq_of_parts h <;> decide

/-- A fixed lexeme has no such character behind its first one. -/
theorem read_fixed_append {raw rest : List Char} {kind : Kind} (mem : (raw, kind) ∈ fixed)
    (apart : ∀ c ∈ rest.head?, parts c = true) : read (raw ++ rest) = .ok ⟨kind, raw⟩ := by
  have whole : ∀ p ∈ fixed, p.1.tail.all fun c => !parts c := by decide
  have single : ∀ p ∈ fixed, ∀ q ∈ fixed, p.1 = q.1 → p.2 = q.2 := by decide
  obtain ⟨c, cs, rfl, start⟩ := fixed_start mem
  have begins : c :: cs <+: c :: (cs ++ rest) := List.prefix_append _ rest
  obtain ⟨l, found, mem', longer⟩ := readFixed_of_prefix mem begins
  have taken := (start _).trans found
  obtain ⟨rest', same⟩ := read_prefix taken
  obtain ⟨more, same'⟩ : c :: cs <+: l.raw :=
    List.prefix_of_prefix_length_le begins ⟨rest', same.symm⟩ longer
  cases more with
  | nil =>
      rw [List.append_nil] at same'
      have kinds : kind = l.kind := single _ mem _ mem' same'
      rw [List.cons_append, taken, same', kinds]
  | cons d more =>
      have split : rest = d :: more ++ rest' := by
        rw [← List.cons_append, ← same', List.append_assoc] at same
        exact List.append_cancel_left same
      have parted := apart d (by simp [split])
      have inside := List.all_eq_true.mp (whole _ mem') d (by simp [← same'])
      rw [parted] at inside
      contradiction

/-- A lexeme that is parted from what comes after it is read by itself. -/
theorem read_append {raw rest : List Char} {kind : Kind} (h : Spelled raw kind)
    (apart : ∀ c ∈ rest.head?, parts c = true) : read (raw ++ rest) = .ok ⟨kind, raw⟩ := by
  have noDigit : ∀ c ∈ rest.head?, Text.isDigit c = false :=
    fun c first => not_digit_of_parts (apart c first)
  cases h with
  | newline => exact read_fixed_append (by simp [fixed]) apart
  | @string body plain =>
      have closed : readString (body ++ '"' :: rest) = _ := readString_closed plain
      rw [← read_quote] at closed
      simpa using closed
  | whole some decimal =>
      rw [read_digits some decimal]
      refine readNumber_whole decimal noDigit fun point => ?_
      have other := apart '.' point
      contradiction
  | @fraction digits decimals some decimal some' decimal' =>
      rw [List.append_assoc, read_digits some decimal]
      have number := readNumber_point decimal decimal' noDigit
      rw [if_neg some'] at number
      simpa using number
  | @word c cs kind letter more named =>
      have ends : ∀ d ∈ rest.head?, Text.isAlphanumeric d = false :=
        fun d first => not_alphanumeric_of_parts (apart d first)
      rw [List.cons_append, read_letter letter, readWord, (span_eq more ends).1,
        named.unique (word_ofWord _)]
  | symbol mem => exact read_fixed_append (mem_fixed_iff.mpr (.inr (by simpa using mem))) apart

/-- No text is spelled as two kinds. -/
theorem Spelled.unique {raw : List Char} {j k : Kind} (h : Spelled raw j) (h' : Spelled raw k) :
    j = k := by
  have alone : read (raw ++ []) = _ := read_append h (by simp)
  rw [read_append h' (by simp)] at alone
  exact (congrArg Lexeme.kind (Except.ok.inj alone)).symm

/-! What a text begins with. -/

section Beginnings

variable {cs : List Char}

/-- A lexeme at the start of a text is read, or a longer one, unless a point spoils a number. -/
theorem exists_read_of_spelled {raw : List Char} {kind : Kind} (h : Spelled raw kind)
    (rest : List Char) :
    (∃ l, read (raw ++ rest) = .ok l ∧ raw.length ≤ l.raw.length) ∨ OpenDecimal (raw ++ rest) := by
  have fixedly {raw : List Char} {kind : Kind} (mem : (raw, kind) ∈ fixed) :
      ∃ l, read (raw ++ rest) = .ok l ∧ raw.length ≤ l.raw.length := by
    obtain ⟨c, cs, rfl, read⟩ := fixed_start mem
    obtain ⟨l, found, -, longer⟩ := readFixed_of_prefix mem ⟨rest, rfl⟩
    exact ⟨l, (read _).trans found, longer⟩
  cases h with
  | newline => exact .inl (fixedly (mem_fixed_iff.mpr (.inl ⟨rfl, rfl⟩)))
  | @string body plain =>
      have closed : readString (body ++ '"' :: rest) = _ := readString_closed plain
      rw [← read_quote] at closed
      exact .inl ⟨_, by simpa using closed, Nat.le_refl _⟩
  | whole some decimal =>
      obtain ⟨more, rest, rfl, decimal', ends⟩ := exists_span Text.isDigit rest
      have all : ∀ d ∈ raw ++ more, Text.isDigit d = true := by
        intro d mem
        exact (List.mem_append.mp mem).elim (decimal d) (decimal' d)
      rw [read_digits some decimal, ← List.append_assoc]
      by_cases point : rest.head? = .some '.'
      · obtain ⟨rest, rfl⟩ := List.head?_eq_some_iff.mp point
        obtain ⟨decimals, rest, rfl, decimal'', ends'⟩ := exists_span Text.isDigit rest
        rw [readNumber_point all decimal'' ends']
        by_cases none : decimals = []
        · subst none
          exact .inr ⟨raw ++ more, rest, rfl, by simp [some], all, ends'⟩
        · rw [if_neg none]
          exact .inl ⟨_, rfl, by simp⟩
      · rw [readNumber_whole all ends point]
        exact .inl ⟨_, rfl, by simp⟩
  | @fraction digits decimals some decimal some' decimal' =>
      obtain ⟨more, rest, rfl, decimal'', ends⟩ := exists_span Text.isDigit rest
      have all : ∀ d ∈ decimals ++ more, Text.isDigit d = true := by
        intro d mem
        exact (List.mem_append.mp mem).elim (decimal' d) (decimal'' d)
      have number := readNumber_point decimal all ends
      rw [if_neg (by simp [some'])] at number
      refine .inl ⟨⟨.number, digits ++ '.' :: (decimals ++ more)⟩, ?_, by simp⟩
      rw [List.append_assoc, read_digits some decimal]
      simpa using number
  | @word c cs kind letter more named =>
      refine .inl ⟨_, read_letter letter, ?_⟩
      simp [readWord, List.takeWhile_append_of_pos more]
  | symbol mem => exact .inl (fixedly (mem_fixed_iff.mpr (.inr (by simpa using mem))))

theorem not_openDecimal_of_read {l : Lexeme} (h : read cs = .ok l) : ¬ OpenDecimal cs := by
  rintro ⟨digits, rest, rfl, some, decimal, none⟩
  rw [read_of_breaks (.decimals some decimal none)] at h
  contradiction

theorem longest_of_read {l : Lexeme} (some : cs ≠ []) (h : read cs = .ok l) :
    Longest cs l.raw l.kind := by
  have settled := settled_read some
  rw [h] at settled
  obtain ⟨rest, whole⟩ := read_prefix h
  refine ⟨settled, fun _ other => other.unique settled, ⟨rest, whole.symm⟩, ?_⟩
  rintro raw' kind' spelled ⟨rest', rfl⟩
  obtain ⟨l', read, longer⟩ | stuck := exists_read_of_spelled spelled rest'
  · obtain rfl := Except.ok.inj (h.symm.trans read)
    exact longer
  · exact absurd stuck (not_openDecimal_of_read h)

/-- Only at its end a text is read as the end token. -/
theorem eof_or_spelled {l : Lexeme} (h : read cs = .ok l) :
    cs = [] ∧ l = ⟨.eof, []⟩ ∨ Spelled l.raw l.kind := by
  by_cases none : cs = []
  · subst none
    exact .inl ⟨rfl, (Except.ok.inj h).symm⟩
  · exact .inr (longest_of_read none h).spelled

theorem raw_eq_nil_iff {l : Lexeme} (h : read cs = .ok l) : l.raw = [] ↔ l.kind = .eof := by
  constructor
  · intro empty
    by_contra kind
    exact read_raw_ne_nil h kind empty
  · intro kind
    obtain ⟨-, rfl⟩ | spelled := eof_or_spelled h
    · rfl
    · exact absurd kind spelled.kind_ne_eof

/-- A text is read if and only if it begins with a lexeme that no point spoils. -/
theorem exists_read_iff (some : cs ≠ []) :
    (∃ l, read cs = .ok l) ↔
      (∃ raw kind, Spelled raw kind ∧ raw <+: cs) ∧ ¬ OpenDecimal cs := by
  constructor
  · rintro ⟨l, h⟩
    have longest := longest_of_read some h
    exact ⟨⟨l.raw, l.kind, longest.spelled, longest.begins⟩, not_openDecimal_of_read h⟩
  · rintro ⟨⟨raw, kind, spelled, rest, rfl⟩, fine⟩
    obtain ⟨l, read, -⟩ := (exists_read_of_spelled spelled rest).resolve_right fine
    exact ⟨l, read⟩

theorem Breaks.begins {fault : LexFault} {before : List Char} (h : Breaks cs fault before) :
    before <+: cs := by
  cases h with
  | bang | unknown => exact List.nil_prefix
  | illegal | unterminated => exact List.prefix_append _ _
  | @decimals digits rest => exact ⟨rest, by simp⟩

/-- Reading fails where a text breaks off, and for the cause of this. -/
theorem read_eq_error_iff {fault : LexFault} {before : List Char} :
    read cs = .error ⟨fault, before⟩ ↔ Breaks cs fault before := by
  constructor
  · intro h
    have some : cs ≠ [] := by
      rintro rfl
      contradiction
    have settled := settled_read some
    rwa [h] at settled
  · exact read_of_breaks

end Beginnings

end YoloLang.Lexeme
