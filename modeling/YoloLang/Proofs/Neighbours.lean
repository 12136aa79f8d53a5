import YoloLang.Proofs.Lexing

/-!
What a reading looks at. Main statement: whether a lexeme is read at its place is settled by its own
characters and the one that comes after it. A gap looks at that one character too, and a text that
ends its line breaks off where it does by itself.
-/

namespace YoloLang.Lexeme

variable {raw rest rest' : List Char} {kind : Kind}

/-- Some lexeme goes on like this one followed by this character. -/
def GoesOn (raw : List Char) (c : Char) : Prop :=
  ∃ more kind, Spelled (raw ++ c :: more) kind

theorem goesOn_of_spelled {c : Char} (h : Spelled (raw ++ [c]) kind) : GoesOn raw c := ⟨[], kind, h⟩

/-- A number is spoiled by a point only where a point makes a longer number. -/
theorem goesOn_of_openDecimal (h : Spelled raw kind) (spoils : OpenDecimal (raw ++ rest)) :
    ∃ c ∈ rest.head?, GoesOn raw c := by
  obtain ⟨digits, after, whole, some, decimal, none⟩ := spoils
  have alone : ¬ OpenDecimal raw := by
    have read : read (raw ++ []) = _ := read_append h (by simp)
    simpa using not_openDecimal_of_read read
  have point {raw : List Char} (some : raw ≠ []) (digits : ∀ c ∈ raw, Text.isDigit c = true) :
      GoesOn raw '.' := by
    have longer : Spelled (raw ++ '.' :: ['0']) .number :=
      .fraction some digits (by simp) (by simp [Text.isDigit])
    exact ⟨_, _, longer⟩
  obtain ⟨more, rfl, split⟩ | ⟨more, rfl, split⟩ := List.append_eq_append_iff.mp whole
  · have digits : ∀ c ∈ raw, Text.isDigit c = true :=
      fun c mem => decimal c (List.mem_append_left _ mem)
    cases more with
    | nil => exact ⟨'.', by simp [split], point h.ne_nil digits⟩
    | cons c more =>
        refine ⟨c, by simp [split], goesOn_of_spelled (.whole (by simp) ?_)⟩
        simpa [or_imp, forall_and] using ⟨digits, decimal c (by simp)⟩
  · cases more with
    | nil =>
        have first := congrArg List.head? split.symm
        exact ⟨'.', by simpa using first, by simpa using point some decimal⟩
    | cons c more =>
        -- The point is part of the lexeme, which would not be one without a digit behind it.
        obtain ⟨rfl, rfl⟩ := List.cons.inj split
        refine absurd ⟨digits, more, rfl, some, decimal, fun d first => none d ?_⟩ alone
        simp [Option.mem_def.mp first]

/-- A lexeme that the next character does not go on with is read by itself. -/
theorem read_of_not_goesOn (h : Spelled raw kind) (ends : ∀ c ∈ rest.head?, ¬ GoesOn raw c) :
    read (raw ++ rest) = .ok ⟨kind, raw⟩ := by
  obtain ⟨l, read, longer⟩ | spoils := exists_read_of_spelled h rest
  · obtain ⟨after, whole⟩ := read_prefix read
    obtain ⟨more, same⟩ : raw <+: l.raw :=
      List.prefix_of_prefix_length_le ⟨rest, rfl⟩ ⟨after, whole.symm⟩ longer
    have spelled := (longest_of_read (by simp [h.ne_nil]) read).spelled
    cases more with
    | nil =>
        obtain ⟨k, _⟩ := l
        obtain rfl : raw = _ := by simpa using same
        obtain rfl : k = kind := spelled.unique h
        exact read
    | cons c more =>
        rw [← same] at whole spelled
        have split : rest = c :: more ++ after := by
          rw [List.append_assoc] at whole
          exact List.append_cancel_left whole
        exact absurd ⟨more, _, spelled⟩ (ends c (by simp [split]))
  · obtain ⟨c, first, goesOn⟩ := goesOn_of_openDecimal h spoils
    exact absurd goesOn (ends c first)

/-- A number before a point is not read by itself, whatever comes after the point. -/
theorem read_point_ne {digits : List Char} (some : digits ≠ [])
    (decimal : ∀ c ∈ digits, Text.isDigit c = true) (rest : List Char) (kind : Kind) :
    read (digits ++ '.' :: rest) ≠ .ok ⟨kind, digits⟩ := by
  obtain ⟨decimals, rest, rfl, decimal', ends⟩ := exists_span Text.isDigit rest
  rw [read_digits some decimal, readNumber_point decimal decimal' ends]
  split <;> simp

theorem length_symbols : ∀ s ∈ symbols, s.1.toList.length ≤ 2 := by decide

/-- Before a character that goes on with it no lexeme is read by itself. -/
theorem not_goesOn_of_read {c : Char} (read : read (raw ++ c :: rest) = .ok ⟨kind, raw⟩) :
    ¬ GoesOn raw c := by
  rintro ⟨more, kind', spelled⟩
  have longest : Longest (raw ++ c :: rest) raw kind := longest_of_read (by simp) read
  have nonempty := longest.spelled.ne_nil
  have single {k : Kind} (h : Spelled (raw ++ [c]) k) : False := by
    have longer := longest.longest _ _ h ⟨rest, by simp⟩
    rw [List.length_append, List.length_singleton] at longer
    omega
  have begins (xs ys : List Char) : xs ++ [c] <+: xs ++ c :: ys := ⟨ys, by simp⟩
  generalize whole : raw ++ c :: more = longer at spelled
  cases spelled with
  | newline => simp_all [List.append_eq_singleton_iff]
  | @string body plain =>
      -- Without its closing quote this would be an open string.
      obtain ⟨d, inner, rfl⟩ := List.exists_cons_of_ne_nil nonempty
      obtain ⟨rfl, same⟩ := List.cons.inj whole
      have short : inner.length ≤ body.length := by
        have := congrArg List.length same
        simp at this
        omega
      have inside : inner <+: body :=
        List.prefix_of_prefix_length_le ⟨_, same⟩ ⟨_, rfl⟩ short
      have breaks : Breaks ('"' :: inner ++ []) .unterminatedString ('"' :: inner) :=
        .unterminated (fun d mem => plain d (inside.subset mem)) (by simp)
      have closed : Lexeme.read ('"' :: inner ++ []) = _ := read_append longest.spelled (by simp)
      rw [read_of_breaks breaks] at closed
      contradiction
  | whole _ decimal =>
      rw [← whole] at decimal
      exact single (.whole (by simp) fun d mem => decimal d ((begins raw more).subset mem))
  | @fraction digits decimals some decimal _ decimal' =>
      have point (same : raw = digits) (next : c = '.') : False := by
        subst same next
        exact read_point_ne some decimal rest kind read
      obtain ⟨inner, rfl, split⟩ | ⟨inner, rfl, split⟩ := List.append_eq_append_iff.mp whole
      · cases inner with
        | nil => exact point (by simp) (by simpa using congrArg List.head? split)
        | cons d inner =>
            obtain ⟨rfl, -⟩ := List.cons.inj split
            exact single (.whole (by simp) fun d mem => decimal d ((begins raw inner).subset mem))
      · cases inner with
        | nil => exact point (by simp) (by simpa using congrArg List.head? split.symm)
        | cons d inner =>
            obtain ⟨rfl, rfl⟩ := List.cons.inj split
            have decimals : ∀ d ∈ inner ++ [c], Text.isDigit d = true :=
              fun d mem => decimal' d ((begins inner more).subset mem)
            have longer := Spelled.fraction some decimal (by simp) decimals
            exact single (k := .number) (by simpa using longer)
  | @word d others kind first inWord =>
      obtain ⟨d', others', rfl⟩ := List.exists_cons_of_ne_nil nonempty
      obtain ⟨rfl, rfl⟩ := List.cons.inj whole
      exact single (.word first (fun d mem => inWord d ((begins others' more).subset mem))
        (word_ofWord _))
  | symbol mem =>
      have short := length_symbols _ mem
      have least := List.length_pos_iff.mpr nonempty
      rw [← whole, List.length_append, List.length_cons] at short
      obtain rfl : more = [] := List.eq_nil_of_length_eq_zero (by omega)
      exact single (whole ▸ Spelled.symbol mem)

/-- A lexeme is read at its place unless the next character goes on with it. -/
theorem read_append_iff (h : Spelled raw kind) :
    read (raw ++ rest) = .ok ⟨kind, raw⟩ ↔ ∀ c ∈ rest.head?, ¬ GoesOn raw c := by
  refine ⟨fun read c first => ?_, read_of_not_goesOn h⟩
  obtain ⟨rest, rfl⟩ := List.head?_eq_some_iff.mp (Option.mem_def.mp first)
  exact not_goesOn_of_read read

/-- A lexeme is read before every text that begins with the same character. -/
theorem read_of_head {l : Lexeme} (read : read (l.raw ++ rest) = .ok l) (kind : l.kind ≠ .eof)
    (same : rest'.head? = rest.head?) : Lexeme.read (l.raw ++ rest') = .ok l := by
  obtain ⟨-, rfl⟩ | spelled := eof_or_spelled read
  · contradiction
  · exact (read_append_iff spelled).mpr (same ▸ (read_append_iff spelled).mp read)

theorem Gap.of_head {gap : List Char} (h : Gap gap rest) (same : rest'.head? = rest.head?) :
    Gap gap rest' := by
  cases h with
  | blanks blank ends => exact .blanks blank (same ▸ ends)
  | comment blank line ends => exact .comment blank line (same ▸ ends)

/-- A lexeme that ends a line is read before every text. -/
theorem read_of_line (h : Spelled raw kind) (line : '\n' ∈ raw) (rest : List Char) :
    read (raw ++ rest) = .ok ⟨kind, raw⟩ := by
  refine read_of_not_goesOn h ?_
  rintro c - ⟨more, kind', longer⟩
  obtain ⟨rfl, -⟩ := h.eq_of_line line
  obtain ⟨single, -⟩ := longer.eq_of_line (by simp)
  simp at single

theorem Breaks.unbroken {fault : LexFault} {cs before : List Char} (h : Breaks cs fault before) :
    '\n' ∉ before := by
  have literal {body : List Char} (plain : ∀ c ∈ body, Literal c) : '\n' ∉ '"' :: body := by
    intro mem
    obtain other | mem := List.mem_cons.mp mem
    · contradiction
    · exact absurd (plain _ mem).1 (by decide)
  cases h with
  | bang | unknown => exact List.not_mem_nil
  | illegal plain | unterminated plain => exact literal plain
  | decimals _ decimal =>
      intro mem
      obtain mem | mem := List.mem_append.mp mem
      · exact absurd (decimal _ mem) (by decide)
      · simp at mem

/-- A text that ends its line breaks off before that end. -/
theorem Breaks.append {fault : LexFault} {cs before : List Char} (h : Breaks cs fault before)
    (line : cs.getLast? = some '\n') (more : List Char) : Breaks (cs ++ more) fault before := by
  cases h with
  | @bang rest next =>
      cases rest with
      | nil => simp at line
      | cons c rest => exact .bang next
  | @illegal body rest c plain bad quote newline =>
      have longer :
          Breaks ('"' :: body ++ c :: (rest ++ more)) (.illegalInString c) ('"' :: body) :=
        .illegal plain bad quote newline
      simpa using longer
  | @unterminated body rest plain newline =>
      cases rest with
      | nil =>
          have last := List.mem_of_getLast? (List.append_nil _ ▸ line)
          exact absurd last (unbroken (.unterminated plain newline))
      | cons c rest =>
          have longer : Breaks ('"' :: body ++ (c :: rest ++ more)) .unterminatedString
              ('"' :: body) := .unterminated plain newline
          simpa using longer
  | @decimals digits rest some decimal none =>
      cases rest with
      | nil => simp at line
      | cons c rest =>
          have longer : Breaks (digits ++ '.' :: (c :: rest ++ more)) .missingDecimals
              (digits ++ ['.']) := .decimals some decimal none
          simpa using longer
  | unknown none => exact .unknown none

end YoloLang.Lexeme
