import YoloLang.Proofs.Recognition
import YoloLang.Token.Cursor

/-!
What a call of a cursor answers. Main statement: behind the blanks and one comment it gives the
longest lexeme there is, or the end token if nothing is left, and otherwise it fails for one cause
at one place.
-/

namespace YoloLang

open Lexeme

/-- The text that a token stands for. A string stands between its quotes. -/
def Token.Stands (t : Token) (raw : List Char) : Prop :=
  if t.kind = .string then raw = '"' :: t.text.toList ++ ['"'] else raw = t.text.toList

theorem Token.stands_of_read {cs : List Char} {l : Lexeme} (h : read cs = .ok l) (span : Span) :
    (⟨l.text, l.kind, span⟩ : Token).Stands l.raw := by
  rw [Stands]
  obtain ⟨-, rfl⟩ | spelled := eof_or_spelled h
  · rfl
  · obtain ⟨kind, raw⟩ := l
    simp only [Lexeme.text] at spelled ⊢
    by_cases string : kind = .string
    · subst string
      cases spelled with
      | string => simp
      | word _ _ named => cases named
      | symbol mem => simp [symbols] at mem
    · simp [string]

namespace Cursor

variable {c : Cursor} {gap rest after : List Char} {l : Lexeme}

theorem skipBlanks_eq (whole : c.rest = gap ++ rest) (skips : Gap gap rest) :
    c.skipBlanks = ⟨rest, c.position.after gap, c.exhausted⟩ := by
  have skipped := skipped_of_gap skips
  simp [skipBlanks, drop, whole, skipped]

theorem nextToken_of_read (whole : c.rest = gap ++ rest) (skips : Gap gap rest)
    (read : Lexeme.read rest = .ok l) (split : rest = l.raw ++ after) :
    c.nextToken =
      (.ok ⟨l.text, l.kind, (c.position.after gap).span (utf8Length l.raw)⟩,
        ⟨after, (c.position.after gap).after l.raw, c.exhausted⟩) := by
  rw [nextToken, skipBlanks_eq whole skips]
  simp only [read, drop]
  simp [split]

theorem nextToken_of_breaks {fault : LexFault} {before broken : List Char}
    (whole : c.rest = gap ++ rest) (skips : Gap gap rest) (breaks : Breaks rest fault before)
    (split : rest = before ++ broken) :
    c.nextToken =
      (.error ⟨fault, some (((c.position.after gap).after before).span
          (utf8Length (broken.take 1)))⟩,
        ⟨rest, c.position.after gap, c.exhausted⟩) := by
  have width : ((rest.drop before.length).head?.map Char.utf8Size).getD 0 =
      utf8Length (broken.take 1) := by
    cases broken <;> simp [split, utf8Length]
  rw [nextToken, skipBlanks_eq whole skips]
  simp only [read_of_breaks breaks, faultSpan, width]

/-- What a call finds: a gap, and behind it a lexeme or a break. -/
theorem nextToken_cases (c : Cursor) :
    ∃ gap rest, c.rest = gap ++ rest ∧ Gap gap rest ∧
      ((∃ l after, read rest = .ok l ∧ rest = l.raw ++ after ∧
          c.nextToken =
            (.ok ⟨l.text, l.kind, (c.position.after gap).span (utf8Length l.raw)⟩,
              ⟨after, (c.position.after gap).after l.raw, c.exhausted⟩)) ∨
        ∃ fault before broken, Breaks rest fault before ∧ rest = before ++ broken ∧
          c.nextToken =
            (.error ⟨fault, some (((c.position.after gap).after before).span
                (utf8Length (broken.take 1)))⟩,
              ⟨rest, c.position.after gap, c.exhausted⟩)) := by
  obtain ⟨rest, whole, skips⟩ := gap_skipped c.rest
  refine ⟨_, rest, whole, skips, ?_⟩
  cases found : read rest with
  | ok l =>
      obtain ⟨after, split⟩ := read_prefix found
      exact .inl ⟨l, after, rfl, split, nextToken_of_read whole skips found split⟩
  | error bad =>
      have breaks := read_eq_error_iff.mp found
      obtain ⟨broken, split⟩ := breaks.begins
      exact .inr ⟨_, _, broken, breaks, split.symm,
        nextToken_of_breaks whole skips breaks split.symm⟩

/-- At the end of the text the end token is given again and again. -/
theorem nextToken_of_nil (none : c.rest = []) :
    c.nextToken = (.ok (.eof (c.position.span 0)), c) := by
  have ends : Gap [] [] := .blanks (by simp) (by simp)
  have read : Lexeme.read [] = .ok ⟨.eof, []⟩ := rfl
  have stays : (⟨[], c.position, c.exhausted⟩ : Cursor) = c := by rw [← none]
  rw [nextToken_of_read none ends read rfl]
  exact congrArg _ stays

/-- The end token is given at the end of the text alone. -/
theorem rest_of_eof {next : Cursor} {t : Token} (call : c.nextToken = (.ok t, next))
    (kind : t.kind = .eof) : next.rest = [] ∧ t = .eof (next.position.span 0) := by
  obtain ⟨gap, rest, -, -, ⟨l, after, read, split, gives⟩ | ⟨_, _, _, -, -, fails⟩⟩ :=
    c.nextToken_cases
  · rw [gives] at call
    obtain ⟨rfl, rfl⟩ := call
    obtain ⟨rfl, rfl⟩ | spelled := eof_or_spelled read
    · exact ⟨(List.append_eq_nil_iff.mp split.symm).2, rfl⟩
    · exact absurd kind spelled.kind_ne_eof
  · simp [fails] at call

/-- A call gives the longest lexeme behind the gap or fails where the text breaks off. -/
theorem nextToken_lexical (c : Cursor) :
    ∃ gap rest : List Char, c.rest = gap ++ rest ∧ Gap gap rest ∧
      (rest = [] → c.nextToken.1 = .ok (.eof ((c.position.after gap).span 0))) ∧
      (rest ≠ [] →
        ((∃ t, c.nextToken.1 = .ok t) ↔
          (∃ raw kind, Spelled raw kind ∧ raw <+: rest) ∧ ¬ OpenDecimal rest) ∧
        ∀ t, c.nextToken.1 = .ok t →
          ∃ raw, Longest rest raw t.kind ∧ t.Stands raw ∧
            t.span = (c.position.after gap).span (utf8Length raw)) ∧
      ∀ e, c.nextToken.1 = .error e ↔
        ∃ fault before broken, Breaks rest fault before ∧ rest = before ++ broken ∧
          e = ⟨fault, some (((c.position.after gap).after before).span
            (utf8Length (broken.take 1)))⟩ := by
  obtain ⟨gap, rest, whole, skips, found⟩ := c.nextToken_cases
  refine ⟨gap, rest, whole, skips, ?_, ?_, ?_⟩
  · rintro rfl
    have read : Lexeme.read [] = .ok ⟨.eof, []⟩ := rfl
    rw [nextToken_of_read whole skips read rfl]
    rfl
  · intro some
    rw [← exists_read_iff some]
    obtain ⟨l, after, read, -, gives⟩ | ⟨fault, before, broken, breaks, -, fails⟩ := found
    · rw [gives]
      refine ⟨⟨fun _ => ⟨l, read⟩, fun _ => ⟨_, rfl⟩⟩, ?_⟩
      rintro t ⟨⟩
      have longest := longest_of_read some read
      exact ⟨l.raw, longest, Token.stands_of_read read _, rfl⟩
    · simp [fails, read_of_breaks breaks]
  · intro e
    constructor
    · intro failed
      obtain ⟨l, after, -, -, gives⟩ | ⟨fault, before, broken, breaks, split, fails⟩ := found
      · simp [gives] at failed
      · rw [fails] at failed
        exact ⟨fault, before, broken, breaks, split, (Except.error.inj failed).symm⟩
    · rintro ⟨fault, before, broken, breaks, split, rfl⟩
      rw [nextToken_of_breaks whole skips breaks split]

end Cursor
end YoloLang
