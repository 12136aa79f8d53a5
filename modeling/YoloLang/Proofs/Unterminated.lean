import YoloLang.Proofs.Excerpt
import YoloLang.Proofs.Lines
import YoloLang.Proofs.Neighbours
import YoloLang.Proofs.OpenBodies

/-!
Faults at the end of a text. Main statement: the only fault there is the missing end of a block,
which is met if and only if a body is open behind tokens that are accepted, and its display points
just behind the text of the last line.
-/

namespace YoloLang

/-! Places at the end of a text. -/

/-- The empty region behind a source and the newline that is added to it. -/
def Span.atEnd (source : String) : Span := (Position.start.after (source.toList ++ ['\n'])).span 0

theorem Span.covers_atEnd (source : String) :
    (atEnd source).Covers (source.toList ++ ['\n']) [] :=
  Position.covers_span _ []

theorem Span.Covers.eq {s s' : Span} {before slice : List Char} (h : s.Covers before slice)
    (h' : s'.Covers before slice) : s = s' := by
  obtain ⟨offset, length, line, column⟩ := h
  obtain ⟨offset', length', line', column'⟩ := h'
  cases s
  cases s'
  simp_all

/-- What covers a text with something behind it begins before the end. -/
theorem Span.Covers.offset_lt {s : Span} {source : String} {before slice behind : List Char}
    (h : s.Covers before slice) (whole : source.toList ++ ['\n'] = before ++ behind)
    (some : behind ≠ []) : s.offset < (atEnd source).offset := by
  have pos := utf8Length_pos some
  rw [h.offset, (covers_atEnd source).offset, whole, utf8ByteSize_ofList, utf8ByteSize_ofList,
    utf8Length_append]
  omega

/-- Nothing is in the place, the whole text is before it, and its line is below all lines. -/
structure Span.Behind (s : Span) (source : String) : Prop where
  covers : s.Covers (source.toList ++ ['\n']) []
  below : (Text.lines source.toList).length < s.line

namespace Located

/-- A block that ends with this keyword is not ended in this source. -/
def unterminated (source : String) (stop : Keyword) : Located Fault :=
  ⟨.grammar (.unterminatedBlock stop), some (.atEnd source)⟩

/-- A fault of another sort, with a place before the end of the source. -/
structure Inside (source : String) (e : Located Fault) : Prop where
  other : ∀ stop, e.cause ≠ .grammar (.unterminatedBlock stop)
  place : ∃ span, e.span = some span ∧ span.offset < (Span.atEnd source).offset

end Located

namespace Text

theorem length_lines_le (cs : List Char) : (lines cs).length ≤ cs.count '\n' + 1 := by
  fun_induction lines cs with
  | case1 => exact Nat.zero_le _
  | case2 cs ih | case3 cs ih =>
      simp only [List.length_cons, List.count_cons, beq_self_eq_true, if_true]
      omega
  | case4 c cs _ _ none ih =>
      simp
  | case5 c cs _ _ line rest more ih =>
      rw [more, List.length_cons] at ih
      rw [List.length_cons, List.count_cons]
      omega

/-- There is one way to take the blanks from the end of a line. -/
theorem Trimmed.trimEnd_eq {line text : List Char} (h : Trimmed line text) :
    trimEnd line = text := by
  obtain ⟨⟨blanks, rfl, blank⟩, last⟩ := h
  have blank' : ∀ c ∈ blanks.reverse, isBlank c = true := fun c mem =>
    blank c (List.mem_reverse.mp mem)
  have last' : ∀ c ∈ text.reverse.head?, isBlank c = false := by
    rwa [List.head?_reverse]
  rw [trimEnd, List.reverse_append, (Lexeme.span_eq blank' last').2, List.reverse_reverse]

end Text

theorem Span.behind_atEnd (source : String) : (atEnd source).Behind source := by
  refine ⟨covers_atEnd source, ?_⟩
  have few := Text.length_lines_le source.toList
  rw [(covers_atEnd source).line, List.count_append]
  simp only [List.count_singleton_self]
  omega

/-- A text that ends its last line does not break off at its end. -/
theorem BrokenOff.exists_split {before rest : List Char} {fault : Located LexFault}
    (h : BrokenOff before rest fault) (line : (before ++ rest).getLast? = some '\n') :
    ∃ sound broken span, before ++ rest = sound ++ broken ∧ broken ≠ [] ∧
      fault.span = some span ∧ span.Covers sound (broken.take 1) := by
  obtain ⟨gap, sound, broken, span, rfl, skips, breaks, place, covers⟩ := h
  refine ⟨before ++ gap ++ sound, broken, span, by simp, ?_, place, covers⟩
  rintro rfl
  rw [List.append_nil] at line breaks skips
  have some : gap ++ sound ≠ [] := by
    intro none
    obtain ⟨-, rfl⟩ := List.append_eq_nil_iff.mp none
    have read := Lexeme.read_of_breaks breaks
    contradiction
  rw [List.getLast?_append_of_ne_nil _ some] at line
  obtain mem | mem := List.mem_append.mp (List.mem_of_getLast? line)
  · exact skips.not_line mem
  · exact breaks.unbroken mem

namespace Feed

/-- The end of a feed is that of its text, or a place before that where the text breaks off. -/
theorem ending_cases {c : Cursor} {before : List Char} (behind : c.Behind before) :
    match (ofCursor c).ending with
    | .eof span => span.Covers (before ++ c.rest) []
    | .fault fault => ∃ sound broken span, before ++ c.rest = sound ++ broken ∧ broken ≠ [] ∧
        fault.span = some span ∧ span.Covers sound (broken.take 1) := by
  obtain ⟨tiles, rest, whole, -, -, ending⟩ := exists_tiles behind
  cases ends : (ofCursor c).ending with
  | eof span =>
      rw [ends] at ending
      exact ending
  | fault fault =>
      rw [ends] at ending
      have line := behind.line
      rw [whole, ← List.append_assoc] at line ⊢
      exact ending.exists_split line

variable {source : String} {span : Span} {fault : Located LexFault} {t : Token} {k : Nat}

theorem span_of_eof (ends : (ofCursor (.ofSource source)).ending = .eof span) :
    span = .atEnd source := by
  have covers := ending_cases (Cursor.behind_ofSource source)
  rw [ends] at covers
  exact covers.eq (Span.covers_atEnd source)

/-- A text breaks off before its end. -/
theorem offset_lt_of_fault (ends : (ofCursor (.ofSource source)).ending = .fault fault) :
    ∃ span, fault.span = some span ∧ span.offset < (Span.atEnd source).offset := by
  have split := ending_cases (Cursor.behind_ofSource source)
  rw [ends] at split
  obtain ⟨sound, broken, span, whole, some, place, covers⟩ := split
  exact ⟨span, place, covers.offset_lt whole some⟩

/-- A token stands before the end. -/
theorem offset_lt_of_mem (mem : t ∈ (ofCursor (.ofSource source)).ahead) :
    t.span.offset < (Span.atEnd source).offset := by
  obtain ⟨before, slice, after, whole, stands, covers⟩ :=
    stands_of_mem (Cursor.behind_ofSource source) t mem
  refine covers.offset_lt (whole.trans (List.append_assoc ..)) ?_
  obtain ⟨lexed, kind⟩ := lexed_ofCursor _ t mem
  have some : slice ≠ [] := by
    rw [Token.Stands] at stands
    split at stands
    · simp [stands]
    · rename_i other
      rw [stands]
      exact (lexed.spelled kind other).ne_nil
  simp [some]

theorem token_of_lt (inside : k < (ofCursor (.ofSource source)).ahead.length) :
    ((ofCursor (.ofSource source)).token k).span.offset < (Span.atEnd source).offset := by
  rw [token, List.getElem?_eq_getElem inside]
  exact offset_lt_of_mem (List.getElem_mem inside)

theorem token_of_end (ends : (ofCursor (.ofSource source)).ending = .eof span) :
    ((ofCursor (.ofSource source)).token (ofCursor (.ofSource source)).ahead.length).span =
      .atEnd source := by
  rw [token, List.getElem?_eq_none (Nat.le_refl _), ends]
  exact span_of_eof ends

end Feed

/-! Faults and their places. -/

/-- The rules on names hold up to where some program goes on. -/
def Accepted (tokens : List Token) : Prop :=
  Viable tokens ∧ ∀ p : Program, tokens <+: p.tokens → Orderly (p.leaves.take tokens.length)

/-- The tokens of a source are accepted, and the innermost body that is open behind them ends with
this keyword. -/
def LeavesOpen (source : String) (stop : Keyword) : Prop :=
  ∃ tokens inner, tokenize source = .ok tokens ∧ Accepted tokens ∧ openBodies tokens = stop :: inner

namespace FirstFault

variable {tokens : List Token} {k : Nat}

/-- Nothing stands against a token that is accepted but a label that is missing elsewhere. -/
theorem missing_of_accepted {cause : Fault} (h : FirstFault tokens k cause)
    (accepted : Accepted tokens) (inside : k < tokens.length) :
    ∃ name, cause = .naming (.undeclaredLabel name) := by
  obtain ⟨viable, all⟩ := accepted
  obtain ⟨p, begins⟩ := id viable
  have orderly := all p begins
  have shorter : tokens.take (k + 1) <+: p.tokens := (List.take_prefix _ _).trans begins
  have before : (p.leaves.take tokens.length).take k = p.leaves.take k := by
    rw [List.take_take, Nat.min_eq_left (Nat.le_of_lt inside)]
  have within {l : Leaf} (found : p.leaves[k]? = some l) :
      (p.leaves.take tokens.length)[k]? = some l := by
    rw [List.getElem?_take_of_lt inside, found]
  cases cause with
  | lexing | file => exact h.elim
  | grammar fault => exact absurd (h.eq_length_of_viable viable) (Nat.ne_of_lt inside)
  | naming fault =>
      cases fault with
      | undeclaredVariable name =>
          obtain ⟨-, l, found, -, rfl, reads, new⟩ := h.2.2 p shorter
          exact absurd (before ▸ orderly.declared k l (within found) reads) new
      | duplicateLabel name =>
          obtain ⟨-, l, found, -, rfl, marked, known⟩ := h.2.2 p shorter
          have other := orderly.not_marked_before (within found) marked
          exact absurd known (before ▸ other)
      | undeclaredLabel name => exact ⟨name, rfl⟩

end FirstFault

/-! The display of a place at the end. -/

namespace Report

/-- The last line as it is quoted. -/
def lastQuoted (lines : List (List Char)) (text : List Char) : List Char :=
  decimal lines.length ++ [' ', '|', ' '] ++ text

/-- The last line and a mark just behind it. -/
def lastMarked (lines : List (List Char)) (text : List Char) : List (List Char) :=
  [lastQuoted lines text, List.replicate (lastQuoted lines text).length ' ' ++ ['^']]

/-- A place below all lines is marked just behind what is quoted of the last one. -/
theorem excerpt_below {span : Span} {lines : List (List Char)} {last : List Char}
    (final : lines.getLast? = some last) (below : lines.length < span.line) :
    ∃ earlier, excerpt span lines = earlier ++ lastMarked lines (Text.trimEnd last) := by
  have some : lines ≠ [] := by
    rintro rfl
    contradiction
  have pos := List.length_pos_iff.mpr some
  have base : base span lines = lines.length := Nat.min_eq_right (Nat.le_of_lt below)
  have high : Report.last span lines = lines.length := by
    rw [Report.last, base]
    omega
  have low : first span lines ≤ lines.length := by
    rw [first, base]
    omega
  obtain ⟨q, quoted⟩ := exists_quotation some (Nat.zero_lt_of_lt below)
  obtain ⟨line, found, trimmed⟩ := q.trimmed lines.length low (Nat.le_of_eq high.symm)
  obtain rfl : line = last := by
    rw [List.getLast?_eq_getElem?, found] at final
    exact Option.some.inj final
  have row : q.row lines.length = lastQuoted lines (Text.trimEnd line) := by
    rw [Quotation.row, gutter, q.narrow, high, Nat.sub_self, trimmed.trimEnd_eq]
    rfl
  have length : (lastQuoted lines (Text.trimEnd line)).length =
      q.width + 3 + (q.text lines.length).length := by
    rw [← row, Quotation.row, List.length_append,
      q.aligned lines.length low (Nat.le_of_eq high.symm)]
  refine ⟨(upTo (first span lines) (lines.length - 1)).map q.row, ?_⟩
  rw [quoted, Quotation.rows, base, high, row, q.below below, lastMarked, length, upTo, upTo,
    Nat.sub_self]
  exact List.append_nil _

end Report

namespace Compiler

variable {c : Compiler} {source : String} {tokens : List Token} {e : Located Fault}

/-- A text without a fault of its own is stopped where a block is not ended, or before its end. -/
theorem place_of_lexed (lexed : tokenize source = .ok tokens)
    (failed : (c.compileText source).1 = .error e) :
    (∃ stop inner, e = .unterminated source stop ∧ Accepted tokens ∧
        openBodies tokens = stop :: inner) ∨ e.Inside source := by
  obtain ⟨⟨⟨span, ends⟩, -, -⟩, rfl⟩ := tokenize_eq_ok.mp lexed
  obtain ⟨sentence, -⟩ | ⟨fault, k, failed', stops⟩ := c.compileText_bodies lexed
  · obtain ⟨_, _, compiled, -⟩ | ⟨e', k, failed', first, place⟩ := compileText_outcome c lexed
    · simp [compiled] at failed
    · obtain rfl := Except.error.inj (failed'.symm.trans failed)
      obtain ⟨fault, cause⟩ := first.naming_of_sentence sentence
      rw [cause] at first
      exact .inr ⟨by simp [cause], _, place, Feed.token_of_lt first.lt_length_of_naming⟩
  · obtain rfl := Except.error.inj (failed'.symm.trans failed)
    have place := stops.span
    obtain ⟨inside, other⟩ | ⟨whole, stop, inner, cause, bodies⟩ := stops.place
    · exact .inr ⟨other, _, place, Feed.token_of_lt inside⟩
    · have first := stops.first
      rw [cause, whole] at first
      rw [whole, Feed.token_of_end ends] at place
      obtain ⟨-, viable, -, orderly⟩ := first
      rw [List.take_length] at viable orderly
      refine .inl ⟨stop, inner, ?_, ⟨viable, orderly⟩, bodies⟩
      rw [Located.unterminated, ← cause, ← place]

/-- A text with a fault of its own is stopped before its end, and not where a block is not ended. -/
theorem place_of_unlexed {fault : Located LexFault} (unlexed : tokenize source = .error fault)
    (failed : (c.compileText source).1 = .error e) : e.Inside source := by
  obtain ⟨clear, begins⟩ := exists_source (.ofSource source)
  have lexed := tokenize_of_beginsWith begins
  obtain ⟨e', failed', outcome⟩ := compileText_of_continues (c := c) unlexed lexed begins.2
  obtain rfl := Except.error.inj (failed'.symm.trans failed)
  cases outcome with
  | met e' k other first early cause place =>
      have room := early.room
      have inside : k < (Feed.ofCursor (.ofSource source)).ahead.length := by omega
      constructor
      · intro stop same
        rw [cause] at same
        obtain ⟨stop', inner, rfl, accepted, -⟩ | within := place_of_lexed lexed other
        · have whole := first.eq_length_of_viable accepted.1
          have more := begins.length_le
          omega
        · exact within.other stop same
      · rw [List.getElem?_eq_getElem inside] at place
        exact ⟨_, place, Feed.offset_lt_of_mem (List.getElem_mem inside)⟩
  | broken same =>
      subst same
      exact ⟨nofun, Feed.offset_lt_of_fault (tokenize_eq_error.mp unlexed)⟩

/-- A text is stopped at its end if and only if a body is open behind tokens that are accepted. -/
theorem compileText_eq_unterminated (stop : Keyword) :
    (c.compileText source).1 = .error (.unterminated source stop) ↔ LeavesOpen source stop := by
  constructor
  · intro failed
    cases lexed : tokenize source with
    | error fault => exact absurd rfl ((place_of_unlexed lexed failed).other stop)
    | ok tokens =>
        obtain ⟨stop', inner, same, accepted, bodies⟩ | inside := place_of_lexed lexed failed
        · cases same
          exact ⟨tokens, inner, lexed, accepted, bodies⟩
        · exact absurd rfl (inside.other stop)
  · rintro ⟨tokens, inner, lexed, accepted, bodies⟩
    obtain ⟨-, none⟩ | ⟨e, k, failed, stops⟩ := c.compileText_bodies lexed
    · rw [bodies] at none
      contradiction
    · obtain ⟨clean, rfl⟩ := tokenize_eq_ok.mp lexed
      obtain ⟨inside, -⟩ | ⟨-, stop', inner', cause, -⟩ := stops.place
      · obtain ⟨name, missing⟩ := stops.first.missing_of_accepted accepted inside
        exact absurd missing (stops.within name)
      · obtain ⟨stop', inner', rfl, -, bodies'⟩ | inside := place_of_lexed lexed failed
        · obtain ⟨rfl, -⟩ := List.cons.inj (bodies.symm.trans bodies')
          exact failed
        · exact absurd cause (inside.other stop')

theorem openBodies_of_empty (lexed : tokenize "" = .ok tokens) : openBodies tokens = [] := by
  have line : tokenize "" = .ok [⟨"\n", .newline, ⟨0, 1, 1, 1⟩⟩] := by cbv
  obtain rfl := Except.ok.inj (line.symm.trans lexed)
  rfl

/-- What is shown of a fault ends with the last line of the source, without the blanks at its end,
and a mark in the first column behind these. -/
def MarksEnd (source : String) (e : Located Fault) : Prop :=
  ∃ line text earlier, (Text.lines source.toList).getLast? = some line ∧ Text.Trimmed line text ∧
    e.shown source = (e.map Fault.message).heading ++ "\n" ++ String.ofList
      ((earlier ++ Report.lastMarked (Text.lines source.toList) text).flatMap (· ++ ['\n']))

theorem marksEnd_unterminated {stop : Keyword}
    (failed : (c.compileText source).1 = .error (.unterminated source stop)) :
    MarksEnd source (.unterminated source stop) := by
  obtain ⟨tokens, inner, lexed, -, bodies⟩ := (compileText_eq_unterminated stop).mp failed
  have some : Text.lines source.toList ≠ [] := by
    intro none
    obtain rfl : source = "" := by simpa using Text.lines_eq_nil_iff.mp none
    rw [openBodies_of_empty lexed] at bodies
    contradiction
  have final := List.getLast?_eq_some_getLast some
  obtain ⟨earlier, excerpt⟩ := Report.excerpt_below final (Span.behind_atEnd source).below
  refine ⟨_, _, earlier, final, Text.trimmed_trimEnd _, ?_⟩
  rw [← excerpt]
  rfl

/-- The only fault at the end token is that a block is not ended. It is met if and only if a body is
open behind tokens that are accepted, and is then that of the innermost one. Its place is empty,
behind the source and the newline that is added, on a line below all lines. What is shown of it ends
with the last line, without the blanks at its end, and a mark in the first column behind these. -/
theorem compileText_at_end (c : Compiler) (source : String) :
    (∀ span, (Feed.ofCursor (.ofSource source)).ending = .eof span → span = .atEnd source) ∧
      (Span.atEnd source).Behind source ∧
      (∀ e, (c.compileText source).1 = .error e →
        (∃ stop, e = .unterminated source stop) ∨ e.Inside source) ∧
      ∀ stop,
        ((c.compileText source).1 = .error (.unterminated source stop) ↔
          LeavesOpen source stop) ∧
        ((c.compileText source).1 = .error (.unterminated source stop) →
          MarksEnd source (.unterminated source stop)) := by
  refine ⟨fun _ ends => Feed.span_of_eof ends, Span.behind_atEnd source, ?_, fun stop =>
    ⟨compileText_eq_unterminated stop, marksEnd_unterminated⟩⟩
  intro e failed
  cases lexed : tokenize source with
  | error fault => exact .inr (place_of_unlexed lexed failed)
  | ok tokens =>
      obtain ⟨stop, -, rfl, -⟩ | inside := place_of_lexed lexed failed
      · exact .inl ⟨stop, rfl⟩
      · exact .inr inside

-- The loop is the innermost body, and only its end is missed.
example : ((⟨"out.c", none⟩ : Compiler).compileText "IF (1 > 0) THEN\nWHILE (1 > 0) REPEAT").1 =
    .error (.unterminated "IF (1 > 0) THEN\nWHILE (1 > 0) REPEAT" .ENDWHILE) := by cbv

end Compiler
end YoloLang
