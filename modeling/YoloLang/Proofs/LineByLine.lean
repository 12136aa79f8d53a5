import YoloLang.Proofs.Feed
import YoloLang.Proofs.Neighbours
import YoloLang.Proofs.Tiling

/-!
Texts of several lines. Main statement: the tokens of two texts with a newline between them are
those of the first, or its fault, and then those of the second, or its fault, in their new places.
-/

namespace YoloLang

/-! Places further down in a text, in the same column. -/

def Span.moved (s : Span) (bytes lines : Nat) : Span :=
  { s with offset := s.offset + bytes, line := s.line + lines }

def Position.moved (p : Position) (bytes lines : Nat) : Position :=
  { p with offset := p.offset + bytes, line := p.line + lines }

def Token.moved (t : Token) (bytes lines : Nat) : Token :=
  { t with span := t.span.moved bytes lines }

def Located.moved {α : Type} (e : Located α) (bytes lines : Nat) : Located α :=
  { e with span := e.span.map (·.moved bytes lines) }

def Cursor.moved (c : Cursor) (bytes lines : Nat) : Cursor :=
  { c with position := c.position.moved bytes lines }

def Ending.moved (bytes lines : Nat) : Ending → Ending
  | .eof span => .eof (span.moved bytes lines)
  | .fault e => .fault (e.moved bytes lines)

def Feed.moved (f : Feed) (bytes lines : Nat) : Feed :=
  ⟨f.ahead.map (·.moved bytes lines), f.ending.moved bytes lines⟩

namespace Position

theorem next_moved (p : Position) (c : Char) (bytes lines : Nat) :
    (p.moved bytes lines).next c = (p.next c).moved bytes lines := by
  by_cases line : c = '\n' <;> simp [next, moved, line, Nat.add_right_comm]

theorem after_moved (p : Position) (cs : List Char) (bytes lines : Nat) :
    (p.moved bytes lines).after cs = (p.after cs).moved bytes lines := by
  induction cs generalizing p with
  | nil => rfl
  | cons c cs ih => rw [after_cons, after_cons, next_moved, ih]

/-- Behind whole lines a text begins in the first column again. -/
theorem after_lines {cs : List Char} (line : cs.getLast? = some '\n') :
    start.after cs = start.moved (utf8Length cs) (cs.count '\n') := by
  obtain ⟨cs, rfl⟩ := List.getLast?_eq_some_iff.mp line
  have offset := offset_after start (cs ++ ['\n'])
  have lines := line_after (cs ++ ['\n'])
  have column := column_after (cs ++ ['\n'])
  generalize start.after (cs ++ ['\n']) = p at *
  obtain ⟨o, l, k⟩ := p
  simp_all [moved, start]

end Position

/-- A call is the same wherever the text stands. -/
theorem Cursor.nextToken_moved (c : Cursor) (bytes lines : Nat) :
    (c.moved bytes lines).nextToken =
      ((c.nextToken.1.map (·.moved bytes lines)).mapError (·.moved bytes lines),
        c.nextToken.2.moved bytes lines) := by
  have after (cs : List Char) := c.position.after_moved cs bytes lines
  have after' (cs ds : List Char) := (c.position.after cs).after_moved ds bytes lines
  obtain ⟨gap, rest, whole, skips, ⟨l, tail, read, split, gives⟩ |
    ⟨fault, before, broken, breaks, split, fails⟩⟩ := c.nextToken_cases
  · rw [gives, nextToken_of_read (c := c.moved bytes lines) whole skips read split]
    simp only [moved, after, after']
    rfl
  · rw [fails, nextToken_of_breaks (c := c.moved bytes lines) whole skips breaks split]
    simp only [moved, after, after']
    rfl

namespace Cursor

variable {xs : List Char}

/-- What a call finds in whole lines it finds before any text behind them. -/
theorem nextToken_of_line (line : xs.getLast? = some '\n') (ys : List Char) (p : Position)
    (e : Bool) :
    (∃ t after q, t.kind ≠ .eof ∧ (after = [] → t.kind = .newline) ∧
        after.length < xs.length ∧ (∀ c ∈ after.getLast?, c = '\n') ∧
        q.after after = p.after xs ∧ nextToken ⟨xs, p, e⟩ = (.ok t, ⟨after, q, e⟩) ∧
          nextToken ⟨xs ++ ys, p, e⟩ = (.ok t, ⟨after ++ ys, q, e⟩)) ∨
      ∃ fault stop stop', nextToken ⟨xs, p, e⟩ = (.error fault, stop) ∧
        nextToken ⟨xs ++ ys, p, e⟩ = (.error fault, stop') := by
  obtain ⟨gap, rest, whole, skips, found⟩ := nextToken_cases ⟨xs, p, e⟩
  obtain rfl : xs = gap ++ rest := whole
  have some : rest ≠ [] := by
    rintro rfl
    rw [List.append_nil] at line
    exact skips.not_line (List.mem_of_getLast? line)
  rw [List.getLast?_append_of_ne_nil _ some] at line
  have skips' : Lexeme.Gap gap (rest ++ ys) := skips.of_head (List.head?_append_of_ne_nil _ some)
  obtain ⟨l, after, read, rfl, gives⟩ | ⟨fault, before, broken, breaks, rfl, fails⟩ := found
  · have spelled := (Lexeme.longest_of_read some read).spelled
    have pos := List.length_pos_iff.mpr spelled.ne_nil
    have last (more : after ≠ []) : after.getLast? = .some '\n' := by
      rwa [List.getLast?_append_of_ne_nil _ more] at line
    have read' : Lexeme.read (l.raw ++ (after ++ ys)) = .ok l := by
      cases after with
      | nil =>
          rw [List.append_nil] at line
          exact Lexeme.read_of_line spelled (List.mem_of_getLast? line) _
      | cons c after => exact Lexeme.read_of_head read spelled.kind_ne_eof rfl
    refine .inl ⟨_, after, _, spelled.kind_ne_eof, ?_, ?_, ?_, ?_, gives,
      nextToken_of_read (by simp) (by simpa using skips') read' rfl⟩
    · rintro rfl
      rw [List.append_nil] at line
      by_contra other
      exact spelled.unbroken other (List.mem_of_getLast? line)
    · simp only [List.length_append]
      omega
    · intro c final
      have more : after ≠ [] := by
        rintro rfl
        simp at final
      exact Option.some.inj ((last more).symm.trans final) |>.symm
    · simp [Position.after_append]
  · have more : broken ≠ [] := by
      rintro rfl
      rw [List.append_nil] at line
      exact breaks.unbroken (List.mem_of_getLast? line)
    have same : (broken ++ ys).take 1 = broken.take 1 := by
      obtain ⟨c, broken, rfl⟩ := List.exists_cons_of_ne_nil more
      rfl
    have fails' := nextToken_of_breaks (c := ⟨gap ++ (before ++ broken) ++ ys, p, e⟩)
      (List.append_assoc ..) skips' (breaks.append line ys) (List.append_assoc ..)
    rw [same] at fails'
    exact .inr ⟨_, _, _, fails, fails'⟩

end Cursor

namespace Feed

theorem ofCursor_moved (c : Cursor) (bytes lines : Nat) :
    ofCursor (c.moved bytes lines) = (ofCursor c).moved bytes lines := by
  have call := c.nextToken_moved bytes lines
  fun_induction ofCursor c with
  | case1 c fault after h =>
      rw [h] at call
      exact ofCursor_of_fault call
  | case2 c token after h kind =>
      rw [h] at call
      exact ofCursor_of_eof call kind
  | case3 c token after h kind less rest ih =>
      rw [h] at call
      rw [ofCursor_of_call call kind, ih (after.nextToken_moved bytes lines)]
      rfl

/-- One feed after another, unless a fault bars the way. -/
def append (f g : Feed) : Feed :=
  match f.ending with
  | .eof _ => ⟨f.ahead ++ g.ahead, g.ending⟩
  | .fault _ => f

theorem append_cons (f g : Feed) (t : Token) :
    append ⟨t :: f.ahead, f.ending⟩ g = ⟨t :: (f.append g).ahead, (f.append g).ending⟩ := by
  cases ends : f.ending <;> simp [append, ends]

/-- Behind whole lines the feed is that of the text by itself. -/
theorem ofCursor_append {xs : List Char} (lines : ∀ c ∈ xs.getLast?, c = '\n') (ys : List Char)
    (p : Position) (e : Bool) :
    ofCursor ⟨xs ++ ys, p, e⟩ = (ofCursor ⟨xs, p, e⟩).append (ofCursor ⟨ys, p.after xs, e⟩) := by
  induction size : xs.length using Nat.strongRecOn generalizing xs p with
  | ind size ih =>
      cases last : xs.getLast? with
      | none =>
          obtain rfl := List.getLast?_eq_none_iff.mp last
          have none : Cursor.nextToken ⟨[], p, e⟩ = (.ok (.eof (p.span 0)), ⟨[], p, e⟩) := rfl
          rw [ofCursor_of_eof none rfl]
          rfl
      | some c =>
          obtain rfl := lines c last
          obtain ⟨t, after, q, kind, -, less, lines, place, gives, gives'⟩ |
            ⟨fault, stop, stop', fails, fails'⟩ := Cursor.nextToken_of_line last ys p e
          · rw [ofCursor_of_call gives kind, ofCursor_of_call gives' kind, append_cons, ← place]
            rw [ih after.length (size ▸ less) lines q rfl]
          · rw [ofCursor_of_fault fails, ofCursor_of_fault fails']
            rfl

/-- Whole lines have tokens. -/
theorem lines_eq_nil {xs : List Char} (lines : ∀ c ∈ xs.getLast?, c = '\n') {p : Position}
    {e : Bool} {span : Span} (none : (ofCursor ⟨xs, p, e⟩).ahead = [])
    (ends : (ofCursor ⟨xs, p, e⟩).ending = .eof span) : xs = [] := by
  cases last : xs.getLast? with
  | none => exact List.getLast?_eq_none_iff.mp last
  | some c =>
      obtain rfl := lines c last
      obtain ⟨t, after, q, kind, -, -, -, -, gives, -⟩ | ⟨_, _, _, fails, -⟩ :=
        Cursor.nextToken_of_line last [] p e
      · rw [ofCursor_of_call gives kind] at none
        contradiction
      · rw [ofCursor_of_fault fails] at ends
        contradiction

/-- The last token of whole lines is the end of a line. -/
theorem kind_getLast {xs : List Char} (lines : ∀ c ∈ xs.getLast?, c = '\n') (p : Position)
    (e : Bool) {span : Span} (ends : (ofCursor ⟨xs, p, e⟩).ending = .eof span) :
    ∀ t ∈ (ofCursor ⟨xs, p, e⟩).ahead.getLast?, t.kind = .newline := by
  induction size : xs.length using Nat.strongRecOn generalizing xs p with
  | ind size ih =>
      cases last : xs.getLast? with
      | none =>
          obtain rfl := List.getLast?_eq_none_iff.mp last
          have none : Cursor.nextToken ⟨[], p, e⟩ = (.ok (.eof (p.span 0)), ⟨[], p, e⟩) := rfl
          simp [ofCursor_of_eof none rfl]
      | some c =>
          obtain rfl := lines c last
          obtain ⟨t, after, q, kind, final, less, lines, -, gives, -⟩ | ⟨_, _, _, fails, -⟩ :=
            Cursor.nextToken_of_line last [] p e
          · rw [ofCursor_of_call gives kind] at ends ⊢
            have later := ih after.length (size ▸ less) lines q ends rfl
            cases more : (ofCursor ⟨after, q, e⟩).ahead with
            | nil => simpa using final (lines_eq_nil lines more ends)
            | cons t' ts =>
                rw [more] at later
                simpa [List.getLast?_cons_cons] using later
          · rw [ofCursor_of_fault fails] at ends
            contradiction

end Feed

/-- The tokens of a text are told line by line. -/
theorem tokenize_append_line (a b : String) :
    tokenize (a ++ "\n" ++ b) =
      match tokenize a with
      | .error fault => .error fault
      | .ok tokens =>
          match tokenize b with
          | .error fault =>
              .error (fault.moved (a.utf8ByteSize + 1) (1 + a.toList.count '\n'))
          | .ok more =>
              .ok (tokens ++
                more.map (·.moved (a.utf8ByteSize + 1) (1 + a.toList.count '\n'))) := by
  have line : (a.toList ++ ['\n']).getLast? = some '\n' := by simp
  have whole : (Cursor.ofSource (a ++ "\n" ++ b)) =
      ⟨(a.toList ++ ['\n']) ++ (b.toList ++ ['\n']), .start, false⟩ := by
    simp [Cursor.ofSource]
  have bytes : utf8Length (a.toList ++ ['\n']) = a.utf8ByteSize + 1 := by
    rw [utf8Length_append, ← utf8ByteSize_ofList, String.ofList_toList]
    rfl
  have lines : (a.toList ++ ['\n']).count '\n' = 1 + a.toList.count '\n' := by
    simp [Nat.add_comm]
  have feed : Feed.ofCursor (.ofSource (a ++ "\n" ++ b)) =
      (Feed.ofCursor (.ofSource a)).append ((Feed.ofCursor (.ofSource b)).moved
        (a.utf8ByteSize + 1) (1 + a.toList.count '\n')) := by
    rw [whole, Feed.ofCursor_append (by simp), Position.after_lines line, bytes, lines]
    exact congrArg _ (Feed.ofCursor_moved (.ofSource b) _ _)
  rw [tokenize, tokenize, tokenize, feed]
  cases ends : (Feed.ofCursor (.ofSource a)).ending with
  | fault fault => simp [Feed.append, ends]
  | eof span =>
      cases ends' : (Feed.ofCursor (.ofSource b)).ending <;>
        simp [Feed.append, Feed.moved, Ending.moved, ends, ends']

end YoloLang
