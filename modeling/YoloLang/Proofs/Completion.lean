import YoloLang.Proofs.Turn

/-!
A row of tasks that is guarded stays so at every turn, and can always be brought to its end. Main
statement: there are tokens that a guarded row of tasks would read.
-/

namespace YoloLang

open Leaf

/-! Guards are kept. -/

section Guards

variable {t t' : Task} {rest : List Task} {a : Token}

/-- In front of a guarded row only what comes next has to be looked at, and what comes after it if
that can be skipped. -/
theorem Guarded.cons (guard : Guarded (t' :: rest)) (inner : t.isInner = true)
    (own : ∀ k ∈ t'.firsts, k ∉ t.avoids)
    (behind : t'.skips = true → ∀ k ∈ firsts rest, k ∉ t.avoids) :
    Guarded (t :: t' :: rest) := by
  refine ⟨inner, ?_, guard⟩
  intro k mem
  obtain first | later := List.mem_append.mp mem
  · exact own k first
  · cases skips : t'.skips with
    | false => simp [skips] at later
    | true => exact behind skips k (by simpa [skips] using later)

theorem Guarded.free (guard : Guarded rest) (inner : t.isInner = true) (none : t.avoids = []) :
    Guarded (t :: rest) :=
  ⟨inner, by simp [none], guard⟩

theorem Guarded.tail (guard : Guarded (t :: rest)) : Guarded rest := guard.2.2

/-- The operand in front of a chain. -/
theorem guarded_operand {c : Chain} (guard : Guarded (.chain c :: rest)) :
    Guarded (.phrase c.operand :: .chain c :: rest) := by
  have behind := guard.2.1
  cases c with
  | comparison =>
      refine guard.cons rfl (by decide) ?_
      intro _ k mem avoided
      exact behind k mem (List.mem_append_right _ avoided)
  | sum =>
      refine guard.cons rfl (by decide) ?_
      intro _ k mem avoided
      exact behind k mem (List.mem_append_right _ avoided)
  | product => exact guard.cons rfl (by decide) (by simp [Chain.operand, Task.avoids])

theorem guarded_body {p : Phrase} (guard : Guarded (.phrase p :: rest)) :
    Guarded (p.body ++ .close :: rest) := by
  obtain ⟨inner, behind, guard⟩ := guard
  have closed : Guarded (.close :: rest) := guard.free rfl rfl
  have before (t : Task) (inner : t.isInner = true) (same : t.avoids = (Task.phrase p).avoids) :
      Guarded (t :: .close :: rest) := by
    refine closed.cons inner (by simp [Task.firsts]) ?_
    intro _
    rw [same]
    exact behind
  cases p with
  | program => contradiction
  | newline => exact (before .newlines rfl rfl).free rfl rfl
  | forInit =>
      have value : Guarded (.phrase .expression :: .close :: rest) := before _ rfl rfl
      exact ((value.free rfl rfl).free rfl rfl).free rfl rfl
  | forStep =>
      have value : Guarded (.phrase .expression :: .close :: rest) := before _ rfl rfl
      exact (value.free rfl rfl).free rfl rfl
  | comparison =>
      have more : Guarded (.chain .comparison :: .close :: rest) := before _ rfl rfl
      have second : Guarded (.compared :: .chain .comparison :: .close :: rest) :=
        ⟨rfl, (guarded_operand more).2.1, more⟩
      exact second.cons rfl (by decide) (by simp [Task.skips])
  | expression =>
      have more : Guarded (.chain .sum :: .close :: rest) := before _ rfl rfl
      exact guarded_operand more
  | term =>
      have more : Guarded (.chain .product :: .close :: rest) := before _ rfl rfl
      exact guarded_operand more
  | unary =>
      have operand : Guarded (.phrase .primary :: .close :: rest) := closed.free rfl rfl
      exact operand.cons rfl (by decide) (by simp [Task.skips])
  | primary => exact closed.free rfl rfl

/-- The line end of a statement, before whatever does not begin with another one. -/
theorem guarded_lineEnd (guard : Guarded rest) (none : Kind.newline ∉ firsts rest) :
    Guarded (.phrase .newline :: .close :: rest) := by
  have closed : Guarded (.close :: rest) := guard.free rfl rfl
  refine closed.cons rfl (by simp [Task.firsts]) ?_
  intro _ k mem
  simp only [Task.avoids, List.mem_singleton]
  rintro rfl
  exact none mem

theorem guarded_block (stop : Keyword) (guard : Guarded rest)
    (inner : (Task.block stop).isInner = true) :
    Guarded (.phrase .newline :: Form.blockBody stop ++ rest) := by
  have block : Guarded (.block stop :: .writeLine "\x7d" :: rest) :=
    (guard.free rfl rfl).free inner rfl
  have opened : Guarded (.writeLine ")\x7b" :: .block stop :: .writeLine "\x7d" :: rest) :=
    block.free rfl rfl
  refine opened.cons rfl (by simp [Task.firsts]) ?_
  intro _
  have other : ∀ k ∈ (Task.block stop).firsts, k ∉ (Task.phrase .newline).avoids := by
    simp [Task.firsts, Task.avoids, Form.firsts, Form.all]
  simpa [firsts, Task.skips] using other

theorem guarded_condition (before stop : Keyword) (guard : Guarded rest)
    (inner : (Task.block stop).isInner = true) :
    Guarded (Form.condition before ++ Form.blockBody stop ++ rest) := by
  have block := guarded_block stop guard inner
  have closing : Guarded (.expect .closeParen :: .expect (.keyword before) ::
      (.phrase .newline :: Form.blockBody stop ++ rest)) := (block.free rfl rfl).free rfl rfl
  exact closing.cons rfl (by decide) (by simp [Task.skips])

/-- The tasks of a statement, before the end of its line. -/
theorem guarded_form (form : Form) {rest : List Task} (guard : Guarded (.phrase .newline :: rest)) :
    Guarded (form.body ++ .phrase .newline :: rest) := by
  have value {t : Task} (inner : t.isInner = true)
      (own : Kind.newline ∉ t.avoids) : Guarded (t :: .phrase .newline :: rest) := by
    refine guard.cons inner ?_ (by simp [Task.skips])
    simpa [Task.firsts, Phrase.firsts] using own
  cases form with
  | print => exact value rfl (by decide)
  | label | goto | input => exact guard.free rfl rfl
  | assign =>
      have written : Guarded (.writeLine ";" :: .phrase .newline :: rest) := guard.free rfl rfl
      have valued : Guarded (.phrase .expression :: .writeLine ";" :: .phrase .newline :: rest) :=
        written.cons rfl (by decide) (by simp [firsts, Task.firsts, Task.skips, Phrase.firsts,
          Task.avoids, Chain.signs])
      exact (valued.free rfl rfl).free rfl rfl
  | branch =>
      have condition := guarded_condition .THEN .ENDIF guard (by decide)
      exact (condition.free rfl rfl).free rfl rfl
  | loop =>
      have condition := guarded_condition .REPEAT .ENDWHILE guard (by decide)
      exact (condition.free rfl rfl).free rfl rfl
  | count =>
      have block := guarded_block .ENDFOR guard (by decide)
      have closing := (block.free (t := .expect (.keyword .REPEAT)) rfl rfl).free
        (t := .expect .closeParen) rfl rfl
      have step : Guarded (.phrase .forStep :: _) :=
        closing.cons rfl (by decide) (by simp [Task.skips])
      have semicolon := (step.free (t := .write ";") rfl rfl).free (t := .expect .semicolon) rfl rfl
      have condition : Guarded (.phrase .comparison :: _) :=
        semicolon.cons rfl (by decide) (by simp [Task.skips])
      have semicolon' := (condition.free (t := .write ";") rfl rfl).free
        (t := .expect .semicolon) rfl rfl
      have init : Guarded (.phrase .forInit :: _) :=
        semicolon'.cons rfl (by decide) (by simp [Task.skips])
      exact (init.free rfl rfl).free rfl rfl

theorem guarded_of_form (form : Form) {again : Task} (guard : Guarded (again :: rest))
    (other : Kind.newline ∉ firsts (again :: rest)) :
    Guarded (form.body ++ [.phrase .newline, .close, again] ++ rest) := by
  simpa using guarded_form form (guarded_lineEnd guard other)

/-- A turn keeps the guards. -/
theorem guarded_of_turn {r : Turn} (guard : Guarded (t :: rest)) (h : t.turn a = .ok r) :
    Guarded (r.next ++ rest) := by
  have tail := guard.tail
  cases turns_of_turn guard.1 h with
  | phrase p => simpa using guarded_body guard
  | close | write | writeLine | expect | name | lineEnd | noNewline | noStatement | stop | text
  | noLink | signed | unsigned | number | identifier => exact tail
  | newline => exact guard
  | statement form =>
      have none : Kind.newline ∉ firsts rest := fun mem => guard.2.1 _ mem (Kind.mem_all _)
      refine guarded_of_form form guard ?_
      simp [firsts, Task.firsts, Task.skips, Form.firsts, Form.all, none]
  | inBlock form =>
      refine guarded_of_form form guard ?_
      simp [firsts, Task.firsts, Task.skips, Form.firsts, Form.all]
  | value =>
      have written : Guarded (.writeLine "));" :: rest) := tail.free rfl rfl
      have value : Guarded (.phrase .expression :: .writeLine "));" :: rest) :=
        written.cons rfl (by simp [Task.firsts]) fun _ => guard.2.1
      exact value.free rfl rfl
  | compared => exact ⟨rfl, guard.2.1, tail⟩
  | link => exact guarded_operand guard
  | group =>
      have closing : Guarded (.expect .closeParen :: .write ")" :: rest) :=
        (tail.free rfl rfl).free rfl rfl
      exact closing.cons rfl (by decide) (by simp [Task.skips])

end Guards

/-! Completions. -/

/-- A text that is one lexeme of this kind. -/
def Kind.sample : Kind → List Char
  | eof => []
  | newline => ['\n']
  | number => ['0']
  | identifier => ['a']
  | string => ['"', '"']
  | boolean => ['t', 'r', 'u', 'e']
  | keyword word => word.text.toList
  | eq => ['=']
  | plus => ['+']
  | minus => ['-']
  | asterisk => ['*']
  | slash => ['/']
  | eqEq => ['=', '=']
  | notEq => ['!', '=']
  | lt => ['<']
  | ltEq => ['<', '=']
  | gt => ['>']
  | gtEq => ['>', '=']
  | openParen => ['(']
  | closeParen => [')']
  | semicolon => [';']

theorem read_sample (k : Kind) : Lexeme.read k.sample = .ok ⟨k, k.sample⟩ := by
  cases k with
  | keyword word => cases word <;> rfl
  | _ => rfl

theorem nonempty_terminal (k : Kind) : Nonempty (Terminal k) :=
  ⟨⟨Lexeme.text ⟨k, k.sample⟩, k, .start⟩, rfl, _, _, read_sample k, rfl, rfl⟩

namespace Tree

theorem nonempty_primary : Nonempty (Tree (.phrase .primary)) := by
  obtain ⟨number⟩ := nonempty_terminal .number
  exact ⟨.number number⟩

theorem nonempty_term : Nonempty (Tree (.phrase .term)) := by
  obtain ⟨operand⟩ := nonempty_primary
  exact ⟨.term (.unsigned operand) (.done _)⟩

theorem nonempty_expression : Nonempty (Tree (.phrase .expression)) := by
  obtain ⟨first⟩ := nonempty_term
  exact ⟨.expression first (.done _)⟩

theorem nonempty_phrase {p : Phrase} (inner : p ≠ .program) : Nonempty (Tree (.phrase p)) := by
  obtain ⟨value⟩ := nonempty_expression
  obtain ⟨name⟩ := nonempty_terminal .identifier
  obtain ⟨eq⟩ := nonempty_terminal .eq
  cases p with
  | program => contradiction
  | newline =>
      obtain ⟨line⟩ := nonempty_terminal .newline
      exact ⟨.newline line []⟩
  | forInit =>
      obtain ⟨word⟩ := nonempty_terminal (.keyword .LET)
      exact ⟨.forInit word name eq value⟩
  | forStep => exact ⟨.forStep name eq value⟩
  | comparison =>
      obtain ⟨sign, kind, lexed⟩ := nonempty_terminal .eqEq
      exact ⟨.comparison value ⟨sign, by rw [kind]; rfl, lexed⟩ value (.done _)⟩
  | expression => exact ⟨value⟩
  | term => exact nonempty_term
  | unary =>
      obtain ⟨operand⟩ := nonempty_primary
      exact ⟨.unsigned operand⟩
  | primary => exact nonempty_primary

end Tree

/-- There are tokens that a guarded row of tasks would read. -/
theorem exists_gives {ts : List Task} (guard : Guarded ts) : ∃ ls x, Gives ts ls x := by
  induction ts with
  | nil => exact ⟨_, _, .nil⟩
  | cons t ts ih =>
      obtain ⟨ls, x, h⟩ := ih guard.tail
      cases t with
      | phrase p =>
          have notProgram : p ≠ .program := by
            rintro rfl
            have inner := guard.1
            contradiction
          obtain ⟨t⟩ := Tree.nonempty_phrase notProgram
          exact ⟨_, _, h.phrase t⟩
      | close => exact ⟨_, _, h.close⟩
      | expect k =>
          obtain ⟨t⟩ := nonempty_terminal k
          exact ⟨_, _, h.expect t⟩
      | name role =>
          obtain ⟨t⟩ := nonempty_terminal .identifier
          exact ⟨_, _, h.name role t⟩
      | write s => exact ⟨_, _, h.write s⟩
      | writeLine s => exact ⟨_, _, h.writeLine s⟩
      | writeHeader | labels => exact ⟨_, _, h⟩
      | lineEnd =>
          obtain ⟨t⟩ := nonempty_terminal .newline
          exact ⟨_, _, h.lineEnd t⟩
      | newlines => exact ⟨_, _, h.newlines []⟩
      | statements => exact ⟨_, _, h.statements .empty⟩
      | block stop =>
          obtain ⟨t⟩ := nonempty_terminal (.keyword stop)
          exact ⟨_, _, h.block .empty t⟩
      | printed =>
          obtain ⟨t⟩ := nonempty_terminal .string
          exact ⟨_, _, h.printedText t⟩
      | compared =>
          obtain ⟨sign, kind, lexed⟩ := nonempty_terminal .eqEq
          obtain ⟨second⟩ := Tree.nonempty_expression
          exact ⟨_, _, h.compared ⟨sign, by rw [kind]; rfl, lexed⟩ second⟩
      | chain c => exact ⟨_, _, h.chain (.done c)⟩
      | sign => exact ⟨_, _, h.unsigned⟩
      | operand =>
          obtain ⟨operand⟩ := Tree.nonempty_primary
          exact ⟨_, _, h.operand operand⟩

end YoloLang
