import YoloLang.Proofs.Tree

/-!
What a row of tasks stands for: the leaves that can be read while it is done, with the C text that
is written on the way. A task stands for its part of the grammar, and a row for the parts of its
tasks one after the other.
-/

namespace YoloLang

open Leaf

namespace Role

def mention : Role → Mention
  | assigned | counter | read => .target
  | stepped => .stepped
  | marked => .marked
  | sought => .sought

/-- What is written once the name is read. -/
def code (name : String) : Role → String
  | assigned | stepped => CText.assigned name
  | counter => CText.counter name
  | read => CText.scan name
  | marked => CText.marker name
  | sought => CText.jump name

end Role

def Gives : List Task → List Leaf → String → Prop
  | [], ls, x => ls = [] ∧ x = ""
  | .phrase p :: ts, ls, x =>
      ∃ (t : Tree (.phrase p)) (rest : List Leaf) (y : String),
        Gives ts rest y ∧ ls = t.leaves ++ rest ∧ x = t.code ++ y
  | .chain c :: ts, ls, x =>
      ∃ (t : Tree (.chain c)) (rest : List Leaf) (y : String),
        Gives ts rest y ∧ ls = t.leaves ++ rest ∧ x = t.code ++ y
  | .operand :: ts, ls, x =>
      ∃ (t : Tree (.phrase .primary)) (rest : List Leaf) (y : String),
        Gives ts rest y ∧ ls = t.leaves ++ rest ∧ x = t.code ++ y
  | .statements :: ts, ls, x =>
      ∃ (t : Tree .statements) (rest : List Leaf) (y : String),
        Gives ts rest y ∧ ls = t.leaves ++ rest ∧ x = t.code ++ y
  | .block stop :: ts, ls, x =>
      ∃ (t : Tree .statements) (s : Terminal (.keyword stop)) (rest : List Leaf) (y : String),
        Gives ts rest y ∧ ls = t.leaves ++ plain s :: rest ∧ x = t.code ++ y
  | .expect k :: ts, ls, x =>
      ∃ (t : Terminal k) (rest : List Leaf), Gives ts rest x ∧ ls = plain t :: rest
  | .name role :: ts, ls, x =>
      ∃ (t : Terminal .identifier) (rest : List Leaf) (y : String),
        Gives ts rest y ∧ ls = naming role.mention t :: rest ∧ x = role.code t.1.text ++ y
  | .lineEnd :: ts, ls, x =>
      ∃ (t : Terminal .newline) (rest : List Leaf), Gives ts rest x ∧ ls = plain t :: rest
  | .newlines :: ts, ls, x =>
      ∃ (lines : List (Terminal .newline)) (rest : List Leaf),
        Gives ts rest x ∧ ls = lines.map (plain ·.1) ++ rest
  | .printed :: ts, ls, x =>
      ∃ (rest : List Leaf) (y : String), Gives ts rest y ∧
        ((∃ t : Terminal .string, ls = plain t :: rest ∧ x = CText.printText t.1.text ++ y) ∨
          ∃ t : Tree (.phrase .expression),
            ls = t.leaves ++ rest ∧ x = CText.printNumber (spelling t.leaves) ++ y)
  | .compared :: ts, ls, x =>
      ∃ (s : Sign Kind.isComparison) (t : Tree (.phrase .expression)) (rest : List Leaf)
        (y : String),
        Gives ts rest y ∧ ls = plain s :: (t.leaves ++ rest) ∧ x = s.1.text ++ t.code ++ y
  | .sign :: ts, ls, x =>
      Gives ts ls x ∨ ∃ (s : Sign Kind.isSign) (rest : List Leaf) (y : String),
        Gives ts rest y ∧ ls = plain s :: rest ∧ x = s.1.text ++ y
  | .write s :: ts, ls, x => ∃ y, Gives ts ls y ∧ x = s ++ y
  | .writeLine s :: ts, ls, x => ∃ y, Gives ts ls y ∧ x = s ++ "\n" ++ y
  | .close :: ts, ls, x | .writeHeader _ :: ts, ls, x | .labels :: ts, ls, x => Gives ts ls x

namespace Gives

variable {ts : List Task} {ls : List Leaf} {x : String}

theorem nil : Gives [] [] "" := ⟨rfl, rfl⟩

theorem phrase {p : Phrase} (t : Tree (.phrase p)) (h : Gives ts ls x) :
    Gives (.phrase p :: ts) (t.leaves ++ ls) (t.code ++ x) :=
  ⟨t, ls, x, h, rfl, rfl⟩

theorem chain {c : Chain} (t : Tree (.chain c)) (h : Gives ts ls x) :
    Gives (.chain c :: ts) (t.leaves ++ ls) (t.code ++ x) :=
  ⟨t, ls, x, h, rfl, rfl⟩

theorem operand (t : Tree (.phrase .primary)) (h : Gives ts ls x) :
    Gives (.operand :: ts) (t.leaves ++ ls) (t.code ++ x) :=
  ⟨t, ls, x, h, rfl, rfl⟩

theorem statements (t : Tree .statements) (h : Gives ts ls x) :
    Gives (.statements :: ts) (t.leaves ++ ls) (t.code ++ x) :=
  ⟨t, ls, x, h, rfl, rfl⟩

theorem block {stop : Keyword} (t : Tree .statements) (s : Terminal (.keyword stop))
    (h : Gives ts ls x) :
    Gives (.block stop :: ts) (t.leaves ++ plain s :: ls) (t.code ++ x) :=
  ⟨t, s, ls, x, h, rfl, rfl⟩

theorem expect {k : Kind} (t : Terminal k) (h : Gives ts ls x) :
    Gives (.expect k :: ts) (plain t :: ls) x :=
  ⟨t, ls, h, rfl⟩

theorem name (role : Role) (t : Terminal .identifier) (h : Gives ts ls x) :
    Gives (.name role :: ts) (naming role.mention t :: ls) (role.code t.1.text ++ x) :=
  ⟨t, ls, x, h, rfl, rfl⟩

theorem lineEnd (t : Terminal .newline) (h : Gives ts ls x) :
    Gives (.lineEnd :: ts) (plain t :: ls) x :=
  ⟨t, ls, h, rfl⟩

theorem newlines (lines : List (Terminal .newline)) (h : Gives ts ls x) :
    Gives (.newlines :: ts) (lines.map (plain ·.1) ++ ls) x :=
  ⟨lines, ls, h, rfl⟩

theorem printedText (t : Terminal .string) (h : Gives ts ls x) :
    Gives (.printed :: ts) (plain t :: ls) (CText.printText t.1.text ++ x) :=
  ⟨ls, x, h, .inl ⟨t, rfl, rfl⟩⟩

theorem printed (t : Tree (.phrase .expression)) (h : Gives ts ls x) :
    Gives (.printed :: ts) (t.leaves ++ ls) (CText.printNumber (spelling t.leaves) ++ x) :=
  ⟨ls, x, h, .inr ⟨t, rfl, rfl⟩⟩

theorem compared (s : Sign Kind.isComparison) (t : Tree (.phrase .expression))
    (h : Gives ts ls x) :
    Gives (.compared :: ts) (plain s :: (t.leaves ++ ls)) (s.1.text ++ t.code ++ x) :=
  ⟨s, t, ls, x, h, rfl, rfl⟩

theorem unsigned (h : Gives ts ls x) : Gives (.sign :: ts) ls x := .inl h

theorem signed (s : Sign Kind.isSign) (h : Gives ts ls x) :
    Gives (.sign :: ts) (plain s :: ls) (s.1.text ++ x) :=
  .inr ⟨s, ls, x, h, rfl, rfl⟩

theorem write (s : String) (h : Gives ts ls x) : Gives (.write s :: ts) ls (s ++ x) :=
  ⟨x, h, rfl⟩

theorem writeLine (s : String) (h : Gives ts ls x) :
    Gives (.writeLine s :: ts) ls (s ++ "\n" ++ x) :=
  ⟨x, h, rfl⟩

theorem close (h : Gives ts ls x) : Gives (.close :: ts) ls x := h

theorem of_close (h : Gives (.close :: ts) ls x) : Gives ts ls x := h

end Gives

/-! From trees to the rows of tasks of their rules, and back. -/

/-- A tree is spelled by the row of tasks of its rule. -/
theorem gives_body {p : Phrase} (t : Tree (.phrase p)) {ts : List Task} {ls : List Leaf}
    {x : String} (h : Gives ts ls x) :
    Gives (p.body ++ .close :: ts) (t.leaves ++ ls) (t.code ++ x) := by
  cases t with
  | number t => exact h.close.operand (.number t)
  | identifier t => exact h.close.operand (.identifier t)
  | group opening inner closing => exact h.close.operand (.group opening inner closing)
  | unsigned operand =>
      simpa [Phrase.body, Tree.leaves] using (h.close.phrase operand).unsigned
  | signed sign operand =>
      simpa [Phrase.body, Tree.leaves, spelling, plain, String.append_assoc]
        using (h.close.phrase operand).signed sign
  | term first more | expression first more =>
      simpa [Phrase.body, Tree.leaves, spelling_append, String.append_assoc]
        using (h.close.chain more).phrase first
  | comparison first sign second more =>
      simpa [Phrase.body, Tree.leaves, spelling, plain, spelling_append, String.append_assoc]
        using ((h.close.chain more).compared sign second).phrase first
  | newline first more =>
      simpa [Phrase.body, Tree.leaves, Tree.code] using (h.close.newlines more).lineEnd first
  | forInit word name eq value =>
      simpa [Phrase.body, Tree.leaves, Tree.code, Role.code, Role.mention, String.append_assoc]
        using (((h.close.phrase value).expect eq).name .counter name).expect word
  | forStep name eq value =>
      simpa [Phrase.body, Tree.leaves, Tree.code, Role.code, Role.mention, String.append_assoc]
        using ((h.close.phrase value).expect eq).name .stepped name

/-- The row of tasks of a rule gives only what has a tree by that rule. -/
theorem gives_phrase_of_body {p : Phrase} (inner : p ≠ .program) {ts : List Task}
    {ls : List Leaf} {x : String} (h : Gives (p.body ++ .close :: ts) ls x) :
    Gives (.phrase p :: ts) ls x := by
  cases p with
  | program => contradiction
  | newline =>
      obtain ⟨first, _, ⟨more, ls, h, rfl⟩, rfl⟩ := h
      simpa [Tree.leaves, Tree.code] using h.of_close.phrase (.newline first more)
  | forInit =>
      obtain ⟨word, _, ⟨name, _, _, ⟨eq, _, ⟨value, ls, x, h, rfl, rfl⟩, rfl⟩, rfl, rfl⟩, rfl⟩ := h
      simpa [Tree.leaves, Tree.code, Role.code, Role.mention, String.append_assoc]
        using h.of_close.phrase (.forInit word name eq value)
  | forStep =>
      obtain ⟨name, _, _, ⟨eq, _, ⟨value, ls, x, h, rfl, rfl⟩, rfl⟩, rfl, rfl⟩ := h
      simpa [Tree.leaves, Tree.code, Role.code, Role.mention, String.append_assoc]
        using h.of_close.phrase (.forStep name eq value)
  | comparison =>
      obtain ⟨first, _, _, ⟨sign, second, _, _, h, rfl, rfl⟩, rfl, rfl⟩ := h
      obtain ⟨more, ls, x, h, rfl, rfl⟩ := h
      simpa [Tree.leaves, spelling, plain, spelling_append, String.append_assoc]
        using h.of_close.phrase (.comparison first sign second more)
  | expression =>
      obtain ⟨first, _, _, ⟨more, ls, x, h, rfl, rfl⟩, rfl, rfl⟩ := h
      simpa [Tree.leaves, spelling_append, String.append_assoc]
        using h.of_close.phrase (.expression first more)
  | term =>
      obtain ⟨first, _, _, ⟨more, ls, x, h, rfl, rfl⟩, rfl, rfl⟩ := h
      simpa [Tree.leaves, spelling_append, String.append_assoc]
        using h.of_close.phrase (.term first more)
  | unary =>
      obtain ⟨operand, ls, x, h, rfl, rfl⟩ | ⟨sign, _, _, h, rfl, rfl⟩ := h
      · simpa [Tree.leaves] using h.of_close.phrase (.unsigned operand)
      · obtain ⟨operand, ls, x, h, rfl, rfl⟩ := h
        simpa [Tree.leaves, spelling, plain, String.append_assoc]
          using h.of_close.phrase (.signed sign operand)
  | primary => exact h

/-- The condition of a block, its body and its end. -/
theorem gives_block {before stop : Keyword} (condition : Tree (.phrase .comparison))
    (closing : Terminal .closeParen) (word : Terminal (.keyword before))
    (line : Tree (.phrase .newline)) (body : Tree .statements) (last : Terminal (.keyword stop))
    {ts : List Task} {ls : List Leaf} {x : String} (h : Gives ts ls x) :
    Gives (Form.condition before ++ Form.blockBody stop ++ ts)
      (condition.leaves ++ plain closing :: plain word :: (line.leaves ++
        (body.leaves ++ plain last :: ls)))
      (spelling condition.leaves ++ ")\x7b\n" ++ body.code ++ "\x7d\n" ++ x) := by
  have block := (((h.writeLine "\x7d").block body last).writeLine ")\x7b").phrase line
  simpa [Form.condition, Form.blockBody, String.append_assoc]
    using ((block.expect word).expect closing).phrase condition

/-- The tasks after the first token of a statement read the rest of the statement. -/
theorem body_of_statement (s : Tree .statement) {ts : List Task} {ls : List Leaf} {x : String}
    (h : Gives ts ls x) :
    ∃ (form : Form) (word : Terminal (.keyword form.keyword)) (rest : List Leaf),
      s.leaves = plain word :: rest ∧
        Gives (form.body ++ .phrase .newline :: .close :: ts) (rest ++ ls) (s.code ++ x) := by
  cases s with
  | printText word text ends =>
      refine ⟨.print, word, _, rfl, ?_⟩
      simpa [Form.body, Tree.code] using (h.close.phrase ends).printedText text
  | print word value ends =>
      refine ⟨.print, word, _, rfl, ?_⟩
      simpa [Form.body, Tree.code] using (h.close.phrase ends).printed value
  | branch word opening condition closing before line body stop ends =>
      refine ⟨.branch, word, _, rfl, ?_⟩
      have block := gives_block condition closing before line body stop (h.close.phrase ends)
      simpa [Form.body, Tree.code, CText.block, String.append_assoc]
        using (block.write "if(").expect opening
  | loop word opening condition closing before line body stop ends =>
      refine ⟨.loop, word, _, rfl, ?_⟩
      have block := gives_block condition closing before line body stop (h.close.phrase ends)
      simpa [Form.body, Tree.code, CText.block, String.append_assoc]
        using (block.write "while(").expect opening
  | count word opening init semicolon condition semicolon' step closing before line body stop
      ends =>
      refine ⟨.count, word, _, rfl, ?_⟩
      have block := (((h.close.phrase ends).writeLine "\x7d").block body stop).writeLine ")\x7b"
      have last := (((block.phrase line).expect before).expect closing).phrase step
      have middle := ((last.write ";").expect semicolon').phrase condition
      have first := ((middle.write ";").expect semicolon).phrase init
      simpa [Form.body, Form.blockBody, Tree.code, CText.block, String.append_assoc]
        using (first.write "for(").expect opening
  | label word name ends =>
      refine ⟨.label, word, _, rfl, ?_⟩
      simpa [Form.body, Tree.code, Role.code, Role.mention]
        using (h.close.phrase ends).name .marked name
  | goto word name ends =>
      refine ⟨.goto, word, _, rfl, ?_⟩
      simpa [Form.body, Tree.code, Role.code, Role.mention]
        using (h.close.phrase ends).name .sought name
  | assign word name eq value ends =>
      refine ⟨.assign, word, _, rfl, ?_⟩
      have rest := (((h.close.phrase ends).writeLine ";").phrase value).expect eq
      simpa [Form.body, Tree.code, Role.code, Role.mention, String.append_assoc]
        using rest.name .assigned name
  | input word name ends =>
      refine ⟨.input, word, _, rfl, ?_⟩
      simpa [Form.body, Tree.code, Role.code, Role.mention]
        using (h.close.phrase ends).name .read name

theorem block_of_gives {before stop : Keyword} {ts : List Task} {ls : List Leaf} {x : String}
    (h : Gives (Form.condition before ++ Form.blockBody stop ++ ts) ls x) :
    ∃ (condition : Tree (.phrase .comparison)) (closing : Terminal .closeParen)
      (word : Terminal (.keyword before)) (line : Tree (.phrase .newline))
      (body : Tree .statements) (last : Terminal (.keyword stop)) (rest : List Leaf) (y : String),
      Gives ts rest y ∧
        ls = condition.leaves ++ plain closing :: plain word :: (line.leaves ++
          (body.leaves ++ plain last :: rest)) ∧
        x = spelling condition.leaves ++ ")\x7b\n" ++ body.code ++ "\x7d\n" ++ y := by
  obtain ⟨condition, _, _, ⟨closing, _, ⟨word, _, block, rfl⟩, rfl⟩, rfl, rfl⟩ := h
  obtain ⟨line, _, _, ⟨_, ⟨body, last, rest, _, ⟨y, h, rfl⟩, rfl, rfl⟩, rfl⟩, rfl, rfl⟩ := block
  exact ⟨condition, closing, word, line, body, last, rest, y, h, rfl, by
    simp [String.append_assoc]⟩

/-- What those tasks read is the rest of a statement. -/
theorem statement_of_body {form : Form} (word : Terminal (.keyword form.keyword))
    {ts : List Task} {ls : List Leaf} {x : String}
    (h : Gives (form.body ++ .phrase .newline :: .close :: ts) ls x) :
    ∃ (s : Tree .statement) (rest : List Leaf) (y : String),
      Gives ts rest y ∧ plain word :: ls = s.leaves ++ rest ∧ x = s.code ++ y := by
  cases form with
  | print =>
      obtain ⟨_, _, ⟨ends, rest, y, h, rfl, rfl⟩, ⟨text, rfl, rfl⟩ | ⟨value, rfl, rfl⟩⟩ := h
      · exact ⟨.printText word text ends, rest, y, h.of_close, by simp [Tree.leaves], by
          simp [Tree.code]⟩
      · exact ⟨.print word value ends, rest, y, h.of_close, by simp [Tree.leaves], by
          simp [Tree.code]⟩
  | branch =>
      obtain ⟨opening, _, ⟨_, block, rfl⟩, rfl⟩ := h
      obtain ⟨condition, closing, before, line, body, last, _, _, ⟨ends, rest, y, h, rfl, rfl⟩,
        rfl, rfl⟩ := block_of_gives block
      exact ⟨.branch word opening condition closing before line body last ends, rest, y,
        h.of_close, by simp [Tree.leaves], by simp [Tree.code, CText.block, String.append_assoc]⟩
  | loop =>
      obtain ⟨opening, _, ⟨_, block, rfl⟩, rfl⟩ := h
      obtain ⟨condition, closing, before, line, body, last, _, _, ⟨ends, rest, y, h, rfl, rfl⟩,
        rfl, rfl⟩ := block_of_gives block
      exact ⟨.loop word opening condition closing before line body last ends, rest, y,
        h.of_close, by simp [Tree.leaves], by simp [Tree.code, CText.block, String.append_assoc]⟩
  | count =>
      obtain ⟨opening, _, ⟨_, first, rfl⟩, rfl⟩ := h
      obtain ⟨init, _, _, ⟨semicolon, _, ⟨_, middle, rfl⟩, rfl⟩, rfl, rfl⟩ := first
      obtain ⟨condition, _, _, ⟨semicolon', _, ⟨_, last, rfl⟩, rfl⟩, rfl, rfl⟩ := middle
      obtain ⟨step, _, _, ⟨closing, _, ⟨before, _, block, rfl⟩, rfl⟩, rfl, rfl⟩ := last
      obtain ⟨line, _, _, ⟨_, ⟨body, stop, _, _, ⟨_, h, rfl⟩, rfl, rfl⟩, rfl⟩, rfl, rfl⟩ := block
      obtain ⟨ends, rest, y, h, rfl, rfl⟩ := h
      exact ⟨.count word opening init semicolon condition semicolon' step closing before line body
        stop ends, rest, y, h.of_close, by simp [Tree.leaves], by
          simp [Tree.code, CText.block, String.append_assoc]⟩
  | label =>
      obtain ⟨name, _, _, ⟨ends, rest, y, h, rfl, rfl⟩, rfl, rfl⟩ := h
      exact ⟨.label word name ends, rest, y, h.of_close, by simp [Tree.leaves, Role.mention], by
        simp [Tree.code, Role.code]⟩
  | goto =>
      obtain ⟨name, _, _, ⟨ends, rest, y, h, rfl, rfl⟩, rfl, rfl⟩ := h
      exact ⟨.goto word name ends, rest, y, h.of_close, by simp [Tree.leaves, Role.mention], by
        simp [Tree.code, Role.code]⟩
  | assign =>
      obtain ⟨name, _, _, ⟨eq, _, ⟨value, _, _, ⟨_, h, rfl⟩, rfl, rfl⟩, rfl⟩, rfl, rfl⟩ := h
      obtain ⟨ends, rest, y, h, rfl, rfl⟩ := h
      exact ⟨.assign word name eq value ends, rest, y, h.of_close, by
        simp [Tree.leaves, Role.mention], by simp [Tree.code, Role.code, String.append_assoc]⟩
  | input =>
      obtain ⟨name, _, _, ⟨ends, rest, y, h, rfl, rfl⟩, rfl, rfl⟩ := h
      exact ⟨.input word name ends, rest, y, h.of_close, by simp [Tree.leaves, Role.mention], by
        simp [Tree.code, Role.code]⟩

end YoloLang
