import YoloLang.Proofs.Shape
import YoloLang.Proofs.Turn

/-!
Turns and what rows of tasks stand for. Main statements: a task that stands for what comes next
turns to tasks that stand for the rest of it, and a turn leaves nothing to be read that the task
does not stand for.
-/

namespace YoloLang

open Leaf

theorem closing_text (t : Terminal .closeParen) : t.1.text = ")" := by
  obtain ⟨t, kind, cs, l, h, same, text⟩ := t
  have mem : ([')'], l.kind) ∈ Lexeme.fixed := by
    rw [← same, kind]
    decide
  exact text.trans ((Lexeme.shape_read h).text_of_fixed mem)

section Turns

variable {a : Token} {t : Task} {rest : List Task} {ls : List Leaf} {x : String}

theorem turn_of_form {form : Form} (kind : a.kind = .keyword form.keyword) (again : Task) :
    Form.turn a again =
      .ok ⟨some (plain a), "", form.body ++ [.phrase .newline, .close, again]⟩ := by
  rw [Form.turn, Form.ofKind?_eq_some_iff.mpr kind]

/-- The first token of a statement says which tasks read the rest of it. -/
theorem turn_of_statement {again : Task} (s : Tree .statement) (h : Gives (again :: rest) ls x)
    (shown : Shows a (s.leaves ++ ls)) :
    a.kind ∈ Form.firsts ∧ ∃ r ls' y, Form.turn a again = .ok r ∧
      Gives (r.next ++ rest) ls' y ∧ s.leaves ++ ls = r.taken.toList ++ ls' ∧
      s.code ++ x = r.text ++ y := by
  obtain ⟨form, word, more, whole, gives⟩ := body_of_statement s h
  have same : word.1 = a := by
    rw [whole] at shown
    exact shown
  have kind : a.kind = .keyword form.keyword := same ▸ word.2.1
  refine ⟨kind ▸ form.keyword_mem_firsts, _, more ++ ls, _, turn_of_form kind again, ?_, ?_,
    String.empty_append.symm⟩
  · simpa using gives
  · rw [whole, same]
    rfl

/-- A task that stands for what comes next turns to tasks that stand for it. -/
theorem turn_of_gives (guard : Guarded (t :: rest)) (shown : Shows a ls)
    (h : Gives (t :: rest) ls x) :
    ∃ r ls' y, t.turn a = .ok r ∧ Gives (r.next ++ rest) ls' y ∧
      ls = r.taken.toList ++ ls' ∧ x = r.text ++ y := by
  cases t with
  | phrase p =>
      obtain ⟨t, ls, x, h, rfl, rfl⟩ := h
      refine ⟨_, _, _, rfl, ?_, rfl, String.empty_append.symm⟩
      simpa using gives_body t h
  | close | writeHeader | labels => exact ⟨_, ls, x, rfl, h, rfl, String.empty_append.symm⟩
  | write | writeLine =>
      obtain ⟨y, h, rfl⟩ := h
      exact ⟨_, ls, y, rfl, h, rfl, rfl⟩
  | expect | lineEnd =>
      obtain ⟨t, ls, h, rfl⟩ := h
      have same : t.1 = a := shown
      exact ⟨_, ls, x, if_pos (same ▸ t.2.1), h, by rw [same]; rfl, String.empty_append.symm⟩
  | name role =>
      obtain ⟨t, ls, y, h, rfl, rfl⟩ := h
      have same : t.1 = a := shown
      exact ⟨_, ls, y, if_pos (same ▸ t.2.1), h, by rw [same]; rfl, by rw [same]⟩
  | newlines =>
      obtain ⟨lines, ls, h, rfl⟩ := h
      cases lines with
      | nil =>
          have other : a.kind ≠ .newline := by
            obtain eof | avoided := not_mem_avoids_of_guarded guard h shown
            · simp [eof]
            · simpa [Task.avoids] using avoided
          exact ⟨_, ls, x, if_neg other, h, rfl, String.empty_append.symm⟩
      | cons t lines =>
          have same : t.1 = a := shown
          refine ⟨_, _, x, if_pos (same ▸ t.2.1), h.newlines lines, ?_, String.empty_append.symm⟩
          rw [List.map_cons, same]
          rfl
  | statements =>
      obtain ⟨t, ls, y, h, rfl, rfl⟩ := h
      cases t with
      | empty =>
          have eof : a.kind = .eof := by
            obtain eof | avoided := not_mem_avoids_of_guarded guard h shown
            · exact eof
            · exact absurd a.kind.mem_all avoided
          exact ⟨_, ls, y, if_pos eof, h, rfl, rfl⟩
      | cons s more =>
          simp only [Tree.leaves, Tree.code, List.append_assoc, String.append_assoc] at shown ⊢
          obtain ⟨first, r, ls', y', turn, result⟩ := turn_of_statement s (h.statements more) shown
          have notEof : a.kind ≠ .eof := fun eof => Form.eof_not_mem_firsts (eof ▸ first)
          exact ⟨r, ls', y', (if_neg notEof).trans turn, result⟩
  | block stop =>
      obtain ⟨t, last, ls, y, h, rfl, rfl⟩ := h
      have other : Kind.keyword stop ∉ Form.firsts := by simpa [Task.isInner] using guard.1
      cases t with
      | empty =>
          have same : last.1 = a := shown
          exact ⟨_, ls, y, if_pos (same ▸ last.2.1), h, by rw [same]; rfl, rfl⟩
      | cons s more =>
          simp only [Tree.leaves, Tree.code, List.append_assoc, String.append_assoc] at shown ⊢
          obtain ⟨first, r, ls', y', turn, result⟩ := turn_of_statement s (h.block more last) shown
          have notStop : a.kind ≠ .keyword stop := by
            intro stops
            exact other (stops ▸ first)
          have notEof : a.kind ≠ .eof := fun eof => Form.eof_not_mem_firsts (eof ▸ first)
          exact ⟨r, ls', y', (if_neg notStop).trans ((if_neg notEof).trans turn), result⟩
  | printed =>
      obtain ⟨ls, y, h, ⟨t, rfl, rfl⟩ | ⟨t, rfl, rfl⟩⟩ := h
      · have same : t.1 = a := shown
        exact ⟨_, ls, y, if_pos (same ▸ t.2.1), h, by rw [same]; rfl, by rw [same]⟩
      · have other : a.kind ≠ .string := by
          have begins := t.leaves_begin.resolve_left (by simp [Part.skips])
          have first := (begins.append ls).kind_mem shown
          intro string
          revert first
          simp [string, Part.firsts, Phrase.firsts]
        have turn : Task.printed.turn a = .ok ⟨none, "", _⟩ := if_neg other
        refine ⟨_, _, _, turn, ((h.writeLine "));").phrase t).write _, rfl, ?_⟩
        simp [CText.printNumber_eq, String.append_assoc]
  | compared =>
      obtain ⟨s, t, ls, y, h, rfl, rfl⟩ := h
      have same : s.1 = a := shown
      refine ⟨_, _, _, if_pos (same ▸ s.2.1), h.phrase t, by rw [same]; rfl, ?_⟩
      simp [same, String.append_assoc]
  | chain c =>
      obtain ⟨t, ls, y, h, rfl, rfl⟩ := h
      cases t with
      | done =>
          have other : ¬ c.joins a.kind = true := by
            have own : ∀ k ∈ c.signs, k ∈ (Task.chain c).avoids := by cases c <;> decide
            intro joins
            obtain eof | avoided := not_mem_avoids_of_guarded guard h shown
            · simp [eof, c.joins_eof] at joins
            · exact avoided (own _ (Chain.mem_signs_of_joins joins))
          exact ⟨_, ls, y, if_neg other, h, rfl, rfl⟩
      | link _ s operand more =>
          have same : s.1 = a := shown
          refine ⟨_, _, _, if_pos (same ▸ s.2.1), (h.chain more).phrase operand, ?_, ?_⟩
          · simp [Tree.leaves, same]
          · simp [Tree.leaves, spelling, plain, spelling_append, same, String.append_assoc]
  | sign =>
      obtain h | ⟨s, ls, y, h, rfl, rfl⟩ := h
      · have other : ¬ a.kind.isSign = true := by
          intro joins
          obtain eof | avoided := not_mem_avoids_of_guarded guard h shown
          · simp [eof, Kind.isSign] at joins
          · exact avoided (Chain.mem_signs_of_joins (c := .sum) joins)
        exact ⟨_, ls, x, if_neg other, h, rfl, String.empty_append.symm⟩
      · have same : s.1 = a := shown
        exact ⟨_, ls, y, if_pos (same ▸ s.2.1), h, by rw [same]; rfl, by rw [same]⟩
  | operand =>
      obtain ⟨t, ls, y, h, rfl, rfl⟩ := h
      cases t with
      | number t =>
          have same : t.1 = a := shown
          refine ⟨⟨some (plain a), a.text, []⟩, ls, y, ?_, h, by rw [← same]; rfl, ?_⟩
          · simp [Task.turn, ← same, t.2.1]
          · simp [Tree.leaves, spelling, plain, same]
      | identifier t =>
          have same : t.1 = a := shown
          refine ⟨⟨some (naming .operand a), a.text, []⟩, ls, y, ?_, h, by rw [← same]; rfl, ?_⟩
          · simp [Task.turn, ← same, t.2.1]
          · simp [Tree.leaves, spelling, naming, same]
      | group opening inner closing =>
          have same : opening.1 = a := shown
          have turn : Task.operand.turn a = .ok
              ⟨some (plain a), a.text, [.phrase .expression, .expect .closeParen, .write ")"]⟩ := by
            simp [Task.turn, ← same, opening.2.1]
          refine ⟨_, _, _, turn, ((h.write ")").expect closing).phrase inner, ?_, ?_⟩
          · simp [Tree.leaves, same]
          · simp [Tree.leaves, spelling, plain, spelling_append, same, closing_text,
              String.append_assoc]

/-- What a task turns to stands for nothing but what the task stands for. -/
theorem gives_of_turn {r : Turn} (inner : t.isInner = true) (lexed : a.Lexed)
    (h : t.turn a = .ok r) (gives : Gives (r.next ++ rest) ls x) :
    Gives (t :: rest) (r.taken.toList ++ ls) (r.text ++ x) := by
  cases turns_of_turn inner h with
  | phrase p =>
      have notProgram : p ≠ .program := by
        rintro rfl
        contradiction
      have body : Gives (p.body ++ .close :: rest) ls x := by simpa using gives
      simpa using gives_phrase_of_body notProgram body
  | close => simpa using gives.close
  | write s => exact gives.write s
  | writeLine s => exact gives.writeLine s
  | expect kind => simpa using gives.expect ⟨a, kind, lexed⟩
  | name role kind => exact gives.name role ⟨a, kind, lexed⟩
  | lineEnd kind => simpa using gives.lineEnd ⟨a, kind, lexed⟩
  | newline kind =>
      obtain ⟨lines, ls, gives, rfl⟩ := gives
      simpa using gives.newlines (⟨a, kind, lexed⟩ :: lines)
  | noNewline => simpa using gives.newlines []
  | noStatement => exact gives.statements .empty
  | statement form kind =>
      have body : Gives (form.body ++ .phrase .newline :: .close :: .statements :: rest) ls x := by
        simpa using gives
      obtain ⟨s, _, _, ⟨more, ls, y, given, rfl, rfl⟩, whole, rfl⟩ :=
        statement_of_body ⟨a, kind, lexed⟩ body
      rw [Option.toList_some, List.singleton_append, whole]
      simpa [Tree.leaves, Tree.code, String.append_assoc] using given.statements (.cons s more)
  | stop kind => exact gives.block .empty ⟨a, kind, lexed⟩
  | @inBlock stop form kind =>
      have body : Gives (form.body ++ .phrase .newline :: .close :: .block stop :: rest) ls x := by
        simpa using gives
      obtain ⟨s, _, _, ⟨more, last, ls, y, given, rfl, rfl⟩, whole, rfl⟩ :=
        statement_of_body ⟨a, kind, lexed⟩ body
      rw [Option.toList_some, List.singleton_append, whole]
      simpa [Tree.leaves, Tree.code, String.append_assoc] using given.block (.cons s more) last
  | text kind => exact gives.printedText ⟨a, kind, lexed⟩
  | value =>
      obtain ⟨_, ⟨value, ls, _, ⟨y, gives, rfl⟩, rfl, rfl⟩, rfl⟩ := gives
      simpa [CText.printNumber_eq, String.append_assoc] using gives.printed value
  | compared sign =>
      obtain ⟨second, ls, y, gives, rfl, rfl⟩ := gives
      simpa [String.append_assoc] using gives.compared ⟨a, sign, lexed⟩ second
  | @link c joins =>
      obtain ⟨operand, _, _, ⟨more, ls, y, gives, rfl, rfl⟩, rfl, rfl⟩ := gives
      simpa [Tree.leaves, spelling, plain, spelling_append, String.append_assoc]
        using gives.chain (.link c ⟨a, joins, lexed⟩ operand more)
  | @noLink c => simpa [Tree.leaves, spelling] using gives.chain (.done c)
  | signed sign => exact gives.signed ⟨a, sign, lexed⟩
  | unsigned => simpa using gives.unsigned
  | number kind =>
      simpa [Tree.leaves, spelling, plain] using gives.operand (.number ⟨a, kind, lexed⟩)
  | identifier kind =>
      simpa [Tree.leaves, spelling, naming] using gives.operand (.identifier ⟨a, kind, lexed⟩)
  | group kind =>
      obtain ⟨inner, _, _, ⟨closing, ls, ⟨y, gives, rfl⟩, rfl⟩, rfl, rfl⟩ := gives
      simpa [Tree.leaves, spelling, plain, spelling_append, closing_text, String.append_assoc]
        using gives.operand (.group ⟨a, kind, lexed⟩ inner closing)

end Turns

end YoloLang
