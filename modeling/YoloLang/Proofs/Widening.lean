import YoloLang.Proofs.Lines
import YoloLang.Proofs.Program

/-!
Programs with more empty lines in them. Main statements: behind a newline, and at the beginning of a
program, a further newline can be read, and the program with it has the same C text and names.
-/

namespace YoloLang

open Leaf

/-- The second row is the first one with further newlines behind its newlines. -/
inductive Widened : List Leaf → List Leaf → Prop where
  | nil : Widened [] []
  | cons (l : Leaf) (lines : List (Terminal .newline)) {ls ls' : List Leaf}
      (line : lines ≠ [] → l.token.kind = .newline) (more : Widened ls ls') :
      Widened (l :: ls) (l :: (lines.map (plain ·.1) ++ ls'))

namespace Widened

variable {xs ys zs : List Leaf}

theorem refl (xs : List Leaf) : Widened xs xs := by
  induction xs with
  | nil => exact .nil
  | cons l xs ih => exact .cons l [] (absurd rfl) ih

/-- A newline is put in behind another one. -/
theorem put (line : ∃ l ∈ xs.getLast?, l.token.kind = .newline) (t : Terminal .newline)
    (ys : List Leaf) : Widened (xs ++ ys) (xs ++ plain t.1 :: ys) := by
  obtain ⟨l, last, kind⟩ := line
  induction xs with
  | nil => contradiction
  | cons x xs ih =>
      cases xs with
      | nil =>
          obtain rfl : x = l := Option.some.inj last
          exact .cons x [t] (fun _ => kind) (refl ys)
      | cons y xs => exact .cons x [] (absurd rfl) (ih last)

theorem split (h : Widened (xs ++ ys) zs) :
    ∃ xs' ys', zs = xs' ++ ys' ∧ Widened xs xs' ∧ Widened ys ys' := by
  induction xs generalizing zs with
  | nil => exact ⟨[], zs, rfl, .nil, h⟩
  | cons x xs ih =>
      cases h with
      | cons _ lines line more =>
          obtain ⟨xs', ys', rfl, left, right⟩ := ih more
          exact ⟨_, ys', by simp, .cons x lines line left, right⟩

/-- Without newlines a row stays as it is. -/
theorem eq_of_inLine (h : Widened xs zs) (inLine : ∀ l ∈ xs, l.token.kind ≠ .newline) :
    zs = xs := by
  induction h with
  | nil => rfl
  | cons l lines line _ ih =>
      obtain ⟨first, rest⟩ := List.forall_mem_cons.mp inLine
      obtain rfl : lines = [] := by
        by_contra some
        exact first (line some)
      rw [ih rest, List.map_nil, List.nil_append]

/-- What stands before the first newline stays as it is. -/
theorem behind (xs : List Leaf) (h : Widened (xs ++ ys) zs)
    (inLine : ∀ l ∈ xs, l.token.kind ≠ .newline) :
    ∃ ys', zs = xs ++ ys' ∧ Widened ys ys' := by
  obtain ⟨xs', ys', rfl, left, right⟩ := h.split
  rw [left.eq_of_inLine inLine]
  exact ⟨ys', rfl, right⟩

theorem lines {ts : List (Terminal .newline)} (h : Widened (ts.map (plain ·.1)) zs) :
    ∃ ts' : List (Terminal .newline), zs = ts'.map (plain ·.1) := by
  induction ts generalizing zs with
  | nil =>
      cases h
      exact ⟨[], rfl⟩
  | cons t ts ih =>
      cases h with
      | cons _ lines _ more =>
          obtain ⟨ts', rfl⟩ := ih more
          exact ⟨t :: (lines ++ ts'), by simp⟩

end Widened

/-! Trees of widened rows. -/

/-- Parts that have no newline in them. -/
def Part.InLine : Part → Prop
  | .phrase .newline | .statement | .statements => False
  | _ => True

namespace Tree

theorem inLine {part : Part} (t : Tree part) (within : part.InLine) :
    ∀ l ∈ t.leaves, l.token.kind ≠ .newline := by
  have value {ls : List Leaf} (h : Formula ls) := h.mem_ne_newline
  cases part with
  | chain c =>
      obtain none | ⟨s, ys, row, -, joins, formed⟩ := t.formed
      · simp [none]
      · rw [row]
        refine List.forall_mem_cons.mpr ⟨?_, value formed⟩
        intro kind
        simp [kind, Kind.joinsValues, Kind.isComparison, Kind.isSign, Kind.isFactorSign] at joins
  | phrase p =>
      cases p with
      | comparison | expression | term | unary | primary => exact value t.formed
      | forInit =>
          cases t with
          | forInit word name eq inner =>
              simpa [leaves, plain, naming, word.2.1, name.2.1, eq.2.1] using value inner.formed
      | forStep =>
          cases t with
          | forStep name eq inner =>
              simpa [leaves, plain, naming, name.2.1, eq.2.1] using value inner.formed
      | newline => exact within.elim
      | program => cases t
  | statement | statements => exact within.elim

/-- With further newlines it is read as a part with the same C text. -/
def Widens {part : Part} (t : Tree part) : Prop :=
  ∀ ls, Widened t.leaves ls → ∃ t' : Tree part, t'.leaves = ls ∧ t'.code = t.code

theorem widens_of_inLine {part : Part} (t : Tree part) (within : part.InLine) : t.Widens :=
  fun _ h => ⟨t, (h.eq_of_inLine (t.inLine within)).symm, rfl⟩

/-- A statement on one line, which is what stands in its line before the end. -/
theorem widens_line {build : Tree (.phrase .newline) → Tree .statement} {head : List Leaf}
    (inLine : ∀ l ∈ head, l.token.kind ≠ .newline)
    (row : ∀ ends, (build ends).leaves = head ++ ends.leaves)
    (same : ∀ ends ends', (build ends).code = (build ends').code) {ends : Tree (.phrase .newline)}
    (atEnds : ends.Widens) : (build ends).Widens := by
  intro ls h
  rw [row] at h
  obtain ⟨_, rfl, more⟩ := h.behind head inLine
  obtain ⟨ends', rfl, -⟩ := atEnds _ more
  exact ⟨build ends', row ends', same ends' ends⟩

/-- What comes behind the condition of a statement that has statements in it. -/
theorem widened_block {before stop : Keyword} {closing : Terminal .closeParen}
    {word : Terminal (.keyword before)} {line : Tree (.phrase .newline)} {body : Tree .statements}
    {last : Terminal (.keyword stop)} {ends : Tree (.phrase .newline)} {ls : List Leaf}
    (h : Widened (plain closing.1 :: plain word.1 ::
      (line.leaves ++ (body.leaves ++ plain last.1 :: ends.leaves))) ls)
    (atLine : line.Widens) (atBody : body.Widens) (atEnds : ends.Widens) :
    ∃ (line' : Tree (.phrase .newline)) (body' : Tree .statements)
      (ends' : Tree (.phrase .newline)), body'.code = body.code ∧
        ls = plain closing.1 :: plain word.1 ::
          (line'.leaves ++ (body'.leaves ++ plain last.1 :: ends'.leaves)) := by
  obtain ⟨_, rfl, inner⟩ := h.behind [plain closing.1, plain word.1]
    (by simp [plain, closing.2.1, word.2.1])
  obtain ⟨_, _, rfl, first, inner'⟩ := inner.split
  obtain ⟨line', rfl, -⟩ := atLine _ first
  obtain ⟨_, _, rfl, second, rest⟩ := inner'.split
  obtain ⟨body', rfl, code⟩ := atBody _ second
  obtain ⟨_, rfl, third⟩ := rest.behind [plain last.1] (by simp [plain, last.2.1])
  obtain ⟨ends', rfl, -⟩ := atEnds _ third
  exact ⟨line', body', ends', code, rfl⟩

theorem widens {part : Part} (t : Tree part) : t.Widens := by
  induction t with
  | newline first more =>
      intro ls h
      cases h with
      | cons _ lines _ h =>
          obtain ⟨more', rfl⟩ := h.lines
          exact ⟨.newline first (lines ++ more'), by simp [leaves], rfl⟩
  | printText word text ends ih =>
      have inLine : ∀ l ∈ [plain word.1, plain text.1], l.token.kind ≠ .newline := by
        simp [plain, word.2.1, text.2.1]
      exact widens_line inLine (fun _ => rfl) (fun _ _ => rfl) ih
  | print word value ends _ ih =>
      have inLine : ∀ l ∈ plain word.1 :: value.leaves, l.token.kind ≠ .newline := by
        simpa [plain, word.2.1] using value.inLine trivial
      exact widens_line inLine (fun _ => rfl) (fun _ _ => rfl) ih
  | label word name ends ih =>
      have inLine : ∀ l ∈ [plain word.1, naming .marked name.1], l.token.kind ≠ .newline := by
        simp [plain, naming, word.2.1, name.2.1]
      exact widens_line inLine (fun _ => rfl) (fun _ _ => rfl) ih
  | goto word name ends ih =>
      have inLine : ∀ l ∈ [plain word.1, naming .sought name.1], l.token.kind ≠ .newline := by
        simp [plain, naming, word.2.1, name.2.1]
      exact widens_line inLine (fun _ => rfl) (fun _ _ => rfl) ih
  | input word name ends ih =>
      have inLine : ∀ l ∈ [plain word.1, naming .target name.1], l.token.kind ≠ .newline := by
        simp [plain, naming, word.2.1, name.2.1]
      exact widens_line inLine (fun _ => rfl) (fun _ _ => rfl) ih
  | assign word name eq value ends _ ih =>
      have inLine : ∀ l ∈ plain word.1 :: naming .target name.1 :: plain eq.1 :: value.leaves,
          l.token.kind ≠ .newline := by
        simpa [plain, naming, word.2.1, name.2.1, eq.2.1] using value.inLine trivial
      exact widens_line inLine (fun _ => rfl) (fun _ _ => rfl) ih
  | branch word opening condition closing before line body stop ends _ atLine atBody atEnds =>
      intro ls h
      obtain ⟨_, rfl, rest⟩ := h.behind (plain word.1 :: plain opening.1 :: condition.leaves)
        (by simpa [plain, word.2.1, opening.2.1] using condition.inLine trivial)
      obtain ⟨line', body', ends', code, rfl⟩ := widened_block rest atLine atBody atEnds
      exact ⟨.branch word opening condition closing before line' body' stop ends', rfl,
        by simp only [Tree.code, code]⟩
  | loop word opening condition closing before line body stop ends _ atLine atBody atEnds =>
      intro ls h
      obtain ⟨_, rfl, rest⟩ := h.behind (plain word.1 :: plain opening.1 :: condition.leaves)
        (by simpa [plain, word.2.1, opening.2.1] using condition.inLine trivial)
      obtain ⟨line', body', ends', code, rfl⟩ := widened_block rest atLine atBody atEnds
      exact ⟨.loop word opening condition closing before line' body' stop ends', rfl,
        by simp only [Tree.code, code]⟩
  | count word opening init semicolon condition semicolon' step closing before line body stop ends
      _ _ _ atLine atBody atEnds =>
      intro ls h
      obtain ⟨_, rfl, first⟩ := h.behind (plain word.1 :: plain opening.1 :: init.leaves)
        (by simpa [plain, word.2.1, opening.2.1] using init.inLine trivial)
      obtain ⟨_, rfl, second⟩ := first.behind (plain semicolon.1 :: condition.leaves)
        (by simpa [plain, semicolon.2.1] using condition.inLine trivial)
      obtain ⟨_, rfl, rest⟩ := second.behind (plain semicolon'.1 :: step.leaves)
        (by simpa [plain, semicolon'.2.1] using step.inLine trivial)
      obtain ⟨line', body', ends', code, rfl⟩ := widened_block rest atLine atBody atEnds
      exact ⟨.count word opening init semicolon condition semicolon' step closing before line' body'
        stop ends', rfl, by simp only [Tree.code, code]⟩
  | empty =>
      intro ls h
      cases h
      exact ⟨.empty, rfl, rfl⟩
  | cons first rest ih ih' =>
      intro ls h
      obtain ⟨_, _, rfl, left, right⟩ := h.split
      obtain ⟨first', rfl, code⟩ := ih _ left
      obtain ⟨rest', rfl, code'⟩ := ih' _ right
      exact ⟨.cons first' rest', rfl, by simp only [Tree.code, code, code']⟩
  | _ => exact widens_of_inLine _ trivial

end Tree

/-! Programs with a further newline. -/

section Put

variable {xs ys : List Leaf}

theorem names_put (m : Mention) (xs ys : List Leaf) (t : Token) :
    names m (xs ++ plain t :: ys) = names m (xs ++ ys) := by
  rw [names_append, names_plain, names_append]

/-- A leaf that has no name breaks no rule on names. -/
theorem Orderly.put (h : Orderly (xs ++ ys)) (t : Token) : Orderly (xs ++ plain t :: ys) := by
  induction ys using List.reverseRecOn with
  | nil =>
      rw [List.append_nil] at h
      exact orderly_snoc.mpr ⟨h, by simp [plain, reads], by simp [plain]⟩
  | append_singleton ys l ih =>
      rw [← List.append_assoc, orderly_snoc] at h
      obtain ⟨before, known, new⟩ := h
      rw [← List.cons_append, ← List.append_assoc, orderly_snoc, names_put, names_put]
      exact ⟨ih before, known, new⟩

theorem WellNamed.put (h : WellNamed (xs ++ ys)) (t : Token) : WellNamed (xs ++ plain t :: ys) := by
  refine ⟨h.toOrderly.put t, ?_⟩
  rw [names_put, names_put]
  exact h.resolved

end Put

namespace Program

variable {xs ys : List Leaf}

/-- A newline can be read where a line begins, and changes nothing of the code. -/
theorem exists_put (p : Program) (row : p.leaves = xs ++ ys)
    (line : ∀ l ∈ xs.getLast?, l.token.kind = .newline) (t : Terminal .newline) :
    ∃ q : Program, q.leaves = xs ++ plain t.1 :: ys ∧ q.code = p.code := by
  cases last : xs.getLast? with
  | none =>
      obtain rfl := List.getLast?_eq_none_iff.mp last
      exact ⟨⟨t :: p.leading, p.body⟩, congrArg (plain t.1 :: ·) row, rfl⟩
  | some l =>
      have wide := Widened.put ⟨l, last, line l last⟩ t ys
      rw [← row, leaves] at wide
      obtain ⟨_, _, whole, left, right⟩ := wide.split
      obtain ⟨leading, rfl⟩ := left.lines
      obtain ⟨body, rfl, code⟩ := p.body.widens _ right
      exact ⟨⟨leading, body⟩, whole.symm, congrArg (· ++ CText.footer) code⟩

end Program
end YoloLang
