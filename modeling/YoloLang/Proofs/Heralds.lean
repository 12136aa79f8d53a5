import YoloLang.Proofs.Program

/-!
Names and the words before them. Whether a name is given a value, marks a place or seeks one can be
told from the token directly before it. Main statement: in every program the names that are
mentioned in one of these ways are those that stand directly behind certain words.
-/

namespace YoloLang

open Leaf

/-- What a word says about the name behind it. -/
def Keyword.heralds : Keyword → Option Mention
  | LET | INPUT => some .target
  | LABEL => some .marked
  | GOTO => some .sought
  | _ => none

def Kind.heralds : Kind → Option Mention
  | keyword word => word.heralds
  | _ => none

/-- Whether a word says it. -/
def Mention.heralded : Mention → Bool
  | target | marked | sought => true
  | operand | stepped => false

/-- What a leaf is when a token of this kind stands before it. -/
structure Leaf.Follows (before : Kind) (l : Leaf) : Prop where
  named : l.mention.isSome = true ↔ l.token.kind = .identifier
  heralded : l.mention.filter Mention.heralded = before.heralds

def Heralded : Kind → List Leaf → Prop
  | _, [] => True
  | before, l :: ls => l.Follows before ∧ Heralded l.token.kind ls

theorem Heralded.of_append {before : Kind} {xs ys : List Leaf} (h : Heralded before (xs ++ ys)) :
    Heralded before xs := by
  induction xs generalizing before with
  | nil => trivial
  | cons x xs ih => exact ⟨h.1, ih h.2⟩

theorem Heralded.named {before : Kind} {ls : List Leaf} (h : Heralded before ls) :
    ∀ l ∈ ls, l.mention.isSome = true ↔ l.token.kind = .identifier := by
  induction ls generalizing before with
  | nil => simp
  | cons l ls ih => exact List.forall_mem_cons.mpr ⟨h.1.named, ih h.2⟩

/-! The leaves of trees. -/

/-- Leaves that may stand behind any token that says nothing about the next one. -/
def Steady (ls : List Leaf) : Prop := ∀ before : Kind, before.heralds = none → Heralded before ls

namespace Steady

variable {ls : List Leaf} {k : Kind}

theorem nil : Steady [] := fun _ _ => trivial

theorem plain {t : Token} (h : Steady ls) (kind : t.kind ≠ .identifier)
    (silent : t.kind.heralds = none) : Steady (plain t :: ls) := by
  intro before none
  refine ⟨⟨by simpa [Leaf.plain] using kind, none.symm⟩, h _ silent⟩

theorem terminal (h : Steady ls) (t : Terminal k) (kind : k ≠ .identifier)
    (silent : k.heralds = none) : Steady (.plain t.1 :: ls) :=
  h.plain (by rwa [t.2.1]) (by rwa [t.2.1])

theorem lines (h : Steady ls) (ts : List (Terminal .newline)) :
    Steady (ts.map (Leaf.plain ·.1) ++ ls) := by
  induction ts with
  | nil => exact h
  | cons t ts ih => exact ih.terminal t (by simp) rfl

theorem sign {isSign : Kind → Bool} (h : Steady ls) (t : Sign isSign)
    (signs : ∀ k, isSign k = true → k ≠ .identifier ∧ k.heralds = none) :
    Steady (.plain t.1 :: ls) :=
  h.plain (signs _ t.2.1).1 (signs _ t.2.1).2

/-- A name in an expression, or the one that a loop steps. -/
theorem free (h : Steady ls) (t : Terminal .identifier) {m : Mention}
    (other : m.heralded = false) : Steady (naming m t.1 :: ls) := by
  intro before none
  refine ⟨⟨by simp [naming, t.2.1], ?_⟩, h _ ?_⟩
  · simp [naming, Option.filter, other, none]
  · simp [naming, t.2.1, Kind.heralds]

/-- A name behind the word that says how it is mentioned. -/
theorem given (h : Steady ls) {word : Keyword} (w : Terminal (.keyword word))
    (t : Terminal .identifier) {m : Mention} (sort : word.heralds = some m)
    (heralded : m.heralded = true) : Steady (.plain w.1 :: naming m t.1 :: ls) := by
  intro before none
  refine ⟨⟨by simp [Leaf.plain, w.2.1], none.symm⟩, ⟨by simp [naming, t.2.1], ?_⟩, h _ ?_⟩
  · simp [naming, Leaf.plain, Option.filter, heralded, w.2.1, Kind.heralds, sort]
  · simp [naming, t.2.1, Kind.heralds]

end Steady

theorem Chain.heralds_of_joins {c : Chain} {k : Kind} (joins : c.joins k = true) :
    k ≠ .identifier ∧ k.heralds = none := by
  cases c <;> cases k <;> first | contradiction | exact ⟨by simp, rfl⟩

theorem Tree.steady {part : Part} (t : Tree part) {ls : List Leaf} (h : Steady ls) :
    Steady (t.leaves ++ ls) := by
  have compares (k : Kind) := Chain.heralds_of_joins (c := .comparison) (k := k)
  have signs (k : Kind) := Chain.heralds_of_joins (c := .sum) (k := k)
  induction t generalizing ls with
  | number t => exact h.terminal t (by simp) rfl
  | identifier t => exact h.free t rfl
  | group opening inner closing ih =>
      have closed := ih (h.terminal closing (by simp) rfl)
      simpa [leaves] using closed.terminal opening (by simp) rfl
  | unsigned operand ih => exact ih h
  | signed sign operand ih => exact (ih h).sign sign signs
  | term first more ih ih' | expression first more ih ih' =>
      simpa [leaves] using ih (ih' h)
  | comparison first sign second more ih ih' ih'' =>
      simpa [leaves] using ih ((ih' (ih'' h)).sign sign compares)
  | done => exact h
  | link c sign operand more ih ih' =>
      simpa [leaves] using (ih (ih' h)).sign sign fun _ => Chain.heralds_of_joins
  | newline first more => exact (h.lines more).terminal first (by simp) rfl
  | forInit word name eq value ih =>
      exact ((ih h).terminal eq (by simp) rfl).given word name rfl rfl
  | forStep name eq value ih => exact ((ih h).terminal eq (by simp) rfl).free name rfl
  | printText word text ends ih =>
      exact ((ih h).terminal text (by simp) rfl).terminal word (by simp) rfl
  | print word value ends ih ih' =>
      simpa [leaves] using (ih (ih' h)).terminal word (by simp) rfl
  | branch word opening condition closing before line body stop ends
      ihCondition ihLine ihBody ihEnds
  | loop word opening condition closing before line body stop ends
      ihCondition ihLine ihBody ihEnds =>
      have block := ihLine (ihBody ((ihEnds h).terminal stop (by simp) rfl))
      have closed := (block.terminal before (by simp) rfl).terminal closing (by simp) rfl
      have head := ihCondition closed
      simpa [leaves] using (head.terminal opening (by simp) rfl).terminal word (by simp) rfl
  | count word opening init semicolon condition semicolon' step closing before line body stop ends
      ihInit ihCondition ihStep ihLine ihBody ihEnds =>
      have block := ihLine (ihBody ((ihEnds h).terminal stop (by simp) rfl))
      have step := ihStep ((block.terminal before (by simp) rfl).terminal closing (by simp) rfl)
      have condition := ihCondition (step.terminal semicolon' (by simp) rfl)
      have head := ihInit (condition.terminal semicolon (by simp) rfl)
      simpa [leaves] using (head.terminal opening (by simp) rfl).terminal word (by simp) rfl
  | label word name ends ih | goto word name ends ih | input word name ends ih =>
      exact (ih h).given word name rfl rfl
  | assign word name eq value ends ih ih' =>
      simpa [leaves] using ((ih (ih' h)).terminal eq (by simp) rfl).given word name rfl rfl
  | empty => exact h
  | cons first rest ih ih' => simpa [leaves] using ih (ih' h)

/-- A program begins like a line. -/
theorem Program.heralded (p : Program) : Heralded .newline p.leaves := by
  have body := (p.body.steady .nil).lines p.leading
  rw [List.append_nil] at body
  exact body .newline rfl

/-! Tokens behind certain words. -/

/-- The tokens that stand directly behind one of these words. -/
def behind (words : List Keyword) : List Token → List Token
  | a :: b :: ts =>
      if a.kind ∈ words.map Kind.keyword then b :: behind words (b :: ts)
      else behind words (b :: ts)
  | _ => []

/-- These are the words that say this of the name behind them. -/
def Mention.SaidBy (m : Mention) (words : List Keyword) : Prop :=
  m.heralded = true ∧ ∀ k : Kind, k.heralds = some m ↔ k ∈ words.map Kind.keyword

theorem Mention.target_saidBy : target.SaidBy [.LET, .INPUT] := by
  refine ⟨rfl, fun k => ?_⟩
  cases k with
  | keyword word => cases word <;> simp [Kind.heralds, Keyword.heralds]
  | _ => simp [Kind.heralds]

theorem Mention.marked_saidBy : marked.SaidBy [.LABEL] := by
  refine ⟨rfl, fun k => ?_⟩
  cases k with
  | keyword word => cases word <;> simp [Kind.heralds, Keyword.heralds]
  | _ => simp [Kind.heralds]

theorem Mention.sought_saidBy : sought.SaidBy [.GOTO] := by
  refine ⟨rfl, fun k => ?_⟩
  cases k with
  | keyword word => cases word <;> simp [Kind.heralds, Keyword.heralds]
  | _ => simp [Kind.heralds]

namespace Heralded

variable {m : Mention} {words : List Keyword}

theorem mention_iff {before : Kind} {l : Leaf} (follows : l.Follows before)
    (said : m.SaidBy words) :
    l.mention = some m ↔ before ∈ words.map Kind.keyword := by
  rw [← said.2, ← follows.heralded, Option.filter_eq_some_iff]
  simp [said.1]

theorem behind_cons {a : Token} {ls : List Leaf} (h : Heralded a.kind ls)
    (said : m.SaidBy words) :
    behind words (a :: ls.map Leaf.token) = mentioned m ls := by
  induction ls generalizing a with
  | nil => rfl
  | cons l ls ih =>
      have same := mention_iff h.1 said
      rw [List.map_cons, behind, ih h.2, mentioned_cons]
      by_cases given : l.mention = some m
      · rw [if_pos (same.mp given), if_pos given]
      · rw [if_neg (mt same.mpr given), if_neg given]

/-- The tokens that are mentioned in a way that words say are those behind these words. -/
theorem behind_eq {before : Kind} {ls : List Leaf} (h : Heralded before ls)
    (silent : before.heralds = none) (said : m.SaidBy words) :
    behind words (ls.map Leaf.token) = mentioned m ls := by
  cases ls with
  | nil => rfl
  | cons l ls =>
      have other : l.mention ≠ some m := by
        intro given
        have word := (said.2 before).mpr ((mention_iff h.1 said).mp given)
        simp [silent] at word
      rw [List.map_cons, behind_cons h.2 said, mentioned_cons, if_neg other]

end Heralded

/-- Leaves that a program begins with. -/
theorem names_eq_behind {ls : List Leaf} {p : Program} {m : Mention} {words : List Keyword}
    (begins : ls <+: p.leaves) (said : m.SaidBy words) :
    names m ls = (behind words (ls.map Leaf.token)).map Token.text := by
  obtain ⟨more, whole⟩ := begins
  have heralded : Heralded .newline ls := (whole ▸ p.heralded).of_append
  rw [heralded.behind_eq rfl said, map_text_mentioned]

end YoloLang
