import Mathlib.Data.List.Chain
import YoloLang.Proofs.Pieces

/-!
Expressions and comparisons as rows of leaves: which kinds can stand side by side in them, and where
their text stands in the C text of a program. Main statement: C takes such a text for the tokens it
was written with if and only if no two equal signs of a sum stand side by side.
-/

namespace YoloLang

open Leaf

namespace Kind

def endsValue : Kind → Bool
  | number | identifier | closeParen => true
  | _ => false

def beginsValue : Kind → Bool
  | number | identifier | openParen | plus | minus => true
  | _ => false

def joinsValues (k : Kind) : Bool := k.isComparison || k.isSign || k.isFactorSign

/-- Whether the second can stand behind the first in an expression or a comparison. -/
def meets (a b : Kind) : Bool :=
  if a.endsValue then b.joinsValues || b == .closeParen
  else (a.joinsValues || a == .openParen) && b.beginsValue

theorem endsValue_of_joinsValues {k : Kind} (h : k.joinsValues = true) : k.endsValue = false := by
  cases k <;> first | rfl | contradiction

end Kind

/-- What the leaves of an expression or a comparison have in common. -/
structure Formula (ls : List Leaf) : Prop where
  lexed : ∀ l ∈ ls, l.token.Lexed
  meets : ls.IsChain fun a b => a.token.kind.meets b.token.kind = true
  first : ∃ l ∈ ls.head?, l.token.kind.beginsValue = true
  last : ∃ l ∈ ls.getLast?, l.token.kind.endsValue = true

namespace Formula

variable {xs ys : List Leaf} {s : Leaf}

theorem single (lexed : s.token.Lexed) (begins : s.token.kind.beginsValue = true)
    (ends : s.token.kind.endsValue = true) : Formula [s] :=
  ⟨by simpa using lexed, .singleton s, ⟨s, rfl, begins⟩, ⟨s, rfl, ends⟩⟩

theorem meets_cons (h : Formula ys) (before : s.token.kind.endsValue = false)
    (joins : (s.token.kind.joinsValues || s.token.kind == .openParen) = true) :
    (s :: ys).IsChain fun a b => a.token.kind.meets b.token.kind = true := by
  obtain ⟨l, first, begins⟩ := h.first
  refine List.isChain_cons.mpr ⟨?_, h.meets⟩
  intro y mem
  obtain rfl := Option.mem_unique first mem
  simp only [Kind.meets, before, Bool.false_eq_true, if_false, joins, begins, Bool.and_self]

theorem ne_nil (h : Formula ys) : ys ≠ [] := by
  rintro rfl
  obtain ⟨l, first, -⟩ := h.first
  contradiction

theorem last_cons (h : Formula ys) (s : Leaf) :
    ∃ l ∈ (s :: ys).getLast?, l.token.kind.endsValue = true := by
  rw [List.getLast?_cons_of_ne_nil h.ne_nil]
  exact h.last

theorem lexed_cons (h : Formula ys) (lexed : s.token.Lexed) : ∀ l ∈ s :: ys, l.token.Lexed := by
  simpa using ⟨lexed, h.lexed⟩

theorem signed (h : Formula ys) (lexed : s.token.Lexed) (joins : s.token.kind.joinsValues = true)
    (begins : s.token.kind.beginsValue = true) : Formula (s :: ys) :=
  ⟨h.lexed_cons lexed, h.meets_cons (Kind.endsValue_of_joinsValues joins) (by simp [joins]),
    ⟨s, rfl, begins⟩, h.last_cons s⟩

theorem join (left : Formula xs) (lexed : s.token.Lexed)
    (joins : s.token.kind.joinsValues = true) (right : Formula ys) : Formula (xs ++ s :: ys) := by
  obtain ⟨l, last, ends⟩ := left.last
  refine ⟨?_, ?_, ?_, ?_⟩
  · intro a mem
    exact (List.mem_append.mp mem).elim (left.lexed a) (right.lexed_cons lexed a)
  · refine List.isChain_append.mpr ⟨left.meets, ?_, ?_⟩
    · exact right.meets_cons (Kind.endsValue_of_joinsValues joins) (by simp [joins])
    · intro x mem y mem'
      obtain rfl := Option.mem_unique last mem
      obtain rfl := Option.some.inj mem'
      simp [Kind.meets, ends, joins]
  · rw [List.head?_append_of_ne_nil _ left.ne_nil]
    exact left.first
  · rw [List.getLast?_append_of_ne_nil _ (List.cons_ne_nil s ys)]
    exact right.last_cons s

theorem group {opening closing : Leaf} (h : Formula xs) (lexed : opening.token.Lexed)
    (kind : opening.token.kind = .openParen) (lexed' : closing.token.Lexed)
    (kind' : closing.token.kind = .closeParen) : Formula (opening :: (xs ++ [closing])) := by
  obtain ⟨l, last, ends⟩ := h.last_cons opening
  rw [← List.cons_append]
  refine ⟨?_, List.isChain_append.mpr ⟨?_, .singleton closing, ?_⟩,
    ⟨opening, rfl, by simp [kind, Kind.beginsValue]⟩,
    ⟨closing, List.getLast?_concat, by simp [kind', Kind.endsValue]⟩⟩
  · intro a mem
    obtain mem | mem := List.mem_append.mp mem
    · exact h.lexed_cons lexed a mem
    · exact List.mem_singleton.mp mem ▸ lexed'
  · exact h.meets_cons (by simp [kind, Kind.endsValue]) (by simp [kind])
  · intro x mem y mem'
    obtain rfl := Option.mem_unique last mem
    obtain rfl := Option.some.inj mem'
    simp [Kind.meets, ends, kind']

end Formula

/-- What the leaves of a part have in common, as far as the part is one of an expression. -/
def Part.Formed : Part → List Leaf → Prop
  | .phrase .comparison, ls | .phrase .expression, ls | .phrase .term, ls | .phrase .unary, ls
  | .phrase .primary, ls => Formula ls
  | .chain _, ls =>
      ls = [] ∨ ∃ s ys, ls = s :: ys ∧ s.token.Lexed ∧ s.token.kind.joinsValues = true ∧ Formula ys
  | _, _ => True

theorem Part.formed_operand {c : Chain} {ls : List Leaf}
    (h : (Part.phrase c.operand).Formed ls) : Formula ls := by
  cases c <;> exact h

theorem Formula.chain {c : Chain} {xs ys : List Leaf} (h : Formula xs)
    (more : (Part.chain c).Formed ys) : Formula (xs ++ ys) := by
  obtain rfl | ⟨s, ys, rfl, lexed, joins, right⟩ := more
  · simpa using h
  · exact h.join lexed joins right

theorem Kind.beginsValue_of_isSign {k : Kind} (h : k.isSign = true) : k.beginsValue = true := by
  cases k <;> first | rfl | contradiction

theorem Kind.joinsValues_of_joins {c : Chain} {k : Kind} (h : c.joins k = true) :
    k.joinsValues = true := by
  cases c <;> simp only [Chain.joins] at h <;> simp [joinsValues, h]

namespace Tree

theorem formed {part : Part} (t : Tree part) : part.Formed t.leaves := by
  induction t with
  | number t => exact .single t.2.2 (by rw [plain, t.2.1]; rfl) (by rw [plain, t.2.1]; rfl)
  | identifier t => exact .single t.2.2 (by rw [naming, t.2.1]; rfl) (by rw [naming, t.2.1]; rfl)
  | group opening inner closing ih =>
      exact ih.group opening.2.2 opening.2.1 closing.2.2 closing.2.1
  | unsigned operand ih => exact ih
  | signed sign operand ih =>
      have joins : Chain.sum.joins sign.1.kind = true := sign.2.1
      exact ih.signed sign.2.2 (Kind.joinsValues_of_joins joins)
        (Kind.beginsValue_of_isSign sign.2.1)
  | term first more ih ih' => exact ih.chain ih'
  | expression first more ih ih' => exact ih.chain ih'
  | comparison first sign second more ih ih' ih'' =>
      have joins : Chain.comparison.joins sign.1.kind = true := sign.2.1
      exact ih.join sign.2.2 (Kind.joinsValues_of_joins joins) (ih'.chain ih'')
  | done c => exact .inl rfl
  | link c sign operand more ih ih' =>
      exact .inr ⟨_, _, rfl, sign.2.2, Kind.joinsValues_of_joins sign.2.1,
        (Part.formed_operand ih).chain ih'⟩
  | _ => trivial

/-- The leaves of every expression and every comparison of a tree, those within others too. -/
def values {part : Part} : Tree part → List (List Leaf)
  | number _ | identifier _ | done _ | newline .. | printText .. | label .. | goto .. | input ..
  | empty => []
  | group _ inner _ => inner.values
  | unsigned operand | signed _ operand => operand.values
  | term first more | link _ _ first more | cons first more => first.values ++ more.values
  | expression first more => (first.leaves ++ more.leaves) :: (first.values ++ more.values)
  | comparison first sign second more =>
      (first.leaves ++ plain sign :: (second.leaves ++ more.leaves)) ::
        (first.values ++ second.values ++ more.values)
  | forInit _ _ _ value | forStep _ _ value | print _ value _ | assign _ _ _ value _ => value.values
  | branch _ _ condition _ _ _ body _ _ | loop _ _ condition _ _ _ body _ _ =>
      condition.values ++ body.values
  | count _ _ init _ condition _ step _ _ _ body _ _ =>
      init.values ++ condition.values ++ step.values ++ body.values

theorem formula_of_mem_values {part : Part} (t : Tree part) :
    ∀ ls ∈ t.values, Formula ls := by
  induction t with
  | number | identifier | done | newline | printText | label | goto | input | empty =>
      simp [values]
  | group _ _ _ ih | unsigned _ ih | signed _ _ ih | forInit _ _ _ _ ih | forStep _ _ _ ih
  | print _ _ _ ih | assign _ _ _ _ _ ih => exact ih
  | term _ _ ih ih' | link _ _ _ _ ih ih' | cons _ _ ih ih'
  | branch _ _ _ _ _ _ _ _ _ ih _ ih' | loop _ _ _ _ _ _ _ _ _ ih _ ih' =>
      exact List.forall_mem_append.mpr ⟨ih, ih'⟩
  | expression first more ih ih' =>
      exact List.forall_mem_cons.mpr
        ⟨(Tree.expression first more).formed, List.forall_mem_append.mpr ⟨ih, ih'⟩⟩
  | comparison first sign second more ih ih' ih'' =>
      simp only [values, List.forall_mem_cons, List.forall_mem_append]
      exact ⟨(Tree.comparison first sign second more).formed, ⟨ih, ih'⟩, ih''⟩
  | count _ _ _ _ _ _ _ _ _ _ _ _ _ init condition step _ body =>
      simp only [values, List.forall_mem_append]
      exact ⟨⟨⟨init, condition⟩, step⟩, body⟩

end Tree

/-! Where the text of a value stands. -/

/-- The one text is a stretch of the other. -/
def Within (x y : String) : Prop := ∃ before after, y = before ++ x ++ after

namespace Within

variable {x y : String}

theorem self (x : String) : Within x x := ⟨"", "", by simp⟩

theorem left (h : Within x y) (z : String) : Within x (y ++ z) := by
  obtain ⟨before, after, rfl⟩ := h
  exact ⟨before, after ++ z, by simp [String.append_assoc]⟩

theorem right (h : Within x y) (z : String) : Within x (z ++ y) := by
  obtain ⟨before, after, rfl⟩ := h
  exact ⟨z ++ before, after, by simp [String.append_assoc]⟩

end Within

theorem within_block {x word condition body : String} (h : Within x condition ∨ Within x body) :
    Within x (CText.block word condition body) := by
  obtain h | h := h
  · exact (((h.right _).left _).left _).left _
  · exact (h.right _).left _

namespace Tree

theorem within_code {part : Part} (t : Tree part) :
    ∀ ls ∈ t.values, Within (spelling ls) t.code := by
  induction t with
  | number | identifier | done | newline | printText | label | goto | input | empty =>
      simp [values]
  | group opening inner closing ih =>
      intro ls mem
      have whole : (group opening inner closing).code =
          opening.1.text ++ (inner.code ++ closing.1.text) := by
        simp [leaves, spelling, spelling_append, plain]
      exact whole ▸ ((ih ls mem).left _).right _
  | unsigned operand ih =>
      intro ls mem
      simpa [leaves] using ih ls mem
  | signed sign operand ih =>
      intro ls mem
      have whole : (signed sign operand).code = sign.1.text ++ operand.code := by
        simp [leaves, spelling, plain]
      exact whole ▸ (ih ls mem).right _
  | forInit _ _ _ value ih | forStep _ _ value ih =>
      intro ls mem
      have inside := ih ls mem
      rw [code_expression] at inside
      exact inside.right _
  | assign _ _ _ value _ ih =>
      intro ls mem
      have inside := ih ls mem
      rw [code_expression] at inside
      exact (inside.right _).left _
  | print _ value _ ih =>
      intro ls mem
      have inside := ih ls mem
      rw [code_expression] at inside
      exact (inside.right _).left _
  | term first more ih ih' =>
      have whole : (term first more).code = first.code ++ more.code := by
        simp [leaves, spelling_append]
      rw [whole]
      refine List.forall_mem_append.mpr ⟨fun ls mem => ?_, fun ls mem => ?_⟩
      · exact (ih ls mem).left _
      · exact (ih' ls mem).right _
  | expression first more ih ih' =>
      have whole : (expression first more).code = first.code ++ more.code := by
        simp [leaves, spelling_append]
      refine List.forall_mem_cons.mpr ⟨.self _, ?_⟩
      rw [whole]
      refine List.forall_mem_append.mpr ⟨fun ls mem => ?_, fun ls mem => ?_⟩
      · exact (ih ls mem).left _
      · exact (ih' ls mem).right _
  | link c sign operand more ih ih' =>
      have whole : (link c sign operand more).code =
          sign.1.text ++ (operand.code ++ more.code) := by
        simp [leaves, spelling, spelling_append, plain]
      rw [whole]
      refine List.forall_mem_append.mpr ⟨fun ls mem => ?_, fun ls mem => ?_⟩
      · exact ((ih ls mem).left _).right _
      · exact ((ih' ls mem).right _).right _
  | comparison first sign second more ih ih' ih'' =>
      have whole : (comparison first sign second more).code =
          first.code ++ (sign.1.text ++ (second.code ++ more.code)) := by
        simp [leaves, spelling, spelling_append, plain]
      refine List.forall_mem_cons.mpr ⟨.self _, ?_⟩
      rw [whole]
      simp only [List.forall_mem_append]
      refine ⟨⟨fun ls mem => ?_, fun ls mem => ?_⟩, fun ls mem => ?_⟩
      · exact (ih ls mem).left _
      · exact (((ih' ls mem).left _).right _).right _
      · exact (((ih'' ls mem).right _).right _).right _
  | branch _ _ condition _ _ _ body _ _ ih _ ih' | loop _ _ condition _ _ _ body _ _ ih _ ih' =>
      refine List.forall_mem_append.mpr ⟨fun ls mem => ?_, fun ls mem => ?_⟩
      · have inside := ih ls mem
        rw [code_comparison] at inside
        exact within_block (.inl inside)
      · exact within_block (.inr (ih' ls mem))
  | count _ _ init _ condition _ step _ _ _ body _ _ atInit atCondition atStep _ atBody =>
      simp only [values, List.forall_mem_append]
      refine ⟨⟨⟨fun ls mem => ?_, fun ls mem => ?_⟩, fun ls mem => ?_⟩, fun ls mem => ?_⟩
      · exact within_block (.inl (((((atInit ls mem).left _).left _).left _).left _))
      · have inside := atCondition ls mem
        rw [code_comparison] at inside
        exact within_block (.inl (((inside.right _).left _).left _))
      · exact within_block (.inl ((atStep ls mem).right _))
      · exact within_block (.inr (atBody ls mem))
  | cons first rest ih ih' =>
      refine List.forall_mem_append.mpr ⟨fun ls mem => ?_, fun ls mem => ?_⟩
      · exact (ih ls mem).left _
      · exact (ih' ls mem).right _

end Tree

end YoloLang
