import Mathlib.Logic.Relation
import YoloLang.Proofs.Reading

/-!
Where a walk asks for a token. A step asks for at most one, and is stopped there if a fault bars the
token that would come into the window. Main statements: a step that asks takes the current token
and goes on from there, and a walk is what its steps reach.
-/

namespace YoloLang

/-- The walk as a move leaves it. -/
def Move.walk {σ : Type} : Move σ → Walk σ
  | .go _ w | .stop _ w => w

namespace Walk

variable {σ : Type} {o : Observer σ} {w v u : Walk σ} {t : Task} {rest next ts us : List Task}

/-- The walk in which a copied token is asked for, and what is done once it is taken. -/
def copying (w : Walk σ) (next : List Task) : Walk σ × (Walk σ → Move σ) :=
  (w.written w.current.text, .go next)

def starting (o : Observer σ) (w : Walk σ) (again : Task) : Option (Walk σ × (Walk σ → Move σ)) :=
  (Form.ofKind? w.current.kind).map fun form =>
    (w.entered o (.statement form), .go (form.body ++ [.phrase .newline, .close, again]))

/-- The walk in which a step asks for the next token, and what it does once the current one is
taken. -/
def asks? (o : Observer σ) (w : Walk σ) : Task → Option (Walk σ × (Walk σ → Move σ))
  | .expect kind => if w.current.kind = kind then some (w, .go []) else none
  | .name role =>
      if w.current.kind = .identifier then some (w, (name · w.current role)) else none
  | .lineEnd => if w.current.kind = .newline then some (w, .go []) else none
  | .newlines => if w.current.kind = .newline then some (w, .go [.newlines]) else none
  | .statements => starting o w .statements
  | .block stop =>
      if w.current.kind = .keyword stop then some (w, .go []) else starting o w (.block stop)
  | .printed =>
      if w.current.kind = .string then
        some (w.lineWritten ("printf(\"" ++ w.current.text ++ "\\n\");"), .go [])
      else none
  | .compared =>
      if w.current.kind.isComparison then some (w.copying [.phrase .expression]) else none
  | .chain chain =>
      if chain.joins w.current.kind then some (w.copying [.phrase chain.operand, .chain chain])
      else none
  | .sign => if w.current.kind.isSign then some (w.copying []) else none
  | .operand =>
      match w.current.kind with
      | .number => some (w.copying [])
      | .identifier =>
          if w.current.text ∈ w.declarations.vars then some (w.copying []) else none
      | .openParen =>
          some (w.copying [.phrase .expression, .expect .closeParen, .write ")"])
      | _ => none
  | .phrase _ | .close | .write _ | .writeLine _ | .writeHeader _ | .labels => none

theorem kind_of_starting {again : Task} {goOn : Walk σ → Move σ}
    (h : starting o w again = some (u, goOn)) :
    w.current.kind ≠ .eof ∧ w.statement o again = u.take o goOn := by
  obtain ⟨form, known, same⟩ := Option.map_eq_some_iff.mp h
  obtain ⟨rfl, rfl⟩ := Prod.mk.inj same
  refine ⟨by simp [Form.ofKind?_eq_some_iff.mp known], ?_⟩
  simp only [statement, known]

/-- A step that asks for a token takes the current one. -/
theorem step_of_asks {goOn : Walk σ → Move σ} (h : w.asks? o t = some (u, goOn)) :
    w.step o t = u.take o goOn := by
  have copies {tasks : List Task} (h : w.copying tasks = (u, goOn)) :
      w.copy o (.go tasks) = u.take o goOn := by
    obtain ⟨rfl, rfl⟩ := Prod.mk.inj h
    rfl
  cases t with
  | phrase | close | write | writeLine | writeHeader | labels => contradiction
  | expect | lineEnd | name | newlines =>
      simp only [asks?] at h
      split at h
      · rename_i kind
        obtain ⟨rfl, rfl⟩ := Prod.mk.inj (Option.some.inj h)
        exact if_pos kind
      · contradiction
  | statements =>
      obtain ⟨kind, begun⟩ := kind_of_starting h
      exact (if_neg kind).trans begun
  | block stop =>
      simp only [asks?] at h
      split at h
      · rename_i kind
        obtain ⟨rfl, rfl⟩ := Prod.mk.inj (Option.some.inj h)
        exact if_pos kind
      · rename_i other
        obtain ⟨kind, begun⟩ := kind_of_starting h
        exact (if_neg other).trans ((if_neg kind).trans begun)
  | printed =>
      simp only [asks?] at h
      split at h
      · rename_i kind
        obtain ⟨rfl, rfl⟩ := Prod.mk.inj (Option.some.inj h)
        exact if_pos kind
      · contradiction
  | compared | chain | sign =>
      simp only [asks?] at h
      split at h
      · rename_i joins
        exact (if_pos joins).trans (copies (Option.some.inj h))
      · contradiction
  | operand =>
      simp only [asks?] at h
      simp only [step, operand]
      split at h
      · rename_i kind
        simpa only [kind] using copies (Option.some.inj h)
      · rename_i kind
        split at h
        · rename_i known
          simpa only [kind, known, if_true] using copies (Option.some.inj h)
        · contradiction
      · rename_i kind
        simpa only [kind] using copies (Option.some.inj h)
      · contradiction

/-! What steps reach. -/

/-- A step with tasks behind the one that it does. -/
inductive Goes (o : Observer σ) : Walk σ × List Task → Walk σ × List Task → Prop where
  | step {w v : Walk σ} {t : Task} {next : List Task} (gone : w.step o t = .go next v)
      (rest : List Task) : Goes o (w, t :: rest) (v, next ++ rest)

/-- Some steps lead from these tasks to those. -/
abbrev Reaches (o : Observer σ) : Walk σ × List Task → Walk σ × List Task → Prop :=
  Relation.ReflTransGen (Goes o)

theorem run_of_reaches {x y : Walk σ × List Task} (h : Reaches o x y) :
    x.1.run o x.2 = y.1.run o y.2 := by
  induction h with
  | refl => rfl
  | tail _ goes ih =>
      cases goes with
      | step gone rest => exact ih.trans (run_cons_of_go gone rest)

/-- What every step keeps holds of all that is reached. -/
theorem keeps_of_reaches {P : Walk σ × List Task → Prop}
    (keeps : ∀ {x y : Walk σ × List Task}, P x → Goes o x y → P y) {x y : Walk σ × List Task}
    (h : Reaches o x y) (start : P x) : P y := by
  induction h with
  | refl => exact start
  | tail _ goes ih => exact keeps ih goes

end Walk
end YoloLang
