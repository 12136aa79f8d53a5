import YoloLang.Walk.Step

/-!
Why walks end. What a walk may still cost is the cost of its tasks and, for each token to come,
more than that token can call for. Main statement: every step lowers it.
-/

namespace YoloLang.Walk

variable {σ : Type}

def cost (tasks : List Task) (w : Walk σ) : Nat :=
  Task.perToken * w.feed.ahead.length + Task.costs tasks

theorem feed_declared (name : String) (w : Walk σ) : (w.declared name).feed = w.feed := by
  unfold declared
  split <;> rfl

theorem take_eq_go {o : Observer σ} {w v : Walk σ} {goOn : Walk σ → Move σ} {next : List Task}
    (h : w.take o goOn = .go next v) : goOn (w.taken o) = .go next v := by
  unfold take at h
  split at h <;> simp_all

theorem take_go_eq_go {o : Observer σ} {w v : Walk σ} {tasks next : List Task}
    (h : w.take o (.go tasks) = .go next v) : next = tasks ∧ v = w.taken o := by
  have taken := take_eq_go h
  simp only [Move.go.injEq] at taken
  exact ⟨taken.1.symm, taken.2.symm⟩

/-- Naming a thing calls for no tasks and takes no token. -/
theorem name_eq_go {w v : Walk σ} {token : Token} {role : Role} {next : List Task}
    (h : w.name token role = .go next v) : next = [] ∧ v.feed = w.feed := by
  cases role <;> simp only [name] at h
  case stepped | marked =>
    split at h
    all_goals simp only [blame, Move.go.injEq, reduceCtorEq] at h
    simp [← h.1, ← h.2, written, lineWritten]
  all_goals
    simp only [Move.go.injEq] at h
    simp [← h.1, ← h.2, written, lineWritten, feed_declared]

/-- A token that is taken pays for all that a step can put in place of its task. -/
theorem cost_taken_lt {o : Observer σ} {w : Walk σ} {next : List Task} {t : Task}
    (kind : w.current.kind ≠ .eof) (small : Task.costs next ≤ Task.perToken) :
    (w.taken o).cost next < w.cost [t] := by
  have pos := List.length_pos_iff.mpr (Feed.ahead_ne_nil_of_current kind)
  have cheap := Task.cost_pos t
  have whole := Nat.mul_sub Task.perToken w.feed.ahead.length 1
  have enough := Nat.le_mul_of_pos_right Task.perToken pos
  simp only [cost, taken, Feed.tail, List.length_tail, Task.costs_cons, Task.costs_nil]
  omega

theorem cost_taken_nil_lt (o : Observer σ) (w : Walk σ) (t : Task) :
    (w.taken o).cost [] < w.cost [t] := by
  have cheap := Task.cost_pos t
  have fewer := Nat.mul_le_mul_left Task.perToken (Nat.sub_le w.feed.ahead.length 1)
  simp only [cost, taken, Feed.tail, List.length_tail, Task.costs_cons, Task.costs_nil]
  omega

theorem cost_statement_lt {o : Observer σ} {w v : Walk σ} {again t : Task} {next : List Task}
    (loop : again.cost = 1) (h : w.statement o again = .go next v) :
    v.cost next < w.cost [t] := by
  unfold statement at h
  split at h
  · contradiction
  · rename_i form known
    have kind := Form.ofKind?_eq_some_iff.mp known
    obtain ⟨rfl, rfl⟩ := take_go_eq_go h
    refine cost_taken_lt (w := w.entered o (.statement form)) ?_ ?_
    · change w.current.kind ≠ .eof
      simp [kind]
    · have small := form.costs_body
      have newline : (Task.phrase .newline).cost = 4 := rfl
      have close : Task.close.cost = 1 := rfl
      simp only [Task.costs_append, Task.costs_cons, Task.costs_nil]
      omega

theorem cost_copy_lt {o : Observer σ} {w v : Walk σ} {t : Task} {tasks next : List Task}
    (kind : w.current.kind ≠ .eof) (small : Task.costs tasks ≤ Task.perToken)
    (h : w.copy o (.go tasks) = .go next v) : v.cost next < w.cost [t] := by
  obtain ⟨rfl, rfl⟩ := take_go_eq_go h
  exact cost_taken_lt (w := w.written _) kind small

theorem cost_operand_lt {o : Observer σ} {w v : Walk σ} {t : Task} {next : List Task}
    (h : w.operand o = .go next v) : v.cost next < w.cost [t] := by
  unfold operand at h
  split at h
  · rename_i kind
    exact cost_copy_lt (by simp [kind]) (by decide) h
  · rename_i kind
    split at h
    · exact cost_copy_lt (by simp [kind]) (by decide) h
    · contradiction
  · rename_i kind
    exact cost_copy_lt (by simp [kind]) (by decide) h
  · contradiction

theorem kind_ne_eof_of_joins {chain : Chain} {kind : Kind} (h : chain.joins kind = true) :
    kind ≠ .eof := by
  rintro rfl
  cases chain <;> contradiction

theorem cost_step_lt {o : Observer σ} {w v : Walk σ} {t : Task} {next : List Task}
    (h : w.step o t = .go next v) : v.cost next < w.cost [t] := by
  cases t with
  | phrase p =>
    simp only [step, Move.go.injEq] at h
    obtain ⟨rfl, rfl⟩ := h
    have small := p.costs_body
    have close : Task.close.cost = 1 := rfl
    simp only [cost, entered, Task.costs_append, Task.costs_cons, Task.costs_nil, Task.cost]
    omega
  | close | write | writeLine | writeHeader =>
    simp only [step, Move.go.injEq] at h
    obtain ⟨rfl, rfl⟩ := h
    exact Nat.lt_succ_self _
  | expect | lineEnd =>
    simp only [step] at h
    split at h
    · obtain ⟨rfl, rfl⟩ := take_go_eq_go h
      exact cost_taken_nil_lt o w _
    · contradiction
  | name role =>
    simp only [step] at h
    split at h
    · obtain ⟨rfl, same⟩ := name_eq_go (take_eq_go h)
      simpa only [cost, same] using cost_taken_nil_lt o w (.name role)
    · contradiction
  | newlines =>
    simp only [step] at h
    split at h
    · rename_i kind
      obtain ⟨rfl, rfl⟩ := take_go_eq_go h
      exact cost_taken_lt (by simp [kind]) (by decide)
    · simp only [Move.go.injEq] at h
      obtain ⟨rfl, rfl⟩ := h
      exact Nat.lt_succ_self _
  | statements =>
    simp only [step] at h
    split at h
    · simp only [Move.go.injEq] at h
      obtain ⟨rfl, rfl⟩ := h
      exact Nat.lt_succ_self _
    · exact cost_statement_lt rfl h
  | block stop =>
    simp only [step] at h
    split at h
    · obtain ⟨rfl, rfl⟩ := take_go_eq_go h
      exact cost_taken_nil_lt o w _
    · split at h
      · contradiction
      · exact cost_statement_lt rfl h
  | printed =>
    simp only [step, printed] at h
    split at h
    · obtain ⟨rfl, rfl⟩ := take_go_eq_go h
      exact cost_taken_nil_lt o (w.lineWritten _) _
    · simp only [Move.go.injEq] at h
      obtain ⟨rfl, rfl⟩ := h
      exact Nat.add_lt_add_left (by decide) _
  | compared =>
    simp only [step] at h
    split at h
    · rename_i compares
      have joins : Chain.comparison.joins w.current.kind = true := compares
      exact cost_copy_lt (kind_ne_eof_of_joins joins) (by decide) h
    · contradiction
  | chain chain =>
    simp only [step] at h
    split at h
    · rename_i joins
      exact cost_copy_lt (kind_ne_eof_of_joins joins) (by cases chain <;> decide) h
    · simp only [Move.go.injEq] at h
      obtain ⟨rfl, rfl⟩ := h
      exact Nat.lt_succ_self _
  | sign =>
    simp only [step] at h
    split at h
    · obtain ⟨rfl, rfl⟩ := take_go_eq_go h
      exact cost_taken_nil_lt o (w.written _) _
    · simp only [Move.go.injEq] at h
      obtain ⟨rfl, rfl⟩ := h
      exact Nat.lt_succ_self _
  | operand => exact cost_operand_lt h
  | labels =>
    simp only [step, labels] at h
    split at h
    · contradiction
    · simp only [Move.go.injEq] at h
      obtain ⟨rfl, rfl⟩ := h
      exact Nat.lt_succ_self _

/-- The cost of the tasks behind the first is not touched by its step. -/
theorem cost_append_lt {o : Observer σ} {w v : Walk σ} {t : Task} {next : List Task}
    (h : w.step o t = .go next v) (rest : List Task) :
    v.cost (next ++ rest) < w.cost (t :: rest) := by
  have lower := cost_step_lt h
  simp only [cost, Task.costs_append, Task.costs_cons, Task.costs_nil] at lower ⊢
  omega

end YoloLang.Walk
