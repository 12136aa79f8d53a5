import YoloLang.Proofs.Reading

/-!
What a walk does not look at: the state of its observer, and the C text that is there before it.
Main statement: with another observer and more text before it a reading does the same.
-/

namespace YoloLang

variable {σ τ : Type} {o : Observer σ} {o' : Observer τ}

/-- This file below the text of another one. -/
def CFile.below (base f : CFile) : CFile :=
  ⟨base.path, base.header ++ f.header, base.code ++ f.code⟩

theorem CFile.below_empty (base : CFile) (path : String) : base.below (.empty path) = base := by
  simp [below, empty]

/-- What one observer sees tells what the other one makes of it. -/
def Observer.Tells (o : Observer σ) (o' : Observer τ) (h : σ → τ) : Prop :=
  ∀ s e, h (o s e) = o' (h s) e

theorem Observer.recorder_tells (o : Observer σ) (s : σ) :
    recorder.Tells o fun events => events.toList.foldl o s := by
  intro events e
  simp [recorder]

namespace Walk

/-- The same walk with another observer, below the text of a file. -/
def carried (h : σ → τ) (base : CFile) (w : Walk σ) : Walk τ :=
  ⟨w.feed, base.below w.file, w.declarations, h w.watcher, w.depth, w.journal⟩

section Carried

variable {h : σ → τ} {base : CFile} {w : Walk σ}

theorem current_carried : (w.carried h base).current = w.current := rfl

theorem entered_carried (tells : o.Tells o' h) (rule : Rule) :
    (w.carried h base).entered o' rule = (w.entered o rule).carried h base := by
  simp [entered, carried, tells w.watcher]

theorem left_carried (tells : o.Tells o' h) :
    (w.carried h base).left o' = (w.left o).carried h base := by
  simp [left, carried, tells w.watcher]

theorem taken_carried (tells : o.Tells o' h) :
    (w.carried h base).taken o' = (w.taken o).carried h base := by
  simp [taken, carried, tells w.watcher]

theorem written_carried (text : String) :
    (w.carried h base).written text = (w.written text).carried h base := by
  simp [written, carried, CFile.write, CFile.below, String.append_assoc]

theorem lineWritten_carried (text : String) :
    (w.carried h base).lineWritten text = (w.lineWritten text).carried h base := by
  simp [lineWritten, carried, CFile.writeLine, CFile.below, String.append_assoc]

theorem headerWritten_carried (text : String) :
    (w.carried h base).headerWritten text = (w.headerWritten text).carried h base := by
  simp [headerWritten, carried, CFile.writeHeader, CFile.below, String.append_assoc]

theorem declared_carried (name : String) :
    (w.carried h base).declared name = (w.declared name).carried h base := by
  by_cases known : name ∈ w.declarations.vars
  · have known' : name ∈ (w.carried h base).declarations.vars := known
    rw [declared, declared, if_pos known, if_pos known']
  · have known' : name ∉ (w.carried h base).declarations.vars := known
    rw [declared, declared, if_neg known, if_neg known', headerWritten_carried]
    rfl

theorem leftAll_carried (tells : o.Tells o' h) :
    (w.carried h base).leftAll o' = (w.leftAll o).carried h base := by
  have left (n : Nat) (w : Walk σ) :
      Nat.repeat (Walk.left o') n (w.carried h base) =
        (Nat.repeat (Walk.left o) n w).carried h base := by
    induction n with
    | zero => rfl
    | succ n ih => exact (congrArg (Walk.left o') ih).trans (left_carried tells)
  exact left w.depth w

end Carried

end Walk

def Move.carried (h : σ → τ) (base : CFile) : Move σ → Move τ
  | .go next w => .go next (w.carried h base)
  | .stop fault w => .stop fault (w.carried h base)

namespace Walk

section Step

variable {h : σ → τ} {base : CFile}

theorem take_carried (tells : o.Tells o' h) (w : Walk σ) {goOn : Walk σ → Move σ}
    {goOn' : Walk τ → Move τ}
    (same : ∀ v : Walk σ, goOn' (v.carried h base) = (goOn v).carried h base) :
    (w.carried h base).take o' goOn' = (w.take o goOn).carried h base := by
  have bar : (w.carried h base).feed.barrier? 2 = w.feed.barrier? 2 := rfl
  cases barred : w.feed.barrier? 2 with
  | some fault => rw [take_of_barred barred, take_of_barred (bar.trans barred), Move.carried]
  | none => rw [take_of_free barred, take_of_free (bar.trans barred), taken_carried tells, same]

theorem take_go_carried (tells : o.Tells o' h) (w : Walk σ) (next : List Task) :
    (w.carried h base).take o' (.go next) = (w.take o (.go next)).carried h base :=
  take_carried tells w fun _ => rfl

theorem copy_carried (tells : o.Tells o' h) (w : Walk σ) (next : List Task) :
    (w.carried h base).copy o' (.go next) = (w.copy o (.go next)).carried h base := by
  rw [copy, written_carried]
  exact take_go_carried tells _ next

theorem statement_carried (tells : o.Tells o' h) (w : Walk σ) (again : Task) :
    (w.carried h base).statement o' again = (w.statement o again).carried h base := by
  rw [statement, statement, current_carried]
  cases Form.ofKind? w.current.kind with
  | none => rfl
  | some form =>
      have entered : (w.carried h base).entered o' (.statement form) =
          (w.entered o (.statement form)).carried h base := entered_carried tells _
      exact (congrArg (take o' · _) entered).trans (take_go_carried tells _ _)

theorem name_carried (w : Walk σ) (token : Token) (role : Role) :
    (w.carried h base).name token role = (w.name token role).carried h base := by
  cases role with
  | assigned | counter =>
      simp only [name, declared_carried, written_carried]
      rfl
  | read =>
      simp only [name, declared_carried, lineWritten_carried]
      rfl
  | sought =>
      simp only [name, lineWritten_carried]
      rfl
  | stepped =>
      simp only [name, written_carried]
      rw [apply_ite (Move.carried h base)]
      rfl
  | marked =>
      simp only [name, lineWritten_carried]
      rw [apply_ite (Move.carried h base)]
      rfl

theorem step_carried (tells : o.Tells o' h) (w : Walk σ) (t : Task) :
    (w.carried h base).step o' t = (w.step o t).carried h base := by
  have take (next : List Task) :
      (w.carried h base).take o' (.go next) = (w.take o (.go next)).carried h base :=
    take_go_carried tells w next
  have copy (next : List Task) :
      (w.carried h base).copy o' (.go next) = (w.copy o (.go next)).carried h base :=
    copy_carried tells w next
  have begin (again : Task) :
      (w.carried h base).statement o' again = (w.statement o again).carried h base :=
    statement_carried tells w again
  cases t with
  | phrase p =>
      rw [step, entered_carried tells]
      rfl
  | close =>
      rw [step, left_carried tells]
      rfl
  | write text =>
      rw [step, written_carried]
      rfl
  | writeLine text =>
      rw [step, lineWritten_carried]
      rfl
  | writeHeader text =>
      rw [step, headerWritten_carried]
      rfl
  | expect | lineEnd | newlines =>
      simp only [step, current_carried, take, apply_ite (Move.carried h base)]
      rfl
  | compared | chain | sign =>
      simp only [step, current_carried, copy, apply_ite (Move.carried h base)]
      rfl
  | statements | block =>
      simp only [step, current_carried, take, begin, apply_ite (Move.carried h base)]
      rfl
  | name role =>
      simp only [step, current_carried, apply_ite (Move.carried h base)]
      rw [take_carried tells w fun v => name_carried v w.current role]
      rfl
  | printed =>
      simp only [step, printed, current_carried, lineWritten_carried, take_go_carried tells,
        apply_ite (Move.carried h base)]
      rfl
  | operand =>
      simp only [step, operand, current_carried, copy]
      split
      · rfl
      · rw [apply_ite (Move.carried h base)]
        rfl
      · rfl
      · rfl
  | labels =>
      have same :
          (w.carried h base).declarations.missingLabel? = w.declarations.missingLabel? := rfl
      simp only [step, labels, same]
      cases w.declarations.missingLabel? <;> rfl

theorem run_carried (tells : o.Tells o' h) (w : Walk σ) (ts : List Task) :
    (w.carried h base).run o' ts = ((w.run o ts).1, (w.run o ts).2.carried h base) := by
  fun_induction w.run o ts with
  | case1 w => rw [run_nil]
  | case2 w t rest fault v stopped =>
      refine run_cons_of_stop ?_ rest
      rw [step_carried tells, stopped, Move.carried]
  | case3 w t rest next v gone less ih =>
      rw [← ih]
      refine run_cons_of_go ?_ rest
      rw [step_carried tells, gone, Move.carried]

end Step

end Walk

namespace Reading

def carried (h : σ → τ) (base : CFile) (r : Reading σ) : Reading τ :=
  ⟨r.result, base.below r.file, h r.watcher, r.journal⟩

theorem ofWalk_carried {h : σ → τ} (tells : o.Tells o' h) (base : CFile) (w : Walk σ) :
    ofWalk o' (w.carried h base) = (ofWalk o w).carried h base := by
  rw [ofWalk, ofWalk, Walk.run_carried tells]
  cases run : w.run o [.phrase .program] with
  | mk stop v =>
      cases stop with
      | none => rfl
      | some fault =>
          change Reading.mk _ _ _ _ = _
          rw [Walk.leftAll_carried tells]
          rfl

theorem ofFeed_carried {h : σ → τ} (tells : o.Tells o' h) (base : CFile) (f : Feed) (file : CFile)
    (s : σ) : ofFeed o' f (base.below file) (h s) = (ofFeed o f file s).carried h base := by
  rw [ofFeed, ofFeed]
  cases f.barrier? 1 with
  | some fault => rfl
  | none =>
      exact ofWalk_carried tells base
        ⟨f, file, .empty, s, 0, #[.lexed (f.token 0), .lexed (f.token 1)]⟩

/-- Every observer makes of a reading what the record of its events tells, and the C text comes
below what is there. -/
theorem ofFeed_eq_carried (o : Observer σ) (f : Feed) (base : CFile) (s : σ) :
    ofFeed o f base s =
      (ofFeed Observer.recorder f (.empty base.path) #[]).carried
        (fun events => events.toList.foldl o s) base := by
  rw [← ofFeed_carried (Observer.recorder_tells o s), CFile.below_empty]
  rfl

end Reading

end YoloLang
