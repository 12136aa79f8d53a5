import YoloLang.Walk.Cost

/-!
A whole walk: its tasks one after the other, each replaced by what its step asks for, until none is
left or a fault stops it. A fault leaves every rule that is still open.
-/

namespace YoloLang

variable {σ : Type}

namespace Walk

def run (o : Observer σ) (w : Walk σ) : List Task → Option (Located Fault) × Walk σ
  | [] => (none, w)
  | task :: rest =>
      match h : w.step o task with
      | .stop fault v => (some fault, v)
      | .go next v =>
          have := cost_append_lt h rest
          v.run o (next ++ rest)
termination_by tasks => w.cost tasks

theorem run_nil (o : Observer σ) (w : Walk σ) : w.run o [] = (none, w) := by
  rw [run]

theorem run_cons_of_go {o : Observer σ} {w v : Walk σ} {t : Task} {next : List Task}
    (h : w.step o t = .go next v) (rest : List Task) :
    w.run o (t :: rest) = v.run o (next ++ rest) := by
  rw [run]
  split <;> simp_all

theorem run_cons_of_stop {o : Observer σ} {w v : Walk σ} {t : Task} {fault : Located Fault}
    (h : w.step o t = .stop fault v) (rest : List Task) :
    w.run o (t :: rest) = (some fault, v) := by
  rw [run]
  split <;> simp_all

/-- Tasks in a row are done one row after the other. -/
theorem run_append (o : Observer σ) (w : Walk σ) (xs ys : List Task) :
    w.run o (xs ++ ys) = match w.run o xs with
      | (none, v) => v.run o ys
      | (some fault, v) => (some fault, v) := by
  fun_induction w.run o xs with
  | case1 w => rfl
  | case2 w task rest fault v h => simp [run_cons_of_stop h]
  | case3 w task rest next v h less ih =>
      rw [List.cons_append, run_cons_of_go h, ← List.append_assoc]
      exact ih

end Walk

/-- A program that has been read, or the fault that stopped it, and all that was done on the way. -/
structure Reading (σ : Type) where
  result : Except (Located Fault) Declarations
  file : CFile
  watcher : σ
  journal : Array Note

namespace Reading

/-- The walk over a program, from its first token on. -/
def ofWalk (o : Observer σ) (w : Walk σ) : Reading σ :=
  match w.run o [.phrase .program] with
  | (some fault, v) =>
      let v := v.leftAll o
      ⟨.error fault, v.file, v.watcher, v.journal⟩
  | (none, v) =>
      let d := v.declarations
      ⟨.ok d, v.file, v.watcher, v.journal.push (.parsed d.vars.length d.labels.length)⟩

/-- Reads a program from a feed. The window needs two tokens before anything is done. -/
def ofFeed (o : Observer σ) (feed : Feed) (file : CFile) (watcher : σ) : Reading σ :=
  match feed.barrier? 1 with
  | some fault => ⟨.error fault.lexing, file, watcher, (feed.ahead.map .lexed).toArray⟩
  | none =>
      ofWalk o ⟨feed, file, .empty, watcher, 0, #[.lexed (feed.token 0), .lexed (feed.token 1)]⟩

end Reading
end YoloLang
