import YoloLang.Proofs.Moments
import YoloLang.Proofs.Precedence

/-!
How long a walk can be. A step takes the current token exactly where it asks for another, never the
end token, and no task is met again before a token is taken. Main statement: a program calls for no
more tokens than its source has, and for a number of steps that these bound.
-/

namespace YoloLang

/-! Tasks of a program. -/

namespace Task

/-- The whole of a program, its header and its last check. -/
def isOuter : Task → Bool
  | .phrase .program | .writeHeader _ | .labels => true
  | _ => false

/-- The tasks that a program can come to. -/
def ofProgram (t : Task) : Bool := t.isInner || t.isOuter

theorem ofProgram_of_isInner {t : Task} (inner : t.isInner = true) : t.ofProgram = true := by
  rw [ofProgram, inner, Bool.true_or]

theorem ofProgram_body (p : Phrase) : (p.body ++ [Task.close]).all ofProgram = true := by
  cases p <;> rfl

theorem ofProgram_form {again : Task} (inner : again.isInner = true) (form : Form) :
    (form.body ++ [Task.phrase .newline, .close, again]).all ofProgram = true := by
  have last : [Task.phrase .newline, .close, again].all ofProgram = true := by
    simp only [List.all_cons, ofProgram_of_isInner inner]
    rfl
  rw [List.all_append, last, Bool.and_true]
  cases form <;> rfl

/-- What an inner task turns into are tasks of a program. -/
theorem ofProgram_of_turns {a : Token} {t : Task} {r : Turn} (turns : Turns a t r)
    (inner : t.isInner = true) : r.next.all ofProgram = true := by
  cases turns with
  | phrase p => exact ofProgram_body p
  | statement form | inBlock form => exact ofProgram_form inner form
  | link =>
      rename_i c _
      cases c <;> rfl
  | _ => rfl

/-- The tasks that do statements in a row. -/
def rowsStatements : Task → Bool
  | .statements | .block _ => true
  | _ => false

/-- The same task, or both do statements in a row. -/
def Recurs (t u : Task) : Prop :=
  u = t ∨ t.rowsStatements = true ∧ u.rowsStatements = true

theorem Recurs.cost {t u : Task} (h : t.Recurs u) : u.cost = t.cost := by
  obtain rfl | ⟨first, again⟩ := h
  · rfl
  · cases t <;> cases u <;> first | contradiction | rfl

end Task

namespace Walk

variable {σ : Type} {o : Observer σ} {w v : Walk σ} {t : Task} {next rest ts : List Task}

/-! One step. -/

/-- A step takes the current token exactly where it asks for another. -/
theorem feed_of_go (gone : w.step o t = .go next v) :
    v.feed = if (w.asks? o t).isSome then w.feed.tail else w.feed := by
  obtain ⟨still, alike⟩ | ⟨u, goOn, asks, -, after⟩ :=
    w.together_self (o := o) (P := fun _ => True) (fun _ _ _ => trivial) trivial t
  · rw [gone] at alike
    cases alike with
    | go _ alike => simpa [still, Feed.drop] using alike.feed
  · have taken := take_eq_go ((step_of_asks asks).symm.trans gone)
    rw [taken] at after
    cases after with
    | go _ alike => simpa [asks, Feed.drop, Feed.tail] using alike.feed

/-- The end token is not taken. -/
theorem kind_of_asks (proper : t.ofProgram = true) (asks : (w.asks? o t).isSome = true) :
    w.current.kind ≠ .eof := by
  obtain ⟨x, asks⟩ := Option.isSome_iff_exists.mp asks
  obtain ⟨r, l, turn, taken, -⟩ := turn_of_asks asks
  obtain inner | outer := Bool.or_eq_true_iff.mp proper
  · exact (taken_of_turn inner turn taken).2.1
  · unfold Task.isOuter at outer
    split at outer <;> contradiction

theorem ofProgram_of_go (proper : t.ofProgram = true) (gone : w.step o t = .go next v) :
    next.all Task.ofProgram = true := by
  obtain inner | outer := Bool.or_eq_true_iff.mp proper
  · obtain ⟨r, turn, rfl, -⟩ := step_of_go inner gone
    exact Task.ofProgram_of_turns (turns_of_turn inner turn) inner
  · unfold Task.isOuter at outer
    split at outer
    · obtain ⟨rfl, -⟩ := Move.go.inj gone
      exact Task.ofProgram_body .program
    · obtain ⟨rfl, -⟩ := Move.go.inj gone
      rfl
    · simp only [step, labels] at gone
      split at gone
      · contradiction
      · obtain ⟨rfl, -⟩ := Move.go.inj gone
        rfl
    · contradiction

theorem ofProgram_of_goes {x y : Walk σ × List Task} (proper : x.2.all Task.ofProgram = true)
    (goes : Goes o x y) : y.2.all Task.ofProgram = true := by
  cases goes with
  | step gone rest =>
      obtain ⟨first, rest⟩ := Bool.and_eq_true_iff.mp proper
      rw [List.all_append, ofProgram_of_go first gone, rest, Bool.true_and]

/-! Tasks that come again. -/

theorem suffix_of_goes {x y : Walk σ × List Task} (goes : Goes o x y) :
    y.1.feed.ahead <:+ x.1.feed.ahead := by
  cases goes with
  | step gone rest =>
      rw [feed_of_go gone]
      split
      · exact List.tail_suffix _
      · exact List.suffix_rfl

theorem cost_of_goes {x y : Walk σ × List Task} (goes : Goes o x y) :
    y.1.cost y.2 < x.1.cost x.2 := by
  cases goes with
  | step gone rest => exact cost_append_lt gone rest

theorem suffix_and_cost {x y : Walk σ × List Task} (h : Relation.TransGen (Goes o) x y) :
    y.1.feed.ahead <:+ x.1.feed.ahead ∧ y.1.cost y.2 < x.1.cost x.2 := by
  induction h with
  | single goes => exact ⟨suffix_of_goes goes, cost_of_goes goes⟩
  | tail _ goes ih =>
      exact ⟨(suffix_of_goes goes).trans ih.1, Nat.lt_trans (cost_of_goes goes) ih.2⟩

/-- A task that comes again while it is still to be finished, or in a further round, costs no less
than before, so a token has been taken. -/
theorem taken_of_recurs {u : Task} {inner : List Task}
    (h : Relation.TransGen (Goes o) (w, t :: rest) (v, u :: (inner ++ rest)))
    (recurs : t.Recurs u) :
    ∃ taken, taken ≠ [] ∧ w.feed.ahead = taken ++ v.feed.ahead := by
  obtain ⟨⟨taken, whole⟩, lower⟩ := suffix_and_cost h
  refine ⟨taken, ?_, whole.symm⟩
  rintro rfl
  have same : v.feed.ahead = w.feed.ahead := whole
  have cost := recurs.cost
  simp only [Walk.cost, same, Task.costs_cons, Task.costs_append] at lower
  omega

/-! Whole walks. -/

/-- How often a walk asks for a token, with the call that a fault stops. -/
def requests (o : Observer σ) (w : Walk σ) : List Task → Nat
  | [] => 0
  | task :: rest =>
      match h : w.step o task with
      | .stop _ _ => (w.asks? o task).isSome.toNat
      | .go next v =>
          have := cost_append_lt h rest
          (w.asks? o task).isSome.toNat + v.requests o (next ++ rest)
termination_by tasks => w.cost tasks

/-- A walk of so many steps. There is no answer if tasks are left over then. -/
def runWithin (o : Observer σ) :
    Nat → Walk σ → List Task → Option (Option (Located Fault) × Walk σ)
  | _, w, [] => some (none, w)
  | 0, _, _ :: _ => none
  | fuel + 1, w, task :: rest =>
      match w.step o task with
      | .stop fault v => some (some fault, v)
      | .go next v => runWithin o fuel v (next ++ rest)

/-- No walk takes more steps than its tasks and its tokens cost. -/
theorem runWithin_of_cost {fuel : Nat} (enough : w.cost ts ≤ fuel) :
    w.runWithin o fuel ts = some (w.run o ts) := by
  fun_induction runWithin o fuel w ts with
  | case1 => rw [run_nil]
  | case2 w t rest =>
      have cheap := Task.cost_pos t
      simp only [cost, Task.costs_cons] at enough
      omega
  | case3 fuel w t rest fault v stopped => rw [run_cons_of_stop stopped]
  | case4 fuel w t rest next v gone ih =>
      rw [run_cons_of_go gone]
      have lower := cost_append_lt gone rest
      exact ih (by omega)

theorem toNat_asks_le (proper : t.ofProgram = true) :
    (w.asks? o t).isSome.toNat ≤ w.feed.ahead.length := by
  cases asks : (w.asks? o t).isSome with
  | false => exact Nat.zero_le _
  | true =>
      exact List.length_pos_iff.mpr (Feed.ahead_ne_nil_of_current (kind_of_asks proper asks))

/-- Each token ahead is asked for once at most. -/
theorem requests_le (proper : ts.all Task.ofProgram = true) :
    w.requests o ts ≤ w.feed.ahead.length := by
  fun_induction requests o w ts with
  | case1 => exact Nat.zero_le _
  | case2 w t rest fault v stopped =>
      exact toNat_asks_le (Bool.and_eq_true_iff.mp proper).1
  | case3 w t rest next v gone less ih =>
      have few := ih (ofProgram_of_goes proper (.step gone rest))
      have one := toNat_asks_le (o := o) (w := w) (Bool.and_eq_true_iff.mp proper).1
      rw [feed_of_go gone] at few
      cases asks : (w.asks? o t).isSome with
      | false => simpa [asks] using few
      | true =>
          simp only [asks, if_true, Feed.tail, List.length_tail, Bool.toNat_true] at few one ⊢
          omega

/-- The walk over the program of a source ends, after a number of steps that the number of its
tokens bounds. It asks at most as often for a token as there are tokens. It takes a token exactly
where it asks for another, which it never does at the end token. Wherever a task comes again, in a
further round of its loop or within itself, at least one token has been taken since. -/
theorem program_ends (source : String) (o : Observer σ) (w : Walk σ) :
    let start := { w with feed := Feed.ofCursor (.ofSource source) }
    let tokens := start.feed.ahead
    let tasks := [Task.phrase .program]
    start.runWithin o (Task.perToken * tokens.length + Phrase.program.cost) tasks =
        some (start.run o tasks) ∧
      start.requests o tasks ≤ tokens.length ∧
      ∀ v t rest, Reaches o (start, tasks) (v, t :: rest) →
        ((v.asks? o t).isSome → v.current.kind ≠ .eof) ∧
        (∀ next u, v.step o t = .go next u →
          u.feed = if (v.asks? o t).isSome then v.feed.tail else v.feed) ∧
        ∀ v' t' inner, t.Recurs t' →
          Relation.TransGen (Goes o) (v, t :: rest) (v', t' :: (inner ++ rest)) →
            ∃ taken, taken ≠ [] ∧ v.feed.ahead = taken ++ v'.feed.ahead := by
  intro start tokens tasks
  have proper : tasks.all Task.ofProgram = true := rfl
  refine ⟨runWithin_of_cost (Nat.le_refl _), requests_le proper, ?_⟩
  intro v t rest reached
  have kept := keeps_of_reaches (P := fun x => x.2.all Task.ofProgram = true) ofProgram_of_goes
    reached proper
  refine ⟨kind_of_asks (Bool.and_eq_true_iff.mp kept).1, fun next u gone => feed_of_go gone, ?_⟩
  intro v' t' inner recurs goes
  exact taken_of_recurs goes recurs

end Walk
end YoloLang
