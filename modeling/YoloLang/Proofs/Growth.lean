import YoloLang.Proofs.Forest
import YoloLang.Proofs.Standing

/-!
The tree that a walk grows. Between two steps the events so far are those of a stem whose closed
rules all follow their productions, and the tasks to come complete the rules that are open. Main
statement: a step that goes on keeps this.
-/

namespace YoloLang

open YoloLang.Symbol

variable {a : Token} {t : Task} {r : Turn} {ts us : List Task} {ss : List Symbol} {s : Stem}
  {f : Forest} {form : Form}

/-- The tasks to come complete the open rules, with these symbols still to be hung below the
innermost one. -/
def Due : List Task → List Symbol → Stem → Prop
  | [], ss, .root below => Production (.phrase .program) (below.symbols ++ ss)
  | [], _, .rule .. => False
  | .close :: _, _, .root _ => False
  | .close :: ts, ss, .rule outer r below =>
      Production r (below.symbols ++ ss) ∧ Due ts [.rule r] outer
  | t :: ts, ss, s => ∀ xs, t.Spells xs → Due ts (ss ++ xs) s

theorem due_cons (keeps : t ≠ .close) :
    Due (t :: ts) ss s ↔ ∀ xs, t.Spells xs → Due ts (ss ++ xs) s := by
  cases t <;> simp_all [Due]

/-- Symbols still to be hung and symbols that hang already come to the same. -/
theorem due_push : Due ts ss (s.push f) ↔ Due ts (f.symbols ++ ss) s := by
  induction ts generalizing ss with
  | nil => cases s <;> simp [Stem.push, Due, Forest.symbols_append]
  | cons t ts ih =>
      by_cases closes : t = .close
      · subst closes
        cases s <;> simp [Stem.push, Due, Forest.symbols_append]
      · simp [due_cons closes, ih]

theorem due_append (keeps : .close ∉ us) (h : ∀ xs, Spells us xs → Due ts (ss ++ xs) s) :
    Due (us ++ ts) ss s := by
  induction us generalizing ss with
  | nil => simpa using h [] rfl
  | cons u us ih =>
      rw [List.mem_cons, not_or] at keeps
      refine (due_cons (Ne.symm keeps.1)).mpr fun xs first => ih keeps.2 fun ys rest => ?_
      rw [List.append_assoc]
      exact h _ ⟨xs, first, ys, rest, rfl⟩

theorem Phrase.close_not_mem_body (p : Phrase) : .close ∉ p.body := by
  cases p <;> decide

theorem Form.close_not_mem_body (form : Form) : .close ∉ form.body := by
  cases form <;> decide

theorem Due.phrase {p : Phrase} (h : Due (.phrase p :: ts) [] s) :
    Due (p.body ++ .close :: ts) [] (.rule s (.phrase p) .nil) := by
  refine due_append p.close_not_mem_body fun xs spells => ⟨production_of_phrase spells, ?_⟩
  exact (due_cons (by simp)).mp h _ rfl

theorem Due.close (h : Due (.close :: ts) [] s) :
    ∃ outer r below, s = .rule outer r below ∧ Production r below.symbols ∧
      Due ts [] (outer.push (.rule r below .nil)) := by
  cases s with
  | root below => exact h.elim
  | rule outer r below =>
      refine ⟨outer, r, below, rfl, by simpa using h.1, due_push.mpr ?_⟩
      exact h.2

/-- The ways in which a tree grows when a task turns. -/
inductive Grows (a : Token) : Task → Turn → Prop where
  | phrase (p : Phrase) : Grows a (.phrase p) ⟨none, "", p.body ++ [.close]⟩
  | close : Grows a .close ⟨none, "", []⟩
  | statement (form : Form) {again : Task} (kind : a.kind = .keyword form.keyword)
      (shown : again.shown a ⟨some (.plain a), "", form.body ++ [.phrase .newline, .close, again]⟩ =
        [.enter (.statement form), .token a])
      (keeps : again ≠ .close)
      (repeats : ∀ ss, again.Spells ss → again.Spells (.rule (.statement form) :: ss)) :
      Grows a again ⟨some (.plain a), "", form.body ++ [.phrase .newline, .close, again]⟩
  | row {t : Task} {r : Turn} (shown : t.shown a r = r.taken.toList.map fun l => .token l.token)
      (keeps : t ≠ .close) (next : .close ∉ r.next)
      (spells : ∀ ss, Spells r.next ss →
        t.Spells ((r.taken.toList.map fun l => .token l.token.kind) ++ ss)) :
      Grows a t r

theorem grows_of_turns (h : Turns a t r) : Grows a t r := by
  cases h with
  | phrase p => exact .phrase p
  | close => exact .close
  | statement form kind =>
      refine .statement form kind (Task.shown_statements kind) (by simp) ?_
      rintro _ ⟨forms, rfl⟩
      exact ⟨form :: forms, rfl⟩
  | inBlock form kind more =>
      refine .statement form kind (Task.shown_block kind more) (by simp) ?_
      rintro _ ⟨forms, rfl⟩
      exact ⟨form :: forms, rfl⟩
  | noStatement kind =>
      refine .row (Task.shown_noStatement kind) (by simp) (by simp) fun ss spells => ?_
      exact ⟨[], spells⟩
  | stop kind =>
      refine .row (Task.shown_stop kind) (by simp) (by simp) fun ss spells => ?_
      exact ⟨[], by simp_all [statements, Leaf.plain]⟩
  | newline kind =>
      refine .row rfl (by simp) (by simp) fun ss spells => ?_
      obtain ⟨n, rfl⟩ : ∃ n, Symbol.newlines n = ss := by simpa [Task.Spells] using spells
      exact ⟨n + 1, by simp [Symbol.newlines, List.replicate_succ, Leaf.plain, kind]⟩
  | noNewline =>
      refine .row rfl (by simp) (by simp) fun ss spells => ?_
      exact ⟨0, spells⟩
  | @link c joins =>
      refine .row rfl (by simp) (by simp) fun ss spells => ?_
      obtain ⟨signs, all, rfl⟩ : ∃ signs, (∀ k ∈ signs, c.joins k = true) ∧
          Symbol.phrase c.operand :: links c.operand signs = ss := by
        simpa [Task.Spells] using spells
      exact ⟨a.kind :: signs, List.forall_mem_cons.mpr ⟨joins, all⟩, by simp [links, Leaf.plain]⟩
  | noLink =>
      refine .row rfl (by simp) (by simp) fun ss spells => ?_
      exact ⟨[], by simp, spells⟩
  | compared sign =>
      refine .row rfl (by simp) (by simp) fun ss spells => ?_
      exact ⟨a.kind, sign, by simpa [Task.Spells, Leaf.plain] using spells⟩
  | signed sign =>
      refine .row rfl (by simp) (by simp) fun ss spells => ?_
      exact .inr ⟨a.kind, sign, by simpa [Leaf.plain] using spells⟩
  | unsigned =>
      refine .row rfl (by simp) (by simp) fun ss spells => ?_
      exact .inl spells
  | write | writeLine => exact .row rfl (by simp) (by simp) fun ss spells => spells
  | expect kind | name _ kind | lineEnd kind | text kind | number kind | identifier kind =>
      refine .row rfl (by simp) (by simp) fun ss spells => ?_
      obtain rfl := spells
      simp [Task.Spells, Leaf.plain, Leaf.naming, kind]
  | value kind =>
      refine .row rfl (by simp) (by simp) fun ss spells => ?_
      simpa [Task.Spells] using Or.inr (by simpa [Task.Spells] using spells)
  | group kind =>
      refine .row rfl (by simp) (by simp) fun ss spells => ?_
      simpa [Task.Spells, Leaf.plain, kind] using spells

theorem Due.statement {again : Task} (h : Due (again :: ts) [] s)
    (kind : a.kind = .keyword form.keyword) (keeps : again ≠ .close)
    (repeats : ∀ ss, again.Spells ss → again.Spells (.rule (.statement form) :: ss)) :
    Due (form.body ++ [.phrase .newline, .close, again] ++ ts) []
      (.rule s (.statement form) (.row [a])) := by
  have whole : form.body ++ [.phrase .newline, .close, again] ++ ts =
      form.body ++ [.phrase .newline] ++ .close :: again :: ts := by simp
  rw [whole]
  refine due_append (by simp [form.close_not_mem_body]) fun xs spells => ⟨?_, ?_⟩
  · simpa [Forest.row, Forest.symbols, kind] using production_of_form spells
  · refine (due_cons keeps).mpr fun ss more => ?_
    exact (due_cons keeps).mp h _ (repeats ss more)

theorem Due.row (h : Due (t :: ts) [] s) (keeps : t ≠ .close) (next : .close ∉ r.next)
    (spells : ∀ ss, Spells r.next ss →
      t.Spells ((r.taken.toList.map fun l => .token l.token.kind) ++ ss)) :
    Due (r.next ++ ts) [] (s.push (.row (r.taken.toList.map Leaf.token))) := by
  rw [due_push, Forest.symbols_row, List.map_map, List.append_nil]
  exact due_append next fun ss more => (due_cons keeps).mp h _ (spells ss more)

/-! The tree that has grown with a walk. -/

structure Grown (done : List Leaf) (w : Walk (Array Event)) (ts : List Task) (s : Stem) :
    Prop where
  events : w.watcher.toList = s.events
  depth : w.depth = s.depth
  tokens : s.tokens = done.map Leaf.token
  due : Due ts [] s
  derived : s.Derived

theorem Walk.Showed.toList {events : List Event} {w v : Walk (Array Event)}
    (h : Showed Observer.recorder events w v) :
    v.watcher.toList = w.watcher.toList ++ events := by
  rw [h.watcher]
  simp [Observer.recorder]

namespace Grown

variable {done : List Leaf} {w v : Walk (Array Event)}

theorem of_turns (h : Grown done w (t :: ts) s) (turns : Turns w.current t r)
    (showed : Walk.Showed Observer.recorder (t.shown w.current r) w v) :
    ∃ s, Grown (done ++ r.taken.toList) v (r.next ++ ts) s := by
  have events := showed.toList
  have depth := showed.depth
  rw [h.events] at events
  rw [h.depth] at depth
  cases grows_of_turns turns with
  | phrase p =>
      refine ⟨.rule s (.phrase p) .nil, events, depth, ?_, by simpa using h.due.phrase, h.derived,
        trivial⟩
      simp [Stem.tokens, Forest.tokens, h.tokens]
  | close =>
      obtain ⟨outer, rule, below, rfl, production, due⟩ := h.due.close
      refine ⟨outer.push (.rule rule below .nil), ?_, ?_, ?_, due, ?_⟩
      · rw [events, Stem.events_push]
        simp [Task.shown, Stem.events, Forest.events]
      · rw [depth, Stem.depth_push]
        rfl
      · rw [Stem.tokens_push]
        simpa [Stem.tokens, Forest.tokens] using h.tokens
      · obtain ⟨outside, inside⟩ := h.derived
        exact Stem.derived_push.mpr ⟨outside, production, inside, trivial⟩
  | statement form kind shown keeps repeats =>
      rw [shown] at events depth
      refine ⟨.rule s (.statement form) (.row [w.current]), ?_, depth, ?_,
        h.due.statement kind keeps repeats, h.derived, trivial⟩
      · simp [events, Stem.events, Forest.row, Forest.events]
      · simp [Stem.tokens, Forest.tokens_row, h.tokens, Leaf.plain]
  | row shown keeps next spells =>
      rw [shown] at events depth
      refine ⟨s.push (.row (r.taken.toList.map Leaf.token)), ?_, ?_, ?_,
        h.due.row keeps next spells, ?_⟩
      · rw [events, Stem.events_push, Forest.events_row, List.map_map]
        rfl
      · rw [depth, Stem.depth_push]
        cases r.taken <;> rfl
      · simp [Stem.tokens_push, Forest.tokens_row, h.tokens]
      · exact Stem.derived_push.mpr ⟨h.derived, Forest.derived_row _⟩

end Grown
end YoloLang
