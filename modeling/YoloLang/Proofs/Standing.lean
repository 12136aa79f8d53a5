import YoloLang.Proofs.Derivation
import YoloLang.Proofs.Moves

/-!
What holds between two steps of a walk. The leaves that have been read, followed by what the tasks
stand for, are the programs that begin with the tokens up to the current one. Main statements: a
step keeps this, and from it a step that stops says what is wrong with the current token.
-/

namespace YoloLang

open Leaf

namespace Feed

variable {f : Feed}

/-- What is ahead once so many tokens are taken. -/
def drop (f : Feed) (n : Nat) : Feed := { f with ahead := f.ahead.drop n }

theorem tail_drop (n : Nat) : (f.drop n).tail = f.drop (n + 1) := by
  simp [drop, tail]

theorem current_drop (n : Nat) : (f.drop n).current = f.token n := by
  simp [drop, current, token]

/-- A feed of tokens that some text has as lexemes, whatever comes behind them. -/
structure Lexical (f : Feed) : Prop where
  lexed : ∀ t ∈ f.ahead, t.Lexed
  before : ∀ t ∈ f.ahead, t.kind ≠ .eof

/-- A feed without a fault, of tokens that some text has as lexemes. -/
structure Clean (f : Feed) : Prop where
  ending : ∃ span, f.ending = .eof span
  lexed : ∀ t ∈ f.ahead, t.Lexed
  before : ∀ t ∈ f.ahead, t.kind ≠ .eof

theorem Clean.lexical (clean : f.Clean) : f.Lexical := ⟨clean.lexed, clean.before⟩

theorem Lexical.lexed_token (lexical : f.Lexical) (n : Nat) : (f.token n).Lexed := by
  rw [token]
  cases found : f.ahead[n]? with
  | some t => exact lexical.lexed t (List.mem_of_getElem? found)
  | none => exact ⟨[], ⟨.eof, []⟩, rfl, rfl, rfl⟩

theorem token_eq_some {n : Nat} (kind : (f.token n).kind ≠ .eof) :
    f.ahead[n]? = some (f.token n) := by
  cases found : f.ahead[n]? with
  | some t => simp [token, found]
  | none => simp [token, found, Token.eof] at kind

theorem Lexical.eof_of_kind (lexical : f.Lexical) {n : Nat} (kind : (f.token n).kind = .eof) :
    f.ahead.length ≤ n := by
  cases found : f.ahead[n]? with
  | some t =>
      have same : f.token n = t := by simp [token, found]
      exact absurd (same ▸ kind) (lexical.before t (List.mem_of_getElem? found))
  | none => exact List.getElem?_eq_none_iff.mp found

end Feed

/-- What a program shows after its first leaves is what it has in the place of the current token. -/
theorem shows_of_take {f : Feed} {done ls : List Leaf} {p : Program}
    (whole : p.leaves = done ++ ls)
    (agrees : p.tokens.take (done.length + 1) = f.ahead.take (done.length + 1)) :
    Shows (f.token done.length) ls := by
  have next : (ls.map Leaf.token)[0]? = f.ahead[done.length]? := by
    have same := congrArg (·[done.length]?) agrees
    have later : (done.map Leaf.token ++ ls.map Leaf.token)[done.length]? =
        (ls.map Leaf.token)[done.length - (done.map Leaf.token).length]? :=
      List.getElem?_append_right (by simp)
    simpa [List.getElem?_take, Program.tokens, whole, later] using same
  cases ls with
  | nil =>
      have none : f.ahead[done.length]? = none := by simpa using next.symm
      simp [Shows, Feed.token, none, Token.eof]
  | cons l ls =>
      have some : f.ahead[done.length]? = some l.token := by simpa using next.symm
      simp [Shows, Feed.token, some]

theorem take_eq_of_le {α : Type} {xs ys : List α} {m n : Nat} (h : xs.take n = ys.take n)
    (le : m ≤ n) : xs.take m = ys.take m := by
  have same := congrArg (List.take m) h
  rwa [List.take_take, List.take_take, Nat.min_eq_left le] at same

structure Standing {σ : Type} (f : Feed) (done : List Leaf) (w : Walk σ) (ts : List Task) :
    Prop where
  feed : w.feed = f.drop done.length
  read : done.map Leaf.token <+: f.ahead
  guarded : Guarded ts
  sound : ∀ ls x, Gives ts ls x →
    ∃ p : Program, p.leaves = done ++ ls ∧ p.body.code = w.file.code ++ x
  complete : ∀ p : Program,
    p.tokens.take (done.length + 1) = f.ahead.take (done.length + 1) →
    ∃ ls x, p.leaves = done ++ ls ∧ p.body.code = w.file.code ++ x ∧ Gives ts ls x
  settled : ∀ p : Program, done.map Leaf.token <+: p.tokens → done <+: p.leaves
  declarations : w.declarations = .ofLeaves done
  orderly : Orderly done
  header : w.file.header = CText.header w.declarations.vars
  ends : .statements ∈ ts ∨ f.ahead.length ≤ done.length

namespace Standing

variable {σ : Type} {o : Observer σ} {f : Feed} {done : List Leaf} {w v : Walk σ} {t : Task}
  {rest : List Task} {r : Turn}

theorem current (h : Standing f done w rest) : w.current = f.token done.length := by
  rw [Walk.current, h.feed, Feed.current_drop]

theorem inner (h : Standing f done w (t :: rest)) : t.isInner = true := h.guarded.1

theorem ending (h : Standing f done w rest) (clean : f.Clean) :
    ∃ span, w.feed.ending = .eof span := by
  rw [h.feed]
  exact clean.ending

/-- A program that agrees with the current token goes on as the turn of the task says. -/
theorem turn_of_agrees (h : Standing f done w (t :: rest)) {p : Program}
    (agrees : p.tokens.take (done.length + 1) = f.ahead.take (done.length + 1)) :
    ∃ r ls x, t.turn w.current = .ok r ∧ p.leaves = done ++ (r.taken.toList ++ ls) ∧
      p.body.code = w.file.code ++ (r.text ++ x) ∧ Gives (r.next ++ rest) ls x := by
  obtain ⟨_, _, whole, code, gives⟩ := h.complete p agrees
  have shown := shows_of_take whole agrees
  rw [← h.current] at shown
  obtain ⟨r, ls, x, turn, rest, rfl, rfl⟩ := turn_of_gives h.guarded shown gives
  exact ⟨r, ls, x, turn, whole, code, rest⟩

/-- Every continuation of the tasks in the place of a task makes a program. -/
theorem program_of_turn (h : Standing f done w (t :: rest)) (lexical : f.Lexical)
    (turn : t.turn w.current = .ok r) {ls : List Leaf} {x : String}
    (gives : Gives (r.next ++ rest) ls x) :
    ∃ p : Program, p.leaves = done ++ (r.taken.toList ++ ls) ∧
      p.body.code = w.file.code ++ (r.text ++ x) := by
  have lexed : w.current.Lexed := by
    rw [h.current]
    exact lexical.lexed_token done.length
  exact h.sound _ _ (gives_of_turn h.inner lexed turn gives)

/-- With the leaf that is taken one more token has been read. -/
theorem read_taken (h : Standing f done w (t :: rest)) (turn : t.turn w.current = .ok r)
    {l : Leaf} (taken : r.taken = some l) :
    (done ++ [l]).map Leaf.token = f.ahead.take (done.length + 1) := by
  obtain ⟨same, kind, -⟩ := taken_of_turn h.inner turn taken
  rw [h.current] at same kind
  have found := Feed.token_eq_some kind
  have before : f.ahead.take done.length = done.map Leaf.token := by
    simpa using (List.prefix_iff_eq_take.mp h.read).symm
  rw [List.take_add_one, before, found, List.map_append, List.map_singleton, same]
  rfl

theorem agrees_of_taken (h : Standing f done w (t :: rest)) (turn : t.turn w.current = .ok r)
    {l : Leaf} (taken : r.taken = some l) {p : Program}
    (continues : (done ++ [l]).map Leaf.token <+: p.tokens) :
    p.tokens.take (done.length + 1) = f.ahead.take (done.length + 1) := by
  have length : ((done ++ [l]).map Leaf.token).length = done.length + 1 := by simp
  rw [← h.read_taken turn taken, ← length]
  exact (List.prefix_iff_eq_take.mp continues).symm

/-- The statements of a program are read until the tokens end. -/
theorem ends_of_turn (h : Standing f done w (t :: rest)) (lexical : f.Lexical)
    (turn : t.turn w.current = .ok r) :
    .statements ∈ r.next ++ rest ∨ f.ahead.length ≤ done.length := by
  obtain mem | ends := h.ends
  · obtain rfl | mem := List.mem_cons.mp mem
    · cases turns_of_turn h.inner turn with
      | noStatement kind =>
          rw [h.current] at kind
          exact .inr (lexical.eof_of_kind kind)
      | statement => exact .inl (by simp)
    · exact .inl (List.mem_append_right _ mem)
  · exact .inr ends

theorem of_turn (h : Standing f done w (t :: rest)) (lexical : f.Lexical)
    (turn : t.turn w.current = .ok r)
    (free : ∀ l, r.taken = some l → w.declarations.objection? l = none)
    (feed : v.feed = if r.taken.isSome then w.feed.tail else w.feed)
    (wrote : w.Wrote r.taken r.text v) :
    Standing f (done ++ r.taken.toList) v (r.next ++ rest) := by
  have longer : done.length ≤ (done ++ r.taken.toList).length := by simp
  constructor
  case feed =>
    cases taken : r.taken with
    | none => simp [feed, taken, h.feed]
    | some l => simp [feed, taken, h.feed, Feed.tail_drop]
  case read =>
    cases taken : r.taken with
    | none => simpa using h.read
    | some l => exact h.read_taken turn taken ▸ List.take_prefix _ _
  case guarded => exact guarded_of_turn h.guarded turn
  case sound =>
    intro ls x gives
    rw [wrote.code, String.append_assoc, List.append_assoc]
    exact h.program_of_turn lexical turn gives
  case complete =>
    intro p agrees
    obtain ⟨r', ls, x, turn', whole, code, gives⟩ :=
      h.turn_of_agrees (take_eq_of_le agrees (Nat.succ_le_succ longer))
    obtain rfl := Except.ok.inj (turn.symm.trans turn')
    exact ⟨ls, x, by rw [whole, List.append_assoc], by rw [wrote.code, code, String.append_assoc],
      gives⟩
  case settled =>
    intro p continues
    cases taken : r.taken with
    | none => simpa using h.settled p (by simpa [taken] using continues)
    | some l =>
        rw [taken, Option.toList_some] at continues
        obtain ⟨r', ls, x, turn', whole, -, -⟩ :=
          h.turn_of_agrees (h.agrees_of_taken turn taken continues)
        obtain rfl := Except.ok.inj (turn.symm.trans turn')
        exact ⟨ls, by simp [whole, taken]⟩
  case declarations =>
    rw [wrote.declarations, h.declarations]
    cases r.taken with
    | none => simp
    | some l => exact (Declarations.ofLeaves_snoc done l).symm
  case orderly =>
    cases taken : r.taken with
    | none => simpa using h.orderly
    | some l =>
        have none := free l taken
        rw [h.declarations] at none
        exact (Declarations.orderly_snoc_iff h.orderly).mpr none
  case header => exact wrote.header h.header
  case ends =>
    obtain again | ends := h.ends_of_turn lexical turn
    · exact .inl again
    · exact .inr (Nat.le_trans ends longer)

/-- A step refuses the current token, or goes on with it, or stops at the name that it gives. -/
theorem step_cases (h : Standing f done w (t :: rest)) (clean : f.Clean) (o : Observer σ) :
    (∃ fault, t.turn w.current = .error fault ∧ w.step o t = w.refuse fault) ∨
      (∃ (r : Turn) (v : Walk σ), w.step o t = .go r.next v ∧
        Standing f (done ++ r.taken.toList) v (r.next ++ rest)) ∨
      ∃ (r : Turn) (l : Leaf) (fault : NameFault) (v : Walk σ),
        t.turn w.current = .ok r ∧ r.taken = some l ∧
        w.declarations.objection? l = some fault ∧
          w.step o t = .stop ⟨.naming fault, some w.current.span⟩ v := by
  obtain ⟨span, ends⟩ := h.ending clean
  have bar := Feed.barrier?_of_eof ends 2
  cases turn : t.turn w.current with
  | error fault => exact .inl ⟨fault, rfl, Walk.step_of_error h.inner turn⟩
  | ok r =>
      by_cases free : ∀ l, r.taken = some l → w.declarations.objection? l = none
      · obtain ⟨v, gone, feed, wrote, -⟩ :=
          Walk.step_of_ok (o := o) h.inner turn (fun _ => bar) free
        exact .inr (.inl ⟨r, v, gone, h.of_turn clean.lexical turn free feed wrote⟩)
      · simp only [not_forall] at free
        obtain ⟨l, taken, bars⟩ := free
        obtain ⟨fault, bars⟩ := Option.ne_none_iff_exists'.mp bars
        obtain ⟨v, stopped⟩ := Walk.step_of_objection (o := o) h.inner turn bar taken bars
        exact .inr (.inr ⟨r, l, fault, v, rfl, taken, bars, stopped⟩)

/-- A step that goes on keeps what holds before it, whatever comes behind the tokens ahead. -/
theorem of_go (h : Standing f done w (t :: rest)) (lexical : f.Lexical) {next : List Task}
    (gone : w.step o t = .go next v) :
    ∃ r, t.turn w.current = .ok r ∧ next = r.next ∧
      Standing f (done ++ r.taken.toList) v (r.next ++ rest) ∧
      Walk.Showed o (t.shown w.current r) w v := by
  obtain ⟨r, turn, same, free, feed, wrote, showed⟩ := Walk.step_of_go h.inner gone
  exact ⟨r, turn, same, h.of_turn lexical turn free feed wrote, showed⟩

theorem step (h : Standing f done w (t :: rest)) (clean : f.Clean) {next : List Task}
    (gone : w.step o t = .go next v) :
    ∃ done', Standing f done' v (next ++ rest) := by
  obtain ⟨r, -, rfl, kept, -⟩ := h.of_go clean.lexical gone
  exact ⟨_, kept⟩

end Standing
end YoloLang
