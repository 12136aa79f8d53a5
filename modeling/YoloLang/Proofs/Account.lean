import YoloLang.Proofs.Beginnings
import YoloLang.Proofs.Growth
import YoloLang.Proofs.Transport

/-!
What a reading leaves behind, whether a fault stops it or not: the events that were seen, the leaves
that were read, and the header. Main statement: the events are those of one tree of the program,
whatever observer sees them.
-/

namespace YoloLang

open Leaf

namespace Walk

/-- The statements are read with a tree of them, to their end or up to a fault. -/
theorem run_statements {f : Feed} (lexical : f.Lexical) {w : Walk (Array Event)} {s : Stem}
    (start : Standing f [] w [.newlines, .statements])
    (grown : Grown [] w [.newlines, .statements] s) :
    (∃ v done s, w.run Observer.recorder [.newlines, .statements] = (none, v) ∧
        Standing f done v [] ∧ Grown done v [] s) ∨
      ∃ fault v u t rest done s,
        w.run Observer.recorder [.newlines, .statements] = (some fault, v) ∧
          Standing f done u (t :: rest) ∧ Grown done u (t :: rest) s ∧
            u.step Observer.recorder t = .stop fault v := by
  have keeps {w v : Walk (Array Event)} {t : Task} {rest next : List Task}
      (h : ∃ done s, Standing f done w (t :: rest) ∧ Grown done w (t :: rest) s)
      (gone : w.step Observer.recorder t = .go next v) :
      ∃ done s, Standing f done v (next ++ rest) ∧ Grown done v (next ++ rest) s := by
    obtain ⟨done, s, standing, grown⟩ := h
    obtain ⟨r, turn, rfl, kept, showed⟩ := standing.of_go lexical gone
    obtain ⟨s', grown'⟩ := grown.of_turns (turns_of_turn standing.inner turn) showed
    exact ⟨_, s', kept, grown'⟩
  obtain ⟨v, run, done, s, standing, grown⟩ |
      ⟨fault, v, u, t, rest, run, ⟨done, s, standing, grown⟩, stopped⟩ :=
    run_keeps (P := fun w ts => ∃ done s, Standing f done w ts ∧ Grown done w ts s) keeps
      ⟨[], s, start, grown⟩
  · exact .inl ⟨v, done, s, run, standing, grown⟩
  · exact .inr ⟨fault, v, u, t, rest, done, s, run, standing, grown, stopped⟩

theorem toList_leftAll (w : Walk (Array Event)) :
    (w.leftAll Observer.recorder).watcher.toList =
      w.watcher.toList ++ List.replicate w.depth .leave := by
  rw [leftAll]
  generalize w.depth = depth
  induction depth with
  | zero => simp [Nat.repeat]
  | succ depth ih =>
      rw [List.replicate_succ', ← List.append_assoc, ← ih]
      simp [Nat.repeat, left, Observer.recorder]

theorem file_leftAll {σ : Type} (o : Observer σ) (w : Walk σ) :
    (w.leftAll o).file = w.file := by
  rw [leftAll]
  generalize w.depth = depth
  induction depth with
  | zero => rfl
  | succ depth ih => exact ih

end Walk

namespace Reading

/-- These leaves were read, below the program stands this, and the names among the leaves that were
given a value are declared. -/
structure Account (f : Feed) (r : Reading (Array Event)) (below : Forest) (done : List Leaf) :
    Prop where
  events : r.watcher.toList = .enter (.phrase .program) :: (below.events ++ [.leave])
  tokens : below.tokens = done.map Leaf.token
  read : done.map Leaf.token <+: f.ahead
  viable : ∃ p : Program, done <+: p.leaves
  header : r.file.header = CText.header (names .target done).eraseDups
  whole : ∀ d, r.result = .ok d → d = .ofLeaves done ∧ done.map Leaf.token = f.ahead ∧
    Production (.phrase .program) below.symbols ∧ below.Derived

variable {f : Feed} {path : String} {w v : Walk (Array Event)} {done : List Leaf} {s : Stem}

theorem account_of_fault {fault : Located Fault}
    (run : w.run Observer.recorder [.phrase .program] = (some fault, v))
    (events : v.watcher.toList = s.events) (depth : v.depth = s.depth)
    (tokens : s.tokens = done.map Leaf.token) (read : done.map Leaf.token <+: f.ahead)
    (viable : ∃ p : Program, done <+: p.leaves)
    (header : v.file.header = CText.header (names .target done).eraseDups) :
    Account f (ofWalk Observer.recorder w) (s.closed .nil) done := by
  rw [ofWalk_eq_of_fault run]
  constructor
  case events =>
    rw [Stem.events_closed, ← events, ← depth]
    simpa [Forest.events] using Walk.toList_leftAll v
  case tokens => simpa [Stem.tokens_closed, Forest.tokens] using tokens
  case read => exact read
  case viable => exact viable
  case header => exact (congrArg CFile.header (Walk.file_leftAll _ v)).trans header
  case whole => simp

theorem account_of_stop {u : Walk (Array Event)} {t : Task} {rest : List Task}
    {fault : Located Fault} (lexical : f.Lexical)
    (run : w.run Observer.recorder [.phrase .program] = (some fault, v))
    (standing : Standing f done u (t :: rest)) (grown : Grown done u (t :: rest) s)
    (stopped : u.step Observer.recorder t = .stop fault v) :
    ∃ below done, Account f (ofWalk Observer.recorder w) below done := by
  obtain ⟨⟨seen, broken, showed⟩, -, header⟩ := Walk.halted_of_stop stopped
  have events := showed.toList
  have depth := showed.depth
  rw [grown.events] at events
  rw [grown.depth] at depth
  have declared : v.file.header = CText.header (names .target done).eraseDups := by
    rw [header, standing.header, standing.declarations, Declarations.vars_ofLeaves]
  cases broken with
  | before =>
      exact ⟨_, done, account_of_fault run (by simpa using events) depth grown.tokens
        standing.read standing.exists_program declared⟩
  | @within _ form =>
      refine ⟨_, done, account_of_fault (s := .rule s (.statement form) .nil) run events depth ?_
        standing.read standing.exists_program declared⟩
      simpa [Stem.tokens, Forest.tokens] using grown.tokens
  | @behind role kind given =>
      have turn : (Task.name role).turn u.current =
          .ok ⟨some (naming role.mention u.current), role.code u.current.text, []⟩ := if_pos kind
      refine ⟨_, done ++ [naming role.mention u.current],
        account_of_fault (s := s.push (.row [u.current])) run ?_ ?_ ?_ ?_ ?_ ?_⟩
      · rw [events, Stem.events_push, Forest.events_row]
        rfl
      · rw [depth, Stem.depth_push]
        rfl
      · simp [Stem.tokens_push, Forest.tokens_row, grown.tokens, naming]
      · rw [standing.read_taken turn rfl]
        exact List.take_prefix _ _
      · exact standing.exists_program_of_taken lexical turn rfl
      · rw [declared, names_append, names_single, if_neg (by simpa [naming] using given),
          List.append_nil]

theorem grown_opened (f : Feed) (path : String) :
    Grown [] ((begun f (.empty path)).opened Observer.recorder) [.newlines, .statements]
      (.root .nil) := by
  refine ⟨rfl, rfl, rfl, ?_, trivial⟩
  rintro _ ⟨n, rfl⟩ _ ⟨forms, rfl⟩
  exact .program n forms

/-- With no task left only the program is open, and all that stands below it follows the
productions. -/
theorem account_of_end {done : List Leaf} {s : Stem}
    (run : (begun f (.empty path)).run Observer.recorder [.phrase .program] =
      v.run Observer.recorder Walk.closing)
    (standing : Standing f done v []) (grown : Grown done v [] s) :
    ∃ below, Account f (ofWalk Observer.recorder (begun f (.empty path))) below done := by
  obtain ⟨u, closed, still, same, heads, -⟩ := Walk.run_closing (o := Observer.recorder) v
  replace run := run.trans closed
  have declared : u.file.header = CText.header (names .target done).eraseDups := by
    rw [heads, standing.header, standing.declarations, Declarations.vars_ofLeaves]
  have events : u.watcher.toList = s.events := by rw [still.watcher, grown.events]
  have depth : u.depth = s.depth := still.depth.trans grown.depth
  cases missing : v.declarations.missingLabel? with
  | some label =>
      obtain ⟨name, span⟩ := label
      rw [Walk.run_labels_of_missing (same ▸ missing)] at run
      exact ⟨_, account_of_fault run events depth grown.tokens standing.read
        standing.exists_program declared⟩
  | none =>
      rw [Walk.run_labels (same ▸ missing)] at run
      have due := grown.due
      cases s with
      | rule => exact due.elim
      | root below =>
          have all : f.ahead.length ≤ done.length :=
            standing.ends.resolve_left List.not_mem_nil
          have read : done.map Leaf.token = f.ahead := by
            rw [← standing.take_ahead, List.take_of_length_le all]
          refine ⟨below, ?_, grown.tokens, standing.read, standing.exists_program, ?_, ?_⟩
          · simp only [ofWalk, run]
            simp [Walk.left, Observer.recorder, events, Stem.events]
          · simp only [ofWalk, run]
            exact declared
          · intro d result
            rw [(ofWalk_of_none run).1] at result
            obtain rfl := Except.ok.inj result
            exact ⟨same.trans standing.declarations, read, by simpa [Due] using due, grown.derived⟩

theorem exists_account (lexical : f.Lexical) (window : f.barrier? 1 = none) (path : String) :
    ∃ below done, Account f (ofFeed Observer.recorder f (.empty path) #[]) below done := by
  have recorded : ofFeed Observer.recorder f (.empty path) #[] =
      ofWalk Observer.recorder (begun f (.empty path)) := by
    simp only [ofFeed, window, begun]
  have start : Standing f [] ((begun f (.empty path)).opened Observer.recorder)
      [.newlines, .statements] := .opened f path #[] _
  have begun := Walk.run_opened (o := Observer.recorder) (begun f (.empty path))
  rw [Walk.run_append] at begun
  rw [recorded]
  obtain ⟨v, done, s, run, standing, grown⟩ |
      ⟨fault, v, u, t, rest, done, s, run, standing, grown, stopped⟩ :=
    Walk.run_statements lexical start (grown_opened f path)
  · rw [run] at begun
    obtain ⟨below, account⟩ := account_of_end begun standing grown
    exact ⟨below, done, account⟩
  · rw [run] at begun
    exact account_of_stop lexical begun standing grown stopped

/-! The same account for every observer, and for a file with some C text in it. -/

section Observers

variable {σ : Type} {file : CFile} {below : Forest}

theorem Account.watcher
    (h : Account f (ofFeed Observer.recorder f (.empty file.path) #[]) below done)
    (o : Observer σ) (s : σ) :
    (ofFeed o f file s).watcher =
      (Event.enter (.phrase .program) :: (below.events ++ [.leave])).foldl o s := by
  rw [ofFeed_eq_carried, carried, h.events]

theorem Account.of_result
    (h : Account f (ofFeed Observer.recorder f (.empty file.path) #[]) below done)
    {o : Observer σ} {s : σ} {d : Declarations} (result : (ofFeed o f file s).result = .ok d) :
    d = .ofLeaves done ∧ below.tokens = f.ahead ∧
      Production (.phrase .program) below.symbols ∧ below.Derived := by
  rw [ofFeed_eq_carried] at result
  obtain ⟨declarations, all, derived⟩ := h.whole d result
  exact ⟨declarations, h.tokens.trans all, derived⟩

end Observers

/-! Readings of a source. -/

variable {source : String} {a b : Token} {stop : Cursor}

theorem exists_account_of_calls (calls : (Cursor.ofSource source).Calls [a, b] stop)
    (path : String) :
    ∃ below done, Account (.ofCursor (.ofSource source)) (recorded source (.empty path)) below
      done := by
  have window : (Feed.ofCursor (.ofSource source)).barrier? 1 = none :=
    Feed.barrier?_of_lt calls.feed.1 (Nat.lt_succ_self 1)
  exact exists_account (Feed.lexical_ofCursor _) window path

/-- The events of a reading are those of one tree of the program whose tokens are the first ones of
the source, and every observer sees these events. The tree of a program that is read to its end has
all the tokens of the source. -/
theorem events_of_calls (calls : (Cursor.ofSource source).Calls [a, b] stop) (file : CFile) :
    ∃ below : Forest,
      (recorded source file).watcher.toList =
          .enter (.phrase .program) :: (below.events ++ [.leave]) ∧
        below.tokens <+: (Feed.ofCursor (.ofSource source)).ahead ∧
        (∀ t ∈ below.tokens, t.kind ≠ .eof) ∧
        (∀ d, (recorded source file).result = .ok d → tokenize source = .ok below.tokens) ∧
        ∀ {σ : Type} (o : Observer σ) (s : σ),
          (ofFeed o (.ofCursor (.ofSource source)) file s).watcher =
            (Event.enter (.phrase .program) :: (below.events ++ [.leave])).foldl o s := by
  obtain ⟨below, done, account⟩ := exists_account_of_calls calls file.path
  have lexical := Feed.lexical_ofCursor (.ofSource source)
  refine ⟨below, ?_, account.tokens ▸ account.read, ?_, ?_, account.watcher⟩
  · rw [recorded, account.watcher]
    simp [Observer.recorder]
  · intro t mem
    rw [account.tokens] at mem
    exact lexical.before t (account.read.subset mem)
  · intro d result
    rw [(account.of_result result).2.1]
    exact tokenize_of_result result

theorem events_of_unknown_name :
    (∃ fault, (recorded "PRINT a" (.empty "out.c")).result = .error fault) ∧
      ∃ below : Forest, (recorded "PRINT a" (.empty "out.c")).watcher.toList =
        .enter (.phrase .program) :: (below.events ++ [.leave]) := by
  have failed : ∃ fault, (recorded "PRINT a" (.empty "out.c")).result = .error fault :=
    ⟨_, by cbv⟩
  obtain ⟨stop, calls⟩ : ∃ stop, (Cursor.ofSource "PRINT a").Calls
      [⟨"PRINT", .keyword .PRINT, ⟨0, 5, 1, 1⟩⟩, ⟨"a", .identifier, ⟨6, 1, 1, 7⟩⟩] stop :=
    ⟨_, .cons rfl (.cons rfl .nil)⟩
  obtain ⟨below, events, -⟩ := events_of_calls calls (.empty "out.c")
  exact ⟨failed, below, events⟩

end Reading
end YoloLang
