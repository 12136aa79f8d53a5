import YoloLang.Proofs.Compile
import YoloLang.Proofs.Lockstep
import YoloLang.Proofs.Spacing

/-!
Which fault is reported when a text has a fault and so has the program in front of it. Main
statement: a program that is read up to a fault in its text is stopped by the first fault of the
tokens before this, if that is met before the last of them is taken, and by the fault in the text
otherwise.
-/

namespace YoloLang

open Leaf

/-- Every program that begins with the tokens up to this one mentions its name so. -/
def Mentions (tokens : List Token) (k : Nat) (m : Mention) : Prop :=
  ∀ p : Program, tokens.take (k + 1) <+: p.tokens →
    ∃ l, p.leaves[k]? = some l ∧ l.mention = some m

/-- Whether a fault at this token is met before more than so many tokens come into the window. The
names of steps and of labels are taken before they are looked at. -/
def Fault.MetBefore (n : Nat) (tokens : List Token) (k : Nat) : Fault → Prop
  | .grammar _ => k + 2 ≤ n
  | .naming (.undeclaredVariable _) =>
      Mentions tokens k .operand ∧ k + 2 ≤ n ∨ Mentions tokens k .stepped ∧ k + 3 ≤ n
  | .naming (.duplicateLabel _) => k + 3 ≤ n
  | .naming (.undeclaredLabel _) | .lexing _ | .file _ => False

theorem Fault.MetBefore.room {n k : Nat} {tokens : List Token} {cause : Fault}
    (h : cause.MetBefore n tokens k) : k + 2 ≤ n := by
  cases cause with
  | lexing | file => exact h.elim
  | grammar => exact h
  | naming fault =>
      cases fault with
      | undeclaredLabel => exact h.elim
      | duplicateLabel => exact Nat.le_of_succ_le h
      | undeclaredVariable =>
          obtain ⟨-, room⟩ | ⟨-, room⟩ := h
          · exact room
          · exact Nat.le_of_succ_le room

/-- A step that asks for a token has a turn that takes the current one. -/
theorem Walk.turn_of_asks {σ : Type} {o : Observer σ} {w : Walk σ} {t : Task}
    {x : Walk σ × (Walk σ → Move σ)} (h : w.asks? o t = some x) :
    ∃ r l, t.turn w.current = .ok r ∧ r.taken = some l ∧
      (l.mention = some .operand → l.token.text ∈ w.declarations.vars) := by
  have starts {again : Task} (h : starting o w again = some x) :
      w.current.kind ≠ .eof ∧ ∃ r, Form.turn w.current again = .ok r ∧
        r.taken = some (plain w.current) := by
    obtain ⟨form, known, -⟩ := Option.map_eq_some_iff.mp h
    have kind := Form.ofKind?_eq_some_iff.mp known
    exact ⟨by simp [kind], _, turn_of_form kind again, rfl⟩
  have plainly : (plain w.current).mention = some .operand →
      (plain w.current).token.text ∈ w.declarations.vars := by simp [plain]
  cases t with
  | phrase | close | write | writeLine | writeHeader | labels => contradiction
  | expect | lineEnd | newlines | printed | compared | chain | sign =>
      simp only [asks?] at h
      split at h
      · rename_i kind
        exact ⟨_, _, if_pos kind, rfl, plainly⟩
      · contradiction
  | name role =>
      simp only [asks?] at h
      split at h
      · rename_i kind
        exact ⟨_, _, if_pos kind, rfl, by cases role <;> simp [naming, Role.mention]⟩
      · contradiction
  | statements =>
      obtain ⟨kind, r, turn, taken⟩ := starts h
      exact ⟨r, _, (if_neg kind).trans turn, taken, plainly⟩
  | block stop =>
      simp only [asks?] at h
      split at h
      · rename_i kind
        exact ⟨_, _, if_pos kind, rfl, plainly⟩
      · rename_i other
        obtain ⟨kind, r, turn, taken⟩ := starts h
        exact ⟨r, _, (if_neg other).trans ((if_neg kind).trans turn), taken, plainly⟩
  | operand =>
      simp only [asks?] at h
      simp only [Task.turn]
      cases kind : w.current.kind with
      | number | openParen => exact ⟨_, _, rfl, rfl, plainly⟩
      | identifier =>
          simp only [kind] at h
          split at h
          · rename_i known
            exact ⟨_, _, rfl, rfl, fun _ => known⟩
          · contradiction
      | _ => simp [kind] at h

namespace Standing

variable {σ : Type} {o : Observer σ} {g : Feed} {done : List Leaf} {w v : Walk σ} {t : Task}
  {rest : List Task} {n : Nat}

theorem mentions_of_taken (h : Standing g done w (t :: rest)) {r : Turn} {l : Leaf}
    (turn : t.turn w.current = .ok r) (taken : r.taken = some l) {m : Mention}
    (mention : l.mention = some m) : Mentions g.ahead done.length m :=
  fun _ continues => ⟨l, (h.leaves_of_taken turn taken continues).2, mention⟩

/-- A walk that is stopped with room for the tokens it has met meets its fault in time. -/
theorem metBefore_of_stop (h : Standing g done w (t :: rest)) (clean : g.Clean)
    {fault : Located Fault} (stopped : w.step o t = .stop fault v) {j : Nat} (room : j + 2 ≤ n)
    (place : j = done.length ∧ w.asks? o t = none ∨ j = done.length + 1) :
    fault.cause.MetBefore n g.ahead done.length := by
  obtain ⟨cause, turn, refused⟩ | ⟨r, v', gone, -⟩ | ⟨r, l, cause, v', turn, taken, bars, named⟩ :=
    h.step_cases clean o
  · obtain ⟨rfl, rfl⟩ := Move.stop.inj (refused.symm.trans stopped)
    change done.length + 2 ≤ n
    omega
  · simp [gone] at stopped
  · obtain ⟨rfl, rfl⟩ := Move.stop.inj (named.symm.trans stopped)
    have mentions {m : Mention} := h.mentions_of_taken (m := m) turn taken
    have plainly (same : some (plain w.current) = some l) : False := by
      obtain rfl := Option.some.inj same
      simp [Declarations.objection?, plain] at bars
    cases turns_of_turn h.inner turn with
    | phrase | close | write | writeLine | noNewline | noStatement | value | noLink | unsigned =>
        contradiction
    | expect | lineEnd | newline | statement | stop | inBlock | text | compared | link | signed
    | number | group => exact (plainly taken).elim
    | name role kind =>
        obtain rfl := Option.some.inj taken
        have asks : w.asks? o (.name role) = some _ := if_pos kind
        have room : done.length + 3 ≤ n := by
          obtain ⟨-, still⟩ | more := place
          · simp [asks] at still
          · omega
        cases role with
        | assigned | counter | read | sought => contradiction
        | stepped =>
            obtain ⟨-, rfl⟩ := Declarations.not_mem_vars_of_reads rfl bars
            exact .inr ⟨mentions rfl, room⟩
        | marked =>
            cases cause with
            | duplicateLabel => exact room
            | undeclaredVariable =>
                obtain ⟨reads, -⟩ := Declarations.objection_eq_undeclared.mp bars
                contradiction
            | undeclaredLabel name =>
                exact (Declarations.objection_ne_undeclaredLabel _ _ name bars).elim
    | identifier kind =>
        obtain rfl := Option.some.inj taken
        obtain ⟨-, rfl⟩ := Declarations.not_mem_vars_of_reads rfl bars
        exact .inl ⟨mentions rfl, by omega⟩

/-- No fault is met in time if the walk asks for more tokens than there is room for. -/
theorem not_metBefore_of_asks (h : Standing g done w (t :: rest)) (clean : g.Clean)
    {x : Walk σ × (Walk σ → Move σ)} (asks : w.asks? o t = some x) (last : done.length + 2 = n)
    {k : Nat} {cause : Fault} (first : FirstFault g.ahead k cause) :
    ¬ cause.MetBefore n g.ahead k := by
  intro met
  obtain ⟨r, l, turn, taken, known⟩ := w.turn_of_asks asks
  obtain ⟨p, continues⟩ := h.viable_of_taken clean turn taken
  obtain ⟨before, found⟩ := h.leaves_of_taken turn taken continues
  -- Every leaf up to the one that is taken here is in order, and so is a value that it reads.
  have inOrder {i : Nat} {l' : Leaf} (inside : i < done.length) (at' : p.leaves[i]? = some l') :
      done[i]? = some l' ∧ p.leaves.take i = done.take i := by
    rw [← before]
    refine ⟨by rw [List.getElem?_take_of_lt inside, at'], ?_⟩
    rw [List.take_take, Nat.min_eq_left (Nat.le_of_lt inside)]
  have shorter {i : Nat} (le : i ≤ done.length) :
      g.ahead.take (i + 1) <+: g.ahead.take (done.length + 1) :=
    List.take_prefix_take_left (Nat.succ_le_succ le)
  cases cause with
  | lexing | file => exact met
  | grammar fault =>
      have met : k + 2 ≤ n := met
      have kind := (taken_of_turn h.inner turn taken).2.1
      rw [h.current] at kind
      have inside := (List.getElem?_eq_some_iff.mp (Feed.token_eq_some kind)).1
      obtain ⟨-, -, stuck, -⟩ := first
      rw [if_pos (by omega)] at stuck
      exact stuck ⟨p, (shorter (by omega)).trans continues⟩
  | naming fault =>
      cases fault with
      | undeclaredLabel => exact met
      | duplicateLabel name =>
          have met : k + 3 ≤ n := met
          obtain ⟨-, -, all⟩ := first
          obtain ⟨-, l', at', -, rfl, marked, given⟩ := all p ((shorter (by omega)).trans continues)
          obtain ⟨at', same⟩ := inOrder (by omega) at'
          exact h.orderly.not_marked_before at' marked (same ▸ given)
      | undeclaredVariable name =>
          obtain ⟨-, -, all⟩ := first
          have within : k ≤ done.length := by
            obtain ⟨-, met⟩ | ⟨-, met⟩ := met <;> omega
          obtain ⟨-, l', at', -, rfl, reads, new⟩ := all p ((shorter within).trans continues)
          obtain inside | rfl := Nat.lt_or_eq_of_le within
          · obtain ⟨at', same⟩ := inOrder inside at'
            exact new (same ▸ h.orderly.declared k l' at' reads)
          · obtain ⟨mentions, -⟩ | ⟨-, met⟩ := met
            · obtain ⟨l'', found', mention⟩ := mentions p continues
              obtain rfl := Option.some.inj (found.symm.trans at')
              obtain rfl := Option.some.inj (found.symm.trans found')
              have given := known mention
              rw [h.declarations, Declarations.vars_ofLeaves, List.mem_eraseDups] at given
              rw [before] at new
              exact new given
            · omega

theorem of_reaches (h : Standing g done w [.newlines, .statements]) (clean : g.Clean)
    {v : Walk σ} {ts : List Task} (reaches : Walk.Reaches o (w, [.newlines, .statements]) (v, ts)) :
    ∃ done', Standing g done' v ts := by
  refine Walk.keeps_of_reaches (P := fun x => ∃ done', Standing g done' x.1 x.2) ?_ reaches
    ⟨done, h⟩
  rintro x y ⟨done, h⟩ goes
  cases goes with
  | step gone rest => exact h.step clean gone

end Standing

/-! Two feeds. -/

namespace Feed

theorem BeginsWith.length_le {g : Feed} {tokens : List Token} (h : g.BeginsWith tokens) :
    tokens.length ≤ g.ahead.length := by
  have length := h.2.length_eq
  rw [List.length_take] at length
  omega

/-- A feed that begins with the tokens before a fault is like that of the fault up to there. -/
theorem BeginsWith.alike {f g : Feed} (h : g.BeginsWith f.ahead) : f.Alike f.ahead.length g := by
  obtain ⟨⟨span, ends⟩, agree⟩ := id h
  obtain ⟨length, agrees⟩ := List.forall₂_iff_get.mp agree
  refine ⟨fun _ _ => Nat.le_refl _, fun fault fails => by simp [ends] at fails, fun i inside => ?_⟩
  have same := agrees i inside (length ▸ inside)
  have inside' : i < g.ahead.length := Nat.lt_of_lt_of_le inside h.length_le
  simpa [token, inside, inside'] using same

theorem Barred.two_le {f : Feed} {fault : Located LexFault} (h : f.Barred fault) :
    2 ≤ f.ahead.length := by
  have window := h.window
  rw [barrier?_of_fault h.ending] at window
  by_contra short
  rw [if_pos (by omega)] at window
  contradiction

end Feed

/-- The reading of the tokens before a fault is stopped by the fault that they have by themselves,
or else by the one behind them. -/
theorem run_of_fault {σ τ : Type} {o : Observer σ} {o' : Observer τ} {f g : Feed}
    {fault : Located LexFault} {w : Walk σ} {w' : Walk τ} (barred : f.Barred fault)
    (clean : g.Clean) (begins : g.BeginsWith f.ahead)
    (alike : w.Alike (fun _ _ _ => True) f g 0 w')
    (start : Standing g [] w' [.newlines, .statements]) :
    ∃ e v, w.run o [.newlines, .statements] = (some e, v) ∧
      ((∃ e' v' k, w'.run o' [.newlines, .statements] = (some e', v') ∧
          FirstFault g.ahead k e'.cause ∧ e'.cause.MetBefore f.ahead.length g.ahead k ∧
            e.cause = e'.cause ∧ e.span = some (f.token k).span) ∨
        e = fault.lexing ∧ ∀ k cause, FirstFault g.ahead k cause →
          ¬ cause.MetBefore f.ahead.length g.ahead k) := by
  have keep : Observer.Keep (fun _ _ _ => True) o o' :=
    ⟨fun _ _ => trivial, fun _ => trivial, fun _ _ => trivial⟩
  obtain ⟨i, u, u', us, room, alike', reaches, reaches', parting⟩ :=
    alike.run begins.alike keep barred.two_le [.newlines, .statements]
  obtain ⟨done, standing⟩ := start.of_reaches clean reaches'
  have same : done.length = i := by
    have left := congrArg (·.ahead.length) (standing.feed.symm.trans alike'.feed')
    have most := standing.length_le
    have more := begins.length_le
    simp only [Feed.drop, List.length_drop] at left
    omega
  have run := Walk.run_of_reaches reaches
  have run' := Walk.run_of_reaches reaches'
  cases parting with
  | done =>
      have barred : w.feed.Barred fault := by
        rw [alike.feed]
        exact barred
      obtain ⟨e, v, stopped⟩ := Walk.run_of_barred (o := o) barred [.newlines, .statements]
        (by simp)
      simp [stopped, Walk.run_nil] at run
  | @stop t e v e' v' j stopped stopped' moves more place rest =>
      rw [Walk.run_cons_of_stop stopped] at run
      rw [Walk.run_cons_of_stop stopped'] at run'
      obtain ⟨first, -⟩ := standing.firstFault_of_stop clean stopped'
      have met := standing.metBefore_of_stop clean stopped' more (same ▸ place)
      refine ⟨e, v, run, .inl ⟨e', v', done.length, run', first, met, moves.cause.symm, ?_⟩⟩
      cases moves with
      | stop => rw [same]
      | missing => exact met.elim
  | @asks t x x' goOn goOn' asks asks' between last after rest =>
      have barrier : x.feed.barrier? 2 = some fault := by
        rw [between.feed, Feed.barrier?_drop, last, Feed.barrier?_of_fault barred.ending,
          if_pos (Nat.le_refl _)]
      have stopped : u.step o t = .stop fault.lexing x := by
        rw [Walk.step_of_asks asks, Walk.take, barrier]
      rw [Walk.run_cons_of_stop stopped] at run
      refine ⟨_, x, run, .inr ⟨rfl, fun k cause first => ?_⟩⟩
      exact standing.not_metBefore_of_asks clean asks' (by omega) first

/-! Sources. -/

namespace Reading

variable {σ : Type} {o : Observer σ} {f : Feed} {path : String} {watcher : σ}

/-- A reading, up to where the statements begin. -/
def opening (o : Observer σ) (f : Feed) (path : String) (watcher : σ) : Walk σ :=
  (⟨f, .empty path, .empty, watcher, 0, #[.lexed (f.token 0), .lexed (f.token 1)]⟩ : Walk σ).opened
    o

theorem alike_opening {τ : Type} (o : Observer σ) (o' : Observer τ) {g : Feed} {watcher' : τ} :
    (opening o f path watcher).Alike (fun _ _ _ => True) f g 0 (opening o' g path watcher') :=
  ⟨rfl, rfl, rfl, ⟨rfl, rfl, rfl⟩, rfl, trivial⟩

theorem result_of_statements (window : f.barrier? 1 = none) {e : Located Fault} {v : Walk σ}
    (run : (opening o f path watcher).run o [.newlines, .statements] = (some e, v)) :
    (ofFeed o f (.empty path) watcher).result = .error e := by
  simp only [ofFeed, window]
  refine ofWalk_of_fault (v := v) ?_
  rw [Walk.run_opened, Walk.run_append]
  simp only [opening] at run
  rw [run]

end Reading

theorem tokenize_of_beginsWith {source : String} {tokens : List Token}
    (h : (Feed.ofCursor (.ofSource source)).BeginsWith tokens) :
    tokenize source = .ok (Feed.ofCursor (.ofSource source)).ahead := by
  obtain ⟨⟨span, ends⟩, -⟩ := h
  exact tokenize_eq_ok.mpr ⟨Feed.clean_ofCursor ends, rfl⟩

namespace Compiler

variable {c : Compiler} {source source' : String} {fault : Located LexFault}
  {tokens' : List Token}

/-- How a text that breaks off behind these tokens is stopped, when another one goes on from them
and is lexed: by the fault of the other one, if that is met in time, and else where it breaks
off. -/
inductive StopsAs (tokens tokens' : List Token) (fault : Located LexFault) (e : Located Fault)
    (other : Except (Located Fault) Compilation) : Prop where
  | met (e' : Located Fault) (k : Nat) (failed : other = .error e')
      (first : FirstFault tokens' k e'.cause)
      (early : e'.cause.MetBefore tokens.length tokens' k) (cause : e.cause = e'.cause)
      (place : e.span = tokens[k]?.map Token.span) : StopsAs tokens tokens' fault e other
  | broken (same : e = fault.lexing)
      (late : ∀ k cause, FirstFault tokens' k cause →
        ¬ cause.MetBefore tokens.length tokens' k) : StopsAs tokens tokens' fault e other

/-- How a text with a fault ends, against one without that begins with the same tokens. -/
theorem compileText_of_continues (ends : tokenize source = .error fault)
    (lexed : tokenize source' = .ok tokens')
    (continues : Continues (Feed.ofCursor (.ofSource source)).ahead tokens') :
    ∃ e, (c.compileText source).1 = .error e ∧
      StopsAs (Feed.ofCursor (.ofSource source)).ahead tokens' fault e
        (c.compileText source').1 := by
  have before := Feed.lexed_ofCursor (.ofSource source)
  have ending := tokenize_eq_error.mp ends
  obtain ⟨clean, rfl⟩ := tokenize_eq_ok.mp lexed
  obtain ⟨σ, r, o, watcher, graph, rfl, read⟩ := exists_reading c source
  obtain ⟨τ, r', o', watcher', graph', rfl, read'⟩ := exists_reading c source'
  generalize Feed.ofCursor (.ofSource source) = f at *
  generalize Feed.ofCursor (.ofSource source') = g at *
  cases window : f.barrier? 1 with
  | some fault' =>
      obtain ⟨short, rfl⟩ : f.ahead.length ≤ 1 ∧ fault = fault' := by
        simpa [Feed.barrier?_of_fault ending] using window
      simp only [Reading.ofFeed, window, Except.map] at read
      refine ⟨_, read, .broken rfl fun k cause _ met => ?_⟩
      have room := met.room
      omega
  | none =>
      obtain ⟨span, eof⟩ := clean.ending
      have window' : g.barrier? 1 = none := Feed.barrier?_of_eof eof 1
      obtain ⟨e, v, run, outcome⟩ := run_of_fault ⟨ending, window, fun t mem => (before t mem).2⟩
        clean ⟨clean.ending, continues⟩ (Reading.alike_opening o o')
        (Standing.opened g c.output watcher' _)
      rw [Reading.result_of_statements window run] at read
      refine ⟨e, read, ?_⟩
      obtain ⟨e', v', k, run', first, met, cause, place⟩ | ⟨same, late⟩ := outcome
      · rw [Reading.result_of_statements window' run'] at read'
        have inside : k < f.ahead.length := Nat.lt_of_succ_lt met.room
        refine .met e' k read' first met cause ?_
        rw [place]
        simp [Feed.token, inside]
      · exact .broken same late

/-- Which fault a text is stopped by that breaks off with one behind these tokens. There is a text
that goes on from them and is lexed, and any such text decides it. -/
structure Precedence (c : Compiler) (source : String) (fault : Located LexFault)
    (tokens : List Token) (e : Located Fault) : Prop where
  failed : (c.compileText source).1 = .error e
  short : tokens.length < 2 → e = fault.lexing
  continued : ∃ source' tokens', tokenize source' = .ok tokens' ∧ Continues tokens tokens'
  decided : ∀ source' tokens', tokenize source' = .ok tokens' → Continues tokens tokens' →
    StopsAs tokens tokens' fault e (c.compileText source').1

/-- A text with a fault is stopped by the first fault of the tokens before this, if that is met
before the last two of them are taken, and else by the fault in the text. A text that has been lexed
is never stopped by such a fault. -/
theorem compileText_precedence (c : Compiler) (source : String) :
    (∀ fault, tokenize source = .error fault →
      ∃ e, c.Precedence source fault (Feed.ofCursor (.ofSource source)).ahead e) ∧
      ∀ tokens, tokenize source = .ok tokens → ∀ e, (c.compileText source).1 = .error e →
        ∀ fault, e.cause ≠ .lexing fault := by
  constructor
  · intro fault ends
    obtain ⟨clear, begins⟩ := exists_source (.ofSource source)
    have lexed : tokenize clear = .ok _ := tokenize_of_beginsWith begins
    obtain ⟨e, failed, outcome⟩ := compileText_of_continues (c := c) ends lexed begins.2
    refine ⟨e, failed, ?_, ⟨clear, _, lexed, begins.2⟩, ?_⟩
    · intro short
      cases outcome with
      | met e' k _ _ early =>
          have room := early.room
          omega
      | broken same => exact same
    · intro source' tokens' lexed continues
      obtain ⟨e', failed', outcome'⟩ := compileText_of_continues (c := c) ends lexed continues
      obtain rfl := Except.error.inj (failed'.symm.trans failed)
      exact outcome'
  · intro tokens lexed e failed fault lexing
    obtain ⟨p, k, compiled, -⟩ | ⟨e', i, failed', first, -⟩ := compileText_outcome c lexed
    · simp [compiled] at failed
    · obtain rfl := Except.error.inj (failed'.symm.trans failed)
      rw [lexing] at first
      exact first

-- The name is looked at only with the token behind it in the window.
example :
    (∃ span, ((⟨"out.c", none⟩ : Compiler).compileText "PRINT a\"").1 =
      .error ⟨.lexing .unterminatedString, span⟩) ∧
    ∃ span, ((⟨"out.c", none⟩ : Compiler).compileText "PRINT a\n\"").1 =
      .error ⟨.naming (.undeclaredVariable "a"), span⟩ :=
  ⟨⟨_, by cbv⟩, ⟨_, by cbv⟩⟩

end Compiler

end YoloLang
