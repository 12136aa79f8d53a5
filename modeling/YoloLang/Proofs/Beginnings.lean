import Mathlib
import YoloLang.Proofs.Feed
import YoloLang.Proofs.Moments
import YoloLang.Proofs.Tiling

/-!
Sources that begin alike. Main statement: two sources with the same first tokens are read in the
same way until a token behind these is asked for, and a fault that is met by then in one is met in
the other.
-/

namespace YoloLang

/-! Sources with the same first tokens. -/

namespace Cursor

open Lexeme

variable {c next stop : Cursor} {t : Token} {ts : List Token}

theorem Calls.eof_of_nil (h : Calls c ts stop) (none : c.rest = []) :
    ∀ t ∈ ts, t.kind = .eof ∧ t.text = "" := by
  induction h with
  | nil => simp
  | @cons c next stop t ts call more ih =>
      rw [nextToken_of_nil none] at call
      obtain ⟨rfl, rfl⟩ := call
      exact List.forall_mem_cons.mpr ⟨⟨rfl, rfl⟩, ih none⟩

/-- So many calls show the first tokens of the feed, and no fault comes before their end. -/
theorem Calls.feed (h : Calls c ts stop) :
    (∀ fault, (Feed.ofCursor c).ending = .fault fault →
        ts.length ≤ (Feed.ofCursor c).ahead.length) ∧
      ∀ i (inside : i < ts.length), ((Feed.ofCursor c).token i).agrees ts[i] = true := by
  induction h with
  | nil => simp
  | @cons c next stop t ts call more ih =>
      by_cases kind : t.kind = .eof
      · obtain ⟨none, same⟩ := rest_of_eof call kind
        have text : t.text = "" := congrArg Token.text same
        have all := List.forall_mem_cons.mpr ⟨⟨kind, text⟩, more.eof_of_nil none⟩
        rw [Feed.ofCursor_of_eof call kind]
        refine ⟨by simp, fun i inside => ?_⟩
        obtain ⟨kind, text⟩ := all _ (List.getElem_mem inside)
        exact Token.agrees_iff.mpr ⟨kind.symm, text.symm⟩
      · rw [Feed.ofCursor_of_call call kind]
        refine ⟨fun fault ends => Nat.succ_le_succ (ih.1 fault ends), fun i inside => ?_⟩
        cases i with
        | zero => exact Token.agrees_iff.mpr ⟨rfl, rfl⟩
        | succ i => simpa [Feed.token] using ih.2 i (Nat.lt_of_succ_lt_succ inside)

end Cursor

/-- Sources whose first tokens agree have feeds that begin alike. -/
theorem Feed.alike_of_calls {c c' stop stop' : Cursor} {ts ts' : List Token}
    (calls : c.Calls ts stop) (calls' : c'.Calls ts' stop')
    (agree : List.Forall₂ (fun a b => a.agrees b = true) ts ts') :
    (Feed.ofCursor c).Alike ts.length (Feed.ofCursor c') := by
  obtain ⟨length, agrees⟩ := List.forall₂_iff_get.mp agree
  refine ⟨calls.feed.1, length ▸ calls'.feed.1, fun i inside => ?_⟩
  have left := Token.agrees_iff.mp (calls.feed.2 i inside)
  have between := Token.agrees_iff.mp (agrees i inside (length ▸ inside))
  have right := Token.agrees_iff.mp (calls'.feed.2 i (length ▸ inside))
  exact Token.agrees_iff.mpr ⟨left.1.trans (between.1.trans right.1.symm),
    left.2.trans (between.2.trans right.2.symm)⟩

/-! Readings of sources. -/

namespace Reading

/-- The reading of a source with all that an observer can see of it. -/
def recorded (source : String) (file : CFile) : Reading (Array Event) :=
  ofFeed Observer.recorder (.ofCursor (.ofSource source)) file #[]

def begun (f : Feed) (file : CFile) : Walk (Array Event) :=
  ⟨f, file, .empty, #[], 0, #[.lexed (f.token 0), .lexed (f.token 1)]⟩

/-- The moments of this reading. -/
def moments (source : String) (file : CFile) : List (Walk (Array Event)) :=
  let f := Feed.ofCursor (.ofSource source)
  match f.barrier? 1 with
  | some _ => []
  | none => (begun f file).moments Observer.recorder [.phrase .program]

variable {f g : Feed} {m : Nat} {file : CFile} {fault : Located Fault}

theorem alike_begun : (begun f file).Alike Recorded f g 0 (begun g file) :=
  ⟨rfl, rfl, rfl, ⟨rfl, rfl, rfl⟩, rfl, .nil, rfl, rfl⟩

theorem ofWalk_eq_of_fault {σ : Type} {o : Observer σ} {w v : Walk σ}
    (h : w.run o [.phrase .program] = (some fault, v)) :
    ofWalk o w =
      ⟨.error fault, (v.leftAll o).file, (v.leftAll o).watcher, (v.leftAll o).journal⟩ := by
  simp [ofWalk, h]

theorem ofWalk_of_error {σ : Type} {o : Observer σ} {w : Walk σ}
    (h : (ofWalk o w).result = .error fault) :
    ∃ v, w.run o [.phrase .program] = (some fault, v) := by
  cases run : w.run o [.phrase .program] with
  | mk stop v =>
      cases stop with
      | none => simp [(ofWalk_of_none run).1] at h
      | some fault' =>
          rw [ofWalk_of_fault run] at h
          exact ⟨v, by rw [Except.error.inj h]⟩

/-- A walk that is not stopped by the text where it asks for a token takes it, and gives none of the
tokens back. -/
theorem consumed_of_asks {u v last : Walk (Array Event)} {t : Task} {rest : List Task}
    {goOn : Walk (Array Event) → Move (Array Event)}
    (asks : u.asks? Observer.recorder t = some (v, goOn))
    (late : m ≤ consumed (goOn (v.taken Observer.recorder)).walk.watcher + 1)
    (run : u.run Observer.recorder (t :: rest) = (some fault, last))
    (atToken : fault.cause.AtToken) :
    m ≤ consumed (last.leftAll Observer.recorder).watcher + 1 := by
  have taken := Walk.step_of_asks asks
  rw [Walk.take] at taken
  split at taken
  · rw [Walk.run_cons_of_stop taken] at run
    obtain ⟨rfl, rfl⟩ := run
    exact absurd rfl (atToken.not_lexing _)
  · have all := Walk.watcher_of_first le_consumed_push (taken ▸ late) rest
    rw [run] at all
    exact Walk.watcher_of_leftAll le_consumed_push all

/-- A fault at a token is met by both readings, unless the last of the tokens is taken before. -/
theorem ofWalk_alike (feeds : f.Alike m g) (two : 2 ≤ m)
    (failed : (ofWalk Observer.recorder (begun f file)).result = .error fault)
    (atToken : fault.cause.AtToken)
    (room : consumed (ofWalk Observer.recorder (begun f file)).watcher + 2 ≤ m) :
    ∃ fault', (ofWalk Observer.recorder (begun g file)).result = .error fault' ∧
      fault'.cause = fault.cause ∧
      List.Forall₂ Event.Alike (ofWalk Observer.recorder (begun f file)).watcher.toList
        (ofWalk Observer.recorder (begun g file)).watcher.toList ∧
      (ofWalk Observer.recorder (begun f file)).file =
        (ofWalk Observer.recorder (begun g file)).file := by
  obtain ⟨last, run⟩ := ofWalk_of_error failed
  rw [ofWalk_eq_of_fault run] at room ⊢
  obtain ⟨i, u, u', us, -, alike, reaches, reaches', parting⟩ :=
    (alike_begun (f := f) (g := g)).run feeds keep_recorder two [.phrase .program]
  replace run := (Walk.run_of_reaches reaches).symm.trans run
  cases parting with
  | done =>
      simp [Walk.run_nil] at run
  | stop stopped stopped' alike' room' place rest =>
      rw [Walk.run_cons_of_stop stopped] at run
      obtain ⟨rfl, rfl⟩ := run
      have run' := (Walk.run_of_reaches reaches').trans (Walk.run_cons_of_stop stopped' rest)
      have left := alike'.walk.leftAll keep_recorder
      rw [ofWalk_eq_of_fault run']
      exact ⟨_, rfl, alike'.cause, left.watcher.alike, left.file⟩
  | @asks t v v' goOn goOn' asks asks' alike' last' after rest =>
      have late := consumed_of_asks asks (m := m) (by rw [after.walk.watcher.left]; omega) run
        atToken
      simp only at room
      omega

/-- Two sources with the same first tokens have the same moments until the last but one of these
tokens is asked for. A fault that is met by then in one is met in the other, with the same events
and the same C text. -/
theorem recorded_of_calls {source source' : String} {tokens tokens' : List Token}
    {stop stop' : Cursor}
    (calls : (Cursor.ofSource source).Calls tokens stop)
    (calls' : (Cursor.ofSource source').Calls tokens' stop')
    (agree : List.Forall₂ (fun a b => a.agrees b = true) tokens tokens') (two : 2 ≤ tokens.length)
    (file : CFile) :
    List.Forall₂ Walk.Same (Walk.early tokens.length (moments source file))
        (Walk.early tokens.length (moments source' file)) ∧
      ∀ fault, (recorded source file).result = .error fault → fault.cause.AtToken →
        consumed (recorded source file).watcher + 2 ≤ tokens.length →
          ∃ fault', (recorded source' file).result = .error fault' ∧
            fault'.cause = fault.cause ∧ fault'.message = fault.message ∧
            List.Forall₂ Event.Alike (recorded source file).watcher.toList
              (recorded source' file).watcher.toList ∧
            (recorded source file).file = (recorded source' file).file := by
  have feeds := Feed.alike_of_calls calls calls' agree
  have window := Feed.barrier?_of_lt feeds.left two
  have window' := Feed.barrier?_of_lt feeds.right two
  constructor
  · simp only [moments, window, window']
    exact alike_begun.early_moments feeds two _
  · intro fault failed atToken room
    simp only [recorded, ofFeed, window, window'] at failed room ⊢
    obtain ⟨fault', failed', cause, same⟩ := ofWalk_alike feeds two failed atToken room
    exact ⟨fault', failed', cause, congrArg Fault.message cause, same⟩

set_option maxRecDepth 2000 in
theorem fault_of_unclosed_string :
    ∃ fault, (recorded "PRINT  a\n\"" (.empty "out.c")).result = .error fault ∧
      fault.cause = .naming (.undeclaredVariable "a") := by
  have failed : ∃ span, (recorded "PRINT a\nGOTO" (.empty "out.c")).result =
      .error ⟨.naming (.undeclaredVariable "a"), span⟩ := ⟨_, by cbv⟩
  have one : consumed (recorded "PRINT a\nGOTO" (.empty "out.c")).watcher = 1 := by cbv
  obtain ⟨stop, calls⟩ : ∃ stop, (Cursor.ofSource "PRINT a\nGOTO").Calls
      [⟨"PRINT", .keyword .PRINT, ⟨0, 5, 1, 1⟩⟩, ⟨"a", .identifier, ⟨6, 1, 1, 7⟩⟩,
        ⟨"\n", .newline, ⟨7, 1, 1, 8⟩⟩] stop := ⟨_, .cons rfl (.cons rfl (.cons rfl .nil))⟩
  obtain ⟨stop', calls'⟩ : ∃ stop, (Cursor.ofSource "PRINT  a\n\"").Calls
      [⟨"PRINT", .keyword .PRINT, ⟨0, 5, 1, 1⟩⟩, ⟨"a", .identifier, ⟨7, 1, 1, 8⟩⟩,
        ⟨"\n", .newline, ⟨8, 1, 1, 9⟩⟩] stop := ⟨_, .cons rfl (.cons rfl (.cons rfl .nil))⟩
  have agree := recorded_of_calls calls calls' (.cons rfl (.cons rfl (.cons rfl .nil))) (by decide)
    (.empty "out.c")
  obtain ⟨span, failed⟩ := failed
  obtain ⟨fault, failed', cause, -⟩ := agree.2 _ failed trivial (by rw [one]; decide)
  exact ⟨fault, failed', cause⟩

end Reading
end YoloLang
