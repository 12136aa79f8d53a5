import YoloLang.Proofs.LineByLine
import YoloLang.Proofs.Precedence

/-!
The bodies that are open behind a row of tokens: of the branches and loops that have begun and not
ended. Main statement: a walk that has taken these tokens has as many blocks to finish, the
innermost first, and behind the end of a line nothing but the end of a block can be missing.
-/

namespace YoloLang

/-! Open bodies. -/

namespace Keyword

/-- The keyword that ends the body which this one begins. -/
def bodyEnd? : Keyword → Option Keyword
  | .IF => some .ENDIF
  | .WHILE => some .ENDWHILE
  | .FOR => some .ENDFOR
  | _ => none

def endsBody (k : Keyword) : Bool := k ∈ [.ENDIF, .ENDWHILE, .ENDFOR]

end Keyword

/-- What is open once a token of this kind has come. -/
def Kind.opening (stops : List Keyword) : Kind → List Keyword
  | .keyword k =>
      match k.bodyEnd? with
      | some stop => stop :: stops
      | none => if k.endsBody then stops.tail else stops
  | _ => stops

/-- The keywords that end the bodies which are open behind these tokens, the innermost first. -/
def openBodies (tokens : List Token) : List Keyword :=
  tokens.foldl (fun stops t => t.kind.opening stops) []

theorem openBodies_snoc (tokens : List Token) (t : Token) :
    openBodies (tokens ++ [t]) = t.kind.opening (openBodies tokens) := by
  rw [openBodies, List.foldl_append]
  rfl

/-- A token of this kind begins or ends a body. -/
def Kind.turnsBody : Kind → Bool
  | .keyword k => k.bodyEnd?.isSome || k.endsBody
  | _ => false

theorem Kind.opening_of_not_turnsBody {k : Kind} (h : k.turnsBody = false) (stops : List Keyword) :
    k.opening stops = stops := by
  cases k with
  | keyword k => cases k <;> first | rfl | contradiction
  | _ => rfl

/-! The tasks of a walk. -/

namespace Task

/-- The blocks that are to be finished. -/
def stops : List Task → List Keyword
  | [] => []
  | .block stop :: ts => stop :: stops ts
  | _ :: ts => stops ts

/-- The tokens that are expected within a statement neither end a line nor begin or end a body. -/
def tame : Task → Bool
  | .expect k => k ≠ .newline && !k.turnsBody
  | .block stop => stop.endsBody
  | _ => true

def endsLine : Task → Bool
  | .phrase .newline | .lineEnd | .newlines => true
  | _ => false

/-- A row of tasks that newlines alone are taken for, up to where a statement can begin. -/
def Rested : List Task → Prop
  | [] | .statements :: _ | .block _ :: _ => True
  | .newlines :: ts | .close :: ts | .write _ :: ts | .writeLine _ :: ts => Rested ts
  | _ :: _ => False

/-- Behind every end of a line a statement can begin, and behind the statements of the program there
is nothing. -/
def Lined : List Task → Prop
  | [] => True
  | t :: ts =>
      t.tame = true ∧ (t.endsLine = true → Rested ts) ∧ (t = .statements → ts = []) ∧ Lined ts

/-! What a statement puts in its place. -/

variable {a : Token} {t again : Task} {r : Turn} {rest : List Task}

theorem lined_body {ts : List Task} (form : Form) (lined : Lined ts) : Lined (form.body ++ ts) := by
  cases form <;>
    simp [Form.body, Form.condition, Form.blockBody, Lined, tame, endsLine, Rested, lined,
      Kind.turnsBody, Keyword.bodyEnd?, Keyword.endsBody]

theorem lined_form (form : Form) (lined : Lined (again :: rest)) (begins : Rested (again :: rest)) :
    Lined (form.body ++ [.phrase .newline, .close, again] ++ rest) := by
  rw [List.append_assoc]
  refine lined_body form ⟨rfl, fun _ => begins, ?_, rfl, ?_, ?_, lined⟩
  all_goals simp [endsLine]

/-- A statement that has a body opens it, with a block to finish. -/
theorem stops_form (form : Form) (rest : List Task) :
    stops (form.body ++ [.phrase .newline, .close, again] ++ rest) =
      (Kind.keyword form.keyword).opening (stops (again :: rest)) := by
  have line : stops (.phrase .newline :: .close :: again :: rest) = stops (again :: rest) := rfl
  rw [List.append_assoc, ← line]
  cases form <;> rfl

/-! The turn of a task. -/

theorem lined_of_turns (turns : Turns a t r) (inner : t.isInner = true)
    (lined : Lined (t :: rest)) : Lined (r.next ++ rest) := by
  obtain ⟨-, line, last, behind⟩ := id lined
  cases turns with
  | phrase p =>
      cases p with
      | program => contradiction
      | newline => simp [Phrase.body, Lined, tame, endsLine, Rested, line rfl, behind]
      | _ =>
          simp [Phrase.body, Lined, tame, endsLine, behind, Kind.turnsBody, Keyword.bodyEnd?,
            Keyword.endsBody]
  | statement form =>
      obtain rfl := last rfl
      exact lined_form form lined trivial
  | inBlock form => exact lined_form form lined trivial
  | newline => exact lined
  | @link c => cases c <;> simp [Chain.operand, Lined, tame, endsLine, behind]
  | value | compared | group => simp [Lined, tame, endsLine, Kind.turnsBody, behind]
  | _ => exact behind

theorem turnsBody_of_joins {c : Chain} {k : Kind} (joins : c.joins k = true) :
    k.turnsBody = false := by
  cases k with
  | keyword => cases c <;> contradiction
  | _ => rfl

/-- The bodies change with the token that is taken. -/
theorem stops_of_turns (rest : List Task) (turns : Turns a t r) (tame : t.tame = true) :
    stops (r.next ++ rest) =
      if r.taken.isSome then a.kind.opening (stops (t :: rest)) else stops (t :: rest) := by
  cases turns with
  | phrase p => cases p <;> rfl
  | expect kind =>
      have still : a.kind.turnsBody = false := by
        rw [kind]
        simpa using (Bool.and_eq_true_iff.mp tame).2
      exact (Kind.opening_of_not_turnsBody still _).symm
  | statement form kind | inBlock form kind =>
      simp only [kind, Option.isSome_some, if_true]
      exact stops_form form rest
  | @stop stop kind =>
      simp only [kind, Option.isSome_some, if_true]
      cases stop <;> first | rfl | contradiction
  | compared joins =>
      exact (Kind.opening_of_not_turnsBody (turnsBody_of_joins (c := .comparison) joins) _).symm
  | signed joins =>
      exact (Kind.opening_of_not_turnsBody (turnsBody_of_joins (c := .sum) joins) _).symm
  | link joins => exact (Kind.opening_of_not_turnsBody (turnsBody_of_joins joins) _).symm
  | name _ kind | lineEnd kind | newline kind | text kind | number kind | identifier kind
  | group kind =>
      simp only [kind, Option.isSome_some, if_true]
      rfl
  | _ => rfl

/-- Without a token only what needs none is done. -/
theorem rested_of_still (turns : Turns a t r) (still : r.taken = none)
    (lined : Lined (t :: rest)) (rested : Rested (t :: rest)) : Rested (r.next ++ rest) := by
  cases turns with
  | noStatement =>
      obtain rfl := lined.2.2.1 rfl
      trivial
  | close | write | writeLine | noNewline => exact rested
  | phrase | value | noLink | unsigned => exact rested.elim
  | _ => contradiction

/-- Behind the end of a line a statement can begin. -/
theorem rested_of_newline (turns : Turns a t r) (kind : a.kind = .newline) (taken : r.taken.isSome)
    (lined : Lined (t :: rest)) : Rested (r.next ++ rest) := by
  obtain ⟨tame, line, -, -⟩ := lined
  cases turns with
  | lineEnd | newline => exact line rfl
  | expect same => simp [Task.tame, ← same, kind] at tame
  | compared joins | signed joins => simp [kind, Kind.isComparison, Kind.isSign] at joins
  | @link c joins =>
      rw [kind] at joins
      cases c <;> contradiction
  | phrase | close | write | writeLine | noNewline | noStatement | value | noLink | unsigned =>
      contradiction
  | _ => simp_all

end Task

/-- What holds between two steps of a walk that has read these leaves. -/
structure InBodies (done : List Leaf) (ts : List Task) : Prop where
  lined : Task.Lined ts
  rested : (∀ l ∈ done.getLast?, l.token.kind = .newline) → Task.Rested ts
  stops : Task.stops ts = openBodies (done.map Leaf.token)

namespace InBodies

variable {done : List Leaf} {a : Token} {t : Task} {r : Turn} {rest : List Task}

theorem start : InBodies [] [.newlines, .statements] := by
  refine ⟨?_, fun _ => trivial, rfl⟩
  simp [Task.Lined, Task.tame, Task.endsLine, Task.Rested]

theorem of_turn (h : InBodies done (t :: rest)) (inner : t.isInner = true)
    (turn : t.turn a = .ok r) : InBodies (done ++ r.taken.toList) (r.next ++ rest) := by
  have turns := turns_of_turn inner turn
  have stops := Task.stops_of_turns rest turns h.lined.1
  refine ⟨Task.lined_of_turns turns inner h.lined, ?_, ?_⟩
  · cases taken : r.taken with
    | none =>
        intro line
        rw [Option.toList_none, List.append_nil] at line
        exact Task.rested_of_still turns taken h.lined (h.rested line)
    | some l =>
        intro line
        have kind : l.token.kind = .newline := line l (by simp)
        rw [(taken_of_turn inner turn taken).1] at kind
        exact Task.rested_of_newline turns kind (by simp [taken]) h.lined
  · rw [stops, h.stops]
    cases taken : r.taken with
    | none => simp
    | some l =>
        have same := (taken_of_turn inner turn taken).1
        simp [openBodies_snoc, same]

/-- At the end, behind the end of a line, a task is refused that has to finish a block. -/
theorem unterminated (h : InBodies done (t :: rest))
    (line : ∀ l ∈ done.getLast?, l.token.kind = .newline) (eof : a.kind = .eof)
    {fault : GrammarFault} (refused : t.turn a = .error fault) :
    ∃ stop inner, fault = .unterminatedBlock stop ∧
      openBodies (done.map Leaf.token) = stop :: inner := by
  have rested := h.rested line
  have stops := h.stops
  cases t with
  | block stop =>
      simp only [Task.turn, eof, reduceCtorEq, if_true, if_false, Except.error.injEq] at refused
      exact ⟨stop, _, refused.symm, stops.symm⟩
  | statements | newlines | close | write | writeLine => simp [Task.turn, eof] at refused
  | _ => exact rested.elim

end InBodies

/-- The end of a block is missed at the end alone. -/
theorem Task.eof_of_unterminated {a : Token} {t : Task} {stop : Keyword}
    (refused : t.turn a = .error (.unterminatedBlock stop)) : a.kind = .eof := by
  have form {again : Task} : Form.turn a again ≠ .error (.unterminatedBlock stop) := by
    rw [Form.turn]
    split <;> simp
  cases t with
  | block =>
      simp only [Task.turn] at refused
      split at refused
      · contradiction
      · split at refused
        · assumption
        · exact absurd refused form
  | statements =>
      simp only [Task.turn] at refused
      split at refused
      · contradiction
      · exact absurd refused form
  | phrase | close | write | writeLine | writeHeader | labels => contradiction
  | expect | name | lineEnd | newlines | printed | compared | chain | sign | operand =>
      simp only [Task.turn] at refused
      split at refused <;> simp at refused

/-! Readings. -/

namespace Reading

variable {σ : Type} {o : Observer σ} {f : Feed} {done : List Leaf} {w v : Walk σ} {t : Task}
  {rest : List Task} {fault : Located Fault}

/-- What is known of the fault that stops the statements, with tokens whose last one ends a line. -/
structure StopsAt (f : Feed) (k : Nat) (fault : Located Fault) : Prop where
  first : FirstFault f.ahead k fault.cause
  span : fault.span = some (f.token k).span
  place : (k < f.ahead.length ∧ ∀ stop, fault.cause ≠ .grammar (.unterminatedBlock stop)) ∨
    k = f.ahead.length ∧ ∃ stop inner, fault.cause = .grammar (.unterminatedBlock stop) ∧
      openBodies f.ahead = stop :: inner
  within : ∀ name, fault.cause ≠ .naming (.undeclaredLabel name)

/-- A token that is refused is the end, where a block is not ended, or a token before it. -/
theorem place_of_refused (clean : f.Clean) (line : ∀ a ∈ f.ahead.getLast?, a.kind = .newline)
    (standing : Standing f done w (t :: rest)) (bodies : InBodies done (t :: rest))
    {cause : GrammarFault} (refused : t.turn w.current = .error cause) :
    (done.length < f.ahead.length ∧ ∀ stop, cause ≠ .unterminatedBlock stop) ∨
      done.length = f.ahead.length ∧ ∃ stop inner, cause = .unterminatedBlock stop ∧
        openBodies f.ahead = stop :: inner := by
  obtain inside | whole := Nat.lt_or_eq_of_le standing.length_le
  · refine .inl ⟨inside, ?_⟩
    rintro stop rfl
    have eof := Task.eof_of_unterminated refused
    rw [standing.current] at eof
    exact Nat.not_le_of_lt inside (clean.lexical.eof_of_kind eof)
  · have read : done.map Leaf.token = f.ahead := by
      rw [← standing.take_ahead, whole, List.take_length]
    have eof : w.current.kind = .eof := by
      rw [standing.current, Feed.token, List.getElem?_eq_none (Nat.le_of_eq whole.symm)]
      rfl
    have last : ∀ l ∈ done.getLast?, l.token.kind = .newline := by
      intro l mem
      refine line l.token ?_
      rw [← read, List.getLast?_map, Option.mem_def.mp mem]
      rfl
    rw [← read]
    exact .inr ⟨(List.length_map _).symm, bodies.unterminated last eof refused⟩

theorem stopsAt_of_stop (clean : f.Clean) (line : ∀ a ∈ f.ahead.getLast?, a.kind = .newline)
    (standing : Standing f done w (t :: rest)) (bodies : InBodies done (t :: rest))
    (stopped : w.step o t = .stop fault v) : StopsAt f done.length fault := by
  obtain ⟨first, span⟩ := standing.firstFault_of_stop clean stopped
  obtain ⟨cause, turn, refused⟩ | ⟨r, v', gone, -⟩ | ⟨r, l, cause, v', turn, taken, bars, named⟩ :=
    standing.step_cases clean o
  · obtain ⟨rfl, rfl⟩ := Move.stop.inj (refused.symm.trans stopped)
    refine ⟨first, span, ?_, nofun⟩
    simpa using place_of_refused clean line standing bodies turn
  · simp [gone] at stopped
  · obtain ⟨rfl, rfl⟩ := Move.stop.inj (named.symm.trans stopped)
    refine ⟨first, span, .inl ⟨first.lt_length_of_naming, nofun⟩, ?_⟩
    rintro name same
    obtain rfl := Fault.naming.inj same
    exact Declarations.objection_ne_undeclaredLabel _ l name bars

/-- The statements are read to their end with no body left open, or up to the first fault. -/
theorem outcome_bodies (clean : f.Clean) (line : ∀ a ∈ f.ahead.getLast?, a.kind = .newline)
    (start : Standing f [] w [.newlines, .statements]) :
    (Sentence f.ahead ∧ openBodies f.ahead = []) ∨
      ∃ fault v k, w.run o [.newlines, .statements] = (some fault, v) ∧ StopsAt f k fault := by
  have keeps {w v : Walk σ} {t : Task} {rest next : List Task}
      (h : ∃ done, Standing f done w (t :: rest) ∧ InBodies done (t :: rest))
      (gone : w.step o t = .go next v) :
      ∃ done, Standing f done v (next ++ rest) ∧ InBodies done (next ++ rest) := by
    obtain ⟨done, standing, bodies⟩ := h
    obtain ⟨r, turn, rfl, standing', -⟩ := standing.of_go clean.lexical gone
    exact ⟨_, standing', bodies.of_turn standing.inner turn⟩
  obtain ⟨v, -, done, standing, bodies⟩ |
    ⟨fault, v, u, t, rest, run, ⟨done, standing, bodies⟩, stopped⟩ := Walk.run_keeps
      (P := fun w ts => ∃ done, Standing f done w ts ∧ InBodies done ts) keeps ⟨[], start, .start⟩
  · obtain ⟨⟨p, rfl, tokens, -⟩, -⟩ := standing.finish
    have none : [] = openBodies p.tokens := bodies.stops
    exact .inl ⟨⟨p, tokens⟩, by rw [← tokens, none]⟩
  · exact .inr ⟨fault, v, done.length, run, stopsAt_of_stop clean line standing bodies stopped⟩

end Reading

namespace Compiler

variable {source : String} {tokens : List Token}

/-- A text that is lexed has no body open behind it, or it is stopped at a token or at its end. -/
theorem compileText_bodies (c : Compiler) (lexed : tokenize source = .ok tokens) :
    (Sentence tokens ∧ openBodies tokens = []) ∨
      ∃ fault k, (c.compileText source).1 = .error fault ∧
        Reading.StopsAt (Feed.ofCursor (.ofSource source)) k fault := by
  obtain ⟨clean, rfl⟩ := tokenize_eq_ok.mp lexed
  obtain ⟨span, ends⟩ := clean.ending
  have whole : ∀ x ∈ (source.toList ++ ['\n']).getLast?, x = '\n' := by simp
  have line := Feed.kind_getLast whole .start false ends
  obtain ⟨σ, r, o, watcher, graph, rfl, read⟩ := exists_reading c source
  obtain done | ⟨fault, v, k, run, stops⟩ := Reading.outcome_bodies clean line
    (Standing.opened (o := o) _ c.output watcher _)
  · exact .inl done
  · rw [Reading.result_of_statements (Feed.barrier?_of_eof ends 1) run] at read
    exact .inr ⟨fault, k, read, stops⟩

end Compiler
end YoloLang
