import YoloLang.Proofs.Reading

/-!
Feeds of a source. Their tokens are lexemes of the source, and the end is not among them. Main
statement: a program that is read to its end has been lexed to its end.
-/

namespace YoloLang

theorem Cursor.lexed_of_nextToken {c after : Cursor} {t : Token}
    (h : c.nextToken = (.ok t, after)) : t.Lexed := by
  rw [nextToken] at h
  simp only at h
  split at h <;> simp only [Prod.mk.injEq, Except.ok.injEq, reduceCtorEq, false_and] at h
  rename_i lexeme read
  obtain ⟨rfl, -⟩ := h
  exact ⟨_, lexeme, read, rfl, rfl⟩

namespace Feed

variable {c next : Cursor} {t : Token}

/-- A call shows the first token of the feed. -/
theorem ofCursor_of_call (call : c.nextToken = (.ok t, next)) (kind : t.kind ≠ .eof) :
    ofCursor c = ⟨t :: (ofCursor next).ahead, (ofCursor next).ending⟩ := by
  rw [ofCursor]
  split <;> simp_all

theorem ofCursor_of_eof (call : c.nextToken = (.ok t, next)) (kind : t.kind = .eof) :
    ofCursor c = ⟨[], .eof t.span⟩ := by
  rw [ofCursor]
  split <;> simp_all

theorem ofCursor_of_fault {fault : Located LexFault} (fails : c.nextToken = (.error fault, next)) :
    ofCursor c = ⟨[], .fault fault⟩ := by
  rw [ofCursor]
  split <;> simp_all

theorem lexed_ofCursor (c : Cursor) :
    ∀ t ∈ (ofCursor c).ahead, t.Lexed ∧ t.kind ≠ .eof := by
  fun_induction ofCursor c with
  | case1 => simp
  | case2 => simp
  | case3 c token after h kind less rest ih =>
      intro t mem
      obtain rfl | mem := List.mem_cons.mp mem
      · exact ⟨Cursor.lexed_of_nextToken h, kind⟩
      · exact ih t mem

theorem lexical_ofCursor (c : Cursor) : (ofCursor c).Lexical :=
  ⟨fun t mem => (lexed_ofCursor c t mem).1, fun t mem => (lexed_ofCursor c t mem).2⟩

theorem clean_ofCursor {c : Cursor} {span : Span} (ends : (ofCursor c).ending = .eof span) :
    (ofCursor c).Clean :=
  ⟨⟨span, ends⟩, (lexical_ofCursor c).lexed, (lexical_ofCursor c).before⟩

end Feed

theorem tokenize_eq_ok {source : String} {tokens : List Token} :
    tokenize source = .ok tokens ↔
      (Feed.ofCursor (.ofSource source)).Clean ∧
        (Feed.ofCursor (.ofSource source)).ahead = tokens := by
  rw [tokenize]
  cases ends : (Feed.ofCursor (.ofSource source)).ending with
  | eof span => simp [Feed.clean_ofCursor ends]
  | fault fault =>
      simp only [reduceCtorEq, false_iff]
      rintro ⟨⟨⟨span, eof⟩, -, -⟩, -⟩
      rw [ends] at eof
      contradiction

theorem tokenize_eq_error {source : String} {fault : Located LexFault} :
    tokenize source = .error fault ↔
      (Feed.ofCursor (.ofSource source)).ending = .fault fault := by
  rw [tokenize]
  split <;> simp_all

/-! A fault ahead is met before the end of the text could be taken for the end of the program. -/

namespace Walk

variable {σ : Type} {o : Observer σ} {w v : Walk σ} {t : Task} {next : List Task}

theorem take_barrier {goOn : Walk σ → Move σ} (h : w.take o goOn = .go next v) :
    w.feed.barrier? 2 = none := by
  rw [take] at h
  split at h
  · contradiction
  · assumption

/-- The feed is left as it is, or its first token is taken, with nothing that bars the token that
comes into the window. -/
def Fed (w v : Walk σ) : Prop :=
  v.feed = w.feed ∨ v.feed = w.feed.tail ∧ w.feed.barrier? 2 = none

theorem fed_of_step (h : w.step o t = .go next v) : w.Fed v := by
  have taken {tasks : List Task} (h : w.take o (.go tasks) = .go next v) : w.Fed v := by
    obtain ⟨-, rfl⟩ := take_go_eq_go h
    exact .inr ⟨rfl, take_barrier h⟩
  have copied {tasks : List Task} (h : w.copy o (.go tasks) = .go next v) : w.Fed v := by
    obtain ⟨-, rfl⟩ := take_go_eq_go h
    exact .inr ⟨rfl, take_barrier (w := w.written _) h⟩
  have begun {again : Task} (h : w.statement o again = .go next v) : w.Fed v := by
    rw [statement] at h
    split at h
    · contradiction
    · obtain ⟨-, rfl⟩ := take_go_eq_go h
      exact .inr ⟨rfl, take_barrier (w := w.entered o _) h⟩
  have stays (h : Move.go [] w = .go next v) : w.Fed v := by
    obtain ⟨-, rfl⟩ := Move.go.inj h
    exact .inl rfl
  cases t with
  | phrase | close | write | writeLine | writeHeader =>
      obtain ⟨-, rfl⟩ := Move.go.inj h
      exact .inl rfl
  | expect | lineEnd =>
      simp only [step] at h
      split at h
      · exact taken h
      · contradiction
  | name role =>
      simp only [step] at h
      split at h
      · obtain ⟨-, same⟩ := name_eq_go (take_eq_go h)
        exact .inr ⟨same, take_barrier h⟩
      · contradiction
  | newlines =>
      simp only [step] at h
      split at h
      · exact taken h
      · exact stays h
  | statements =>
      simp only [step] at h
      split at h
      · exact stays h
      · exact begun h
  | block stop =>
      simp only [step] at h
      split at h
      · exact taken h
      · split at h
        · contradiction
        · exact begun h
  | printed =>
      simp only [step, printed] at h
      split at h
      · obtain ⟨-, rfl⟩ := take_go_eq_go h
        exact .inr ⟨rfl, take_barrier (w := w.lineWritten _) h⟩
      · obtain ⟨-, rfl⟩ := Move.go.inj h
        exact .inl rfl
  | compared =>
      simp only [step] at h
      split at h
      · exact copied h
      · contradiction
  | chain | sign =>
      simp only [step] at h
      split at h
      · exact copied h
      · exact stays h
  | operand =>
      simp only [step, operand] at h
      split at h
      · exact copied h
      · split at h
        · exact copied h
        · contradiction
      · exact copied h
      · contradiction
  | labels =>
      simp only [step, labels] at h
      split at h
      · contradiction
      · exact stays h

theorem statements_of_step (kind : w.current.kind ≠ .eof)
    (h : w.step o .statements = .go next v) : .statements ∈ next := by
  simp only [step, kind, if_false, statement] at h
  split at h
  · contradiction
  · obtain ⟨rfl, -⟩ := take_go_eq_go h
    simp

end Walk

/-- A feed that a fault ends, with the window before the fault. -/
structure Feed.Barred (f : Feed) (fault : Located LexFault) : Prop where
  ending : f.ending = .fault fault
  window : f.barrier? 1 = none
  before : ∀ t ∈ f.ahead, t.kind ≠ .eof

namespace Feed.Barred

variable {f : Feed} {fault : Located LexFault}

theorem kind_ne_eof (h : f.Barred fault) : f.current.kind ≠ .eof := by
  have window := h.window
  rw [barrier?_of_fault h.ending] at window
  cases ahead : f.ahead with
  | nil => simp [ahead] at window
  | cons t ts =>
      have first := h.before t (by simp [ahead])
      simpa [current, token, ahead] using first

theorem tail (h : f.Barred fault) (window : f.barrier? 2 = none) : f.tail.Barred fault := by
  refine ⟨h.ending, ?_, fun t mem => h.before t (List.mem_of_mem_tail mem)⟩
  simpa [barrier?, Feed.tail, h.ending, List.tail_drop] using window

end Feed.Barred

namespace Walk

variable {σ : Type} {o : Observer σ}

/-- The statements of a program are not at their end while a fault is ahead. -/
theorem run_of_barred {w : Walk σ} {fault : Located LexFault} (barred : w.feed.Barred fault)
    (ts : List Task) (mem : .statements ∈ ts) : ∃ fault v, w.run o ts = (some fault, v) := by
  have keeps {w v : Walk σ} {t : Task} {rest next : List Task}
      (h : w.feed.Barred fault ∧ .statements ∈ t :: rest) (gone : w.step o t = .go next v) :
      v.feed.Barred fault ∧ .statements ∈ next ++ rest := by
    obtain ⟨barred, mem⟩ := h
    constructor
    · obtain same | ⟨tail, window⟩ := fed_of_step gone
      · exact same ▸ barred
      · exact tail ▸ barred.tail window
    · obtain rfl | mem := List.mem_cons.mp mem
      · exact List.mem_append_left _ (statements_of_step barred.kind_ne_eof gone)
      · exact List.mem_append_right _ mem
  obtain ⟨v, -, -, none⟩ | ⟨fault', v, -, -, -, run, -⟩ := run_keeps
    (P := fun w ts => w.feed.Barred fault ∧ .statements ∈ ts) keeps ⟨barred, mem⟩
  · contradiction
  · exact ⟨fault', v, run⟩

end Walk

/-- A program whose text has a fault is not read to its end. -/
theorem Reading.result_ne_ok {σ : Type} {f : Feed} {fault : Located LexFault}
    (ends : f.ending = .fault fault) (before : ∀ t ∈ f.ahead, t.kind ≠ .eof) (o : Observer σ)
    (file : CFile) (watcher : σ) (d : Declarations) : (ofFeed o f file watcher).result ≠ .ok d := by
  rw [ofFeed]
  cases window : f.barrier? 1 with
  | some fault => simp
  | none =>
      generalize opening : (⟨f, file, .empty, watcher, 0, _⟩ : Walk σ) = w
      have barred : (w.opened o).feed.Barred fault := by
        rw [← opening]
        exact ⟨ends, window, before⟩
      obtain ⟨fault', v, run⟩ := Walk.run_of_barred (o := o) barred
        ([.newlines, .statements] ++ Walk.closing) (by simp)
      simp only [ofWalk_of_fault ((Walk.run_opened w).trans run)]
      simp

/-- A source whose reading gives a program has been lexed to its end. -/
theorem Reading.tokenize_of_result {σ : Type} {source : String} {o : Observer σ} {file : CFile}
    {watcher : σ} {d : Declarations}
    (h : (ofFeed o (.ofCursor (.ofSource source)) file watcher).result = .ok d) :
    tokenize source = .ok (Feed.ofCursor (.ofSource source)).ahead := by
  cases ends : (Feed.ofCursor (.ofSource source)).ending with
  | eof span => exact tokenize_eq_ok.mpr ⟨Feed.clean_ofCursor ends, rfl⟩
  | fault fault =>
      have lexical := Feed.lexical_ofCursor (.ofSource source)
      exact absurd h (result_ne_ok ends lexical.before o file watcher d)

end YoloLang
