import YoloLang.Proofs.Program
import YoloLang.Walk.Run

/-!
A step of a walk is the turn of its task, with what the rules on names hold against the token that
is taken. Main statements: what a step leaves behind when nothing is held against it, and with
which fault it stops otherwise.
-/

namespace YoloLang.Walk

open Leaf

variable {σ : Type} {o : Observer σ} {w : Walk σ} {span : Span}

/-- What a walk keeps of a leaf and the C text that is written for it. -/
structure Wrote (taken : Option Leaf) (text : String) (w v : Walk σ) : Prop where
  code : v.file.code = w.file.code ++ text
  declarations : v.declarations = taken.elim w.declarations w.declarations.mention
  header : w.file.header = CText.header w.declarations.vars →
    v.file.header = CText.header v.declarations.vars

/-- The same tokens ahead, the same to an observer, and the same rules open. -/
structure Still (w v : Walk σ) : Prop where
  feed : v.feed = w.feed
  watcher : v.watcher = w.watcher
  depth : v.depth = w.depth

/-- What an observer sees on the way. -/
structure Showed (o : Observer σ) (events : List Event) (w v : Walk σ) : Prop where
  watcher : v.watcher = events.foldl o w.watcher
  depth : v.depth = events.foldl Event.level w.depth

theorem take_of_free (bar : w.feed.barrier? 2 = none) (goOn : Walk σ → Move σ) :
    w.take o goOn = goOn (w.taken o) := by
  simp [take, bar]

theorem copy_of_free (bar : w.feed.barrier? 2 = none) (goOn : Walk σ → Move σ) :
    w.copy o goOn = goOn ((w.written w.current.text).taken o) :=
  take_of_free (w := w.written w.current.text) bar goOn

theorem take_of_barred {fault : Located LexFault} (bar : w.feed.barrier? 2 = some fault)
    (goOn : Walk σ → Move σ) : w.take o goOn = .stop fault.lexing w := by
  simp [take, bar]

theorem still_declared (w : Walk σ) (name : String) : w.Still (w.declared name) := by
  rw [declared]
  split
  · exact ⟨rfl, rfl, rfl⟩
  · exact ⟨rfl, rfl, rfl⟩

/-- A declaration goes into the header with the first value. -/
theorem wrote_declared (w : Walk σ) (t : Token) :
    Wrote (some (naming .target t)) "" w (w.declared t.text) := by
  rw [declared]
  by_cases known : t.text ∈ w.declarations.vars
  · rw [if_pos known]
    exact ⟨by simp, by simp [Declarations.mention, naming, Declarations.addVar, known], id⟩
  · rw [if_neg known]
    refine ⟨by simp [headerWritten, CFile.writeHeader], rfl, ?_⟩
    intro header
    rw [Declarations.vars_addVar, if_neg known, CText.header_snoc, ← header]
    change w.file.header ++ ("float " ++ t.text ++ ";") ++ "\n" = _
    simp [CText.declaration, String.append_assoc]

theorem wrote_written (w : Walk σ) (text : String) : Wrote none text w (w.written text) :=
  ⟨rfl, rfl, id⟩

theorem wrote_lineWritten (w : Walk σ) (text : String) :
    Wrote none (text ++ "\n") w (w.lineWritten text) :=
  ⟨by simp [lineWritten, CFile.writeLine, String.append_assoc], rfl, id⟩

theorem Wrote.taken {l : Option Leaf} {text : String} {v : Walk σ} (h : Wrote l text w v) :
    Wrote l text w (v.taken o) :=
  ⟨h.code, h.declarations, h.header⟩

theorem Wrote.of_taken {l : Option Leaf} {text : String} {v : Walk σ}
    (h : Wrote l text (w.taken o) v) : Wrote l text w v :=
  ⟨h.code, h.declarations, h.header⟩

theorem wrote_entered (w : Walk σ) (rule : Rule) : Wrote none "" w (w.entered o rule) :=
  ⟨by simp [entered], rfl, id⟩

/-- More text after the text of a leaf. -/
theorem Wrote.more {l : Option Leaf} {x y : String} {v u : Walk σ} (h : Wrote l x w v)
    (h' : Wrote none y v u) : Wrote l (x ++ y) w u := by
  refine ⟨?_, ?_, fun header => h'.header (h.header header)⟩
  · rw [h'.code, h.code, String.append_assoc]
  · rw [h'.declarations, ← h.declarations]
    rfl

/-- A leaf that gives no name leaves the names alone. -/
theorem Wrote.leaf {text : String} {v : Walk σ} (h : Wrote none text w v) {l : Leaf}
    (same : w.declarations.mention l = w.declarations) : Wrote (some l) text w v :=
  ⟨h.code, h.declarations.trans same.symm, h.header⟩

/-- Naming a thing that nothing is held against. -/
theorem name_of_free {t : Token} {role : Role}
    (free : w.declarations.objection? (naming role.mention t) = none) :
    ∃ v, w.name t role = .go [] v ∧ w.Still v ∧
      Wrote (some (naming role.mention t)) (role.code t.text) w v := by
  have declared := wrote_declared w t
  obtain ⟨feed, watcher, depth⟩ := still_declared w t.text
  cases role with
  | assigned =>
      have wrote := declared.more (wrote_written _ (CText.assigned t.text))
      rw [String.empty_append] at wrote
      exact ⟨_, rfl, ⟨feed, watcher, depth⟩, wrote⟩
  | counter =>
      have wrote := declared.more (wrote_written _ (CText.counter t.text))
      rw [String.empty_append] at wrote
      exact ⟨_, rfl, ⟨feed, watcher, depth⟩, wrote⟩
  | stepped =>
      have known : t.text ∈ w.declarations.vars := Declarations.mem_vars_of_reads rfl free
      have wrote := wrote_written w (CText.assigned t.text)
      exact ⟨_, if_pos known, ⟨rfl, rfl, rfl⟩, wrote.leaf rfl⟩
  | read =>
      have lines : ("if(0==scanf(\"%f\", &" ++ t.text ++ ")) \x7b" ++ "\n") ++
          (t.text ++ " = 0;" ++ "\n") ++ ("scanf(\"%*s\");" ++ "\n") ++ ("\x7d" ++ "\n") =
          CText.scan t.text := by
        rw [CText.scan_eq]
        simp [String.append_assoc]
      have asked := wrote_lineWritten (w.declared t.text)
        ("if(0==scanf(\"%f\", &" ++ t.text ++ ")) \x7b")
      have cleared := asked.more (wrote_lineWritten _ (t.text ++ " = 0;"))
      have dropped := cleared.more (wrote_lineWritten _ "scanf(\"%*s\");")
      have wrote := declared.more (dropped.more (wrote_lineWritten _ "\x7d"))
      rw [String.empty_append, lines] at wrote
      exact ⟨_, rfl, ⟨feed, watcher, depth⟩, wrote⟩
  | marked =>
      have new : t.text ∉ w.declarations.labels := by
        intro known
        simp [Declarations.objection?, naming, Role.mention, known] at free
      refine ⟨_, if_neg new, ⟨rfl, rfl, rfl⟩, ?_, rfl, ?_⟩
      · change w.file.code ++ (t.text ++ ":") ++ "\n" = _
        simp [Role.code, CText.marker, String.append_assoc]
      · intro header
        exact header.trans (by rw [Declarations.vars_addLabel])
  | sought =>
      refine ⟨_, rfl, ⟨rfl, rfl, rfl⟩, ?_, rfl, ?_⟩
      · change w.file.code ++ ("goto " ++ t.text ++ ";") ++ "\n" = _
        simp [Role.code, CText.jump, String.append_assoc]
      · intro header
        exact header.trans (by rw [Declarations.vars_addGoto])

theorem name_of_objection {t : Token} {role : Role} {fault : NameFault}
    (bars : w.declarations.objection? (naming role.mention t) = some fault) :
    w.name t role = w.blame t fault := by
  cases role with
  | assigned | counter | read | sought => contradiction
  | stepped =>
      obtain ⟨unknown, rfl⟩ := Declarations.not_mem_vars_of_reads rfl bars
      exact if_neg unknown
  | marked =>
      by_cases known : t.text ∈ w.declarations.labels
      · obtain rfl : .duplicateLabel t.text = fault := by
          simpa [Declarations.objection?, naming, Role.mention, known] using bars
        exact if_pos known
      · simp [Declarations.objection?, naming, Role.mention, known] at bars

variable {t : Task}

/-- A token that does not fit is refused before anything is done. -/
theorem step_of_error (inner : t.isInner = true) {fault : GrammarFault}
    (h : t.turn w.current = .error fault) : w.step o t = w.refuse fault := by
  have statement {again : Task} (h : Form.turn w.current again = .error fault) :
      w.statement o again = w.refuse fault := by
    rw [Form.turn] at h
    split at h <;> simp only [Except.error.injEq, reduceCtorEq] at h
    rename_i unknown
    rw [Walk.statement, unknown, ← h]
  cases t with
  | phrase | close | write | writeLine => contradiction
  | writeHeader | labels => contradiction
  | expect | name | lineEnd | compared =>
      simp only [Task.turn] at h
      split at h <;> simp only [Except.error.injEq, reduceCtorEq] at h
      rename_i other
      subst h
      exact if_neg other
  | newlines | printed | chain | sign =>
      simp only [Task.turn] at h
      split at h <;> contradiction
  | statements =>
      simp only [Task.turn] at h
      split at h
      · contradiction
      · rename_i more
        exact (if_neg more).trans (statement h)
  | block stop =>
      simp only [Task.turn] at h
      split at h
      · contradiction
      · rename_i other
        split at h
        · rename_i eof
          obtain rfl := Except.error.inj h
          exact (if_neg other).trans (if_pos eof)
        · rename_i more
          exact (if_neg other).trans ((if_neg more).trans (statement h))
  | operand =>
      simp only [Task.turn] at h
      split at h <;> simp only [Except.error.injEq, reduceCtorEq] at h
      subst h
      simp only [step, operand]

theorem statement_of_kind (bar : w.feed.barrier? 2 = none) {form : Form}
    (kind : w.current.kind = .keyword form.keyword) (again : Task) :
    w.statement o again = .go (form.body ++ [.phrase .newline, .close, again])
      ((w.entered o (.statement form)).taken o) := by
  rw [Walk.statement, Form.ofKind?_eq_some_iff.mpr kind]
  exact take_of_free (w := w.entered o (.statement form)) bar _

/-- What a step leaves behind when nothing is held against the token that is taken. -/
theorem step_of_ok (inner : t.isInner = true) {r : Turn} (h : t.turn w.current = .ok r)
    (bar : r.taken.isSome = true → w.feed.barrier? 2 = none)
    (free : ∀ l, r.taken = some l → w.declarations.objection? l = none) :
    ∃ v, w.step o t = .go r.next v ∧
      v.feed = (if r.taken.isSome then w.feed.tail else w.feed) ∧ Wrote r.taken r.text w v ∧
      Showed o (t.shown w.current r) w v := by
  have stays : Wrote none "" w w := ⟨by simp, rfl, id⟩
  have takes : Wrote none "" w (w.taken o) := stays.taken
  have copies : Wrote none w.current.text w ((w.written w.current.text).taken o) :=
    (wrote_written w _).taken
  have took (some : r.taken.isSome = true) (goOn : Walk σ → Move σ) :=
    take_of_free (o := o) (bar some) goOn
  have copied (some : r.taken.isSome = true) (goOn : Walk σ → Move σ) :=
    copy_of_free (o := o) (bar some) goOn
  cases turns_of_turn inner h with
  | phrase p => exact ⟨_, rfl, rfl, wrote_entered w _, rfl, rfl⟩
  | close => exact ⟨_, rfl, rfl, ⟨by simp [left], rfl, id⟩, rfl, rfl⟩
  | write s => exact ⟨_, rfl, rfl, wrote_written w s, rfl, rfl⟩
  | writeLine s => exact ⟨_, rfl, rfl, wrote_lineWritten w s, rfl, rfl⟩
  | expect kind | lineEnd kind | newline kind =>
      exact ⟨_, (if_pos kind).trans (took rfl _), rfl, takes.leaf rfl, rfl, rfl⟩
  | stop kind =>
      rw [Task.shown_stop kind]
      exact ⟨_, (if_pos kind).trans (took rfl _), rfl, takes.leaf rfl, rfl, rfl⟩
  | name role kind =>
      obtain ⟨v, gone, still, wrote⟩ := name_of_free (w := w.taken o) (free _ rfl)
      exact ⟨v, (if_pos kind).trans ((took rfl _).trans gone), still.feed, wrote.of_taken,
        still.watcher, still.depth⟩
  | noNewline kind | value kind | noLink kind | unsigned kind =>
      exact ⟨w, if_neg kind, rfl, stays, rfl, rfl⟩
  | noStatement kind =>
      rw [Task.shown_noStatement kind]
      exact ⟨w, if_pos kind, rfl, stays, rfl, rfl⟩
  | statement form kind =>
      have begun := statement_of_kind (o := o) (bar rfl) kind .statements
      rw [Task.shown_statements kind]
      exact ⟨_, (if_neg (by simp [kind])).trans begun, rfl, (wrote_entered w _).taken.leaf rfl,
        rfl, rfl⟩
  | @inBlock stop form kind other =>
      have begun := statement_of_kind (o := o) (bar rfl) kind (.block stop)
      rw [Task.shown_block kind other]
      exact ⟨_, (if_neg other).trans ((if_neg (by simp [kind])).trans begun), rfl,
        (wrote_entered w _).taken.leaf rfl, rfl, rfl⟩
  | text kind =>
      have line : "printf(\"" ++ w.current.text ++ "\\n\");" ++ "\n" =
          CText.printText w.current.text := by
        simp [CText.printText, String.append_assoc]
      have wrote := (wrote_lineWritten w ("printf(\"" ++ w.current.text ++ "\\n\");")).taken
        (o := o)
      rw [line] at wrote
      refine ⟨_, (if_pos kind).trans ?_, rfl, wrote.leaf rfl, rfl, rfl⟩
      exact take_of_free (w := w.lineWritten _) (bar rfl) _
  | compared joins | link joins | signed joins =>
      exact ⟨_, (if_pos joins).trans (copied rfl _), rfl, copies.leaf rfl, rfl, rfl⟩
  | number kind | group kind =>
      refine ⟨_, ?_, rfl, copies.leaf rfl, rfl, rfl⟩
      simp only [step, operand, kind, copied rfl]
  | identifier kind =>
      refine ⟨_, ?_, rfl, copies.leaf rfl, rfl, rfl⟩
      have known : w.current.text ∈ w.declarations.vars :=
        Declarations.mem_vars_of_reads rfl (free _ rfl)
      simp only [step, operand, kind, copied rfl, known, if_true]

/-- A name that something is held against stops the walk at the token that gives it. -/
theorem step_of_objection (inner : t.isInner = true) {r : Turn} {l : Leaf} {fault : NameFault}
    (h : t.turn w.current = .ok r) (bar : w.feed.barrier? 2 = none) (taken : r.taken = some l)
    (bars : w.declarations.objection? l = some fault) :
    ∃ v, w.step o t = .stop ⟨.naming fault, some w.current.span⟩ v := by
  have notPlain (a : Token) : some (plain a) ≠ some l := by
    intro same
    obtain rfl := Option.some.inj same
    simp [Declarations.objection?, plain] at bars
  cases turns_of_turn inner h with
  | phrase | close | write | writeLine | noNewline | noStatement | value | noLink | unsigned =>
      contradiction
  | expect | lineEnd | newline | statement | stop | inBlock | text | compared | link | signed
  | number | group => exact absurd taken (notPlain _)
  | name role kind =>
      obtain rfl := Option.some.inj taken
      have stopped := name_of_objection (w := w.taken o) bars
      exact ⟨_, (if_pos kind).trans ((take_of_free bar _).trans stopped)⟩
  | identifier kind =>
      obtain rfl := Option.some.inj taken
      obtain ⟨unknown, rfl⟩ := Declarations.not_mem_vars_of_reads rfl bars
      have unknown : w.current.text ∉ w.declarations.vars := unknown
      refine ⟨w, ?_⟩
      simp only [step, operand, kind, unknown, if_false, blame]
      rfl

/-- No token is taken while a fault bars the one that would come into the window. -/
theorem step_of_barred (inner : t.isInner = true) {r : Turn} {l : Leaf} {fault : Located LexFault}
    (h : t.turn w.current = .ok r) (taken : r.taken = some l)
    (bar : w.feed.barrier? 2 = some fault) : ∃ e v, w.step o t = .stop e v := by
  have stuck (goOn : Walk σ → Move σ) := take_of_barred (o := o) bar goOn
  have copying (goOn : Walk σ → Move σ) : ∃ e v, w.copy o goOn = .stop e v :=
    ⟨_, _, take_of_barred (w := w.written _) bar goOn⟩
  have begun {form : Form} (kind : w.current.kind = .keyword form.keyword) (again : Task) :
      ∃ e v, w.statement o again = .stop e v := by
    rw [Walk.statement, Form.ofKind?_eq_some_iff.mpr kind]
    exact ⟨_, _, take_of_barred (w := w.entered o _) bar _⟩
  cases turns_of_turn inner h with
  | phrase | close | write | writeLine | noNewline | noStatement | value | noLink | unsigned =>
      contradiction
  | expect kind | lineEnd kind | newline kind | stop kind | name role kind =>
      exact ⟨_, _, (if_pos kind).trans (stuck _)⟩
  | statement form kind =>
      obtain ⟨e, v, stopped⟩ := begun kind .statements
      exact ⟨e, v, (if_neg (by simp [kind])).trans stopped⟩
  | @inBlock stop form kind other =>
      obtain ⟨e, v, stopped⟩ := begun kind (.block stop)
      exact ⟨e, v, (if_neg other).trans ((if_neg (by simp [kind])).trans stopped)⟩
  | text kind => exact ⟨_, _, (if_pos kind).trans (take_of_barred (w := w.lineWritten _) bar _)⟩
  | compared joins | link joins | signed joins =>
      obtain ⟨e, v, stopped⟩ := copying _
      exact ⟨e, v, (if_pos joins).trans stopped⟩
  | number kind | group kind =>
      simp only [step, operand, kind]
      exact copying _
  | identifier kind =>
      simp only [step, operand, kind]
      split
      · exact copying _
      · exact ⟨_, _, rfl⟩

/-- What a step leaves behind that goes on, whatever comes behind the tokens ahead. -/
theorem step_of_go (inner : t.isInner = true) {next : List Task} {v : Walk σ}
    (gone : w.step o t = .go next v) :
    ∃ r, t.turn w.current = .ok r ∧ next = r.next ∧
      (∀ l, r.taken = some l → w.declarations.objection? l = none) ∧
      v.feed = (if r.taken.isSome then w.feed.tail else w.feed) ∧ Wrote r.taken r.text w v ∧
      Showed o (t.shown w.current r) w v := by
  cases turn : t.turn w.current with
  | error fault => simp [step_of_error inner turn, refuse] at gone
  | ok r =>
      have bar : r.taken.isSome = true → w.feed.barrier? 2 = none := by
        intro some
        obtain ⟨l, taken⟩ := Option.isSome_iff_exists.mp some
        cases bar : w.feed.barrier? 2 with
        | none => rfl
        | some fault =>
            obtain ⟨e, v, stopped⟩ := step_of_barred (o := o) inner turn taken bar
            simp [stopped] at gone
      have free : ∀ l, r.taken = some l → w.declarations.objection? l = none := by
        intro l taken
        cases bars : w.declarations.objection? l with
        | none => rfl
        | some fault =>
            have bar := bar (by simp [taken])
            obtain ⟨v, stopped⟩ := step_of_objection (o := o) inner turn bar taken bars
            simp [stopped] at gone
      obtain ⟨v', gone', feed, wrote, showed⟩ := step_of_ok (o := o) inner turn bar free
      obtain ⟨rfl, rfl⟩ := Move.go.inj (gone'.symm.trans gone)
      exact ⟨r, rfl, rfl, free, feed, wrote, showed⟩

/-! How a walk is left where a step stops it. -/

/-- What an observer sees of a task that is broken off. No name is declared. -/
structure Halted (o : Observer σ) (t : Task) (w v : Walk σ) : Prop where
  seen : ∃ events, t.Broken w.current events ∧ Showed o events w v
  declarations : v.declarations = w.declarations
  header : v.file.header = w.file.header

theorem Halted.still {fault fault' : Located Fault} {u v : Walk σ}
    (h : Move.stop fault u = .stop fault' v) (still : w.Still u)
    (declarations : u.declarations = w.declarations) (header : u.file.header = w.file.header) :
    Halted o t w v := by
  obtain ⟨-, rfl⟩ := Move.stop.inj h
  exact ⟨⟨[], .before t, still.watcher, still.depth⟩, declarations, header⟩

theorem halted_of_take {u v : Walk σ} {next : List Task} {fault : Located Fault}
    (h : u.take o (.go next) = .stop fault v) (still : w.Still u)
    (declarations : u.declarations = w.declarations) (header : u.file.header = w.file.header) :
    Halted o t w v := by
  cases bar : u.feed.barrier? 2 with
  | none => simp [take_of_free bar] at h
  | some fault =>
      rw [take_of_barred bar] at h
      exact .still h still declarations header

theorem halted_of_copy {v : Walk σ} {next : List Task} {fault : Located Fault}
    (h : w.copy o (.go next) = .stop fault v) : Halted o t w v :=
  halted_of_take (u := w.written w.current.text) h ⟨rfl, rfl, rfl⟩ rfl rfl

theorem halted_of_statement {v : Walk σ} {again : Task} {fault : Located Fault}
    (h : w.statement o again = .stop fault v) : Halted o t w v := by
  rw [statement] at h
  split at h
  · exact .still h ⟨rfl, rfl, rfl⟩ rfl rfl
  · rename_i form known
    cases bar : (w.entered o (.statement form)).feed.barrier? 2 with
    | none => simp [take_of_free bar] at h
    | some fault =>
        rw [take_of_barred bar] at h
        obtain ⟨-, rfl⟩ := Move.stop.inj h
        exact ⟨⟨_, .within t (Form.ofKind?_eq_some_iff.mp known), rfl, rfl⟩, rfl, rfl⟩

/-- Naming a thing is only refused once the name is read, and a name that is given a value is not
refused. -/
theorem halted_of_name {v : Walk σ} {role : Role} {fault : Located Fault}
    (kind : w.current.kind = .identifier)
    (h : (w.taken o).name w.current role = .stop fault v) : Halted o (.name role) w v := by
  have blamed {fault' : NameFault} (given : role.mention ≠ .target)
      (h : (w.taken o).blame w.current fault' = .stop fault v) : Halted o (.name role) w v := by
    obtain ⟨-, rfl⟩ := Move.stop.inj h
    exact ⟨⟨_, .behind kind given, rfl, rfl⟩, rfl, rfl⟩
  cases role with
  | assigned | counter | read | sought => contradiction
  | stepped | marked =>
      simp only [name] at h
      split at h
      all_goals first
        | contradiction
        | exact blamed (by decide) h

theorem halted_of_stop {v : Walk σ} {fault : Located Fault} (h : w.step o t = .stop fault v) :
    Halted o t w v := by
  have refused {fault' : GrammarFault} (h : w.refuse fault' = .stop fault v) : Halted o t w v :=
    .still h ⟨rfl, rfl, rfl⟩ rfl rfl
  have taken {next : List Task} (h : w.take o (.go next) = .stop fault v) : Halted o t w v :=
    halted_of_take h ⟨rfl, rfl, rfl⟩ rfl rfl
  cases t with
  | phrase | close | write | writeLine | writeHeader => contradiction
  | expect | lineEnd =>
      simp only [step] at h
      split at h
      · exact taken h
      · exact refused h
  | newlines =>
      simp only [step] at h
      split at h
      · exact taken h
      · contradiction
  | name role =>
      simp only [step] at h
      split at h
      · rename_i kind
        cases bar : w.feed.barrier? 2 with
        | none => exact halted_of_name kind (take_of_free bar _ ▸ h)
        | some fault => exact .still (take_of_barred bar _ ▸ h) ⟨rfl, rfl, rfl⟩ rfl rfl
      · exact refused h
  | statements =>
      simp only [step] at h
      split at h
      · contradiction
      · exact halted_of_statement h
  | block stop =>
      simp only [step] at h
      split at h
      · exact taken h
      · split at h
        · exact refused h
        · exact halted_of_statement h
  | printed =>
      simp only [step, printed] at h
      split at h
      · exact halted_of_take (u := w.lineWritten _) h ⟨rfl, rfl, rfl⟩ rfl rfl
      · contradiction
  | compared =>
      simp only [step] at h
      split at h
      · exact halted_of_copy h
      · exact refused h
  | chain | sign =>
      simp only [step] at h
      split at h
      · exact halted_of_copy h
      · contradiction
  | operand =>
      simp only [step, operand] at h
      split at h
      · exact halted_of_copy h
      · split at h
        · exact halted_of_copy h
        · exact .still h ⟨rfl, rfl, rfl⟩ rfl rfl
      · exact halted_of_copy h
      · exact refused h
  | labels =>
      simp only [step, labels] at h
      split at h
      · exact .still h ⟨rfl, rfl, rfl⟩ rfl rfl
      · contradiction

end YoloLang.Walk
