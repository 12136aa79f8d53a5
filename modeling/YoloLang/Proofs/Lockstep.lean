import YoloLang.Proofs.Asking

/-!
Two walks over feeds that begin with the same tokens. Main statements: a step of one is a step of
the other until a token is asked for that may differ, and so are the runs; a fault that both meet is
the same.
-/

namespace YoloLang

/-! Feeds that begin alike. -/

/-- Both feeds show so many tokens without a fault, and they agree, wherever they stand. -/
structure Feed.Alike (m : Nat) (f g : Feed) : Prop where
  left : ∀ fault, f.ending = .fault fault → m ≤ f.ahead.length
  right : ∀ fault, g.ending = .fault fault → m ≤ g.ahead.length
  agree : ∀ i < m, (f.token i).agrees (g.token i) = true

namespace Feed

variable {f g : Feed} {m i k : Nat}

theorem barrier?_drop (k i : Nat) : (f.drop k).barrier? i = f.barrier? (k + i) := by
  simp [barrier?, drop, List.drop_drop]

theorem barrier?_of_lt (long : ∀ fault, f.ending = .fault fault → m ≤ f.ahead.length)
    (inside : i < m) : f.barrier? i = none := by
  cases ends : f.ending with
  | eof span => exact barrier?_of_eof ends i
  | fault fault =>
      have enough := long fault ends
      rw [barrier?_of_fault ends, if_neg (by omega)]

end Feed

/-! Names alike. -/

/-- The same names in the same order, wherever they stand. -/
structure Declarations.Alike (d d' : Declarations) : Prop where
  vars : d.vars = d'.vars
  labels : d.labels = d'.labels
  gotos : d.gotos.map Prod.fst = d'.gotos.map Prod.fst

namespace Declarations.Alike

variable {d d' : Declarations}

theorem addVar (h : d.Alike d') (name : String) : (d.addVar name).Alike (d'.addVar name) := by
  simp only [Declarations.addVar, h.vars]
  split
  · exact h
  · exact { h with vars := rfl }

theorem addLabel (h : d.Alike d') (name : String) : (d.addLabel name).Alike (d'.addLabel name) := by
  simp only [Declarations.addLabel, h.labels]
  split
  · exact h
  · exact { h with labels := rfl }

theorem addGoto (h : d.Alike d') (name : String) (span span' : Span) :
    (d.addGoto name span).Alike (d'.addGoto name span') := by
  rw [Declarations.addGoto, Declarations.addGoto, ← h.gotos]
  split
  · exact h
  · exact { h with gotos := by simp [h.gotos] }

theorem missingLabel? (h : d.Alike d') :
    d.missingLabel?.map Prod.fst = d'.missingLabel?.map Prod.fst := by
  have first (d : Declarations) : d.missingLabel?.map Prod.fst =
      (d.gotos.map Prod.fst).find? fun name => name ∉ d.labels := by
    rw [List.find?_map]
    rfl
  rw [first, first, h.gotos, h.labels]

end Declarations.Alike

/-! Walks alike. -/

/-- Faults that are found at the current token, before anything is known of what follows. -/
def Fault.AtToken : Fault → Prop
  | .grammar _ | .naming (.undeclaredVariable _) | .naming (.duplicateLabel _) => True
  | .naming (.undeclaredLabel _) | .lexing _ | .file _ => False

theorem Fault.AtToken.not_lexing {cause : Fault} (h : cause.AtToken) (e : LexFault) :
    cause ≠ .lexing e := by
  rintro rfl
  exact h

section Relations

variable {σ τ : Type}

/-- Two observers that keep a relation between what they make of two walks, with the number of
tokens that were taken. -/
structure Observer.Keep (R : Nat → σ → τ → Prop) (o : Observer σ) (o' : Observer τ) : Prop where
  enter : ∀ {k s s'} (rule : Rule), R k s s' → R k (o s (.enter rule)) (o' s' (.enter rule))
  leave : ∀ {k s s'}, R k s s' → R k (o s .leave) (o' s' .leave)
  token : ∀ {k s s' a b}, R k s s' → a.agrees b = true →
    R (k + 1) (o s (.token a)) (o' s' (.token b))

variable (R : Nat → σ → τ → Prop) (f g : Feed)

/-- Two walks that have taken so many tokens of their feeds and differ in places at most. -/
structure Walk.Alike (k : Nat) (w : Walk σ) (w' : Walk τ) : Prop where
  feed : w.feed = f.drop k
  feed' : w'.feed = g.drop k
  file : w.file = w'.file
  declarations : w.declarations.Alike w'.declarations
  depth : w.depth = w'.depth
  watcher : R k w.watcher w'.watcher

/-- Two moves that go on with the same tasks or stop with the same fault, which is found at this
token. -/
inductive Move.Alike (i k : Nat) : Move σ → Move τ → Prop where
  | go (next : List Task) {v : Walk σ} {v' : Walk τ} (alike : v.Alike R f g k v') :
      Alike i k (.go next v) (.go next v')
  | stop {cause : Fault} (atToken : cause.AtToken) {v : Walk σ} {v' : Walk τ}
      (alike : v.Alike R f g k v') :
      Alike i k (.stop ⟨cause, some (f.token i).span⟩ v) (.stop ⟨cause, some (g.token i).span⟩ v')
  | missing (name : String) (span span' : Span) {v : Walk σ} {v' : Walk τ}
      (alike : v.Alike R f g k v') :
      Alike i k (.stop ⟨.naming (.undeclaredLabel name), some span⟩ v)
        (.stop ⟨.naming (.undeclaredLabel name), some span'⟩ v')

/-- Two walks that move, or ask for a token and go on alike behind it. -/
inductive Walk.Together (k : Nat) : Option (Walk σ × (Walk σ → Move σ)) →
    Option (Walk τ × (Walk τ → Move τ)) → Move σ → Move τ → Prop where
  | moves {move : Move σ} {move' : Move τ} (alike : move.Alike R f g k k move') :
      Together k none none move move'
  | asks {u : Walk σ} {u' : Walk τ} {goOn : Walk σ → Move σ} {goOn' : Walk τ → Move τ}
      {move : Move σ} {move' : Move τ} (alike : u.Alike R f g k u')
      (after : ∀ {v v'}, v.Alike R f g (k + 1) v' →
        (goOn v).Alike R f g k (k + 1) (goOn' v')) :
      Together k (some (u, goOn)) (some (u', goOn')) move move'

end Relations

namespace Move.Alike

variable {σ τ : Type} {R : Nat → σ → τ → Prop} {f g : Feed} {i k : Nat} {v : Walk σ}
  {move' : Move τ}

theorem of_go {next : List Task} (h : (Move.go next v).Alike R f g i k move') :
    ∃ v', move' = .go next v' ∧ v.Alike R f g k v' := by
  cases h with
  | go next alike => exact ⟨_, rfl, alike⟩

theorem walk {move : Move σ} (h : move.Alike R f g i k move') :
    move.walk.Alike R f g k move'.walk := by
  cases h with
  | go _ alike | stop _ alike | missing _ _ _ alike => exact alike

theorem cause {fault fault' : Located Fault} {v' : Walk τ}
    (h : (Move.stop fault v).Alike R f g i k (.stop fault' v')) : fault'.cause = fault.cause := by
  cases h with
  | stop | missing => rfl

theorem of_stop {fault : Located Fault} (h : (Move.stop fault v).Alike R f g i k move') :
    ∃ fault' v', move' = .stop fault' v' := by
  cases h with
  | stop | missing => exact ⟨_, _, rfl⟩

end Move.Alike

namespace Walk.Alike

variable {σ τ : Type} {R : Nat → σ → τ → Prop} {f g : Feed} {i k : Nat} {w : Walk σ} {w' : Walk τ}
  {o : Observer σ} {o' : Observer τ}

theorem entered (h : w.Alike R f g k w') (keep : Observer.Keep R o o') (rule : Rule) :
    (w.entered o rule).Alike R f g k (w'.entered o' rule) :=
  { h with depth := congrArg (· + 1) h.depth, watcher := keep.enter rule h.watcher }

theorem left (h : w.Alike R f g k w') (keep : Observer.Keep R o o') :
    (w.left o).Alike R f g k (w'.left o') :=
  { h with depth := congrArg (· - 1) h.depth, watcher := keep.leave h.watcher }

theorem leftAll (h : w.Alike R f g k w') (keep : Observer.Keep R o o') :
    (w.leftAll o).Alike R f g k (w'.leftAll o') := by
  rw [Walk.leftAll, Walk.leftAll, ← h.depth]
  generalize w.depth = depth
  induction depth with
  | zero => exact h
  | succ depth ih => exact ih.left keep

theorem written (h : w.Alike R f g k w') (text : String) :
    (w.written text).Alike R f g k (w'.written text) :=
  { h with file := congrArg (CFile.write · text) h.file }

theorem lineWritten (h : w.Alike R f g k w') (text : String) :
    (w.lineWritten text).Alike R f g k (w'.lineWritten text) :=
  { h with file := congrArg (CFile.writeLine · text) h.file }

theorem headerWritten (h : w.Alike R f g k w') (text : String) :
    (w.headerWritten text).Alike R f g k (w'.headerWritten text) :=
  { h with file := congrArg (CFile.writeHeader · text) h.file }

theorem declared (h : w.Alike R f g k w') (name : String) :
    (w.declared name).Alike R f g k (w'.declared name) := by
  rw [Walk.declared, Walk.declared, ← h.declarations.vars]
  split
  · exact h
  · exact { h.headerWritten _ with declarations := h.declarations.addVar name }

theorem current (h : w.Alike R f g k w') : w.current = f.token k ∧ w'.current = g.token k := by
  rw [Walk.current, Walk.current, h.feed, h.feed', Feed.current_drop, Feed.current_drop]
  exact ⟨rfl, rfl⟩

theorem taken (h : w.Alike R f g k w') (keep : Observer.Keep R o o')
    (agrees : (f.token k).agrees (g.token k) = true) :
    (w.taken o).Alike R f g (k + 1) (w'.taken o') := by
  obtain ⟨left, right⟩ := h.current
  constructor
  case feed => exact (congrArg Feed.tail h.feed).trans (Feed.tail_drop k)
  case feed' => exact (congrArg Feed.tail h.feed').trans (Feed.tail_drop k)
  case file => exact h.file
  case declarations => exact h.declarations
  case depth => exact h.depth
  case watcher =>
    rw [← left, ← right] at agrees
    exact keep.token h.watcher agrees

/-! Steps alike. -/

theorem refuse (h : w.Alike R f g k w') (fault : GrammarFault) :
    (w.refuse fault).Alike R f g k k (w'.refuse fault) := by
  rw [Walk.refuse, Walk.refuse, h.current.1, h.current.2]
  refine .stop ?_ h
  trivial

theorem blame (h : w.Alike R f g k w') (i : Nat) {fault : NameFault}
    (atToken : Fault.AtToken (.naming fault)) :
    (w.blame (f.token i) fault).Alike R f g i k (w'.blame (g.token i) fault) :=
  .stop atToken h

theorem name (h : w.Alike R f g k w') (agrees : (f.token i).agrees (g.token i) = true)
    (role : Role) :
    (w.name (f.token i) role).Alike R f g i k (w'.name (g.token i) role) := by
  obtain ⟨-, text⟩ := Token.agrees_iff.mp agrees
  have declares := h.declared (f.token i).text
  cases role with
  | assigned | counter =>
      simp only [Walk.name, ← text]
      exact .go [] (declares.written _)
  | stepped =>
      simp only [Walk.name, ← text, ← h.declarations.vars]
      split
      · exact .go [] (h.written _)
      · exact h.blame i trivial
  | read =>
      simp only [Walk.name, ← text]
      exact .go [] ((((declares.lineWritten _).lineWritten _).lineWritten _).lineWritten _)
  | marked =>
      simp only [Walk.name, ← text, ← h.declarations.labels]
      split
      · exact h.blame i trivial
      · exact .go [] { h.lineWritten _ with declarations := h.declarations.addLabel _ }
  | sought =>
      simp only [Walk.name, ← text]
      exact .go [] { h.lineWritten _ with declarations := h.declarations.addGoto _ _ _ }

theorem labels (h : w.Alike R f g k w') : w.labels.Alike R f g i k w'.labels := by
  have missing := h.declarations.missingLabel?
  rw [Walk.labels, Walk.labels]
  cases found : w.declarations.missingLabel? with
  | none =>
      cases found' : w'.declarations.missingLabel? with
      | none => exact .go [] h
      | some label => simp [found, found'] at missing
  | some label =>
      cases found' : w'.declarations.missingLabel? with
      | none => simp [found, found'] at missing
      | some label' =>
          obtain ⟨name, span⟩ := label
          obtain ⟨name', span'⟩ := label'
          obtain rfl : name = name' := by simpa [found, found'] using missing
          exact .missing name span span' h

section Steps

variable (h : w.Alike R f g k w') (keep : Observer.Keep R o o')
  (agrees : (f.token k).agrees (g.token k) = true)

include h

/-- Tasks that take the current token and leave others in their place. -/
theorem asks (next : List Task) {move : Move σ} {move' : Move τ} :
    Together R f g k (some (w, .go next)) (some (w', .go next)) move move' :=
  .asks h fun after => .go next after

include agrees

theorem kind : w.current.kind = w'.current.kind := by
  rw [h.current.1, h.current.2]
  exact (Token.agrees_iff.mp agrees).1

theorem text : w.current.text = w'.current.text := by
  rw [h.current.1, h.current.2]
  exact (Token.agrees_iff.mp agrees).2

theorem copying (next : List Task) {move : Move σ} {move' : Move τ} :
    Together R f g k (some (w.copying next)) (some (w'.copying next)) move move' := by
  rw [Walk.copying, Walk.copying, ← h.text agrees]
  exact (h.written _).asks next

include keep

theorem starting (again : Task) : Together R f g k (w.starting o again) (w'.starting o' again)
    (w.statement o again) (w'.statement o' again) := by
  simp only [Walk.starting, statement, ← h.kind agrees, ← h.text agrees]
  cases Form.ofKind? w.current.kind with
  | none => exact .moves (h.refuse _)
  | some form => exact (h.entered keep _).asks _

theorem step (t : Task) :
    Together R f g k (w.asks? o t) (w'.asks? o' t) (w.step o t) (w'.step o' t) := by
  have kind := h.kind agrees
  have text := h.text agrees
  cases t with
  | phrase p => exact .moves (.go _ (h.entered keep _))
  | close => exact .moves (.go _ (h.left keep))
  | write s => exact .moves (.go _ (h.written s))
  | writeLine s => exact .moves (.go _ (h.lineWritten s))
  | writeHeader s => exact .moves (.go _ (h.headerWritten s))
  | labels => exact .moves h.labels
  | expect | lineEnd =>
      simp only [asks?, Walk.step, ← kind]
      split
      · exact h.asks []
      · exact .moves (h.refuse _)
  | name role =>
      simp only [asks?, Walk.step, ← kind]
      split
      · refine .asks h fun after => ?_
        rw [h.current.1, h.current.2]
        exact after.name agrees role
      · exact .moves (h.refuse _)
  | newlines =>
      simp only [asks?, Walk.step, ← kind]
      split
      · exact h.asks _
      · exact .moves (.go [] h)
  | statements =>
      simp only [asks?, Walk.step, ← kind]
      split
      · rename_i eof
        have none : Form.ofKind? Kind.eof = none := rfl
        simp only [Walk.starting, ← kind, eof, none, Option.map_none]
        exact .moves (.go [] h)
      · exact h.starting keep agrees .statements
  | block stop =>
      simp only [asks?, Walk.step, ← kind]
      split
      · exact h.asks []
      · split
        · rename_i eof
          have none : Form.ofKind? Kind.eof = none := rfl
          simp only [Walk.starting, ← kind, eof, none, Option.map_none]
          exact .moves (h.refuse _)
        · exact h.starting keep agrees (.block stop)
  | printed =>
      simp only [asks?, Walk.step, Walk.printed, ← kind, ← text]
      split
      · exact (h.lineWritten _).asks []
      · exact .moves (.go _ h)
  | compared =>
      simp only [asks?, Walk.step, ← kind, ← text]
      split
      · exact h.copying agrees _
      · exact .moves (h.refuse _)
  | chain | sign =>
      simp only [asks?, Walk.step, ← kind]
      split
      · exact h.copying agrees _
      · exact .moves (.go [] h)
  | operand =>
      simp only [asks?, Walk.step, Walk.operand, ← kind, ← text, ← h.declarations.vars]
      cases w.current.kind with
      | number => exact h.copying agrees []
      | identifier =>
          simp only
          split
          · exact h.copying agrees []
          · rw [h.current.1, h.current.2]
            exact .moves (h.blame k trivial)
      | openParen => exact h.copying agrees _
      | _ => exact .moves (h.refuse _)

end Steps

end Walk.Alike

/-! Runs alike. -/

namespace Walk

section Partings

variable {σ τ : Type} (R : Nat → σ → τ → Prop) (f g : Feed) (m : Nat) (o : Observer σ)
  (o' : Observer τ)

/-- What a task makes of two walks in step, with so many tokens known to agree. -/
inductive Abreast (k : Nat) (w : Walk σ) (w' : Walk τ) (t : Task) : Prop where
  | moves (still : w.asks? o t = none) (still' : w'.asks? o' t = none)
      (alike : (w.step o t).Alike R f g k k (w'.step o' t))
  | takes {u : Walk σ} {u' : Walk τ} {goOn : Walk σ → Move σ} {goOn' : Walk τ → Move τ}
      (asks : w.asks? o t = some (u, goOn)) (asks' : w'.asks? o' t = some (u', goOn'))
      (alike : u.Alike R f g k u') (room : k + 3 ≤ m)
      (after : (w.step o t).Alike R f g k (k + 1) (w'.step o' t))
  | parts {u : Walk σ} {u' : Walk τ} {goOn : Walk σ → Move σ} {goOn' : Walk τ → Move τ}
      (asks : w.asks? o t = some (u, goOn)) (asks' : w'.asks? o' t = some (u', goOn'))
      (alike : u.Alike R f g k u') (last : k + 2 = m)
      (after : (goOn (u.taken o)).Alike R f g k (k + 1) (goOn' (u'.taken o')))

/-- Two walks in step have done all tasks, or are stopped by the same fault, or are about to take
the last token before one that may differ. -/
inductive Parting (k : Nat) (w : Walk σ) (w' : Walk τ) : List Task → Prop where
  | done : Parting k w w' []
  | stop {t : Task} {fault : Located Fault} {v : Walk σ} {fault' : Located Fault} {v' : Walk τ}
      {j : Nat} (stopped : w.step o t = .stop fault v) (stopped' : w'.step o' t = .stop fault' v')
      (alike : (Move.stop fault v).Alike R f g k j (.stop fault' v')) (room : j + 2 ≤ m)
      (place : j = k ∧ w'.asks? o' t = none ∨ j = k + 1) (rest : List Task) :
      Parting k w w' (t :: rest)
  | asks {t : Task} {u : Walk σ} {u' : Walk τ} {goOn : Walk σ → Move σ} {goOn' : Walk τ → Move τ}
      (asks : w.asks? o t = some (u, goOn)) (asks' : w'.asks? o' t = some (u', goOn'))
      (alike : u.Alike R f g k u') (last : k + 2 = m)
      (after : (goOn (u.taken o)).Alike R f g k (k + 1) (goOn' (u'.taken o'))) (rest : List Task) :
      Parting k w w' (t :: rest)

end Partings

variable {σ τ : Type} {R : Nat → σ → τ → Prop} {f g : Feed} {m k : Nat} {w : Walk σ} {w' : Walk τ}
  {o : Observer σ} {o' : Observer τ}

theorem take_of_lt (long : ∀ fault, f.ending = .fault fault → m ≤ f.ahead.length)
    (feed : w.feed = f.drop k) (room : k + 2 < m) (goOn : Walk σ → Move σ) :
    w.take o goOn = goOn (w.taken o) := by
  rw [take, feed, Feed.barrier?_drop, Feed.barrier?_of_lt long room]

theorem Alike.abreast (h : w.Alike R f g k w') (feeds : f.Alike m g) (keep : Observer.Keep R o o')
    (room : k + 2 ≤ m) (t : Task) : Abreast R f g m o o' k w w' t := by
  have agrees := feeds.agree k (by omega)
  have together := h.step keep agrees t
  generalize asking : w.asks? o t = ask, asking' : w'.asks? o' t = ask' at together
  cases together with
  | moves alike => exact .moves asking asking' alike
  | asks alike after =>
      have after := after (alike.taken keep agrees)
      by_cases last : k + 2 = m
      · exact .parts asking asking' alike last after
      · have room : k + 2 < m := Nat.lt_of_le_of_ne room last
        refine .takes asking asking' alike room ?_
        rw [step_of_asks asking, step_of_asks asking', take_of_lt feeds.left alike.feed room,
          take_of_lt feeds.right alike.feed' room]
        exact after

/-- Two walks in step do the same steps until they part. -/
theorem Alike.run (h : w.Alike R f g k w') (feeds : f.Alike m g) (keep : Observer.Keep R o o')
    (room : k + 2 ≤ m) (ts : List Task) :
    ∃ i u u' us, i + 2 ≤ m ∧ u.Alike R f g i u' ∧ Reaches o (w, ts) (u, us) ∧
      Reaches o' (w', ts) (u', us) ∧ Parting R f g m o o' i u u' us := by
  fun_induction w.run o ts generalizing k w' with
  | case1 w => exact ⟨k, w, w', [], room, h, .refl, .refl, .done⟩
  | case2 w t rest fault v stopped =>
      refine ⟨k, w, w', t :: rest, room, h, .refl, .refl, ?_⟩
      cases h.abreast feeds keep room t with
      | moves still still' alike =>
          rw [stopped] at alike
          obtain ⟨fault', v', stopped'⟩ := alike.of_stop
          exact .stop stopped stopped' (stopped' ▸ alike) room (.inl ⟨rfl, still'⟩) rest
      | takes asks asks' between more alike =>
          rw [stopped] at alike
          obtain ⟨fault', v', stopped'⟩ := alike.of_stop
          exact .stop stopped stopped' (stopped' ▸ alike) more (.inr rfl) rest
      | parts asks asks' alike last after => exact .asks asks asks' alike last after rest
  | case3 w t rest next v gone less ih =>
      have goes {v' : Walk τ} {j : Nat} (gone' : w'.step o' t = .go next v')
          (alike : v.Alike R f g j v') (room : j + 2 ≤ m) :
          ∃ i u u' us, i + 2 ≤ m ∧ u.Alike R f g i u' ∧ Reaches o (w, t :: rest) (u, us) ∧
            Reaches o' (w', t :: rest) (u', us) ∧ Parting R f g m o o' i u u' us := by
        obtain ⟨i, u, u', us, room, alike, reaches, reaches', parting⟩ := ih alike room
        exact ⟨i, u, u', us, room, alike, .head (.step gone rest) reaches,
          .head (.step gone' rest) reaches', parting⟩
      cases h.abreast feeds keep room t with
      | moves still still' alike =>
          rw [gone] at alike
          obtain ⟨v', gone', alike⟩ := alike.of_go
          exact goes gone' alike room
      | takes asks asks' between more alike =>
          rw [gone] at alike
          obtain ⟨v', gone', alike⟩ := alike.of_go
          exact goes gone' alike more
      | parts asks asks' alike last after =>
          exact ⟨k, w, w', t :: rest, room, h, .refl, .refl, .asks asks asks' alike last after rest⟩

end Walk

end YoloLang
