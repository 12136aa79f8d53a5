import Mathlib.Data.List.Forall2
import YoloLang.Proofs.Lockstep

/-!
The moments of a walk: how its tasks find it one after the other, and how it is when a token is
asked for. Main statement: two walks in step have the same moments, with the same events and the
same C text, until a token is asked for that may differ.
-/

namespace YoloLang

/-! What an observer makes of a walk. -/

section Watching

variable {σ : Type} {o : Observer σ} {P : σ → Prop}

/-- A step made twice moves, or asks for a token. What every event keeps of the observer is kept. -/
theorem Walk.together_self (closed : ∀ s e, P s → P (o s e)) {w : Walk σ} (h : P w.watcher)
    (t : Task) :
    w.asks? o t = none ∧
        (w.step o t).Alike (fun _ s _ => P s) w.feed w.feed 0 0 (w.step o t) ∨
      ∃ u goOn, w.asks? o t = some (u, goOn) ∧ P u.watcher ∧
        (goOn (u.taken o)).Alike (fun _ s _ => P s) w.feed w.feed 0 1 (goOn (u.taken o)) := by
  have keep : Observer.Keep (fun _ s _ => P s) o o :=
    ⟨fun _ => closed _ _, closed _ _, fun h _ => closed _ _ h⟩
  have alike : w.Alike (fun _ s _ => P s) w.feed w.feed 0 w :=
    ⟨rfl, rfl, rfl, ⟨rfl, rfl, rfl⟩, rfl, h⟩
  have agrees : (w.feed.token 0).agrees (w.feed.token 0) = true := Token.agrees_iff.mpr ⟨rfl, rfl⟩
  have together := alike.step keep agrees t
  generalize w.asks? o t = ask at together ⊢
  generalize w.step o t = move at together ⊢
  cases together with
  | moves alike => exact .inl ⟨rfl, alike⟩
  | asks alike after => exact .inr ⟨_, _, rfl, alike.watcher, after (alike.taken keep agrees)⟩

theorem Walk.watcher_of_step (closed : ∀ s e, P s → P (o s e)) {w : Walk σ} (h : P w.watcher)
    (t : Task) : P (w.step o t).walk.watcher := by
  obtain ⟨-, alike⟩ | ⟨u, goOn, asks, asking, after⟩ := w.together_self closed h t
  · exact alike.walk.watcher
  · rw [step_of_asks asks, take]
    split
    · exact asking
    · exact after.walk.watcher

theorem Walk.watcher_of_run (closed : ∀ s e, P s → P (o s e)) {w : Walk σ} (h : P w.watcher)
    (ts : List Task) : P (w.run o ts).2.watcher := by
  fun_induction w.run o ts with
  | case1 w => exact h
  | case2 w t rest fault v stopped => simpa [stopped, Move.walk] using watcher_of_step closed h t
  | case3 w t rest next v gone less ih =>
      exact ih (by simpa [gone, Move.walk] using watcher_of_step closed h t)

theorem Walk.watcher_of_first (closed : ∀ s e, P s → P (o s e)) {w : Walk σ} {t : Task}
    (h : P (w.step o t).walk.watcher) (rest : List Task) : P (w.run o (t :: rest)).2.watcher := by
  cases moved : w.step o t with
  | go next v =>
      rw [run_cons_of_go moved]
      exact watcher_of_run closed (by simpa [moved, Move.walk] using h) _
  | stop fault v =>
      rw [run_cons_of_stop moved]
      simpa [moved, Move.walk] using h

theorem Walk.watcher_of_leftAll (closed : ∀ s e, P s → P (o s e)) {w : Walk σ} (h : P w.watcher) :
    P (w.leftAll o).watcher := by
  rw [leftAll]
  generalize w.depth = depth
  induction depth with
  | zero => exact h
  | succ depth ih => exact closed _ _ ih

end Watching

/-! Events. -/

/-- The same event, wherever its token stands. -/
inductive Event.Alike : Event → Event → Prop where
  | enter (rule : Rule) : Alike (.enter rule) (.enter rule)
  | leave : Alike .leave .leave
  | token {a b : Token} (agrees : a.agrees b = true) : Alike (.token a) (.token b)

def Event.takes : Event → Bool
  | .token _ => true
  | .enter _ | .leave => false

/-- How many tokens were taken. -/
def consumed (events : Array Event) : Nat := events.countP Event.takes

theorem consumed_push (events : Array Event) (e : Event) :
    consumed (events.push e) = consumed events + if e.takes then 1 else 0 :=
  Array.countP_push

theorem le_consumed_push {m : Nat} (events : Array Event) (e : Event)
    (h : m ≤ consumed events + 1) : m ≤ consumed (Observer.recorder events e) + 1 := by
  rw [Observer.recorder, consumed_push]
  omega

/-- The same events, with so many tokens taken. -/
structure Recorded (k : Nat) (events events' : Array Event) : Prop where
  alike : List.Forall₂ Event.Alike events.toList events'.toList
  left : consumed events = k
  right : consumed events' = k

theorem keep_recorder : Observer.Keep Recorded Observer.recorder Observer.recorder := by
  have push {events events' : Array Event} {e e' : Event}
      (h : List.Forall₂ Event.Alike events.toList events'.toList) (same : e.Alike e') :
      List.Forall₂ Event.Alike (events.push e).toList (events'.push e').toList := by
    rw [Array.toList_push, Array.toList_push]
    exact List.rel_append h (.cons same .nil)
  constructor
  case enter =>
    intro k s s' rule h
    exact ⟨push h.alike (.enter rule), (consumed_push s _).trans h.left,
      (consumed_push s' _).trans h.right⟩
  case leave =>
    intro k s s' h
    exact ⟨push h.alike .leave, (consumed_push s _).trans h.left,
      (consumed_push s' _).trans h.right⟩
  case token =>
    intro k s s' a b h agrees
    exact ⟨push h.alike (.token agrees), (consumed_push s _).trans (congrArg (· + 1) h.left),
      (consumed_push s' _).trans (congrArg (· + 1) h.right)⟩

/-! Moments. -/

section Moments

variable {σ : Type} {o : Observer σ}

/-- A fault in the text stops a walk where it asks for a token, so this is its last moment. -/
def Walk.moments (o : Observer σ) (w : Walk σ) : List Task → List (Walk σ)
  | [] => [w]
  | t :: rest =>
      w :: (((w.asks? o t).map Prod.fst).toList ++
        match h : w.step o t with
        | .stop ⟨.lexing _, _⟩ _ => []
        | .stop _ v => [v]
        | .go next v =>
            have := cost_append_lt h rest
            v.moments o (next ++ rest))
termination_by tasks => w.cost tasks

/-- The moments behind a move. -/
def Move.moments (o : Observer σ) (rest : List Task) : Move σ → List (Walk σ)
  | .stop ⟨.lexing _, _⟩ _ => []
  | .stop _ v => [v]
  | .go next v => v.moments o (next ++ rest)

theorem Walk.moments_nil (w : Walk σ) : w.moments o [] = [w] := by
  rw [moments]

theorem Walk.moments_cons (w : Walk σ) (t : Task) (rest : List Task) :
    w.moments o (t :: rest) =
      w :: (((w.asks? o t).map Prod.fst).toList ++ (w.step o t).moments o rest) := by
  rw [moments]
  split <;> rename_i moved <;> simp [moved, Move.moments]

theorem Move.moments_of_stop {fault : Located Fault} (atToken : ∀ e, fault.cause ≠ .lexing e)
    (v : Walk σ) (rest : List Task) : (Move.stop fault v).moments o rest = [v] := by
  rw [moments]
  rintro e span rfl
  exact atToken e rfl

theorem Move.head_moments (move : Move σ) (rest : List Task) :
    ∀ v ∈ (move.moments o rest).head?, v = move.walk := by
  cases move with
  | stop fault v =>
      rw [moments.eq_def]
      split <;> simp_all [walk]
  | go next v =>
      rw [moments]
      cases next ++ rest with
      | nil => simp [Walk.moments_nil, walk]
      | cons t ts => simp [Walk.moments_cons, walk]

end Moments

namespace Walk

/-- The same events and the same C text. -/
structure Same (w w' : Walk (Array Event)) : Prop where
  events : List.Forall₂ Event.Alike w.watcher.toList w'.watcher.toList
  file : w.file = w'.file

/-- The moments up to the one in which the last but one of so many tokens is asked for. -/
def early (m : Nat) (ws : List (Walk (Array Event))) : List (Walk (Array Event)) :=
  ws.takeWhile fun w => consumed w.watcher + 2 ≤ m

variable {f g : Feed} {m k : Nat} {w w' : Walk (Array Event)}

theorem Alike.same (h : w.Alike Recorded f g k w') : w.Same w' := ⟨h.watcher.alike, h.file⟩

theorem early_cons (room : consumed w.watcher + 2 ≤ m) (ws : List (Walk (Array Event))) :
    early m (w :: ws) = w :: early m ws := by
  simp [early, room]

theorem early_eq_nil {ws : List (Walk (Array Event))}
    (late : ∀ w ∈ ws.head?, m < consumed w.watcher + 2) : early m ws = [] := by
  cases ws with
  | nil => rfl
  | cons w ws =>
      have late := late w rfl
      exact List.takeWhile_cons_of_neg (by simpa using late)

/-- Nothing is early once the last of the tokens is taken. -/
theorem early_of_asks {t : Task} {u : Walk (Array Event)}
    {goOn : Walk (Array Event) → Move (Array Event)}
    (asks : w.asks? Observer.recorder t = some (u, goOn))
    (late : m < consumed (goOn (u.taken Observer.recorder)).walk.watcher + 2) (rest : List Task) :
    early m ((w.step Observer.recorder t).moments Observer.recorder rest) = [] := by
  rw [step_of_asks asks, take]
  split
  · rfl
  · refine early_eq_nil fun v first => ?_
    rw [Move.head_moments _ rest v first]
    exact late

/-- Two walks in step have the same moments until a token is asked for that may differ. -/
theorem Alike.early_moments (h : w.Alike Recorded f g k w') (feeds : f.Alike m g)
    (room : k + 2 ≤ m) (ts : List Task) :
    List.Forall₂ Same (early m (w.moments Observer.recorder ts))
      (early m (w'.moments Observer.recorder ts)) := by
  have cons {k : Nat} {w w' : Walk (Array Event)} (h : w.Alike Recorded f g k w')
      (room : k + 2 ≤ m) {ws ws' : List (Walk (Array Event))}
      (more : List.Forall₂ Same (early m ws) (early m ws')) :
      List.Forall₂ Same (early m (w :: ws)) (early m (w' :: ws')) := by
    rw [early_cons (by rw [h.watcher.left]; exact room),
      early_cons (by rw [h.watcher.right]; exact room)]
    exact .cons h.same more
  induction size : w.cost ts using Nat.strongRecOn generalizing w w' k ts with
  | ind size ih =>
      cases ts with
      | nil =>
          rw [moments_nil, moments_nil]
          exact cons h room .nil
      | cons t rest =>
          have moves {i j : Nat} {move' : Move (Array Event)} (room : j + 2 ≤ m)
              (alike : (w.step Observer.recorder t).Alike Recorded f g i j move') :
              List.Forall₂ Same
                (early m ((w.step Observer.recorder t).moments Observer.recorder rest))
                (early m (move'.moments Observer.recorder rest)) := by
            generalize moved : w.step Observer.recorder t = move at alike
            cases alike with
            | go next alike => exact ih _ (size ▸ cost_append_lt moved rest) alike room _ rfl
            | stop atToken alike =>
                rw [Move.moments_of_stop atToken.not_lexing,
                  Move.moments_of_stop atToken.not_lexing]
                exact cons alike room .nil
            | missing name span span' alike =>
                rw [Move.moments_of_stop (by simp), Move.moments_of_stop (by simp)]
                exact cons alike room .nil
          rw [moments_cons, moments_cons]
          refine cons h room ?_
          cases h.abreast feeds keep_recorder room t with
          | moves still still' alike =>
              rw [still, still']
              exact moves room alike
          | takes asks asks' alike more after =>
              rw [asks, asks']
              exact cons alike room (moves more after)
          | parts asks asks' alike last after =>
              have late := after.walk.watcher
              have done := early_of_asks (m := m) asks (by rw [late.left]; omega) rest
              have done' := early_of_asks (m := m) asks' (by rw [late.right]; omega) rest
              rw [asks, asks']
              refine cons alike room ?_
              simp only [List.append_eq, List.nil_append, done, done']
              exact .nil

end Walk

end YoloLang
