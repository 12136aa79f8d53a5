import Mathlib.Data.List.Forall2
import YoloLang.Proofs.Compile
import YoloLang.Proofs.Lockstep

/-!
Readings of feeds that differ in places alone. Main statement: texts whose tokens agree and that end
alike are compiled to the same C text, names and graph, or are refused for the same cause.
-/

namespace YoloLang

/-! Feeds with the same tokens. -/

/-- Both at the end of the text, or both at a fault of the same kind. -/
def Ending.Same : Ending → Ending → Prop
  | .eof _, .eof _ => True
  | .fault e, .fault e' => e.cause = e'.cause
  | _, _ => False

/-- The same tokens and the same end, wherever they stand. -/
structure Feed.Same (f g : Feed) : Prop where
  ahead : List.Forall₂ (fun a b => a.agrees b = true) f.ahead g.ahead
  ending : f.ending.Same g.ending

theorem Token.agrees_refl (t : Token) : t.agrees t = true := agrees_iff.mpr ⟨rfl, rfl⟩

theorem Token.agrees_trans {a b c : Token} (h : a.agrees b = true) (h' : b.agrees c = true) :
    a.agrees c = true := by
  rw [agrees_iff] at *
  exact ⟨h.1.trans h'.1, h.2.trans h'.2⟩

theorem Token.row_trans {xs ys zs : List Token}
    (h : List.Forall₂ (fun a b => a.agrees b = true) xs ys)
    (h' : List.Forall₂ (fun a b => a.agrees b = true) ys zs) :
    List.Forall₂ (fun a b => a.agrees b = true) xs zs := by
  induction h generalizing zs with
  | nil => exact h'
  | cons agrees _ ih =>
      cases h' with
      | cons agrees' more => exact .cons (agrees_trans agrees agrees') (ih more)

theorem Ending.same_refl (e : Ending) : e.Same e := by
  cases e with
  | eof => trivial
  | fault => rfl

theorem Ending.Same.trans {a b c : Ending} (h : a.Same b) (h' : b.Same c) : a.Same c := by
  cases a <;> cases b <;> cases c <;> first | trivial | contradiction | exact Eq.trans h h'

namespace Feed.Same

variable {f g k : Feed}

theorem refl (f : Feed) : f.Same f :=
  ⟨List.forall₂_same.mpr fun t _ => t.agrees_refl, f.ending.same_refl⟩

theorem trans (h : f.Same g) (h' : g.Same k) : f.Same k :=
  ⟨Token.row_trans h.ahead h'.ahead, h.ending.trans h'.ending⟩

theorem cons {a b : Token} (agrees : a.agrees b = true) (h : f.Same g) :
    Same ⟨a :: f.ahead, f.ending⟩ ⟨b :: g.ahead, g.ending⟩ :=
  ⟨.cons agrees h.ahead, h.ending⟩

theorem append_left (h : f.Same g) (ts : List Token) :
    Same ⟨ts ++ f.ahead, f.ending⟩ ⟨ts ++ g.ahead, g.ending⟩ := by
  induction ts with
  | nil => exact h
  | cons t ts ih => exact ih.cons t.agrees_refl

theorem agrees (h : f.Same g) (i : Nat) : (f.token i).agrees (g.token i) = true := by
  obtain ⟨length, agree⟩ := List.forall₂_iff_get.mp h.ahead
  by_cases inside : i < f.ahead.length
  · simpa [token, inside, length ▸ inside] using agree i inside (length ▸ inside)
  · have beyond : g.ahead.length ≤ i := length ▸ Nat.le_of_not_lt inside
    simp [token, Nat.le_of_not_lt inside, beyond, Token.eof, Token.agrees]

/-- What bars the way in one bars it in the other, at the same token. -/
theorem barrier (h : f.Same g) (i : Nat) :
    (f.barrier? i).map Located.cause = (g.barrier? i).map Located.cause := by
  have length := h.ahead.length_eq
  have ending := h.ending
  cases ends : f.ending <;> cases ends' : g.ending <;> rw [ends, ends'] at ending
  · rw [barrier?_of_eof ends, barrier?_of_eof ends']
  · contradiction
  · contradiction
  · rw [barrier?_of_fault ends, barrier?_of_fault ends', length]
    split
    · exact congrArg some ending
    · rfl

end Feed.Same

/-! Walks over them. -/

/-- Two results of the same sort, or two faults with the same cause. -/
inductive Told {α β : Type} (Like : α → β → Prop) :
    Except (Located Fault) α → Except (Located Fault) β → Prop where
  | ok {a : α} {b : β} (alike : Like a b) : Told Like (.ok a) (.ok b)
  | error {e e' : Located Fault} (cause : e.cause = e'.cause) : Told Like (.error e) (.error e')

theorem Told.of_ok {α β : Type} {Like : α → β → Prop} {a : α}
    {result : Except (Located Fault) β} (h : Told Like (.ok a) result) :
    ∃ b, result = .ok b ∧ Like a b := by
  cases h with
  | ok alike => exact ⟨_, rfl, alike⟩

/-- Observers that look at the kind and the text of a token at most. -/
def Observer.Placeless {σ : Type} (o : Observer σ) : Prop :=
  ∀ s {a b : Token}, a.agrees b = true → o s (.token a) = o s (.token b)

theorem Observer.Placeless.keep {σ : Type} {o : Observer σ} (h : o.Placeless) :
    Observer.Keep (fun _ => Eq) o o := by
  constructor
  case enter => exact fun rule same => congrArg (o · (.enter rule)) same
  case leave => exact fun same => congrArg (o · .leave) same
  case token => exact fun same agrees => same ▸ h _ agrees

theorem WalkGraph.placeless_watch : WalkGraph.watch.Placeless := by
  intro g a b agrees
  obtain ⟨kind, text⟩ := Token.agrees_iff.mp agrees
  simp only [watch, kind, text]

namespace Walk

variable {σ : Type} {f g : Feed} {o : Observer σ} {k : Nat} {w w' : Walk σ}

/-- Two walks of the same feeds that have come equally far. -/
abbrev Level (f g : Feed) (w w' : Walk σ) : Prop := ∃ k, w.Alike (fun _ => Eq) f g k w'

/-- Both walks go on with the same tasks, or both are stopped for the same cause. -/
inductive Onward (f g : Feed) : Move σ → Move σ → Prop where
  | go (next : List Task) {v v' : Walk σ} (level : Level f g v v') :
      Onward f g (.go next v) (.go next v')
  | stop {e e' : Located Fault} (cause : e.cause = e'.cause) {v v' : Walk σ}
      (level : Level f g v v') : Onward f g (.stop e v) (.stop e' v')

theorem onward_of_alike {i : Nat} {move move' : Move σ}
    (h : move.Alike (fun _ => Eq) f g i k move') : Onward f g move move' := by
  cases h with
  | go next alike => exact .go next ⟨k, alike⟩
  | stop _ alike | missing _ _ _ alike => exact .stop (by rfl) ⟨k, alike⟩

/-- A step of one walk is a step of the other. -/
theorem Level.step (h : Level f g w w') (feeds : f.Same g) (placeless : o.Placeless) (t : Task) :
    Onward f g (w.step o t) (w'.step o t) := by
  obtain ⟨k, h⟩ := h
  have keep := placeless.keep
  have together := h.step keep (feeds.agrees k) t
  generalize asking : w.asks? o t = ask, asking' : w'.asks? o t = ask' at together
  cases together with
  | moves alike => exact onward_of_alike alike
  | @asks u u' goOn goOn' _ _ alike after =>
      have barred := feeds.barrier (k + 2)
      rw [step_of_asks asking, step_of_asks asking', take, take, alike.feed, alike.feed',
        Feed.barrier?_drop, Feed.barrier?_drop]
      cases bar : f.barrier? (k + 2) <;> cases bar' : g.barrier? (k + 2) <;>
        rw [bar, bar'] at barred
      · exact onward_of_alike (after (alike.taken keep (feeds.agrees k)))
      · contradiction
      · contradiction
      · exact .stop (congrArg Fault.lexing (Option.some.inj barred)) ⟨k, alike⟩

/-- Both runs are over, or both are stopped for the same cause. -/
inductive Ended (f g : Feed) :
    Option (Located Fault) × Walk σ → Option (Located Fault) × Walk σ → Prop where
  | done {v v' : Walk σ} (level : Level f g v v') : Ended f g (none, v) (none, v')
  | stop {e e' : Located Fault} (cause : e.cause = e'.cause) {v v' : Walk σ}
      (level : Level f g v v') : Ended f g (some e, v) (some e', v')

theorem Level.run (h : Level f g w w') (feeds : f.Same g) (placeless : o.Placeless)
    (ts : List Task) : Ended f g (w.run o ts) (w'.run o ts) := by
  fun_induction w.run o ts generalizing w' with
  | case1 w =>
      rw [run_nil]
      exact .done h
  | case2 w t rest e v stopped =>
      have onward := h.step feeds placeless t
      rw [stopped] at onward
      generalize stopped' : w'.step o t = move' at onward
      cases onward with
      | stop cause level =>
          rw [run_cons_of_stop stopped']
          exact .stop cause level
  | case3 w t rest next v gone less ih =>
      have onward := h.step feeds placeless t
      rw [gone] at onward
      generalize gone' : w'.step o t = move' at onward
      cases onward with
      | go _ level =>
          rw [run_cons_of_go gone']
          exact ih level

end Walk

/-! Readings and compilations of them. -/

namespace Reading

/-- Two readings that differ in places alone. -/
structure Same {σ : Type} (r r' : Reading σ) : Prop where
  result : Told Declarations.Alike r.result r'.result
  file : r.file = r'.file
  watcher : r.watcher = r'.watcher

theorem same_ofWalk {σ : Type} {f g : Feed} {w w' : Walk σ} (h : Walk.Level f g w w')
    (feeds : f.Same g) {o : Observer σ} (placeless : o.Placeless) :
    (ofWalk o w).Same (ofWalk o w') := by
  have ended := h.run feeds placeless [.phrase .program]
  rw [ofWalk, ofWalk]
  generalize w.run o [.phrase .program] = x, w'.run o [.phrase .program] = y at ended
  cases ended with
  | done level =>
      obtain ⟨k, alike⟩ := level
      exact ⟨.ok alike.declarations, alike.file, alike.watcher⟩
  | stop cause level =>
      obtain ⟨k, alike⟩ := level
      have left := alike.leftAll placeless.keep
      exact ⟨.error cause, left.file, left.watcher⟩

theorem same_ofFeed {σ : Type} {f g : Feed} (feeds : f.Same g) {o : Observer σ}
    (placeless : o.Placeless) (file : CFile) (watcher : σ) :
    (ofFeed o f file watcher).Same (ofFeed o g file watcher) := by
  have window := feeds.barrier 1
  rw [ofFeed, ofFeed]
  cases bar : f.barrier? 1 <;> cases bar' : g.barrier? 1 <;> rw [bar, bar'] at window
  · refine same_ofWalk (f := f) (g := g) ⟨0, ?_⟩ feeds placeless
    exact ⟨rfl, rfl, rfl, ⟨rfl, rfl, rfl⟩, rfl, rfl⟩
  · contradiction
  · contradiction
  · exact ⟨.error (congrArg Fault.lexing (Option.some.inj window)), rfl, rfl⟩

end Reading

namespace Compilation

/-- Two compilations that differ at most in where labels are sought. -/
structure Alike (k k' : Compilation) : Prop where
  file : k.file = k'.file
  declarations : k.declarations.Alike k'.declarations
  graph : k.graph = k'.graph

end Compilation

namespace Compiler

theorem told_finish {σ : Type} {graph : σ → Option WalkGraph} {r r' : Reading σ}
    (same : r.Same r') : Told Compilation.Alike (finish graph r).1 (finish graph r').1 := by
  rw [finish_eq, finish_eq]
  obtain ⟨told, file, watcher⟩ := same
  generalize r.result = x, r'.result = y at told
  cases told with
  | ok alike => exact .ok ⟨file, alike, congrArg graph watcher⟩
  | error cause => exact .error cause

/-- A compiler has an observer that looks at no places, the same one for all texts. -/
theorem exists_placeless (c : Compiler) :
    ∃ (σ : Type) (o : Observer σ) (watcher : σ) (graph : σ → Option WalkGraph), o.Placeless ∧
      ∀ source, (c.compileText source).1 =
        (finish graph (.ofFeed o (.ofCursor (.ofSource source)) (.empty c.output) watcher)).1 := by
  unfold compileText
  cases c.graph with
  | some => exact ⟨_, _, .empty, some, WalkGraph.placeless_watch, fun _ => rfl⟩
  | none => exact ⟨_, Observer.silent, (), fun _ => none, fun _ _ _ _ => rfl, fun _ => rfl⟩

/-- Texts whose tokens agree are compiled alike. -/
theorem told_compileText (c : Compiler) {source source' : String}
    (same : (Feed.ofCursor (.ofSource source)).Same (.ofCursor (.ofSource source'))) :
    Told Compilation.Alike (c.compileText source).1 (c.compileText source').1 := by
  obtain ⟨σ, o, watcher, graph, placeless, compiled⟩ := c.exists_placeless
  rw [compiled, compiled]
  exact told_finish (Reading.same_ofFeed same placeless _ _)

end Compiler

end YoloLang
