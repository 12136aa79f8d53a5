import YoloLang.Proofs.Account
import YoloLang.Proofs.Heralds

/-!
The header and the variables. Main statement: whether a reading is stopped by a fault or not, the
header declares the names that were read behind a word that gives them a value, each once and in the
order of their first values. When it is not stopped every name in the C text but those of labels is
among them.
-/

namespace YoloLang

open Leaf

/-- The token that was taken with an event. -/
def Event.token? : Event → Option Token
  | .token t => some t
  | .enter _ | .leave => none

/-- The tokens that were taken, in their order. -/
def Reading.taken (r : Reading (Array Event)) : List Token :=
  r.watcher.toList.filterMap Event.token?

theorem Forest.filterMap_events (f : Forest) : f.events.filterMap Event.token? = f.tokens := by
  induction f with
  | nil => rfl
  | token t after ih => simp [events, tokens, Event.token?, ih]
  | rule r below after ih ih' =>
      simp [events, tokens, List.filterMap_cons, Event.token?, ih, ih']

/-- A name that is no label has a value in a program that keeps the rules on names. -/
theorem Program.mem_targets {p : Program} (named : WellNamed p.leaves) {l : Leaf}
    (mem : l ∈ p.leaves) (kind : l.token.kind = .identifier) (unmarked : l.mention ≠ some .marked)
    (unsought : l.mention ≠ some .sought) : l.token.text ∈ names .target p.leaves := by
  obtain ⟨i, found⟩ := List.mem_iff_getElem?.mp mem
  have mentioned := (p.heralded.named l mem).mpr kind
  obtain ⟨m, mention⟩ := Option.isSome_iff_exists.mp mentioned
  have read (reads : l.reads = true) : l.token.text ∈ names .target p.leaves := by
    have before := named.declared i l found reads
    rw [← List.take_append_drop i p.leaves, names_append]
    exact List.mem_append_left _ before
  cases m with
  | target => exact mem_names found mention
  | operand | stepped => exact read (by simp [reads, mention, Mention.reads])
  | marked => exact absurd mention unmarked
  | sought => exact absurd mention unsought

namespace Reading

variable {f : Feed} {below : Forest} {done : List Leaf} {path source : String}

theorem Account.taken {r : Reading (Array Event)} (h : Account f r below done) :
    r.taken = done.map Leaf.token := by
  rw [Reading.taken, h.events]
  simp [List.filterMap_cons, Event.token?, Forest.filterMap_events, h.tokens]

/-- The names that were given a value stand behind the words for that. -/
theorem Account.names_eq {r : Reading (Array Event)} (h : Account f r below done) {m : Mention}
    {words : List Keyword} (said : m.SaidBy words) :
    names m done = (behind words r.taken).map Token.text := by
  obtain ⟨p, begins⟩ := h.viable
  rw [h.taken]
  exact names_eq_behind begins said

/-- The variables of a reading that is not stopped are the names that are given a value, and every
name of the program but those of labels is one of them. -/
theorem vars_of_result {σ : Type} {o : Observer σ} {s : σ} {d : Declarations}
    (result : (ofFeed o (.ofCursor (.ofSource source)) (.empty path) s).result = .ok d) :
    ∃ p : Program, tokenize source = .ok p.tokens ∧
      (ofFeed o (.ofCursor (.ofSource source)) (.empty path) s).file.code = p.code ∧
        ∀ l ∈ p.leaves, l.token.kind = .identifier → l.mention ≠ some .marked →
          l.mention ≠ some .sought → l.token.text ∈ d.vars := by
  have lexed := tokenize_of_result result
  obtain ⟨clean, -⟩ := tokenize_eq_ok.mp lexed
  obtain ⟨p, d', result', translation⟩ | ⟨fault, k, failed, -⟩ := outcome clean o path s
  · obtain rfl := Except.ok.inj (result.symm.trans result')
    refine ⟨p, by rw [lexed, translation.derived], translation.code, ?_⟩
    intro l mem kind unmarked unsought
    rw [translation.declarations, Declarations.vars_ofLeaves, List.mem_eraseDups]
    exact p.mem_targets translation.named mem kind unmarked unsought
  · rw [result] at failed
    contradiction

/-- The header declares the names that were read behind LET and INPUT, each once and in their order,
also when a fault stops the reading. When none does these are the variables, and every name of the
program but those of labels is one of them. -/
theorem header_of_calls {σ : Type} {a b : Token} {stop : Cursor}
    (calls : (Cursor.ofSource source).Calls [a, b] stop) (path : String) (o : Observer σ) (s : σ) :
    let r := ofFeed o (.ofCursor (.ofSource source)) (.empty path) s
    let given := behind [.LET, .INPUT] (recorded source (.empty path)).taken
    r.file.header = CText.header (given.map Token.text).eraseDups ∧
      ∀ d, r.result = .ok d →
        d.vars = (given.map Token.text).eraseDups ∧ d.vars.Nodup ∧
          ∃ p : Program, tokenize source = .ok p.tokens ∧ r.file.code = p.code ∧
            ∀ l ∈ p.leaves, l.token.kind = .identifier → l.mention ≠ some .marked →
              l.mention ≠ some .sought → l.token.text ∈ d.vars := by
  intro r given
  obtain ⟨below, done, account⟩ := exists_account_of_calls calls path
  have same : names .target done = given.map Token.text :=
    account.names_eq Mention.target_saidBy
  rw [← same]
  constructor
  · have header : r.file.header = "" ++ (recorded source (.empty path)).file.header :=
      congrArg (CFile.header ∘ Reading.file) (ofFeed_eq_carried o _ (.empty path) s)
    rw [header, account.header, String.empty_append]
  · intro d result
    have declarations : d = .ofLeaves done := (Account.of_result account result).1
    have vars : d.vars = (names .target done).eraseDups := by
      rw [declarations, Declarations.vars_ofLeaves]
    exact ⟨vars, vars ▸ Declarations.nodup_eraseDups _, vars_of_result result⟩

theorem header_of_unknown_value :
    (recorded "INPUT a\nLET b = c" (.empty "out.c")).file.header = CText.header ["a", "b"] := by
  obtain ⟨stop, calls⟩ : ∃ stop, (Cursor.ofSource "INPUT a\nLET b = c").Calls
      [⟨"INPUT", .keyword .INPUT, ⟨0, 5, 1, 1⟩⟩, ⟨"a", .identifier, ⟨6, 1, 1, 7⟩⟩] stop :=
    ⟨_, .cons rfl (.cons rfl .nil)⟩
  have given : ((behind [.LET, .INPUT]
      (recorded "INPUT a\nLET b = c" (.empty "out.c")).taken).map Token.text).eraseDups =
        ["a", "b"] := by cbv
  have header := (header_of_calls calls "out.c" Observer.recorder #[]).1
  rw [given] at header
  exact header

end Reading
end YoloLang
