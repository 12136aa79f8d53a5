import YoloLang.Proofs.Standing

/-!
Where a walk stops and with what. Main statements: a fault at a token says that nothing is wrong
before this token and what is wrong with it, and a walk that is not stopped has read a program in
the only way there is.
-/

namespace YoloLang

open Leaf

/-- What stands against this token when nothing stands against the tokens before it. The place
behind the last token is that of the end. -/
def FirstFault (tokens : List Token) (k : Nat) : Fault → Prop
  | .grammar _ =>
      k ≤ tokens.length ∧ Viable (tokens.take k) ∧
        (if k < tokens.length then ¬ Viable (tokens.take (k + 1)) else ¬ Sentence tokens) ∧
        ∀ p : Program, tokens.take k <+: p.tokens → Orderly (p.leaves.take k)
  | .naming (.undeclaredVariable name) =>
      k < tokens.length ∧ Viable (tokens.take (k + 1)) ∧
        ∀ p : Program, tokens.take (k + 1) <+: p.tokens →
          Orderly (p.leaves.take k) ∧ ∃ l, p.leaves[k]? = some l ∧
            l.token.kind = .identifier ∧ l.token.text = name ∧ l.reads = true ∧
              name ∉ names .target (p.leaves.take k)
  | .naming (.duplicateLabel name) =>
      k < tokens.length ∧ Viable (tokens.take (k + 1)) ∧
        ∀ p : Program, tokens.take (k + 1) <+: p.tokens →
          Orderly (p.leaves.take k) ∧ ∃ l, p.leaves[k]? = some l ∧
            l.token.kind = .identifier ∧ l.token.text = name ∧ l.mention = some .marked ∧
              name ∈ names .marked (p.leaves.take k)
  | .naming (.undeclaredLabel name) =>
      Sentence tokens ∧
        ∀ p : Program, p.tokens = tokens →
          Orderly p.leaves ∧ ∃ l, FirstMissing (names .marked p.leaves) p.leaves k l ∧
            l.token.text = name
  | .lexing _ | .file _ => False

theorem Viable.take {tokens : List Token} (h : Viable tokens) (k : Nat) :
    Viable (tokens.take k) := by
  obtain ⟨p, begins⟩ := h
  exact ⟨p, (List.take_prefix k tokens).trans begins⟩

namespace FirstFault

variable {tokens : List Token} {k : Nat}

/-- Names are found at a token. -/
theorem lt_length_of_naming {fault : NameFault} (h : FirstFault tokens k (.naming fault)) :
    k < tokens.length := by
  cases fault with
  | undeclaredVariable | duplicateLabel => exact h.1
  | undeclaredLabel =>
      obtain ⟨⟨p, rfl⟩, all⟩ := h
      obtain ⟨-, l, first, -⟩ := all p rfl
      have inside := (List.getElem?_eq_some_iff.mp first.found).1
      rwa [Program.tokens, List.length_map]

/-- Tokens that some program begins with are refused at their end alone. -/
theorem eq_length_of_viable {fault : GrammarFault} (h : FirstFault tokens k (.grammar fault))
    (viable : Viable tokens) : k = tokens.length := by
  obtain ⟨le, -, stuck, -⟩ := h
  by_contra other
  rw [if_pos (Nat.lt_of_le_of_ne le other)] at stuck
  exact stuck (viable.take (k + 1))

/-- Nothing but names stands against the tokens of a program. -/
theorem naming_of_sentence {cause : Fault} (h : FirstFault tokens k cause)
    (sentence : Sentence tokens) : ∃ fault, cause = .naming fault := by
  cases cause with
  | lexing | file => exact h.elim
  | naming fault => exact ⟨fault, rfl⟩
  | grammar fault =>
      obtain ⟨p, rfl⟩ := sentence
      obtain ⟨-, -, stuck, -⟩ := id h
      rw [h.eq_length_of_viable ⟨p, List.prefix_rfl⟩, if_neg (Nat.lt_irrefl _)] at stuck
      exact absurd ⟨p, rfl⟩ stuck

end FirstFault

/-! The first fault of a walk. -/

namespace Standing

variable {σ : Type} {o : Observer σ} {f : Feed} {done : List Leaf} {w v : Walk σ} {t : Task}
  {rest : List Task} {r : Turn}

theorem take_ahead (h : Standing f done w rest) :
    f.ahead.take done.length = done.map Leaf.token := by
  simpa using (List.prefix_iff_eq_take.mp h.read).symm

theorem length_le (h : Standing f done w rest) : done.length ≤ f.ahead.length := by
  simpa using h.read.length_le

theorem take_leaves (h : Standing f done w rest) {p : Program}
    (continues : f.ahead.take done.length <+: p.tokens) : p.leaves.take done.length = done := by
  rw [h.take_ahead] at continues
  exact (List.prefix_iff_eq_take.mp (h.settled p continues)).symm

/-- Some program begins with the leaves that have been read. -/
theorem exists_program (h : Standing f done w rest) : ∃ p : Program, done <+: p.leaves := by
  obtain ⟨ls, x, gives⟩ := exists_gives h.guarded
  obtain ⟨p, whole, -⟩ := h.sound ls x gives
  exact ⟨p, ls, whole.symm⟩

theorem viable (h : Standing f done w rest) : Viable (f.ahead.take done.length) := by
  obtain ⟨p, begins⟩ := h.exists_program
  rw [h.take_ahead]
  exact ⟨p, begins.map Leaf.token⟩

/-- No program goes on with a token that is refused. -/
theorem not_agrees_of_error (h : Standing f done w (t :: rest)) {fault : GrammarFault}
    (refused : t.turn w.current = .error fault) (p : Program) :
    p.tokens.take (done.length + 1) ≠ f.ahead.take (done.length + 1) := by
  intro agrees
  obtain ⟨r, ls, x, turn, -⟩ := h.turn_of_agrees agrees
  rw [refused] at turn
  contradiction

theorem firstFault_of_error (h : Standing f done w (t :: rest)) {fault : GrammarFault}
    (refused : t.turn w.current = .error fault) :
    FirstFault f.ahead done.length (.grammar fault) := by
  refine ⟨h.length_le, h.viable, ?_, ?_⟩
  · split
    · rename_i inside
      rintro ⟨p, continues⟩
      refine h.not_agrees_of_error refused p ?_
      have whole := List.prefix_iff_eq_take.mp continues
      rw [List.length_take_of_le inside] at whole
      exact whole.symm
    · rintro ⟨p, whole⟩
      exact h.not_agrees_of_error refused p (by rw [whole])
  · intro p continues
    rw [h.take_leaves continues]
    exact h.orderly

theorem exists_program_of_taken (h : Standing f done w (t :: rest)) (lexical : f.Lexical)
    (turn : t.turn w.current = .ok r) {l : Leaf} (taken : r.taken = some l) :
    ∃ p : Program, done ++ [l] <+: p.leaves := by
  obtain ⟨ls, x, gives⟩ := exists_gives (guarded_of_turn h.guarded turn)
  obtain ⟨p, whole, -⟩ := h.program_of_turn lexical turn gives
  exact ⟨p, ls, by rw [whole, taken, List.append_assoc, Option.toList_some]⟩

theorem viable_of_taken (h : Standing f done w (t :: rest)) (clean : f.Clean)
    (turn : t.turn w.current = .ok r) {l : Leaf} (taken : r.taken = some l) :
    Viable (f.ahead.take (done.length + 1)) := by
  obtain ⟨p, begins⟩ := h.exists_program_of_taken clean.lexical turn taken
  rw [← h.read_taken turn taken]
  exact ⟨p, begins.map Leaf.token⟩

/-- Every program that goes on with a token that is taken takes it in the same way. -/
theorem leaves_of_taken (h : Standing f done w (t :: rest)) (turn : t.turn w.current = .ok r)
    {l : Leaf} (taken : r.taken = some l) {p : Program}
    (continues : f.ahead.take (done.length + 1) <+: p.tokens) :
    p.leaves.take done.length = done ∧ p.leaves[done.length]? = some l := by
  rw [← h.read_taken turn taken] at continues
  obtain ⟨r', ls, x, turn', whole, -, -⟩ :=
    h.turn_of_agrees (h.agrees_of_taken turn taken continues)
  obtain rfl := Except.ok.inj (turn.symm.trans turn')
  simp [whole, taken]

theorem firstFault_of_objection (h : Standing f done w (t :: rest)) (clean : f.Clean)
    (turn : t.turn w.current = .ok r) {l : Leaf} (taken : r.taken = some l) {fault : NameFault}
    (bars : w.declarations.objection? l = some fault) :
    FirstFault f.ahead done.length (.naming fault) := by
  obtain ⟨same, kind, named⟩ := taken_of_turn h.inner turn taken
  have inside : done.length < f.ahead.length := by
    rw [h.current] at kind
    exact (List.getElem?_eq_some_iff.mp (Feed.token_eq_some kind)).1
  have viable := h.viable_of_taken clean turn taken
  rw [h.declarations] at bars
  have identifier : l.token.kind = .identifier := by
    rw [same]
    refine named ?_
    by_contra none
    simp [Declarations.objection?, Option.not_isSome_iff_eq_none.mp none] at bars
  cases fault with
  | undeclaredVariable name =>
      obtain ⟨reads, text, new⟩ := Declarations.objection_eq_undeclared.mp bars
      rw [Declarations.vars_ofLeaves, List.mem_eraseDups] at new
      refine ⟨inside, viable, ?_⟩
      intro p continues
      obtain ⟨before, found⟩ := h.leaves_of_taken turn taken continues
      rw [before]
      exact ⟨h.orderly, l, found, identifier, text, reads, new⟩
  | duplicateLabel name =>
      obtain ⟨marked, text, known⟩ := Declarations.objection_eq_duplicate.mp bars
      rw [Declarations.labels_ofLeaves, List.mem_eraseDups] at known
      refine ⟨inside, viable, ?_⟩
      intro p continues
      obtain ⟨before, found⟩ := h.leaves_of_taken turn taken continues
      rw [before]
      exact ⟨h.orderly, l, found, identifier, text, marked, known⟩
  | undeclaredLabel name =>
      exact absurd bars (Declarations.objection_ne_undeclaredLabel _ l name)

/-- A step that stops the walk names the first fault of the tokens, in its place. -/
theorem firstFault_of_stop (h : Standing f done w (t :: rest)) (clean : f.Clean)
    {fault : Located Fault} (stopped : w.step o t = .stop fault v) :
    FirstFault f.ahead done.length fault.cause ∧
      fault.span = some (f.token done.length).span := by
  obtain ⟨cause, turn, refused⟩ | ⟨r, v', gone, -⟩ | ⟨r, l, cause, v', turn, taken, bars, named⟩ :=
    h.step_cases clean o
  · obtain ⟨rfl, rfl⟩ := Move.stop.inj (refused.symm.trans stopped)
    exact ⟨h.firstFault_of_error turn, by rw [h.current]⟩
  · simp [gone] at stopped
  · obtain ⟨rfl, rfl⟩ := Move.stop.inj (named.symm.trans stopped)
    exact ⟨h.firstFault_of_objection clean turn taken bars, by rw [h.current]⟩

theorem start {w : Walk σ} (feed : w.feed = f) (code : w.file.code = "")
    (header : w.file.header = CText.opening) (declarations : w.declarations = .empty) :
    Standing f [] w [.newlines, .statements] := by
  constructor
  case feed => exact feed
  case read => exact List.nil_prefix
  case guarded => exact guarded_program
  case sound =>
    intro ls x gives
    obtain ⟨p, whole, written⟩ := program_of_gives gives
    exact ⟨p, whole, by rw [written, code, String.empty_append]⟩
  case complete =>
    intro p _
    exact ⟨p.leaves, p.body.code, rfl, by rw [code, String.empty_append], gives_program p⟩
  case settled => exact fun _ _ => List.nil_prefix
  case declarations => exact declarations
  case orderly => exact orderly_nil
  case header =>
    rw [header, declarations]
    exact CText.header_nil.symm
  case ends => exact .inl (by simp)

/-- With no task left all tokens have been read, and there is one way to read them. -/
theorem finish (h : Standing f done w []) :
    (∃ p : Program, p.leaves = done ∧ p.tokens = f.ahead ∧ p.body.code = w.file.code) ∧
      ∀ p : Program, p.tokens = f.ahead → p.leaves = done ∧ p.body.code = w.file.code := by
  have all : f.ahead.length ≤ done.length := h.ends.resolve_left List.not_mem_nil
  have read : done.map Leaf.token = f.ahead := by
    rw [← h.take_ahead, List.take_of_length_le all]
  constructor
  · obtain ⟨p, whole, code⟩ := h.sound [] "" .nil
    rw [List.append_nil] at whole
    rw [String.append_empty] at code
    exact ⟨p, whole, by rw [Program.tokens, whole, read], code⟩
  · intro p tokens
    obtain ⟨ls, x, whole, code, rfl, rfl⟩ := h.complete p (by rw [tokens])
    exact ⟨by simpa using whole, by simpa using code⟩

/-- A label that is missing at the end is the only fault. -/
theorem firstFault_of_missing (h : Standing f done w []) {name : String} {span : Span}
    (missing : w.declarations.missingLabel? = some (name, span)) :
    ∃ k, FirstFault f.ahead k (.naming (.undeclaredLabel name)) ∧ span = (f.token k).span := by
  obtain ⟨⟨p, -, tokens, -⟩, only⟩ := h.finish
  rw [h.declarations] at missing
  obtain ⟨k, l, first, text, place⟩ := Declarations.firstMissing_of_missingLabel missing
  refine ⟨k, ⟨⟨p, tokens⟩, ?_⟩, ?_⟩
  · intro q tokens
    rw [(only q tokens).1]
    exact ⟨h.orderly, l, first, text⟩
  · obtain ⟨rest, read⟩ := h.read
    have found : f.ahead[k]? = some l.token := by
      have inside := (List.getElem?_eq_some_iff.mp first.found).1
      rw [← read, List.getElem?_append_left (by simpa using inside), List.getElem?_map,
        first.found]
      rfl
    simp [Feed.token, found, place]

end Standing

end YoloLang
