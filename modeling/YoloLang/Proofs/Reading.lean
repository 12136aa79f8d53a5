import YoloLang.Proofs.FirstFault

/-!
The reading of a program from its first token to its last. Main statement: a reading ends either
with the C text of the one program that has these tokens, or at the first token where something is
wrong.
-/

namespace YoloLang

open Leaf

namespace Walk

variable {σ : Type} {o : Observer σ}

/-- What every step keeps holds at the end of a run, or else where a step stops it. -/
theorem run_keeps {P : Walk σ → List Task → Prop}
    (keeps : ∀ {w v : Walk σ} {t : Task} {rest next : List Task},
      P w (t :: rest) → w.step o t = .go next v → P v (next ++ rest))
    {w : Walk σ} {ts : List Task} (start : P w ts) :
    (∃ v, w.run o ts = (none, v) ∧ P v []) ∨
      ∃ fault v u t rest, w.run o ts = (some fault, v) ∧ P u (t :: rest) ∧
        u.step o t = .stop fault v := by
  fun_induction w.run o ts with
  | case1 w => exact .inl ⟨w, rfl, start⟩
  | case2 w t rest fault v stopped => exact .inr ⟨fault, v, w, t, rest, rfl, start, stopped⟩
  | case3 w t rest next v gone less ih => exact ih (keeps start gone)

/-- The end of the C text, and the check that no label is missing. -/
def closing : List Task := [.writeLine "return 0;", .writeLine "\x7d", .labels, .close]

/-- A walk that has entered the program, with the beginning of the C text written. -/
def opened (o : Observer σ) (w : Walk σ) : Walk σ :=
  ((w.entered o (.phrase .program)).headerWritten "#include <stdio.h>").headerWritten
    "int main()\x7b"

theorem run_opened (w : Walk σ) :
    w.run o [.phrase .program] = (w.opened o).run o ([.newlines, .statements] ++ closing) := by
  have entered : w.step o (.phrase .program) =
      .go (Phrase.program.body ++ [.close]) (w.entered o (.phrase .program)) := rfl
  have body : Phrase.program.body ++ [.close] = .writeHeader "#include <stdio.h>" ::
      .writeHeader "int main()\x7b" :: ([.newlines, .statements] ++ closing) := rfl
  have header (v : Walk σ) (text : String) (ts : List Task) :
      v.run o (.writeHeader text :: ts) = (v.headerWritten text).run o ts := by
    have gone : v.step o (.writeHeader text) = .go [] (v.headerWritten text) := rfl
    exact run_cons_of_go gone ts
  rw [run_cons_of_go entered, List.append_nil, body, header, header, opened]

theorem header_opened (w : Walk σ) :
    (w.opened o).file.header = w.file.header ++ CText.opening := by
  simp [opened, headerWritten, CFile.writeHeader, Walk.entered, CText.opening_eq,
    String.append_assoc]

/-- The text at the end is written whether a label is missing or not. -/
theorem run_closing (w : Walk σ) :
    ∃ v : Walk σ, w.run o closing = v.run o [.labels, .close] ∧ w.Still v ∧
      v.declarations = w.declarations ∧ v.file.header = w.file.header ∧
        v.file.code = w.file.code ++ CText.footer := by
  have line (v : Walk σ) (text : String) (ts : List Task) :
      v.run o (.writeLine text :: ts) = (v.lineWritten text).run o ts := by
    have gone : v.step o (.writeLine text) = .go [] (v.lineWritten text) := rfl
    exact run_cons_of_go gone ts
  refine ⟨_, (line _ _ _).trans (line _ _ _), ⟨rfl, rfl, rfl⟩, rfl, rfl, ?_⟩
  simp [lineWritten, CFile.writeLine, CText.footer, String.append_assoc]

theorem run_labels_of_missing {w : Walk σ} {name : String} {span : Span}
    (missing : w.declarations.missingLabel? = some (name, span)) :
    w.run o [.labels, .close] = (some ⟨.naming (.undeclaredLabel name), some span⟩, w) := by
  refine run_cons_of_stop ?_ _
  simp only [step, labels, missing]

theorem run_labels {w : Walk σ} (none : w.declarations.missingLabel? = none) :
    w.run o [.labels, .close] = (Option.none, w.left o) := by
  have given : w.step o .labels = .go [] w := by simp only [step, labels, none]
  have closed : w.step o .close = .go [] (w.left o) := rfl
  rw [run_cons_of_go given, List.nil_append, run_cons_of_go closed, List.nil_append, run_nil]

end Walk

/-- What holds when a program has been entered and nothing of it has been read. -/
theorem Standing.opened {σ : Type} {o : Observer σ} (f : Feed) (path : String) (watcher : σ)
    (journal : Array Note) :
    Standing f [] ((⟨f, .empty path, .empty, watcher, 0, journal⟩ : Walk σ).opened o)
      [.newlines, .statements] :=
  .start rfl rfl ((Walk.header_opened _).trans String.empty_append) rfl

/-! Readings. -/

/-- The header and the code of this file are those of a program with these tokens, and these are
its names. There is no other program with these tokens. -/
structure Translation (tokens : List Token) (p : Program) (file : CFile) (d : Declarations) :
    Prop where
  derived : p.tokens = tokens
  named : WellNamed p.leaves
  header : file.header = p.header
  code : file.code = p.code
  declarations : d = .ofLeaves p.leaves
  only : ∀ q : Program, q.tokens = tokens → q.leaves = p.leaves ∧ q.code = p.code

/-- What is a translation of one program with these tokens is one of all of them. -/
theorem Translation.of_tokens {tokens : List Token} {p q : Program} {file : CFile}
    {d : Declarations} (h : Translation tokens p file d) (derived : q.tokens = tokens) :
    Translation tokens q file d := by
  obtain ⟨leaves, code⟩ := h.only q derived
  constructor
  case derived => exact derived
  case named => exact leaves ▸ h.named
  case header => rw [h.header, Program.header, Program.header, leaves]
  case code => rw [h.code, code]
  case declarations => rw [h.declarations, leaves]
  case only => simpa only [leaves, code] using h.only

theorem Standing.translation {σ : Type} {f : Feed} {done : List Leaf} {w : Walk σ} {file : CFile}
    (h : Standing f done w []) (none : w.declarations.missingLabel? = none)
    (header : file.header = w.file.header) (code : file.code = w.file.code ++ CText.footer) :
    ∃ p, Translation f.ahead p file w.declarations := by
  obtain ⟨⟨p, rfl, tokens, written⟩, only⟩ := h.finish
  have whole : file.code = p.code := by rw [code, ← written, Program.code]
  refine ⟨p, tokens, ⟨h.orderly, ?_⟩, ?_, whole, h.declarations, ?_⟩
  · rw [h.declarations] at none
    exact (Declarations.missingLabel_ofLeaves_eq_none p.leaves).mp none
  · rw [header, h.header, h.declarations, Declarations.vars_ofLeaves, Program.header]
  · intro q tokens
    obtain ⟨same, body⟩ := only q tokens
    exact ⟨same, by rw [Program.code, body, Program.code, written]⟩

namespace Reading

variable {σ : Type} {f : Feed}

theorem ofFeed_of_clean (clean : f.Clean) (o : Observer σ) (file : CFile) (watcher : σ) :
    ofFeed o f file watcher = ofWalk o
      ⟨f, file, .empty, watcher, 0, #[.lexed (f.token 0), .lexed (f.token 1)]⟩ := by
  obtain ⟨span, ends⟩ := clean.ending
  simp [ofFeed, Feed.barrier?, ends]

theorem ofWalk_of_fault {o : Observer σ} {w v : Walk σ} {fault : Located Fault}
    (h : w.run o [.phrase .program] = (some fault, v)) : (ofWalk o w).result = .error fault := by
  simp [ofWalk, h]

theorem ofWalk_of_none {o : Observer σ} {w v : Walk σ}
    (h : w.run o [.phrase .program] = (none, v)) :
    (ofWalk o w).result = .ok v.declarations ∧ (ofWalk o w).file = v.file := by
  simp [ofWalk, h]

/-- The statements are read to their end, or up to the first fault. -/
theorem outcome_statements (clean : f.Clean) {o : Observer σ} {w : Walk σ}
    (start : Standing f [] w [.newlines, .statements]) :
    (∃ v done, w.run o [.newlines, .statements] = (none, v) ∧ Standing f done v []) ∨
      ∃ fault v k, w.run o [.newlines, .statements] = (some fault, v) ∧
        FirstFault f.ahead k fault.cause ∧ fault.span = some (f.token k).span := by
  have keeps {w v : Walk σ} {t : Task} {rest next : List Task}
      (h : ∃ done, Standing f done w (t :: rest)) (gone : w.step o t = .go next v) :
      ∃ done, Standing f done v (next ++ rest) := by
    obtain ⟨done, h⟩ := h
    exact h.step clean gone
  obtain ⟨v, run, done, h⟩ | ⟨fault, v, u, t, rest, run, ⟨done, h⟩, stopped⟩ :=
    Walk.run_keeps (P := fun w ts => ∃ done, Standing f done w ts) keeps ⟨[], start⟩
  · exact .inl ⟨v, done, run, h⟩
  · exact .inr ⟨fault, v, done.length, run, h.firstFault_of_stop clean stopped⟩

/-- A reading ends with the program that has these tokens, or at the first fault. -/
theorem outcome (clean : f.Clean) (o : Observer σ) (path : String) (watcher : σ) :
    (∃ p d, (ofFeed o f (.empty path) watcher).result = .ok d ∧
        Translation f.ahead p (ofFeed o f (.empty path) watcher).file d) ∨
      ∃ fault k, (ofFeed o f (.empty path) watcher).result = .error fault ∧
        FirstFault f.ahead k fault.cause ∧ fault.span = some (f.token k).span := by
  rw [ofFeed_of_clean clean]
  have begun := Walk.run_opened (o := o)
    ⟨f, .empty path, .empty, watcher, 0, #[.lexed (f.token 0), .lexed (f.token 1)]⟩
  have start := Standing.opened (o := o) f path watcher
    #[.lexed (f.token 0), .lexed (f.token 1)]
  rw [Walk.run_append] at begun
  obtain ⟨v, done, run, h⟩ | ⟨fault, v, k, run, result⟩ := outcome_statements clean (o := o) start
  · rw [run] at begun
    obtain ⟨u, closed, -, same, heads, written⟩ := Walk.run_closing (o := o) v
    have begun := begun.trans closed
    cases missing : v.declarations.missingLabel? with
    | some label =>
        obtain ⟨name, span⟩ := label
        obtain ⟨k, first, place⟩ := h.firstFault_of_missing missing
        rw [Walk.run_labels_of_missing (same ▸ missing)] at begun
        exact .inr ⟨_, k, ofWalk_of_fault begun, first, congrArg some place⟩
    | none =>
        rw [Walk.run_labels (same ▸ missing)] at begun
        obtain ⟨result, file⟩ := ofWalk_of_none begun
        obtain ⟨p, translation⟩ := h.translation missing heads written
        rw [file]
        exact .inl ⟨p, _, result.trans (congrArg Except.ok same), translation⟩
  · rw [run] at begun
    exact .inr ⟨fault, k, ofWalk_of_fault begun, result⟩

end Reading

end YoloLang
