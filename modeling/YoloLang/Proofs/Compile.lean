import Mathlib
import YoloLang.Compiler.Basic
import YoloLang.Proofs.Feed
import YoloLang.Proofs.Split

/-!
Compilations of a text. Main statements: a text whose tokens are known compiles if and only if they
are those of a well named program, its C text is the one of this program, and otherwise the fault is
the first there is.
-/

namespace YoloLang

open Leaf

namespace Compiler

variable {c : Compiler} {source : String} {tokens : List Token}

theorem finish_eq {σ : Type} (graph : σ → Option WalkGraph) (r : Reading σ) :
    (finish graph r).1 = r.result.map fun d => ⟨r.file, d, graph r.watcher⟩ := by
  rw [finish]
  cases r.result <;> rfl

/-- A compilation is a reading that ended well, with the graph that was made of it. -/
theorem eq_of_finish {σ : Type} {graph : σ → Option WalkGraph} {r : Reading σ} {k : Compilation}
    (h : (finish graph r).1 = .ok k) :
    r.result = .ok k.declarations ∧ r.file = k.file ∧ graph r.watcher = k.graph := by
  rw [finish_eq] at h
  cases result : r.result with
  | error fault => simp [result, Except.map] at h
  | ok d =>
      rw [result] at h
      obtain rfl := Except.ok.inj h
      exact ⟨rfl, rfl, rfl⟩

/-- How a compilation ends is how the reading of the text ends, whoever observes it. -/
theorem exists_reading (c : Compiler) (source : String) :
    ∃ (σ : Type) (r : Reading σ) (o : Observer σ) (watcher : σ) (graph : Option WalkGraph),
      r = .ofFeed o (.ofCursor (.ofSource source)) (.empty c.output) watcher ∧
        (c.compileText source).1 = r.result.map fun d => ⟨r.file, d, graph⟩ := by
  rw [compileText]
  cases c.graph with
  | some => exact ⟨_, _, WalkGraph.watch, .empty, _, rfl, finish_eq some _⟩
  | none => exact ⟨_, _, Observer.silent, (), _, rfl, finish_eq (fun _ => none) _⟩

/-- A text that compiles has been lexed to its end. -/
theorem tokenize_of_compileText {k : Compilation} (h : (c.compileText source).1 = .ok k) :
    ∃ tokens, tokenize source = .ok tokens := by
  obtain ⟨σ, r, o, watcher, graph, rfl, read⟩ := exists_reading c source
  rw [h] at read
  cases result : (Reading.ofFeed o (.ofCursor (.ofSource source)) (.empty c.output)
      watcher).result with
  | error fault => simp [result, Except.map] at read
  | ok d => exact ⟨_, Reading.tokenize_of_result result⟩

/-- A compilation gives the C text of the program that has these tokens, or the first fault. -/
theorem compileText_outcome (c : Compiler) (lexed : tokenize source = .ok tokens) :
    (∃ p k, (c.compileText source).1 = .ok k ∧ Translation tokens p k.file k.declarations) ∨
      ∃ fault i, (c.compileText source).1 = .error fault ∧ FirstFault tokens i fault.cause ∧
        fault.span = some ((Feed.ofCursor (.ofSource source)).token i).span := by
  obtain ⟨clean, rfl⟩ := tokenize_eq_ok.mp lexed
  obtain ⟨σ, r, o, watcher, graph, rfl, read⟩ := exists_reading c source
  obtain ⟨p, d, result, translation⟩ | ⟨fault, i, result, first⟩ :=
    Reading.outcome clean o c.output watcher
  · rw [result] at read
    exact .inl ⟨p, _, read, translation⟩
  · rw [result] at read
    exact .inr ⟨fault, i, read, first⟩

/-- A text that compiles has been lexed, and is translated with its only program. -/
theorem translation_of_compileText {k : Compilation} (h : (c.compileText source).1 = .ok k) :
    ∃ tokens p, tokenize source = .ok tokens ∧ Translation tokens p k.file k.declarations := by
  obtain ⟨tokens, lexed⟩ := tokenize_of_compileText h
  obtain ⟨p, k', compiled, translation⟩ | ⟨fault, i, failed, -⟩ := compileText_outcome c lexed
  · obtain rfl := Except.ok.inj (h.symm.trans compiled)
    exact ⟨tokens, p, lexed, translation⟩
  · rw [failed] at h
    contradiction

/-- A text that compiles is the translation of every program with its tokens. -/
theorem translations_of_compileText {k : Compilation} (h : (c.compileText source).1 = .ok k) :
    ∃ p : Program, tokenize source = .ok p.tokens ∧
      ∀ q : Program, tokenize source = .ok q.tokens →
        Translation q.tokens q k.file k.declarations ∧ ∀ t ∈ q.tokens, t.Lexed := by
  obtain ⟨tokens, p, lexed, translation⟩ := translation_of_compileText h
  refine ⟨p, by rw [translation.derived, lexed], fun q lexed' => ?_⟩
  obtain rfl : q.tokens = tokens := Except.ok.inj (lexed'.symm.trans lexed)
  refine ⟨translation.of_tokens rfl, fun t mem => ?_⟩
  rw [← (tokenize_eq_ok.mp lexed).2] at mem
  exact (Feed.lexed_ofCursor _ t mem).1

end Compiler

theorem Translation.text {tokens : List Token} {p : Program} {file : CFile} {d : Declarations}
    (h : Translation tokens p file d) : file.text = p.header ++ p.code := by
  rw [CFile.text, h.header, h.code]

/-- Against a program that keeps the rules of every beginning stands only a label that is
missing. -/
theorem FirstFault.missing_of_orderly {tokens : List Token} {i : Nat} {fault : Fault}
    (h : FirstFault tokens i fault) {p : Program} (derived : p.tokens = tokens)
    (orderly : Orderly p.leaves) :
    ∃ l, FirstMissing (names .marked p.leaves) p.leaves i l ∧
      fault = .naming (.undeclaredLabel l.token.text) := by
  have before : tokens.take (i + 1) <+: p.tokens := derived ▸ List.take_prefix _ _
  cases fault with
  | lexing | file => exact h.elim
  | grammar fault =>
      obtain ⟨-, -, stuck, -⟩ := h
      split at stuck
      · exact absurd ⟨p, before⟩ stuck
      · exact absurd ⟨p, derived⟩ stuck
  | naming fault =>
      cases fault with
      | undeclaredVariable name =>
          obtain ⟨-, -, all⟩ := h
          obtain ⟨-, l, found, -, rfl, reads, new⟩ := all p before
          exact absurd (orderly.declared i l found reads) new
      | duplicateLabel name =>
          obtain ⟨-, -, all⟩ := h
          obtain ⟨-, l, found, -, rfl, marked, known⟩ := all p before
          exact absurd known (orderly.not_marked_before found marked)
      | undeclaredLabel name =>
          obtain ⟨-, all⟩ := h
          obtain ⟨-, l, first, rfl⟩ := all p derived
          exact ⟨l, first, rfl⟩

/-- Where there is a fault there is no well named program. -/
theorem FirstFault.not_wellNamed {tokens : List Token} {i : Nat} {fault : Fault}
    (h : FirstFault tokens i fault) {p : Program} (derived : p.tokens = tokens) :
    ¬ WellNamed p.leaves := by
  intro named
  obtain ⟨l, first, -⟩ := h.missing_of_orderly derived named.toOrderly
  exact first.missing (named.resolved _ (mem_names first.found first.sought))

namespace Compiler

variable {c : Compiler} {source : String} {tokens : List Token}

/-- A text compiles if and only if its tokens are those of a program that keeps the rules on
names. -/
theorem compiles_iff_wellNamed (c : Compiler) (lexed : tokenize source = .ok tokens) :
    (∃ k, (c.compileText source).1 = .ok k) ↔
      ∃ p : Program, p.tokens = tokens ∧ WellNamed p.leaves := by
  obtain ⟨p, k, compiled, translation⟩ | ⟨fault, i, failed, first, -⟩ :=
    compileText_outcome c lexed
  · exact ⟨fun _ => ⟨p, translation.derived, translation.named⟩, fun _ => ⟨k, compiled⟩⟩
  · constructor
    · rintro ⟨k, compiled⟩
      rw [failed] at compiled
      contradiction
    · rintro ⟨p, derived, named⟩
      exact absurd named (first.not_wellNamed derived)

theorem wellNamed_of_jump_back :
    ∃ p : Program, tokenize "LABEL a\nGOTO a" = .ok p.tokens ∧ WellNamed p.leaves := by
  obtain ⟨tokens, lexed⟩ : ∃ tokens, tokenize "LABEL a\nGOTO a" = .ok tokens := ⟨_, by cbv⟩
  obtain ⟨p, rfl, named⟩ := (compiles_iff_wellNamed ⟨"out.c", none⟩ lexed).mp ⟨_, by cbv⟩
  exact ⟨p, lexed, named⟩

/-- The C text of a compilation is that of every program with the tokens of the text. -/
theorem file_of_compileText {k : Compilation} (h : (c.compileText source).1 = .ok k) :
    ∃ p : Program, tokenize source = .ok p.tokens ∧
      ∀ q : Program, tokenize source = .ok q.tokens →
        k.file.header = q.header ∧ k.file.code = q.code := by
  obtain ⟨tokens, p, lexed, translation⟩ := translation_of_compileText h
  refine ⟨p, by rw [translation.derived, lexed], ?_⟩
  intro q lexed'
  have derived : q.tokens = tokens := Except.ok.inj (lexed'.symm.trans lexed)
  obtain ⟨leaves, code⟩ := translation.only q derived
  refine ⟨?_, translation.code.trans code.symm⟩
  rw [translation.header, Program.header, Program.header, leaves]

theorem code_of_assignment :
    ∃ p : Program, tokenize "LET a = 1" = .ok p.tokens ∧
      p.code = "a = 1;\nreturn 0;\n\x7d\n" := by
  have compiled : ∃ k, ((⟨"out.c", none⟩ : Compiler).compileText "LET a = 1").1 = .ok k ∧
      k.file.code = "a = 1;\nreturn 0;\n\x7d\n" := ⟨_, by cbv, by cbv⟩
  obtain ⟨k, compiled, code⟩ := compiled
  obtain ⟨p, lexed, all⟩ := file_of_compileText compiled
  exact ⟨p, lexed, (all p lexed).2 ▸ code⟩

/-- C takes an expression or a comparison of a compiled text for the tokens it was written with if
and only if no two equal signs of a sum stand side by side in it. -/
theorem split_value_of_compileText {k : Compilation} (h : (c.compileText source).1 = .ok k) :
    ∃ p : Program, tokenize source = .ok p.tokens ∧
      ∀ q : Program, tokenize source = .ok q.tokens → ∀ ls ∈ q.body.values,
        Within (spelling ls) k.file.code ∧
          (CText.split (spelling ls) = ls.map (·.token.text) ↔ ls.IsChain Leaf.Apart) := by
  obtain ⟨tokens, p, lexed, translation⟩ := translation_of_compileText h
  refine ⟨p, by rw [translation.derived, lexed], ?_⟩
  intro q lexed' ls mem
  have derived : q.tokens = tokens := Except.ok.inj (lexed'.symm.trans lexed)
  rw [translation.code, ← (translation.only q derived).2]
  exact ⟨(q.body.within_code ls mem).left _, (q.body.formula_of_mem_values ls mem).split_eq_iff⟩

theorem split_value_of_double_minus :
    ∃ p : Program, tokenize "PRINT 1 - -1" = .ok p.tokens ∧
      ∀ ls ∈ p.body.values,
        CText.split (spelling ls) = ls.map (·.token.text) ↔ ls.IsChain Leaf.Apart := by
  have compiled : ∃ k, ((⟨"out.c", none⟩ : Compiler).compileText "PRINT 1 - -1").1 = .ok k :=
    ⟨_, by cbv⟩
  obtain ⟨k, compiled⟩ := compiled
  obtain ⟨p, lexed, all⟩ := split_value_of_compileText compiled
  exact ⟨p, lexed, fun ls mem => (all p lexed ls mem).2⟩

/-- A text that is lexed and does not compile has no fault before the one that is reported. -/
theorem firstFault_of_compileText {fault : Located Fault} (lexed : tokenize source = .ok tokens)
    (h : (c.compileText source).1 = .error fault) :
    ∃ i, FirstFault tokens i fault.cause ∧
      fault.span = some ((Feed.ofCursor (.ofSource source)).token i).span := by
  obtain ⟨p, k, compiled, -⟩ | ⟨fault', i, failed, first⟩ := compileText_outcome c lexed
  · rw [compiled] at h
    contradiction
  · obtain rfl := Except.error.inj (h.symm.trans failed)
    exact ⟨i, first⟩

theorem firstFault_of_unknown_name : ∃ tokens i, tokenize "PRINT a" = .ok tokens ∧
    FirstFault tokens i (.naming (.undeclaredVariable "a")) := by
  obtain ⟨tokens, lexed⟩ : ∃ tokens, tokenize "PRINT a" = .ok tokens := ⟨_, by cbv⟩
  have failed : ∃ span, ((⟨"out.c", none⟩ : Compiler).compileText "PRINT a").1 =
      .error ⟨.naming (.undeclaredVariable "a"), span⟩ := ⟨_, by cbv⟩
  obtain ⟨span, failed⟩ := failed
  obtain ⟨i, first, -⟩ := firstFault_of_compileText lexed failed
  exact ⟨tokens, i, lexed, first⟩

end Compiler
end YoloLang
