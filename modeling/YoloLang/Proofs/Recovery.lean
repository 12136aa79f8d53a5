import Mathlib
import YoloLang.Proofs.Heralds
import YoloLang.Proofs.Relexing
import YoloLang.Proofs.Rows

/-!
Programs read back from C text. Main statement: the tokens of a program are told from its code but
for newlines before the first statement and further newlines at the end of a line. So texts that are
compiled to the same code have all other tokens in common, and the header.
-/

namespace YoloLang

open Leaf CText

/-! Atoms of statements. -/

namespace Atom

def word (w : Keyword) : Atom := ⟨.keyword w, w.text⟩

def line : Atom := ⟨.newline, "\n"⟩

def name (text : String) : Atom := ⟨.identifier, text⟩

def equals : Atom := ⟨.eq, "="⟩

def opening : Atom := ⟨.openParen, "("⟩

def closing : Atom := ⟨.closeParen, ")"⟩

def semicolon : Atom := ⟨.semicolon, ";"⟩

end Atom

/-- Without newlines that stand directly behind another one. -/
def collapsed : List Atom → List Atom
  | [] => []
  | s :: rest =>
      if s.kind = .newline then s :: (collapsed rest).dropWhile (·.kind = .newline)
      else s :: collapsed rest

/-- Kinds and texts of tokens, with one newline for each run of them and none before the others. -/
def gist (tokens : List Token) : List Atom :=
  collapsed ((tokens.map Token.atom).dropWhile (·.kind = .newline))

namespace CText

/-- The atoms of the line that a block begins with, but for its end. -/
def head (word condition : String) : List Atom :=
  if word = "for" then
    .word .FOR :: .opening :: .word .LET ::
      (atoms (condition.toList.drop 4) ++ [.closing, .word .REPEAT])
  else if word = "while" then
    .word .WHILE :: .opening :: (atoms condition.toList ++ [.closing, .word .REPEAT])
  else .word .IF :: .opening :: (atoms condition.toList ++ [.closing, .word .THEN])

def stop (word : String) : Keyword :=
  if word = "for" then .ENDFOR else if word = "while" then .ENDWHILE else .ENDIF

/-- The atoms of the statements that were written as these lines, with the words that end the
blocks around them. -/
def reread : List Keyword → List Line → List Atom
  | stops, .printText text :: ls => .word .PRINT :: ⟨.string, text⟩ :: .line :: reread stops ls
  | stops, .printNumber value :: ls =>
      .word .PRINT :: (atoms value.toList ++ .line :: reread stops ls)
  | stops, .opening word condition :: ls =>
      head word condition ++ .line :: reread (stop word :: stops) ls
  | stop :: stops, .closing :: ls => .word stop :: .line :: reread stops ls
  | stops, .marker name :: ls => .word .LABEL :: .name name :: .line :: reread stops ls
  | stops, .jump name :: ls => .word .GOTO :: .name name :: .line :: reread stops ls
  | stops, .asking name :: .assign _ _ :: .dropping :: .closing :: ls =>
      .word .INPUT :: .name name :: .line :: reread stops ls
  | stops, .assign name value :: ls =>
      .word .LET :: .name name :: .equals :: (atoms value.toList ++ .line :: reread stops ls)
  | _, _ => []

/-- The atoms of the program with this code. -/
def recovered (code : String) : List Atom :=
  reread [] ((Text.lines code.toList).map Line.read)

end CText

/-! Rows that are the same but for newlines. -/

/-- Rows that differ only in how many newlines stand in a row. -/
def Atom.Alike (xs ys : List Atom) : Prop := collapsed xs = collapsed ys

def Tree.atoms {part : Part} (t : Tree part) : List Atom := t.leaves.map (·.token.atom)

namespace Atom

theorem atom_word {w : Keyword} (t : Terminal (.keyword w)) : t.1.atom = word w := by
  have spelled := t.2.2.spelled (by simp [t.2.1]) (by simp [t.2.1])
  rw [t.2.1] at spelled
  have text : t.1.text = w.text := by
    rw [← String.ofList_toList (s := t.1.text)]
    generalize t.1.text.toList = raw at spelled
    cases spelled with
    | word _ _ named =>
        cases named with
        | reserved _ same => exact same
    | symbol mem => simp [Lexeme.symbols] at mem
  rw [Token.atom, t.2.1, text, word]

theorem atom_name (t : Terminal .identifier) : t.1.atom = name t.1.text := by
  rw [Token.atom, t.2.1, name]

theorem atom_string (t : Terminal .string) : t.1.atom = ⟨.string, t.1.text⟩ := by
  rw [Token.atom, t.2.1]

/-- A kind with one spelling has one atom. -/
theorem atom_fixed {kind : Kind} (t : Terminal kind) (raw : List Char)
    (mem : (raw, kind) ∈ Lexeme.fixed) : t.1.atom = ⟨kind, .ofList raw⟩ := by
  obtain ⟨_, l, read, same, text⟩ := t.2.2
  have fixed : (raw, l.kind) ∈ Lexeme.fixed := by rwa [← same, t.2.1]
  rw [Token.atom, text, (Lexeme.shape_read read).text_of_fixed fixed, t.2.1]

theorem atom_opening (t : Terminal .openParen) : t.1.atom = opening :=
  atom_fixed t ['('] (by decide)

theorem atom_closing (t : Terminal .closeParen) : t.1.atom = closing :=
  atom_fixed t [')'] (by decide)

theorem atom_equals (t : Terminal .eq) : t.1.atom = equals :=
  atom_fixed t ['='] (by decide)

theorem atom_semicolon (t : Terminal .semicolon) : t.1.atom = semicolon :=
  atom_fixed t [';'] (by decide)

theorem atom_line (t : Terminal .newline) : t.1.atom = line :=
  atom_fixed t ['\n'] (by decide)

end Atom

namespace Atom.Alike

variable {xs ys : List Atom}

theorem cons (s : Atom) (h : Alike xs ys) : Alike (s :: xs) (s :: ys) := by
  have h : collapsed xs = collapsed ys := h
  simp only [Alike, collapsed, h]

theorem append (front : List Atom) (h : Alike xs ys) : Alike (front ++ xs) (front ++ ys) := by
  induction front with
  | nil => exact h
  | cons s front ih => exact ih.cons s

/-- A newline is as good as a run of them. -/
theorem lines (t : Tree (.phrase .newline)) (h : Alike xs ys) :
    Alike (.line :: xs) (t.atoms ++ ys) := by
  have again (zs : List Atom) : Alike (.line :: zs) (.line :: .line :: zs) := by
    simp [Alike, collapsed, line, List.dropWhile_idempotent]
  cases t with
  | newline first more =>
      simp only [Tree.atoms, Tree.leaves, plain, List.map_cons, List.map_map, Function.comp_def,
        atom_line, List.cons_append]
      induction more with
      | nil => exact h.cons _
      | cons next more ih => exact Eq.trans ih (again _)

/-- A block is told from its lines if its statements are. -/
theorem block {word condition : String} {stops : List Keyword} {ls : List Line}
    {line ends : Tree (.phrase .newline)} {body : Tree .statements}
    (inner : ∀ {stops ls ys}, Alike (reread stops ls) ys →
      Alike (reread stops (body.lines ++ ls)) (body.atoms ++ ys))
    (h : Alike (reread stops ls) ys) :
    Alike (reread stops (.opening word condition :: (body.lines ++ [.closing]) ++ ls))
      (head word condition ++ (line.atoms ++ (body.atoms ++ .word (stop word) ::
        (ends.atoms ++ ys)))) := by
  have stopped : Alike (reread (stop word :: stops) (.closing :: ls))
      (.word (stop word) :: (ends.atoms ++ ys)) := (h.lines ends).cons _
  have whole := ((inner stopped).lines line).append (head word condition)
  simpa [reread] using whole

end Atom.Alike

open Atom

namespace Tree

theorem atoms_value (t : Tree (.phrase .expression)) :
    YoloLang.atoms (spelling t.leaves).toList = t.atoms := by
  have formed : Formula t.leaves := t.formed
  simpa [atoms_nil, atoms] using formed.atoms_spelling [] (by simp)

theorem atoms_condition (t : Tree (.phrase .comparison)) :
    YoloLang.atoms (spelling t.leaves).toList = t.atoms := by
  have formed : Formula t.leaves := t.formed
  simpa [atoms_nil, atoms] using formed.atoms_spelling [] (by simp)

theorem atoms_assigned (name : Terminal .identifier) (eq : Terminal .eq)
    (value : Tree (.phrase .expression)) {after : List Char} (ends : ∀ c ∈ after.head?, c = ';') :
    YoloLang.atoms ((assigned name.1.text ++ spelling value.leaves).toList ++ after) =
      .name name.1.text :: .equals :: (value.atoms ++ YoloLang.atoms after) := by
  have formed : Formula value.leaves := value.formed
  have sign : eq.1.text.toList = ['='] := by
    simpa [Token.atom, equals] using congrArg (·.text.toList) (atom_equals eq)
  have row : (assigned name.1.text ++ spelling value.leaves).toList ++ after =
      name.1.text.toList ++ (' ' :: (eq.1.text.toList ++
        (' ' :: ((spelling value.leaves).toList ++ after)))) := by
    simp [assigned, sign]
  obtain ⟨c, cs, text, first, -⟩ := name.2.2.identifier name.2.1
  rw [row, atoms_token name.2.2 (by simp [name.2.1]) (by simp [name.2.1]), atoms_blank,
    atoms_token eq.2.2 (by simp [eq.2.1]) (by simp [eq.2.1]), atoms_blank,
    formed.atoms_spelling after ends, atom_name, atom_equals]
  · rfl
  · rw [sign]
    rintro c ⟨⟩ goes
    obtain ⟨-, more⟩ | ⟨-, same⟩ := Lexeme.goesOn_cases (by decide) goes
    · revert more
      decide
    · contradiction
  · rintro d ⟨⟩
    exact name.2.2.not_goesOn_of_endsValue (by rw [name.2.1]; rfl) (by decide)

theorem atoms_semicolon (t : Terminal .semicolon) (after : List Char) :
    YoloLang.atoms (';' :: after) = .semicolon :: YoloLang.atoms after := by
  have sign : t.1.text.toList = [';'] := by
    simpa [Token.atom, Atom.semicolon] using congrArg (·.text.toList) (atom_semicolon t)
  have row : ';' :: after = t.1.text.toList ++ after := by simp [sign]
  rw [row, atoms_token t.2.2 (by simp [t.2.1]) (by simp [t.2.1]), atom_semicolon]
  rintro c - goes
  rw [sign] at goes
  obtain ⟨first, -⟩ | ⟨mem, -⟩ := Lexeme.goesOn_cases (by decide) goes
  · revert first
    decide
  · simp at mem

/-- What stands in the brackets of a counted loop is told from the C text of it. -/
theorem atoms_count (init : Tree (.phrase .forInit)) (semicolon : Terminal .semicolon)
    (condition : Tree (.phrase .comparison)) (semicolon' : Terminal .semicolon)
    (step : Tree (.phrase .forStep)) :
    .word .LET :: YoloLang.atoms
        ((init.code ++ ";" ++ spelling condition.leaves ++ ";" ++ step.code).toList.drop 4) =
      init.atoms ++ .semicolon :: (condition.atoms ++ .semicolon :: step.atoms) := by
  cases init with
  | forInit word name eq value =>
      cases step with
      | forStep name' eq' value' =>
          have formed : Formula condition.leaves := condition.formed
          have row : (((forInit word name eq value).code ++ ";" ++ spelling condition.leaves ++
              ";" ++ (forStep name' eq' value').code).toList.drop 4) =
              (assigned name.1.text ++ spelling value.leaves).toList ++ (';' ::
                ((spelling condition.leaves).toList ++ (';' ::
                  ((assigned name'.1.text ++ spelling value'.leaves).toList ++ [])))) := by
            simp [code, counter, assigned]
          rw [row, atoms_assigned name eq value (by simp), atoms_semicolon semicolon,
            formed.atoms_spelling _ (by simp), atoms_semicolon semicolon',
            atoms_assigned name' eq' value' (by simp), atoms_nil]
          simp [atoms, leaves, plain, naming, atom_word, atom_name, atom_equals]

/-- Statements are told from their lines. -/
theorem restores {part : Part} (t : Tree part) (whole : part = .statement ∨ part = .statements)
    {stops : List Keyword} {ls : List Line} {rest : List Atom}
    (h : Alike (reread stops ls) rest) :
    Alike (reread stops (t.lines ++ ls)) (t.atoms ++ rest) := by
  -- A statement is told whatever comes behind it, so that the end of its block can come next.
  induction t generalizing stops ls rest with
  | printText word text ends =>
      have row : (printText word text ends).atoms =
          .word .PRINT :: ⟨.string, text.1.text⟩ :: ends.atoms := by
        simp [atoms, leaves, plain, atom_word, atom_string]
      rw [row]
      exact ((h.lines ends).cons _).cons _
  | print word value ends =>
      have row : (print word value ends).atoms = .word .PRINT :: (value.atoms ++ ends.atoms) := by
        simp [atoms, leaves, plain, atom_word]
      rw [row, ← atoms_value, List.cons_append, List.append_assoc]
      exact ((h.lines ends).append _).cons _
  | branch word opening condition closing before line body stop ends _ _ ih =>
      have row : (branch word opening condition closing before line body stop ends).atoms =
          head "if" (spelling condition.leaves) ++ (line.atoms ++ (body.atoms ++
            .word (CText.stop "if") :: ends.atoms)) := by
        simp [head, CText.stop, atoms_condition, atoms, leaves, plain, atom_word, atom_opening,
          atom_closing]
      rw [row]
      simpa [lines] using h.block (ih (.inr rfl))
  | loop word opening condition closing before line body stop ends _ _ ih =>
      have row : (loop word opening condition closing before line body stop ends).atoms =
          head "while" (spelling condition.leaves) ++ (line.atoms ++ (body.atoms ++
            .word (CText.stop "while") :: ends.atoms)) := by
        simp [head, CText.stop, atoms_condition, atoms, leaves, plain, atom_word, atom_opening,
          atom_closing]
      rw [row]
      simpa [lines] using h.block (ih (.inr rfl))
  | count word opening init semicolon condition semicolon' step closing before line body stop ends
      _ _ _ _ ih =>
      have row : (count word opening init semicolon condition semicolon' step closing before line
          body stop ends).atoms =
          head "for" (init.code ++ ";" ++ spelling condition.leaves ++ ";" ++ step.code) ++
            (line.atoms ++ (body.atoms ++ .word (CText.stop "for") :: ends.atoms)) := by
        rw [head, if_pos rfl, ← List.cons_append,
          atoms_count init semicolon condition semicolon' step]
        simp [CText.stop, atoms, leaves, plain, atom_word, atom_opening, atom_closing,
          atom_semicolon]
      rw [row]
      simpa [lines] using h.block (ih (.inr rfl))
  | label word name ends | goto word name ends | input word name ends =>
      have row (w : Keyword) (m : Mention) (word : Terminal (.keyword w)) :
          (plain word.1 :: naming m name.1 :: ends.leaves).map (·.token.atom) =
            .word w :: .name name.1.text :: ends.atoms := by
        simp [atoms, plain, naming, atom_word, atom_name]
      rw [atoms, leaves, row]
      exact ((h.lines ends).cons _).cons _
  | assign word name eq value ends =>
      have row : (assign word name eq value ends).atoms =
          .word .LET :: .name name.1.text :: .equals :: (value.atoms ++ ends.atoms) := by
        simp [atoms, leaves, plain, naming, atom_word, atom_name, atom_equals]
      rw [row, ← atoms_value]
      simp only [List.cons_append, List.append_assoc]
      exact ((((h.lines ends).append _).cons _).cons _).cons _
  | empty => exact h
  | cons first rest ih ih' =>
      simpa [lines, atoms, leaves] using ih (.inl rfl) (ih' (.inr rfl) h)
  | _ => simp at whole

end Tree

/-- The tokens of a program are told from its code, but for runs of newlines. -/
theorem Program.gist_tokens (p : Program) : gist p.tokens = collapsed (recovered p.code) := by
  have first : p.body.atoms.dropWhile (·.kind = .newline) = p.body.atoms := by
    obtain ⟨none, -⟩ | ⟨l, rest, row, begins⟩ := p.body.leaves_begin
    · simp [Tree.atoms, none]
    · have other : l.token.kind ≠ .newline := by
        intro line
        rw [line] at begins
        exact absurd begins (by decide)
      rw [Tree.atoms, row, List.map_cons, List.dropWhile_cons_of_neg]
      simp [other]
  have leading : (p.tokens.map Token.atom).dropWhile (·.kind = .newline) = p.body.atoms := by
    have row : p.tokens.map Token.atom = p.leading.map (·.1.atom) ++ p.body.atoms := by
      simp [tokens, leaves, Tree.atoms, plain, Function.comp_def]
    rw [row, List.dropWhile_append_of_pos, first]
    intro a mem
    obtain ⟨t, -, rfl⟩ := List.mem_map.mp mem
    exact decide_eq_true t.2.1
  have none : Alike (reread [] [.answer, .closing]) [] := rfl
  have body : Alike (reread [] p.lines) (p.body.atoms ++ []) := p.body.restores (.inr rfl) none
  rw [gist, leading, recovered, p.read_lines, body, List.append_nil]

/-! The header. -/

/-- The texts of the atoms that stand directly behind one of these words. -/
def textsBehind (words : List Keyword) : List Atom → List String
  | a :: b :: rest =>
      if a.kind ∈ words.map Kind.keyword then b.text :: textsBehind words (b :: rest)
      else textsBehind words (b :: rest)
  | _ => []

theorem map_text_behind (words : List Keyword) (tokens : List Token) :
    (behind words tokens).map Token.text = textsBehind words (tokens.map Token.atom) := by
  induction tokens with
  | nil => rfl
  | cons a tokens ih =>
      cases tokens with
      | nil => rfl
      | cons b tokens =>
          rw [List.map_cons] at ih
          rw [behind, List.map_cons, List.map_cons, textsBehind, ← ih]
          split <;> simp_all [Token.atom]

theorem textsBehind_cons {words : List Keyword} {a : Atom} (other : a.kind ∉ words.map Kind.keyword)
    (rest : List Atom) : textsBehind words (a :: rest) = textsBehind words rest := by
  cases rest with
  | nil => rfl
  | cons b rest => rw [textsBehind, if_neg other]

theorem textsBehind_dropWhile (words : List Keyword) (atoms : List Atom) :
    textsBehind words (atoms.dropWhile (·.kind = .newline)) = textsBehind words atoms := by
  induction atoms with
  | nil => rfl
  | cons a atoms ih =>
      by_cases line : a.kind = .newline
      · have other : a.kind ∉ words.map Kind.keyword := by simp [line]
        rw [List.dropWhile_cons_of_pos (by simpa using line), ih, textsBehind_cons other]
      · rw [List.dropWhile_cons_of_neg (by simpa using line)]

theorem textsBehind_collapsed (words : List Keyword) (atoms : List Atom) :
    textsBehind words (collapsed atoms) = textsBehind words atoms := by
  induction atoms with
  | nil => rfl
  | cons a atoms ih =>
      by_cases line : a.kind = .newline
      · have other : a.kind ∉ words.map Kind.keyword := by simp [line]
        rw [collapsed, if_pos line, textsBehind_cons other, textsBehind_cons other,
          textsBehind_dropWhile, ih]
      · rw [collapsed, if_neg line]
        cases atoms with
        | nil => rfl
        | cons b atoms =>
            obtain ⟨more, row⟩ : ∃ more, collapsed (b :: atoms) = b :: more := by
              rw [collapsed]
              split <;> exact ⟨_, rfl⟩
            rw [row] at ih ⊢
            rw [textsBehind, textsBehind, ih]

/-- The header of a program is told from its tokens, but for runs of newlines. -/
theorem Program.header_eq (p : Program) :
    p.header = CText.header (textsBehind [.LET, .INPUT] (gist p.tokens)).eraseDups := by
  rw [header, names_eq_behind (List.prefix_refl p.leaves) Mention.target_saidBy, map_text_behind,
    gist, textsBehind_collapsed, textsBehind_dropWhile]
  rfl

namespace Compiler

variable {c c' : Compiler} {source source' : String}

/-- Texts with the same code have the same tokens, but for newlines before the first statement and
runs of them, and the same header. -/
theorem gist_of_compileText {k k' : Compilation} (h : (c.compileText source).1 = .ok k)
    (h' : (c'.compileText source').1 = .ok k') (same : k.file.code = k'.file.code) :
    ∃ tokens tokens', tokenize source = .ok tokens ∧ tokenize source' = .ok tokens' ∧
      gist tokens = gist tokens' ∧ k.file.header = k'.file.header := by
  obtain ⟨tokens, p, lexed, translation⟩ := translation_of_compileText h
  obtain ⟨tokens', p', lexed', translation'⟩ := translation_of_compileText h'
  have gists : gist tokens = gist tokens' := by
    rw [← translation.derived, ← translation'.derived, p.gist_tokens, p'.gist_tokens,
      ← translation.code, ← translation'.code, same]
  refine ⟨tokens, tokens', lexed, lexed', gists, ?_⟩
  rw [translation.header, translation'.header, p.header_eq, p'.header_eq, translation.derived,
    translation'.derived, gists]

theorem gist_of_spare_lines : ∃ tokens tokens',
    tokenize "LET a = 1 # x\n\n" = .ok tokens ∧ tokenize "\nLET a=1" = .ok tokens' ∧
      gist tokens = gist tokens' := by
  have compiled : ∃ k k',
      ((⟨"out.c", none⟩ : Compiler).compileText "LET a = 1 # x\n\n").1 = .ok k ∧
        ((⟨"out.c", none⟩ : Compiler).compileText "\nLET a=1").1 = .ok k' ∧
          k.file.code = k'.file.code := ⟨_, _, by cbv, by cbv, by cbv⟩
  obtain ⟨k, k', compiled, compiled', same⟩ := compiled
  obtain ⟨tokens, tokens', lexed, lexed', gists, -⟩ := gist_of_compileText compiled compiled' same
  exact ⟨tokens, tokens', lexed, lexed', gists⟩

end Compiler

end YoloLang
