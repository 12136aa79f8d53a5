import YoloLang.Proofs.Compile
import YoloLang.Proofs.Lines
import YoloLang.Proofs.Tiling

/-!
What the C text of a program prints of its strings. Main statement: the lines that are calls of
`printf` with a literal print the characters between the quotes of the source, one after the other
and each with a newline.
-/

namespace YoloLang

open Leaf

namespace CText

/-! How C reads a call of `printf` with one literal. -/

/-- What a letter behind a backslash stands for. Escapes by number are not read. -/
def escaped : Char → Option Char
  | 'a' => some '\x07'
  | 'b' => some '\x08'
  | 'f' => some '\x0c'
  | 'n' => some '\n'
  | 'r' => some '\r'
  | 't' => some '\t'
  | 'v' => some '\x0b'
  | c => if c ∈ ['\\', '"', '\'', '?'] then some c else none

/-- The characters of a literal behind its opening quote, and what comes after it. -/
def literal : List Char → Option (List Char × List Char)
  | [] | '\n' :: _ | ['\\'] => none
  | '"' :: rest => some ([], rest)
  | '\\' :: c :: rest =>
      (escaped c).bind fun d => (literal rest).map fun (cs, after) => (d :: cs, after)
  | c :: rest => (literal rest).map fun (cs, after) => (c :: cs, after)

/-- What a format stands for if no arguments come with it. -/
def formatted : List Char → Option (List Char)
  | [] | '\x00' :: _ => some []
  | '%' :: '%' :: rest => (formatted rest).map ('%' :: ·)
  | '%' :: _ => none
  | c :: rest => (formatted rest).map (c :: ·)

/-- What a line prints that is a call with a literal and nothing else. -/
def printed? : List Char → Option (List Char)
  | 'p' :: 'r' :: 'i' :: 'n' :: 't' :: 'f' :: '(' :: '"' :: rest =>
      match literal rest with
      | some (format, [')', ';']) => formatted format
      | _ => none
  | _ => none

example : printed? "printf(\"50%% \\\"off\\\"\\n\");".toList = some "50% \"off\"\n".toList := by
  cbv

theorem literal_append {text : List Char} (plain : ∀ c ∈ text, Lexeme.Literal c)
    (rest : List Char) :
    literal (text ++ rest) = (literal rest).map fun (cs, after) => (text ++ cs, after) := by
  induction text with
  | nil => simp
  | cons c text ih =>
      obtain ⟨⟨control, quote, slash, -⟩, more⟩ := List.forall_mem_cons.mp plain
      have line : c ≠ '\n' := by
        rintro rfl
        simp [Text.isControl] at control
      rw [List.cons_append, literal, ih more, Option.map_map] <;> simp_all [Function.comp_def]

theorem formatted_append {text : List Char} (plain : ∀ c ∈ text, Lexeme.Literal c)
    (rest : List Char) : formatted (text ++ rest) = (formatted rest).map (text ++ ·) := by
  induction text with
  | nil => simp
  | cons c text ih =>
      obtain ⟨⟨control, -, -, percent⟩, more⟩ := List.forall_mem_cons.mp plain
      have nul : c ≠ '\x00' := by
        rintro rfl
        simp [Text.isControl] at control
      rw [List.cons_append, formatted, ih more, Option.map_map] <;> simp_all [Function.comp_def]

/-- A text of characters that a string can hold is printed as it is. -/
theorem printed_literal {text : String} (plain : ∀ c ∈ text.toList, Lexeme.Literal c) :
    printed? (Line.printText text).text.toList = some (text.toList ++ ['\n']) := by
  have ends : literal ['\\', 'n', '"', ')', ';'] = some (['\n'], [')', ';']) := by cbv
  have last : formatted ['\n'] = some ['\n'] := by cbv
  simp [Line.text, Line.parts, printed?, literal_append plain, ends, formatted_append plain, last]

theorem literal_suffix {cs format after : List Char} (h : literal cs = some (format, after)) :
    after <:+ cs := by
  fun_induction literal cs generalizing format with
  | case1 | case2 | case3 => contradiction
  | case4 rest =>
      obtain ⟨-, rfl⟩ := Prod.mk.inj (Option.some.inj h)
      exact List.suffix_cons _ _
  | case5 c rest ih =>
      obtain ⟨d, -, more⟩ := Option.bind_eq_some_iff.mp h
      obtain ⟨⟨cs, after⟩, read, same⟩ := Option.map_eq_some_iff.mp more
      obtain ⟨-, rfl⟩ := Prod.mk.inj same
      exact (ih read).trans ((List.suffix_cons _ _).trans (List.suffix_cons _ _))
  | case6 c rest _ _ _ _ ih =>
      obtain ⟨⟨cs, after⟩, read, same⟩ := Option.map_eq_some_iff.mp h
      obtain ⟨-, rfl⟩ := Prod.mk.inj same
      exact (ih read).trans (List.suffix_cons _ _)

/-- A line that prints something is a call and ends as a statement does. -/
theorem shape_of_printed {line text : List Char} (h : printed? line = some text) :
    "printf(\"".toList <+: line ∧ line.getLast? = some ';' := by
  fun_cases printed? line with
  | case1 rest format read =>
      obtain ⟨inner, rfl⟩ := literal_suffix read
      exact ⟨⟨_, rfl⟩, by simp [List.getLast?_cons, List.getLast?_append]⟩
  | case2 | case3 => simp_all [printed?]

namespace Line

/-- The text of a string that the line prints. -/
def string? : Line → Option String
  | printText text => some text
  | _ => none

/-- What the line holds of a program is what a string or a name can be. -/
def Sound : Line → Prop
  | printText text => ∀ c ∈ text.toList, Lexeme.Literal c
  | assign name _ => '"' ∉ name.toList
  | _ => True

/-- A line prints its string, if it has one, with a newline. -/
theorem printed_text {l : Line} (sound : l.Sound) :
    printed? l.text.toList = l.string?.map (·.toList ++ ['\n']) := by
  have silent (other : l.ending ≠ ';' ∨ ¬ "printf(\"".toList <+: l.text.toList) :
      printed? l.text.toList = none := by
    refine Option.eq_none_iff_forall_ne_some.mpr fun text prints => ?_
    obtain ⟨call, last⟩ := shape_of_printed prints
    rw [l.getLast_text] at last
    exact other.elim (fun ending => ending (Option.some.inj last)) fun begins => begins call
  cases l with
  | printText text => exact printed_literal sound
  | printNumber value =>
      simp [Line.text, Line.parts, printed?, literal, escaped, string?]
  | opening | closing | marker | asking => exact silent (.inl (by simp [ending]))
  | jump | dropping | answer => exact silent (.inr (by simp [Line.text, Line.parts]))
  | assign name value =>
      refine silent (.inr ?_)
      rintro ⟨rest, whole⟩
      have row : "printf(\"".toList ++ rest =
          name.toList ++ (" = ".toList ++ (value.toList ++ [';'])) := by
        simpa [Line.text, Line.parts] using whole
      obtain ⟨more, same, -⟩ | ⟨more, same, split⟩ := List.append_eq_append_iff.mp row
      · exact sound (same ▸ by simp)
      · cases more with
        | nil =>
            rw [List.append_nil] at same
            exact sound (same ▸ by simp)
        | cons c more =>
            obtain rfl : c = ' ' := by simpa using (congrArg List.head? split).symm
            exact absurd (same ▸ by simp : ' ' ∈ "printf(\"".toList) (by decide)

end Line
end CText

/-! The strings of trees. -/

open CText

/-- The texts of the strings among these leaves, in order. -/
def strings (ls : List Leaf) : List String :=
  (ls.filter (·.token.kind = .string)).map (·.token.text)

theorem strings_nil : strings [] = [] := rfl

theorem strings_append (xs ys : List Leaf) : strings (xs ++ ys) = strings xs ++ strings ys := by
  simp [strings]

theorem strings_cons (l : Leaf) (ls : List Leaf) :
    strings (l :: ls) =
      if l.token.kind = .string then l.token.text :: strings ls else strings ls := by
  rw [strings, List.filter_cons]
  split <;> simp_all [strings]

theorem strings_terminal {kind : Kind} (other : kind ≠ .string) (t : Terminal kind)
    (mention : Option Mention) (ls : List Leaf) : strings (⟨t.1, mention⟩ :: ls) = strings ls := by
  rw [strings_cons, if_neg fun same => other (t.2.1.symm.trans same)]

theorem Formula.strings_eq_nil {ls : List Leaf} (h : Formula ls) : strings ls = [] := by
  simpa [strings] using h.kind_ne rfl fun k => by cases k <;> rfl

theorem strings_terminals {kind : Kind} (other : kind ≠ .string) (ts : List (Terminal kind)) :
    strings (ts.map (plain ·.1)) = [] := by
  induction ts with
  | nil => rfl
  | cons t ts ih => rwa [List.map_cons, plain, strings_terminal other]

theorem Token.Lexed.literal {t : Token} (h : t.Lexed) (kind : t.kind = .string) :
    ∀ c ∈ t.text.toList, Lexeme.Literal c := by
  obtain ⟨_, l, read, same, text⟩ := h
  obtain ⟨-, rfl⟩ | spelled := Lexeme.eof_or_spelled read
  · simp [kind] at same
  · obtain ⟨k, raw⟩ := l
    obtain rfl : .string = k := kind.symm.trans same
    cases spelled with
    | string plain => simpa [text, Lexeme.text] using plain
    | word _ _ named => cases named
    | symbol mem => simp [Lexeme.symbols] at mem

namespace Tree

theorem strings_newline (t : Tree (.phrase .newline)) : strings t.leaves = [] := by
  cases t with
  | newline first more =>
      rw [leaves, plain, strings_terminal (by simp), strings_terminals (by simp)]

theorem strings_value (t : Tree (.phrase .expression)) : strings t.leaves = [] :=
  Formula.strings_eq_nil t.formed

theorem strings_condition (t : Tree (.phrase .comparison)) : strings t.leaves = [] :=
  Formula.strings_eq_nil t.formed

theorem strings_init (t : Tree (.phrase .forInit)) : strings t.leaves = [] := by
  cases t with
  | forInit => simp [leaves, plain, naming, strings_terminal, strings_value]

theorem strings_step (t : Tree (.phrase .forStep)) : strings t.leaves = [] := by
  cases t with
  | forStep => simp [leaves, plain, naming, strings_terminal, strings_value]

/-- Statements print the strings they are written with. -/
theorem filterMap_string {part : Part} (t : Tree part)
    (whole : part = .statement ∨ part = .statements) :
    t.lines.filterMap Line.string? = strings t.leaves := by
  induction t with
  | printText word text ends =>
      simp [lines, leaves, strings_cons, strings_newline, plain, word.2.1, text.2.1, Line.string?]
  | branch _ _ _ _ _ _ _ _ _ _ _ ih | loop _ _ _ _ _ _ _ _ _ _ _ ih
  | count _ _ _ _ _ _ _ _ _ _ _ _ _ _ _ _ _ ih =>
      have ih := ih (.inr rfl)
      simp [lines, leaves, plain, strings_append, strings_terminal, strings_newline,
        strings_condition, strings_init, strings_step, ih, List.filterMap_cons, Line.string?]
  | cons first rest ih ih' =>
      simp [lines, leaves, strings_append, ih (.inl rfl), ih' (.inr rfl)]
  | _ =>
      simp [lines, leaves, plain, naming, strings_nil, strings_append, strings_terminal,
        strings_newline, strings_value, List.filterMap_cons, Line.string?] at whole ⊢

theorem sound {part : Part} (t : Tree part) : ∀ l ∈ t.lines, l.Sound := by
  have name (t : Terminal .identifier) : '"' ∉ t.1.text.toList := by
    obtain ⟨c, cs, text, first, more⟩ := t.2.2.identifier t.2.1
    rw [text]
    intro mem
    obtain rfl | mem := List.mem_cons.mp mem
    · exact absurd first (by decide)
    · exact absurd (more _ mem) (by decide)
  induction t with
  | printText word text ends => simpa [lines, Line.Sound] using text.2.2.literal text.2.1
  | assign _ target | input _ target => simpa [lines, Line.Sound] using name target
  | branch _ _ _ _ _ _ _ _ _ _ _ ih | loop _ _ _ _ _ _ _ _ _ _ _ ih
  | count _ _ _ _ _ _ _ _ _ _ _ _ _ _ _ _ _ ih =>
      simpa [lines, Line.Sound, or_imp, forall_and] using ih
  | cons first rest ih ih' => exact List.forall_mem_append.mpr ⟨ih, ih'⟩
  | _ => simp [lines, Line.Sound]

end Tree

/-- The lines of a program print its strings, each with a newline. -/
theorem Program.printed_lines (p : Program) :
    (Text.lines p.code.toList).filterMap printed? =
      (strings p.leaves).map (·.toList ++ ['\n']) := by
  have sound : ∀ l ∈ p.lines, l.Sound := by
    rw [lines]
    refine List.forall_mem_append.mpr ⟨p.body.sound, ?_⟩
    simp [Line.Sound]
  have printed : p.lines.filterMap (fun l => printed? l.text.toList) =
      p.lines.filterMap fun l => l.string?.map (·.toList ++ ['\n']) :=
    List.filterMap_congr fun l mem => Line.printed_text (sound l mem)
  have texts : p.lines.filterMap Line.string? = strings p.leaves := by
    rw [lines, leaves, List.filterMap_append, strings_append, strings_terminals (by simp),
      p.body.filterMap_string (.inr rfl)]
    simp [List.filterMap_cons, Line.string?]
  rw [p.lines_code, List.filterMap_map, ← texts, List.map_filterMap]
  exact printed

/-- A string that is ahead stands between quotes in the source. -/
theorem Feed.quoted_of_mem {source : String} {t : Token}
    (mem : t ∈ (ofCursor (.ofSource source)).ahead) (kind : t.kind = .string) :
    ∃ before after : String, source = before ++ "\"" ++ t.text ++ "\"" ++ after ∧
      t.span.Covers before.toList ("\"" ++ t.text ++ "\"").toList := by
  obtain ⟨inner, slice, after, whole, stands, covers⟩ :=
    stands_of_mem (Cursor.behind_ofSource source) t mem
  rw [Token.Stands, if_pos kind] at stands
  obtain rfl | ⟨rest, c, rfl⟩ := after.eq_nil_or_concat
  · -- The text of a source ends with a newline, not with a quote.
    have same : source.toList ++ ['\n'] = (inner ++ '"' :: t.text.toList) ++ ['"'] := by
      simpa [Cursor.ofSource, stands] using whole
    exact absurd (List.append_inj_right' same rfl) (by decide)
  · refine ⟨.ofList inner, .ofList rest, ?_, by simpa [stands] using covers⟩
    have same : source.toList ++ ['\n'] = inner ++ slice ++ rest ++ [c] := by
      simpa [Cursor.ofSource] using whole
    rw [← String.toList_inj, (List.append_inj' same rfl).1, stands]
    simp

namespace Compiler

variable {c : Compiler} {source : String}

/-- The calls of `printf` with a literal print what stands between the quotes of the source. -/
theorem printed_of_compileText {k : Compilation} (h : (c.compileText source).1 = .ok k) :
    ∃ tokens, tokenize source = .ok tokens ∧
      (∀ t ∈ tokens, t.kind = .string → ∃ before after : String,
        source = before ++ "\"" ++ t.text ++ "\"" ++ after ∧
          t.span.Covers before.toList ("\"" ++ t.text ++ "\"").toList) ∧
      (Text.lines k.file.code.toList).filterMap printed? =
        (tokens.filter (·.kind = .string)).map fun t => t.text.toList ++ ['\n'] := by
  obtain ⟨tokens, p, lexed, translation⟩ := translation_of_compileText h
  obtain ⟨-, ahead⟩ := tokenize_eq_ok.mp lexed
  refine ⟨tokens, lexed, fun t mem kind => ?_, ?_⟩
  · rw [← ahead] at mem
    exact Feed.quoted_of_mem mem kind
  · rw [translation.code, p.printed_lines, ← translation.derived, Program.tokens, strings,
      List.filter_map, List.map_map, List.map_map]
    rfl

theorem printed_of_greeting :
    ∃ k tokens, ((⟨"out.c", none⟩ : Compiler).compileText "PRINT \"one\"\nPRINT \"\"").1 = .ok k ∧
      tokenize "PRINT \"one\"\nPRINT \"\"" = .ok tokens ∧
      (Text.lines k.file.code.toList).filterMap printed? =
        (tokens.filter (·.kind = .string)).map fun t => t.text.toList ++ ['\n'] := by
  have compiled : ∃ k,
      ((⟨"out.c", none⟩ : Compiler).compileText "PRINT \"one\"\nPRINT \"\"").1 = .ok k :=
    ⟨_, by cbv⟩
  obtain ⟨k, compiled⟩ := compiled
  obtain ⟨tokens, lexed, -, printed⟩ := printed_of_compileText compiled
  exact ⟨k, tokens, compiled, lexed, printed⟩

end Compiler

end YoloLang
