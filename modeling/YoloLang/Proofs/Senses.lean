import YoloLang.Proofs.Blocks

/-!
What C takes the words of a text for where they stand. Main statement: the names of a program can be
used in its C text if and only if none of them is a word that C keeps for itself and no variable has
the name of a function that the text calls.
-/

namespace YoloLang

open Leaf CText

namespace CText

/-- What a word is to C where the tokens beside it say so. -/
inductive Sense where
  /-- An object that is declared here. -/
  | declared
  /-- A function that is declared here. -/
  | function
  /-- A function that is called here. -/
  | called
  /-- A place that is here. -/
  | marked
  /-- A place to go to. -/
  | sought
deriving DecidableEq, Repr

/-- The sense of a word between two tokens, if it is not only read or given a value there. -/
def sense? (before t : String) (after : Option String) : Option Sense :=
  if before ∈ types then some (if after = some "(" then .function else .declared)
  else if before = "goto" then some .sought
  else if after = some ":" then some .marked
  else if after = some "(" ∧ t ∉ reserved then some .called
  else none

/-- The words with a sense in a row of tokens behind another token. -/
def senses : String → List String → List (Sense × String)
  | _, [] => []
  | before, t :: rest =>
      (if isWord t then (sense? before t rest.head?).toList.map (·, t) else []) ++ senses t rest

example : senses "" (tokens "int main()\x7b\nfloat a;\nb:\na = f(a);\ngoto b;\n\x7d\n".toList) =
    [(.function, "main"), (.declared, "a"), (.marked, "b"), (.called, "f"), (.sought, "b")] := by
  cbv

/-- The names in a row of tokens can be used there: C keeps none of them for itself, and none that
an object is declared with is that of a function which is called. -/
structure Usable (row : List String) : Prop where
  free : ∀ sense name, (sense, name) ∈ senses "" row → name ∉ reserved
  apart : ∀ name, (.declared, name) ∈ senses "" row → (.called, name) ∉ senses "" row

/-! The tokens of a row one by one. -/

variable {before t u : String}

theorem senses_of_quiet (quiet : Quiet before) (row : List String) :
    senses before row = senses "" row := by
  obtain ⟨goes, typed⟩ : before ≠ "goto" ∧ before ∉ types := by simpa [Quiet] using quiet
  have quiet' : "" ≠ "goto" ∧ "" ∉ types := by decide
  cases row with
  | nil => rfl
  | cons t rest => simp only [senses, sense?, goes, typed, quiet', if_false]

theorem senses_mark (mark : isWord t = false) (rest : List String) :
    senses before (t :: rest) = senses "" rest := by
  have words : ("goto" :: types).all isWord = true := by decide
  have quiet : Quiet t := fun mem =>
    absurd (List.all_eq_true.mp words t mem) (by simp [mark])
  rw [senses, if_neg (by simp [mark]), List.nil_append, senses_of_quiet quiet]

/-- A word before a mark has the sense that the tokens beside it say. -/
theorem senses_word (word : isWord t = true) (mark : isWord u = false) (rest : List String) :
    senses before (t :: u :: rest) =
      (sense? before t (some u)).toList.map (·, t) ++ senses "" rest := by
  rw [senses, if_pos word, senses_mark mark]
  rfl

/-- Behind another token a word before a mark has the sense that the two say. -/
theorem senses_behind (word : isWord t = true) (mark : isWord u = false) (rest : List String) :
    senses "" (before :: t :: u :: rest) =
      (sense? before t (some u)).toList.map (·, t) ++ senses "" rest := by
  have other : t ≠ ":" ∧ t ≠ "(" :=
    ⟨ne_of_isWord word (by decide), ne_of_isWord word (by decide)⟩
  have plain : sense? "" before (some t) = none := by
    have quiet : "" ≠ "goto" ∧ "" ∉ types := by decide
    simp [sense?, quiet, other]
  rw [senses, List.head?_cons, plain, senses_word word mark]
  simp

/-- A word before a bracket is called if C does not keep it for itself. -/
theorem senses_call (word : isWord t = true) (rest : List String) :
    senses "" (t :: "(" :: rest) =
      (if t ∈ reserved then [] else [(.called, t)]) ++ senses "" rest := by
  have quiet : "" ≠ "goto" ∧ "" ∉ types := by decide
  rw [senses_word word (by decide), sense?, if_neg quiet.2, if_neg quiet.1, if_neg (by simp)]
  by_cases kept : t ∈ reserved <;> simp [kept]

theorem senses_marker (word : isWord t = true) (rest : List String) :
    senses "" (t :: ":" :: rest) = (.marked, t) :: senses "" rest := by
  rw [senses_word word (by decide)]
  rfl

theorem wordwise_senses : Wordwise (senses "") fun _ => [] where
  mark mark := senses_mark mark.1
  word {t u} word follows rest := by
    obtain ⟨mark, call, place⟩ := follows
    have quiet : "" ≠ "goto" ∧ "" ∉ types := by decide
    have plain : sense? "" t (some u) = none := by simp [sense?, quiet, call, place]
    rw [senses_word word mark.1, plain, senses_mark mark.1]
    rfl

theorem senses_object (word : isWord t = true) (follows : Follows u) (rest : List String) :
    senses "" (t :: u :: rest) = senses "" rest :=
  (wordwise_senses.word word follows rest).trans (senses_mark follows.1.1 rest)

/-- A block with its head has the words of both. -/
theorem senses_braced {word : String} (mem : word ∈ ["if", "while", "for"])
    {head body : List String} {heads inner : List (Sense × String)}
    (head_read : ∀ rest, senses "" (head ++ ")" :: rest) = heads ++ senses "" rest)
    (body_read : ∀ rest, senses "" (body ++ rest) = inner ++ senses "" rest) (rest : List String) :
    senses "" (braced word head body ++ rest) = heads ++ (inner ++ senses "" rest) := by
  have words : ∀ word ∈ ["if", "while", "for"], isWord word = true ∧ word ∈ reserved := by decide
  have row : braced word head body ++ rest =
      word :: "(" :: (head ++ ")" :: "\x7b" :: (body ++ "\x7d" :: rest)) := by simp [braced]
  rw [row, senses_call (words word mem).1, if_pos (words word mem).2, List.nil_append, head_read,
    senses_mark (by decide), body_read, senses_mark (by decide)]

theorem senses_declarations {words : List String} (all : ∀ word ∈ words, isWord word = true)
    (rest : List String) :
    senses "" (words.flatMap (fun word => ["float", word, ";"]) ++ rest) =
      words.map (.declared, ·) ++ senses "" rest := by
  induction words with
  | nil => rfl
  | cons word words ih =>
      obtain ⟨here, more⟩ := List.forall_mem_cons.mp all
      have sense : sense? "float" word (some ";") = some .declared := by simp [sense?, types]
      simp only [List.flatMap_cons, List.cons_append, List.nil_append]
      rw [senses_behind here (by decide), sense, ih more]
      rfl

end CText

theorem Formula.senses {ls : List Leaf} (h : Formula ls) {u : String} (follows : Follows u)
    (rest : List String) :
    CText.senses "" (split (spelling ls) ++ u :: rest) = CText.senses "" rest := by
  rw [h.read wordwise_senses follows, senses_mark follows.1.1]
  simp

/-! The words of statements. -/

namespace Tree

/-- The functions that the C text of statements calls. -/
def calls {part : Part} : Tree part → List String
  | printText _ _ _ | print _ _ _ => ["printf"]
  | branch _ _ _ _ _ _ body _ _ | loop _ _ _ _ _ _ body _ _
  | count _ _ _ _ _ _ _ _ _ _ body _ _ => body.calls
  | input _ _ _ => ["scanf", "scanf"]
  | cons first rest => first.calls ++ rest.calls
  | _ => []

/-- The words with a sense in the C text of statements. -/
def senses {part : Part} : Tree part → List (Sense × String)
  | printText _ _ _ | print _ _ _ => [(.called, "printf")]
  | branch _ _ _ _ _ _ body _ _ | loop _ _ _ _ _ _ body _ _ => body.senses
  | count _ _ init _ _ _ _ _ _ _ body _ _ => (.declared, init.counter) :: body.senses
  | label _ name _ => [(.marked, name.1.text)]
  | goto _ name _ => [(.sought, name.1.text)]
  | input _ _ _ => [(.called, "scanf"), (.called, "scanf")]
  | cons first rest => first.senses ++ rest.senses
  | _ => []

theorem senses_init (t : Tree (.phrase .forInit)) {u : String} (follows : Follows u)
    (rest : List String) :
    CText.senses "" (t.written ++ u :: rest) = (.declared, t.counter) :: CText.senses "" rest := by
  cases t with
  | forInit word name eq value =>
      have formed : Formula value.leaves := value.formed
      have named := isWord_of_identifier name.2.2 name.2.1
      have sense : sense? "int" name.1.text (some "=") = some .declared := by simp [sense?, types]
      simp only [written, List.cons_append]
      rw [senses_behind named (by decide), sense, formed.senses follows]
      rfl

theorem senses_step (t : Tree (.phrase .forStep)) {u : String} (follows : Follows u)
    (rest : List String) :
    CText.senses "" (t.written ++ u :: rest) = CText.senses "" rest := by
  cases t with
  | forStep name eq value =>
      have formed : Formula value.leaves := value.formed
      have named := isWord_of_identifier name.2.2 name.2.1
      simp only [written, List.cons_append]
      rw [senses_object named (by decide), formed.senses follows]

/-- The words with a sense in the text of statements are those that the statements say. -/
theorem senses_written {part : Part} (t : Tree part)
    (whole : part = .statement ∨ part = .statements) (rest : List String) :
    CText.senses "" (t.written ++ rest) = t.senses ++ CText.senses "" rest := by
  have marks : isWord "\"" = false ∧ isWord "," = false ∧ isWord "(" = false ∧
      isWord ")" = false ∧ isWord ";" = false ∧ isWord "=" = false ∧ isWord "&" = false ∧
        isWord "0" = false ∧ isWord "==" = false ∧ isWord "\x7b" = false ∧
          isWord "\x7d" = false := by decide
  have calls (t : String) (mem : t ∈ ["printf", "scanf"]) (rest : List String) :
      CText.senses "" (t :: "(" :: rest) = (.called, t) :: CText.senses "" rest := by
    have all : ∀ t ∈ ["printf", "scanf"], isWord t = true ∧ t ∉ reserved := by decide
    rw [senses_call (all t mem).1, if_neg (all t mem).2, List.singleton_append]
  induction t generalizing rest with
  | printText word text ends =>
      simp only [written, List.cons_append, List.nil_append]
      rw [calls _ (by simp)]
      simp only [senses_mark, marks]
      rfl
  | print word value ends =>
      have formed : Formula value.leaves := value.formed
      simp only [written, List.cons_append, List.append_assoc, List.nil_append]
      rw [calls _ (by simp)]
      simp only [senses_mark, marks]
      rw [senses_object (by decide) (by decide)]
      simp only [senses_mark, marks]
      rw [formed.senses (by decide)]
      simp only [senses_mark, marks]
      rfl
  | branch _ _ condition _ _ _ body _ _ _ _ ih | loop _ _ condition _ _ _ body _ _ _ _ ih =>
      have formed : Formula condition.leaves := condition.formed
      have head := formed.senses (by decide : Follows ")")
      exact @senses_braced _ (by simp) _ _ [] _ head (ih (.inr rfl)) rest
  | count _ _ init _ condition _ step _ _ _ body _ _ _ _ _ _ ih =>
      have formed : Formula condition.leaves := condition.formed
      refine @senses_braced "for" (by simp) _ _ [(.declared, init.counter)] _ (fun rest => ?_)
        (ih (.inr rfl)) rest
      simp only [List.cons_append, List.append_assoc]
      rw [init.senses_init (by decide), formed.senses (by decide), step.senses_step (by decide)]
      rfl
  | label word name ends =>
      exact senses_marker (isWord_of_identifier name.2.2 name.2.1) rest
  | goto word name ends =>
      have named := isWord_of_identifier name.2.2 name.2.1
      exact senses_behind named (by decide) rest
  | assign word name eq value ends =>
      have formed : Formula value.leaves := value.formed
      have named := isWord_of_identifier name.2.2 name.2.1
      simp only [written, List.cons_append, List.append_assoc, List.nil_append]
      rw [senses_object named (by decide), formed.senses (by decide)]
      rfl
  | input word name ends =>
      have named := isWord_of_identifier name.2.2 name.2.1
      refine @senses_braced "if" (by simp) ["0", "==", "scanf", "(", "\"", "\"", ",", "&",
        name.1.text, ")"] [name.1.text, "=", "0", ";", "scanf", "(", "\"", "\"", ")", ";"]
        [(.called, "scanf")] [(.called, "scanf")] (fun rest => ?_) (fun rest => ?_) rest
      · simp only [List.cons_append, List.nil_append, senses_mark, marks]
        rw [calls _ (by simp)]
        simp only [senses_mark, marks]
        rw [senses_object named (by decide), senses_mark (by decide)]
      · simp only [List.cons_append, List.nil_append]
        rw [senses_object named (by decide)]
        simp only [senses_mark, marks]
        rw [calls _ (by simp)]
        simp only [senses_mark, marks]
  | empty => rfl
  | cons first rest' ih ih' =>
      rw [written, List.append_assoc, ih (.inl rfl), ih' (.inr rfl), senses, List.append_assoc]
  | _ => simp at whole

theorem calls_subset {part : Part} (t : Tree part) : t.calls ⊆ ["printf", "scanf"] := by
  induction t <;> simp_all [calls]

/-- The words called are the functions that statements call. -/
theorem mem_calls {part : Part} (t : Tree part) {name : String} :
    (.called, name) ∈ t.senses ↔ name ∈ t.calls := by
  induction t <;> simp_all [senses, calls]

/-- The words for places are those of the lines that mark and seek places. -/
theorem mem_places {part : Part} (t : Tree part) {name : String} :
    ((.marked, name) ∈ t.senses ↔ name ∈ names .marked t.leaves) ∧
      ((.sought, name) ∈ t.senses ↔ name ∈ names .sought t.leaves) := by
  rw [← t.filterMap_lines (.inl rfl), ← t.filterMap_lines (.inr rfl)]
  induction t with
  | branch _ _ _ _ _ _ body _ _ _ _ ih | loop _ _ _ _ _ _ body _ _ _ _ ih =>
      simpa only [senses, lines, filterMap_block] using ih
  | count _ _ init _ _ _ _ _ _ _ body _ _ _ _ _ _ ih =>
      simpa [senses, lines, filterMap_block] using ih
  | label | goto => simp [senses, lines, Line.place?]
  | cons first rest ih ih' => simp [senses, lines, ih, ih']
  | _ => simp [senses, lines, List.filterMap_cons, Line.place?]

/-- A counter is a name that is given a value. -/
theorem target_of_mem_senses {part : Part} (t : Tree part) {name : String}
    (mem : (.declared, name) ∈ t.senses) : name ∈ names .target t.leaves := by
  induction t with
  | branch _ _ _ _ _ _ body _ _ _ _ ih | loop _ _ _ _ _ _ body _ _ _ _ ih =>
      simp [leaves, names_append, names_plain, ih mem]
  | count _ _ init _ _ _ _ _ _ _ body _ _ _ _ _ _ ih =>
      obtain own | mem := List.mem_cons.mp mem
      · cases init with
        | forInit _ counter _ _ =>
            obtain ⟨-, rfl⟩ := Prod.mk.inj own
            simp [leaves, names_append, names_plain, names_naming, Tree.counter]
      · simp [leaves, names_append, names_plain, ih mem]
  | cons first rest ih ih' =>
      rw [leaves, names_append]
      exact List.mem_append.mpr ((List.mem_append.mp mem).imp ih ih')
  | _ => simp [senses] at mem

theorem not_function {part : Part} (t : Tree part) {name : String} :
    (.function, name) ∉ t.senses := by
  induction t <;> simp_all [senses]

end Tree

namespace Program

variable {p : Program}

/-- The words with a sense in the C text of a program are those of its header and those that its
statements say. -/
theorem senses_text (lexed : ∀ t ∈ p.tokens, t.Lexed) :
    CText.senses "" (CText.tokens (p.header ++ p.code).toList) =
      (.function, "main") ::
        ((names .target p.leaves).eraseDups.map (.declared, ·) ++ p.body.senses) := by
  have main : sense? "int" "main" (some "(") = some .function := by decide
  have footer : CText.senses "" ["return", "0", ";", "\x7d"] = [] := by decide
  simp only [tokens_text lexed, List.cons_append, List.nil_append]
  rw [senses_behind (by decide) (by decide), main, senses_mark (by decide), senses_mark (by decide),
    senses_declarations (isWord_of_mem lexed), p.body.senses_written (.inr rfl), footer,
    List.append_nil]
  rfl

/-- The words that the C text of a program has in a sense. -/
def named (p : Program) : Sense → List String
  | .declared => (names .target p.leaves).eraseDups
  | .function => ["main"]
  | .called => p.body.calls
  | .marked => names .marked p.leaves
  | .sought => names .sought p.leaves

theorem mem_senses_text (lexed : ∀ t ∈ p.tokens, t.Lexed) {sense : Sense} {name : String} :
    (sense, name) ∈ CText.senses "" (CText.tokens (p.header ++ p.code).toList) ↔
      name ∈ p.named sense := by
  have inner (m : Mention) : names m p.leaves = names m p.body.leaves := by
    rw [leaves, names_append, names_lines, List.nil_append]
  have target : (.declared, name) ∈ p.body.senses → name ∈ names .target p.leaves :=
    inner .target ▸ p.body.target_of_mem_senses
  have places := @Tree.mem_places _ p.body name
  rw [senses_text lexed]
  cases sense with
  | declared => simpa [named] using target
  | function => simp [named, p.body.not_function]
  | called => simp [named, p.body.mem_calls]
  | marked => simp [named, inner, places.1]
  | sought => simp [named, inner, places.2]

end Program

namespace Compiler

variable {c : Compiler} {source : String}

/-- The names of a compiled text can be used in it if and only if none of them is a word that C
keeps for itself and no variable has the name of a function that the text calls. -/
theorem usable_of_compileText {k : Compilation} (h : (c.compileText source).1 = .ok k) :
    ∃ p : Program, tokenize source = .ok p.tokens ∧
      ∀ q : Program, tokenize source = .ok q.tokens →
        let row := CText.tokens k.file.text.toList
        let senses := CText.senses "" row
        (∀ name, ((.declared, name) ∈ senses ↔ name ∈ k.declarations.vars) ∧
            ((.marked, name) ∈ senses ↔ name ∈ k.declarations.labels) ∧
              ((.called, name) ∈ senses ↔ name ∈ q.body.calls)) ∧
          (Usable row ↔
            (∀ name ∈ k.declarations.vars, name ∉ reserved ∧ name ∉ q.body.calls) ∧
              ∀ name ∈ k.declarations.labels, name ∉ reserved) := by
  obtain ⟨p, lexed, all⟩ := translations_of_compileText h
  refine ⟨p, lexed, fun q lexed' => ?_⟩
  obtain ⟨translation, each⟩ := all q lexed'
  intro row senses
  have vars : k.declarations.vars = q.named .declared := by
    rw [translation.declarations, Declarations.vars_ofLeaves]
    rfl
  have labels : k.declarations.labels = q.named .marked := by
    rw [translation.declarations, Declarations.labels_ofLeaves,
      Declarations.eraseDups_of_nodup translation.named.unique]
    rfl
  have mem (sense : Sense) (name : String) : (sense, name) ∈ senses ↔ name ∈ q.named sense := by
    have mem := @Program.mem_senses_text q each sense name
    rwa [← translation.text] at mem
  rw [vars, labels]
  refine ⟨fun name => ⟨mem _ _, mem _ _, mem _ _⟩, ?_⟩
  constructor
  · intro usable
    refine ⟨fun name inside => ⟨?_, fun called => ?_⟩, fun name inside => ?_⟩
    · exact usable.free .declared name ((mem _ _).mpr inside)
    · exact usable.apart name ((mem _ _).mpr inside) ((mem .called name).mpr called)
    · exact usable.free .marked name ((mem _ _).mpr inside)
  · rintro ⟨objects, places⟩
    refine ⟨fun sense name inside => ?_, fun name declared called => ?_⟩
    · have inside := (mem sense name).mp inside
      have own : ∀ name ∈ ["main", "printf", "scanf"], name ∉ reserved := by decide
      cases sense with
      | declared => exact (objects name inside).1
      | function => exact own name (by simp_all [Program.named])
      | called => exact own name (List.mem_cons_of_mem _ (q.body.calls_subset inside))
      | marked => exact places name inside
      | sought => exact places name (translation.named.resolved name inside)
    · exact (objects name ((mem _ _).mp declared)).2 ((mem .called name).mp called)

set_option maxRecDepth 4096 in
theorem not_usable_of_type_name : ∃ k : Compilation,
    ((⟨"out.c", none⟩ : Compiler).compileText "LET int = 1").1 = .ok k ∧
      (.declared, "int") ∈ CText.senses "" (CText.tokens k.file.text.toList) ∧
        ¬ Usable (CText.tokens k.file.text.toList) := by
  have compiled : ∃ k, ((⟨"out.c", none⟩ : Compiler).compileText "LET int = 1").1 = .ok k ∧
      k.declarations.vars = ["int"] := ⟨_, by cbv, by cbv⟩
  obtain ⟨k, compiled, vars⟩ := compiled
  obtain ⟨p, lexed, all⟩ := usable_of_compileText compiled
  obtain ⟨senses, usable⟩ := all p lexed
  have declared : "int" ∈ k.declarations.vars := by simp [vars]
  refine ⟨k, compiled, (senses "int").1.mpr declared, fun h => ?_⟩
  exact ((usable.mp h).1 "int" declared).1 (by decide)

end Compiler
end YoloLang
