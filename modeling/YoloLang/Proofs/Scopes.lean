import Mathlib.Logic.Function.Basic
import YoloLang.Proofs.CTokens

/-!
The scopes of C text and the declarations that names in them refer to. Main statements: a word
refers to the declaration of the innermost scope that has one, a declaration changes this for its
own word only, and a scope that is left takes its declarations with it.
-/

namespace YoloLang.CText

/-- The words that C keeps for itself. -/
def reserved : List String :=
  ["auto", "break", "case", "char", "const", "continue", "default", "do", "double", "else", "enum",
    "extern", "float", "for", "goto", "if", "inline", "int", "long", "register", "restrict",
    "return", "short", "signed", "sizeof", "static", "struct", "switch", "typedef", "union",
    "unsigned", "void", "volatile", "while", "_Alignas", "_Alignof", "_Atomic", "_Bool",
    "_Complex", "_Generic", "_Imaginary", "_Noreturn", "_Static_assert", "_Thread_local"]

/-- The types of declarations here. -/
def types : List String := ["int", "float"]

def isWord (t : String) : Bool := t.toList.head?.any startsWord

/-- Whether C can take the token for a name. -/
def isName (t : String) : Bool := isWord t && !reserved.contains t

/-- A scope with its names, each with the number of its declaration in the text. -/
structure Frame where
  /-- The scope of a counted loop begins with its head, and its body is a block within. -/
  counts : Bool
  names : List (String × Nat)
deriving DecidableEq, Repr

/-- The scopes around a place of C text, innermost first. -/
structure Scopes where
  declared : Nat
  frames : List Frame
deriving DecidableEq, Repr

namespace Scopes

def enter (s : Scopes) : Scopes := { s with frames := ⟨false, []⟩ :: s.frames }

def enterCount (s : Scopes) : Scopes := { s with frames := ⟨true, []⟩ :: s.frames }

/-- A block that is the body of a counted loop takes the scope of the loop with it. -/
def leave (s : Scopes) : Scopes :=
  { s with
    frames := match s.frames with
      | _ :: ⟨true, _⟩ :: frames => frames
      | _ :: frames => frames
      | [] => [] }

def declare (s : Scopes) (name : String) : Scopes :=
  { declared := s.declared + 1
    frames := match s.frames with
      | frame :: frames => { frame with names := (name, s.declared) :: frame.names } :: frames
      | [] => [⟨false, [(name, s.declared)]⟩] }

/-- The declaration that a name refers to, that of the innermost scope with one. -/
def find (s : Scopes) (name : String) : Option Nat :=
  (s.frames.flatMap Frame.names).lookup name

/-- The names of objects in a row of tokens behind another token, and the declaration that each of
them refers to. A name with a bracket behind it is that of a function, and places have names of
their own kind. A declaration holds for its own initialiser. -/
def uses : Scopes → String → List String → List (String × Option Nat)
  | _, _, [] => []
  | s, before, t :: rest =>
      if t = "\x7b" then s.enter.uses t rest
      else if t = "\x7d" then s.leave.uses t rest
      else if t = "for" ∧ rest.head? = some "(" then s.enterCount.uses t rest
      else if isName t = false ∨ before = "goto" ∨ rest.head? = some "(" ∨
          rest.head? = some ":" then s.uses t rest
      else
        let s := if before ∈ types then s.declare t else s
        (t, s.find t) :: s.uses t rest

end Scopes

/-- The names of objects in a text, and the declaration that each of them refers to. -/
def uses (text : String) : List (String × Option Nat) :=
  Scopes.uses ⟨0, [⟨false, []⟩]⟩ "" (tokens text.toList)

example : uses "float a;\nfor(int a = b;a<9;)\x7b\n\x7d\na = 2;\n" =
    [("a", some 0), ("a", some 1), ("b", none), ("a", some 1), ("a", some 0)] := by
  cbv

theorem ne_of_isWord {t u : String} (word : isWord t = true) (mark : isWord u = false) : t ≠ u := by
  rintro rfl
  exact absurd word (by simp [mark])

theorem isWord_of_mem_reserved {t : String} (mem : t ∈ reserved) : isWord t = true := by
  have all : reserved.all isWord = true := by decide
  exact List.all_eq_true.mp all t mem

theorem isName_of_mem_reserved {t : String} (mem : t ∈ reserved) : isName t = false := by
  simp [isName, mem]

theorem isName_of_not_isWord {t : String} (mark : isWord t = false) : isName t = false := by
  simp [isName, mark]

/-- A token that is no word and no brace. -/
def Mark (t : String) : Prop := isWord t = false ∧ t ≠ "\x7b" ∧ t ≠ "\x7d"

/-- A mark that can stand behind the name of an object. -/
def Follows (t : String) : Prop := Mark t ∧ t ≠ "(" ∧ t ≠ ":"

/-- A token behind which a word stands for an object: neither a declaration nor a jump begins
there. -/
def Quiet (t : String) : Prop := t ∉ "goto" :: types

instance (t : String) : Decidable (Mark t) :=
  inferInstanceAs (Decidable (isWord t = false ∧ t ≠ "\x7b" ∧ t ≠ "\x7d"))

instance (t : String) : Decidable (Follows t) :=
  inferInstanceAs (Decidable (Mark t ∧ t ≠ "(" ∧ t ≠ ":"))

instance (t : String) : Decidable (Quiet t) := inferInstanceAs (Decidable (t ∉ "goto" :: types))

theorem Mark.quiet {t : String} (mark : Mark t) : Quiet t := by
  have words : ("goto" :: types).all isWord = true := by decide
  intro mem
  exact absurd (List.all_eq_true.mp words t mem) (by simp [mark.1])

/-- The names among these words, and the declarations that they refer to. -/
def meant (means : String → Option Nat) (words : List String) : List (String × Option Nat) :=
  (words.filter isName).map fun name => (name, means name)

theorem meant_cons (means : String → Option Nat) (word : String) (words : List String) :
    meant means (word :: words) = meant means [word] ++ meant means words := by
  simp only [meant, ← List.map_append, ← List.filter_append, List.singleton_append]

theorem meant_append (means : String → Option Nat) (xs ys : List String) :
    meant means (xs ++ ys) = meant means xs ++ meant means ys := by
  simp [meant]

theorem meant_eq_flatMap (means : String → Option Nat) (words : List String) :
    meant means words = words.flatMap fun word => meant means [word] := by
  induction words with
  | nil => rfl
  | cons word words ih => rw [meant_cons, ih, List.flatMap_cons]

theorem mem_meant {means : String → Option Nat} {words : List String}
    {use : String × Option Nat} :
    use ∈ meant means words ↔ use.1 ∈ words ∧ isName use.1 = true ∧ use.2 = means use.1 := by
  rw [meant, List.mem_map]
  constructor
  · rintro ⟨word, mem, rfl⟩
    exact ⟨(List.mem_filter.mp mem).1, (List.mem_filter.mp mem).2, rfl⟩
  · rintro ⟨mem, named, meaning⟩
    exact ⟨use.1, List.mem_filter.mpr ⟨mem, named⟩, Prod.ext rfl meaning.symm⟩

theorem meant_of_mem_reserved (means : String → Option Nat) {t : String} (mem : t ∈ reserved) :
    meant means [t] = [] := by
  simp [meant, isName_of_mem_reserved mem]

/-- What names refer to where this word is declared, if it is a name, as the one with a number. -/
def binding (means : String → Option Nat) (word : String) (n : Nat) : String → Option Nat :=
  if isName word then Function.update means word (some n) else means

theorem binding_of_not_mem (means : String → Option Nat) {word other : String}
    (new : other ∉ [word].filter isName) (n : Nat) : binding means word n other = means other := by
  rw [binding]
  split
  · rename_i named
    refine Function.update_of_ne (fun same => new ?_) _ _
    simp [same, named]
  · rfl

namespace Scopes

variable (s : Scopes) {before t u : String} {rest : List String}

@[simp] theorem find_enter : s.enter.find = s.find := rfl

theorem find_declare (name : String) :
    (s.declare name).find = Function.update s.find name (some s.declared) := by
  funext other
  have first : (s.declare name).find other =
      ((name, s.declared) :: s.frames.flatMap Frame.names).lookup other := by
    cases frames : s.frames <;> simp [find, declare, frames]
  rw [first, List.lookup_cons, Function.update_apply]
  split <;> simp_all [find]

/-! The tokens of a row one by one. -/

theorem uses_of_quiet (quiet : Quiet before) (row : List String) :
    s.uses before row = s.uses "" row := by
  obtain ⟨goes, typed⟩ : before ≠ "goto" ∧ before ∉ types := by simpa [Quiet] using quiet
  have quiet' : "" ≠ "goto" ∧ "" ∉ types := by decide
  cases row with
  | nil => rfl
  | cons t rest => simp only [uses, goes, typed, quiet', if_false]

/-- A token is passed over that does not stand for an object. -/
theorem uses_skip (brace : t ≠ "\x7b" ∧ t ≠ "\x7d") (other : t = "for" → rest.head? ≠ some "(")
    (skips : isName t = false ∨ before = "goto" ∨ rest.head? = some "(" ∨ rest.head? = some ":") :
    s.uses before (t :: rest) = s.uses t rest := by
  rw [uses, if_neg brace.1, if_neg brace.2, if_neg (not_and.mpr other), if_pos skips]

theorem uses_mark (mark : Mark t) (rest : List String) :
    s.uses before (t :: rest) = s.uses "" rest := by
  have other : t ≠ "for" := (ne_of_isWord (by decide) mark.1).symm
  rw [uses_skip s mark.2 (fun same => absurd same other) (.inl (isName_of_not_isWord mark.1)),
    uses_of_quiet s mark.quiet]

theorem uses_enter (rest : List String) :
    s.uses before ("\x7b" :: rest) = s.enter.uses "" rest := by
  have quiet : Quiet "\x7b" := by decide
  rw [uses, if_pos rfl, uses_of_quiet _ quiet]

theorem uses_leave (rest : List String) :
    s.uses before ("\x7d" :: rest) = s.leave.uses "" rest := by
  have quiet : Quiet "\x7d" := by decide
  rw [uses, if_neg (by decide), if_pos rfl, uses_of_quiet _ quiet]

theorem uses_enterCount (rest : List String) :
    s.uses before ("for" :: "(" :: rest) = s.enterCount.uses "" rest := by
  have mark : Mark "(" := by decide
  rw [uses, if_neg (by decide), if_neg (by decide), if_pos ⟨rfl, rfl⟩, uses_mark _ mark]

theorem brace_of_isWord (word : isWord t = true) : t ≠ "\x7b" ∧ t ≠ "\x7d" :=
  ⟨ne_of_isWord word (by decide), ne_of_isWord word (by decide)⟩

theorem uses_call (word : isWord t = true) (other : t ≠ "for") (rest : List String) :
    s.uses before (t :: "(" :: rest) = s.uses "" rest := by
  have mark : Mark "(" := by decide
  rw [uses_skip s (brace_of_isWord word) (fun same => absurd same other) (.inr (.inr (.inl rfl))),
    uses_mark s mark]

theorem uses_place (word : isWord t = true) (rest : List String) :
    s.uses before (t :: ":" :: rest) = s.uses "" rest := by
  have mark : Mark ":" := by decide
  rw [uses_skip s (brace_of_isWord word) (by simp) (.inr (.inr (.inr rfl))), uses_mark s mark]

theorem uses_jump (word : isWord t = true) (rest : List String) :
    s.uses before ("goto" :: t :: ";" :: rest) = s.uses "" rest := by
  have mark : Mark ";" := by decide
  have goes : isName "goto" = false := by decide
  rw [uses_skip s (by decide) (by simp) (.inl goes),
    uses_skip s (brace_of_isWord word) (by simp) (.inr (.inl rfl)), uses_mark s mark]

theorem uses_name (named : isName t = true) (other : before ≠ "goto")
    (ends : rest.head? ≠ some "(" ∧ rest.head? ≠ some ":") :
    s.uses before (t :: rest) =
      let s' := if before ∈ types then s.declare t else s
      (t, s'.find t) :: s'.uses t rest := by
  have word : isWord t = true := by
    rw [isName, Bool.and_eq_true_iff] at named
    exact named.1
  rw [uses, if_neg (brace_of_isWord word).1, if_neg (brace_of_isWord word).2,
    if_neg fun same => ends.1 same.2, if_neg (by simp [named, other, ends])]

/-- A word between a quiet token and a mark stands for an object if it is a name. -/
theorem uses_object (quiet : Quiet before) (word : isWord t = true) (follows : Follows u)
    (rest : List String) :
    s.uses before (t :: u :: rest) = meant s.find [t] ++ s.uses "" (u :: rest) := by
  obtain ⟨mark, other⟩ := follows
  have ends : (u :: rest).head? ≠ some "(" ∧ (u :: rest).head? ≠ some ":" := by simp [other]
  cases named : isName t with
  | false =>
      rw [uses_skip s (brace_of_isWord word) (fun _ => ends.1) (.inl named), uses_mark s mark,
        uses_mark s mark]
      simp [meant, named]
  | true =>
      obtain ⟨goes, typed⟩ : before ≠ "goto" ∧ before ∉ types := by simpa [Quiet] using quiet
      rw [uses_name s named goes ends, if_neg typed]
      simp [meant, named, uses_mark s mark]

/-- Declares a word if it is a name. -/
def given (s : Scopes) (word : String) : Scopes := if isName word then s.declare word else s

theorem find_given (word : String) : (s.given word).find = binding s.find word s.declared := by
  rw [given, binding]
  split
  · exact s.find_declare word
  · rfl

theorem declared_given (word : String) :
    (s.given word).declared = s.declared + ([word].filter isName).length := by
  cases named : isName word <;> simp [given, named, declare]

/-- Before a statement the innermost scope is that of a block. -/
def InBlock (s : Scopes) : Prop := ∀ frame ∈ s.frames.head?, frame.counts = false

theorem inBlock_enter : s.enter.InBlock := by
  rintro frame ⟨⟩
  rfl

/-- Behind scopes that are left again and have this many declarations in them. -/
def past (s : Scopes) (n : Nat) : Scopes := { s with declared := s.declared + n }

theorem past_past (m n : Nat) : (s.past m).past n = s.past (m + n) := by
  simp [past, Nat.add_assoc]

theorem leave_enter {s : Scopes} (inside : s.InBlock) (n : Nat) :
    (s.enter.past n).leave = s.past n := by
  obtain ⟨declared, frames⟩ := s
  cases frames with
  | nil => rfl
  | cons frame frames =>
      obtain ⟨counts, names⟩ := frame
      obtain rfl : counts = false := inside _ rfl
      rfl

theorem leave_count (word : String) (n : Nat) :
    ((s.enterCount.given word).enter.past n).leave =
      s.past (([word].filter isName).length + n) := by
  cases named : isName word <;>
    simp [given, named, declare, enter, enterCount, past, leave, Nat.add_assoc]

theorem uses_declaration {type : String} (typed : type ∈ types) (word : isWord t = true)
    (follows : Follows u) (rest : List String) :
    s.uses before (type :: t :: u :: rest) =
      meant (s.given t).find [t] ++ (s.given t).uses "" (u :: rest) := by
  obtain ⟨mark, other⟩ := follows
  have ends : (u :: rest).head? ≠ some "(" ∧ (u :: rest).head? ≠ some ":" := by simp [other]
  have kept : type ∈ reserved ∧ type ≠ "for" ∧ type ≠ "goto" := by
    have all : ∀ type ∈ types, type ∈ reserved ∧ type ≠ "for" ∧ type ≠ "goto" := by decide
    exact all type typed
  have type_word := isWord_of_mem_reserved kept.1
  rw [uses_skip s (brace_of_isWord type_word) (fun same => absurd same kept.2.1)
    (.inl (isName_of_mem_reserved kept.1))]
  cases named : isName t with
  | false =>
      rw [uses_skip s (brace_of_isWord word) (fun _ => ends.1) (.inl named), uses_mark s mark]
      simp [given, meant, named, uses_mark s mark]
  | true =>
      rw [uses_name s named kept.2.2 ends, if_pos typed]
      simp [given, meant, named, uses_mark _ mark]

/-! Declarations in a row. -/

theorem InBlock.given {s : Scopes} (inside : s.InBlock) (word : String) :
    (s.given word).InBlock := by
  obtain ⟨declared, frames⟩ := s
  rw [Scopes.given]
  split
  · cases frames with
    | nil =>
        rintro frame ⟨⟩
        rfl
    | cons frame frames =>
        rintro frame' ⟨⟩
        exact inside frame rfl
  · exact inside

theorem inBlock_foldl {s : Scopes} (inside : s.InBlock) (words : List String) :
    (words.foldl Scopes.given s).InBlock := by
  induction words generalizing s with
  | nil => exact inside
  | cons word words ih => exact ih (inside.given word)

theorem declared_foldl (s : Scopes) (words : List String) :
    (words.foldl Scopes.given s).declared = s.declared + (words.filter isName).length := by
  induction words generalizing s with
  | nil => rfl
  | cons word words ih =>
      rw [List.foldl_cons, ih, declared_given, Nat.add_assoc, ← List.length_append,
        ← List.filter_append, List.singleton_append]

/-- Words that are declared one after the other are numbered in this order. -/
theorem find_foldl (s : Scopes) {words : List String} (once : words.Nodup) (name : String) :
    (words.foldl Scopes.given s).find name =
      (((words.filter isName).idxOf? name).map (s.declared + ·)).or (s.find name) := by
  induction words generalizing s with
  | nil => rfl
  | cons word words ih =>
      obtain ⟨new, once⟩ := List.nodup_cons.mp once
      rw [List.foldl_cons, ih (s.given word) once, find_given, declared_given, binding]
      cases named : isName word with
      | false => simp [named]
      | true =>
          have one : ([word].filter isName).length = 1 := by simp [named]
          rw [one, if_pos rfl, List.filter_cons_of_pos named, List.idxOf?_cons,
            Function.update_apply]
          by_cases same : name = word
          · subst same
            have none : (words.filter isName).idxOf? name = none :=
              List.idxOf?_eq_none_iff.mpr fun mem => new (List.mem_filter.mp mem).1
            simp [none]
          · have differs : (word == name) = false := beq_eq_false_iff_ne.mpr (Ne.symm same)
            rw [differs, if_neg same, if_neg Bool.false_ne_true, Option.map_map]
            simp only [Function.comp_def, Nat.add_assoc, Nat.add_comm 1]

theorem uses_declarations (s : Scopes) {words : List String} (once : words.Nodup)
    (all : ∀ word ∈ words, isWord word = true) (rest : List String) :
    s.uses "" (words.flatMap (fun word => ["float", word, ";"]) ++ rest) =
      meant (words.foldl Scopes.given s).find words ++
        (words.foldl Scopes.given s).uses "" rest := by
  induction words generalizing s with
  | nil => rfl
  | cons word words ih =>
      obtain ⟨new, once'⟩ := List.nodup_cons.mp once
      obtain ⟨here, all⟩ := List.forall_mem_cons.mp all
      have mark : Mark ";" := by decide
      have kept : ((word :: words).foldl Scopes.given s).find word = (s.given word).find word := by
        have none : (words.filter isName).idxOf? word = none :=
          List.idxOf?_eq_none_iff.mpr fun mem => new (List.mem_filter.mp mem).1
        rw [List.foldl_cons, find_foldl _ once', none]
        rfl
      have first : meant (s.given word).find [word] =
          meant ((word :: words).foldl Scopes.given s).find [word] := by
        cases named : isName word <;> simp [meant, named, ← kept]
      rw [List.flatMap_cons, List.append_assoc]
      simp only [List.cons_append, List.nil_append]
      rw [s.uses_declaration (by decide) here (by decide), uses_mark _ mark, ih _ once' all,
        first, meant_cons _ word words, List.append_assoc]
      rfl

end Scopes

end YoloLang.CText
