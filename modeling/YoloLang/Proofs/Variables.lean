import YoloLang.Proofs.Header
import YoloLang.Proofs.Scopes

/-!
The declarations that the variables of a program refer to in its C text. Main statement: a variable
refers to the counter of the innermost counted loop around it that begins by setting it, and without
one to the declaration of it in the header.
-/

namespace YoloLang

open Leaf

open CText

/-! The names in a value. -/

/-- The names among these leaves, in order. -/
def words (ls : List Leaf) : List String :=
  (ls.filter (·.token.kind = .identifier)).map (·.token.text)

theorem words_cons (l : Leaf) (ls : List Leaf) :
    words (l :: ls) =
      (if l.token.kind = .identifier then [l.token.text] else []) ++ words ls := by
  rw [words, List.filter_cons]
  split <;> simp_all [words]

theorem words_append (xs ys : List Leaf) : words (xs ++ ys) = words xs ++ words ys := by
  simp [words]

theorem words_terminal {kind : Kind} (other : kind ≠ .identifier) (t : Terminal kind)
    (mention : Option Mention) (ls : List Leaf) : words (⟨t.1, mention⟩ :: ls) = words ls := by
  rw [words_cons, if_neg fun same => other (t.2.1.symm.trans same)]
  rfl

theorem words_name (name : Terminal .identifier) (mention : Option Mention) (ls : List Leaf) :
    words (⟨name.1, mention⟩ :: ls) = name.1.text :: words ls := by
  rw [words_cons, if_pos name.2.1]
  rfl

/-- A variable among these leaves is spelled so. -/
def Spoken (ls : List Leaf) (word : String) : Prop :=
  ∃ l ∈ ls, l.token.kind = .identifier ∧ l.token.text = word ∧ l.mention ≠ some .marked ∧
    l.mention ≠ some .sought

theorem Spoken.mono {xs ys : List Leaf} {word : String} (h : Spoken xs word) (within : xs ⊆ ys) :
    Spoken ys word := by
  obtain ⟨l, mem, spoken⟩ := h
  exact ⟨l, within mem, spoken⟩

theorem isWord_of_identifier {t : Token} (h : t.Lexed) (kind : t.kind = .identifier) :
    isWord t.text = true := by
  obtain ⟨c, cs, text, first, -⟩ := h.identifier kind
  simp [isWord, text, startsWord, first]

theorem mark_of_isMark {t : Token} (h : t.Lexed) (mark : Token.isMark t.kind = true) :
    Mark t.text := by
  have all : ∀ raw ∈ signs, Mark (String.ofList raw) := by decide
  simpa using all _ (h.mark mark).2

theorem mark_of_number {t : Token} (h : t.Lexed) (kind : t.kind = .number) : Mark t.text := by
  obtain ⟨c, cs, text, digit, -⟩ := h.number kind
  have brace : c ≠ '\x7b' ∧ c ≠ '\x7d' ∧ c ≠ '_' := by
    refine ⟨?_, ?_, ?_⟩ <;> rintro rfl <;> exact absurd digit (by decide)
  have other : startsWord c = false := by
    rw [startsWord, Bool.or_eq_false_iff, beq_eq_false_iff_ne]
    refine ⟨?_, brace.2.2⟩
    by_contra alphabetic
    simp [Text.not_digit_of_alphabetic (by simpa using alphabetic)] at digit
  refine ⟨by simp [isWord, text, other], fun same => ?_, fun same => ?_⟩
  · simp [same] at text
    exact brace.1 text.1.symm
  · simp [same] at text
    exact brace.2.1 text.1.symm

/-- In a value only a name is taken for a word. -/
theorem mark_of_endsValue {t : Token} (h : t.Lexed) (ends : t.kind.endsValue = true)
    (other : t.kind ≠ .identifier) : Mark t.text := by
  cases kind : t.kind with
  | number => exact mark_of_number h kind
  | closeParen => exact mark_of_isMark h (by simp [Token.isMark, kind])
  | identifier => contradiction
  | _ => simp [kind, Kind.endsValue] at ends

theorem mark_of_meets {t : Token} {k : Kind} (h : t.Lexed) (meets : t.kind.meets k = true)
    (other : t.kind ≠ .identifier) : Mark t.text := by
  rw [Kind.meets] at meets
  split at meets
  · rename_i ends
    exact mark_of_endsValue h ends other
  · have opens := (Bool.and_eq_true_iff.mp meets).1
    exact mark_of_isMark h (by simp only [Token.isMark, opens, Bool.true_or])

/-- Two marks that are one piece can stand behind a name. -/
theorem follows_of_fused {t : String} {c : Char} (mark : Mark t) (text : t.toList = [c]) :
    Follows (String.ofList [c, c]) := by
  have word : isWord (String.ofList [c, c]) = isWord t := by simp [isWord, text]
  have other (d : Char) : String.ofList [c, c] ≠ String.ofList [d] := by
    simp [← String.toList_inj]
  exact ⟨⟨word.trans mark.1, other _, other _⟩, other _, other _⟩

/-- What a value goes on with behind a name. -/
theorem Taken.follows {b : Leaf} {ls : List Leaf} {ps : List (List Char)} (h : Taken (b :: ls) ps)
    (lexed : b.token.Lexed) (meets : Kind.identifier.meets b.token.kind = true) :
    ∃ u us, ps.map String.ofList = u :: us ∧ Follows u := by
  have closes : (b.token.kind.joinsValues || b.token.kind == .closeParen) = true := meets
  have mark : Token.isMark b.token.kind = true := by
    rw [Bool.or_eq_true] at closes
    rw [Token.isMark, Bool.or_eq_true, Bool.or_eq_true]
    exact closes.imp .inl id
  have here := mark_of_isMark lexed mark
  cases h with
  | own _ more =>
      have other : ∀ p ∈ Lexeme.fixed, (p.2.joinsValues || p.2 == .closeParen) = true →
          String.ofList p.1 ≠ "(" ∧ String.ofList p.1 ≠ ":" := by decide
      have text := other _ (lexed.mark mark).1 closes
      rw [String.ofList_toList] at text
      exact ⟨b.token.text, _, by rw [List.map_cons, String.ofList_toList], here, text⟩
  | @fused _ b' c sign same text _ ps more =>
      exact ⟨_, _, rfl, follows_of_fused here text⟩

/-- A reading of rows of tokens that passes over marks and takes a word before a mark by itself. -/
structure Wordwise {α : Type} (read : List String → List α) (taken : String → List α) : Prop where
  mark : ∀ {t : String}, Mark t → ∀ rest, read (t :: rest) = read rest
  word : ∀ {t u : String}, isWord t = true → Follows u → ∀ rest,
    read (t :: u :: rest) = taken t ++ read (u :: rest)

/-- A value is read name by name, be signs fused or not. -/
theorem Taken.read {α : Type} {read : List String → List α} {taken : String → List α}
    (wordwise : Wordwise read taken) {ls : List Leaf} {ps : List (List Char)} (h : Taken ls ps)
    (lexed : ∀ l ∈ ls, l.token.Lexed)
    (meets : ls.IsChain fun a b => a.token.kind.meets b.token.kind = true)
    (last : ∀ l ∈ ls.getLast?, l.token.kind.endsValue = true) {u : String}
    (follows : Follows u) (rest : List String) :
    read (ps.map String.ofList ++ u :: rest) =
      (words ls).flatMap taken ++ read (u :: rest) := by
  induction h with
  | nil => rfl
  | @own l ls ps more ih =>
      obtain ⟨here, lexed'⟩ := List.forall_mem_cons.mp lexed
      have last' : ∀ b ∈ ls.getLast?, b.token.kind.endsValue = true := fun b mem =>
        last b (by simp [List.getLast?_cons, Option.mem_def.mp mem])
      have tail := ih lexed' meets.tail last'
      rw [List.map_cons, String.ofList_toList, List.cons_append, words_cons, List.flatMap_append,
        List.append_assoc, ← tail]
      by_cases kind : l.token.kind = .identifier
      · have next : ∃ v vs, ps.map String.ofList ++ u :: rest = v :: vs ∧ Follows v := by
          cases ls with
          | nil =>
              cases more
              exact ⟨u, rest, rfl, follows⟩
          | cons b ls =>
              obtain ⟨v, vs, row, behind⟩ := more.follows (lexed' b List.mem_cons_self)
                (kind ▸ (List.isChain_cons_cons.mp meets).1)
              exact ⟨v, vs ++ u :: rest, by rw [row, List.cons_append], behind⟩
        obtain ⟨v, vs, row, behind⟩ := next
        rw [if_pos kind, row, wordwise.word (isWord_of_identifier here kind) behind,
          List.flatMap_singleton]
      · have mark : Mark l.token.text := by
          cases ls with
          | nil => exact mark_of_endsValue here (last l rfl) kind
          | cons b ls => exact mark_of_meets here (List.isChain_cons_cons.mp meets).1 kind
        rw [if_neg kind, wordwise.mark mark]
        rfl
  | @fused a b c sign same text ls ps more ih =>
      have kind : a.token.kind ≠ .identifier := by
        intro kind
        simp [kind, Kind.isSign] at sign
      have mark : Mark a.token.text := by
        refine mark_of_isMark (lexed a List.mem_cons_self) ?_
        simp [Token.isMark, Kind.joinsValues, sign]
      have mark' : Mark (String.ofList [c, c]) := (follows_of_fused mark text).1
      have tail := ih (fun l mem => lexed l (by simp [mem])) meets.tail.tail fun l mem =>
        last l (by simp [List.getLast?_cons, Option.mem_def.mp mem])
      rw [List.map_cons, List.cons_append, wordwise.mark mark', tail, words_cons, words_cons,
        if_neg kind, if_neg (same ▸ kind)]
      rfl

theorem Formula.read {α : Type} {read : List String → List α} {taken : String → List α}
    (wordwise : Wordwise read taken) {ls : List Leaf} (h : Formula ls) {u : String}
    (follows : Follows u) (rest : List String) :
    read (split (spelling ls) ++ u :: rest) = (words ls).flatMap taken ++ read (u :: rest) := by
  obtain ⟨l, last, ends⟩ := h.last
  exact h.taken.read wordwise h.lexed h.meets (fun a mem => Option.mem_unique last mem ▸ ends)
    follows rest

theorem CText.Scopes.wordwise_uses (s : Scopes) :
    Wordwise (s.uses "") fun word => meant s.find [word] where
  mark mark := s.uses_mark mark
  word word follows := s.uses_object (by decide) word follows

/-- The names in a value stand for objects in the scopes around it. -/
theorem Formula.uses {ls : List Leaf} (h : Formula ls) (s : Scopes) {u : String}
    (follows : Follows u) (rest : List String) :
    s.uses "" (split (spelling ls) ++ u :: rest) =
      meant s.find (words ls) ++ s.uses "" (u :: rest) := by
  rw [meant_eq_flatMap]
  exact h.read s.wordwise_uses follows rest

/-! The names in statements. -/

namespace Tree

def counter : Tree (.phrase .forInit) → String
  | forInit _ name _ _ => name.1.text

/-- The names that the counted loops in statements begin by setting. -/
def counters {part : Part} : Tree part → List String
  | branch _ _ _ _ _ _ body _ _ | loop _ _ _ _ _ _ body _ _ => body.counters
  | count _ _ init _ _ _ _ _ _ _ body _ _ => [init.counter].filter isName ++ body.counters
  | cons first rest => first.counters ++ rest.counters
  | _ => []

/-- The names of variables in the C text of statements, and the declarations that they refer to
where names outside have these meanings and so many declarations come before. -/
def uses {part : Part} (means : String → Option Nat) (n : Nat) :
    Tree part → List (String × Option Nat)
  | print _ value _ => meant means (words value.leaves)
  | branch _ _ condition _ _ _ body _ _ | loop _ _ condition _ _ _ body _ _ =>
      meant means (words condition.leaves) ++ body.uses means n
  | count _ _ init _ condition _ step _ _ _ body _ _ =>
      let inner := binding means init.counter n
      meant inner (words (init.leaves ++ (condition.leaves ++ step.leaves))) ++
        body.uses inner (n + ([init.counter].filter isName).length)
  | assign _ name _ value _ => meant means (name.1.text :: words value.leaves)
  | input _ name _ => meant means [name.1.text, name.1.text]
  | cons first rest => first.uses means n ++ rest.uses means (n + first.counters.length)
  | _ => []

theorem spoken {part : Part} (t : Tree part) (none : t.lines = []) {word : String}
    (mem : word ∈ words t.leaves) : Spoken t.leaves word := by
  obtain ⟨l, inside, rfl⟩ := List.mem_map.mp mem
  obtain ⟨inside, kind⟩ := List.mem_filter.mp inside
  -- Only statements for places have leaves with such mentions, and they are lines of their own.
  have placed {m : Mention} (place : m = .marked ∨ m = .sought) : l.mention ≠ some m := by
    intro mention
    obtain ⟨i, found⟩ := List.mem_iff_getElem?.mp inside
    have name := mem_names found mention
    simp [← t.filterMap_lines place, none] at name
  exact ⟨l, inside, by simpa using kind, rfl, placed (.inl rfl), placed (.inr rfl)⟩

variable (s : Scopes) {u : String}

theorem uses_init (t : Tree (.phrase .forInit)) (follows : Follows u) (rest : List String) :
    s.uses "" (t.written ++ u :: rest) =
      meant (s.given t.counter).find (words t.leaves) ++
        (s.given t.counter).uses "" (u :: rest) := by
  cases t with
  | forInit word name eq value =>
      have formed : Formula value.leaves := value.formed
      have named := isWord_of_identifier name.2.2 name.2.1
      have mark : Mark "=" := by decide
      rw [written, List.cons_append, List.cons_append, List.cons_append,
        s.uses_declaration (by decide) named (by decide), Scopes.uses_mark _ mark,
        formed.uses _ follows, leaves, plain, naming, words_terminal (by simp), words_name, plain,
        words_terminal (by simp), counter, meant_cons _ _ (words value.leaves), List.append_assoc]

theorem uses_step (t : Tree (.phrase .forStep)) (follows : Follows u) (rest : List String) :
    s.uses "" (t.written ++ u :: rest) =
      meant s.find (words t.leaves) ++ s.uses "" (u :: rest) := by
  cases t with
  | forStep name eq value =>
      have formed : Formula value.leaves := value.formed
      have named := isWord_of_identifier name.2.2 name.2.1
      have mark : Mark "=" := by decide
      rw [written, List.cons_append, List.cons_append, s.uses_object (by decide) named (by decide),
        Scopes.uses_mark _ mark, formed.uses _ follows, leaves, naming, words_name, plain,
        words_terminal (by simp), meant_cons _ _ (words value.leaves), List.append_assoc]

theorem marks : Mark "\"" ∧ Mark "," ∧ Mark "(" ∧ Mark ")" ∧ Mark ";" ∧ Mark "=" ∧ Mark "&" ∧
    Mark "0" ∧ Mark "==" := by decide

/-- The names in the text of statements refer to the declarations that the statements say. -/
theorem uses_written {part : Part} (t : Tree part)
    (whole : part = .statement ∨ part = .statements) {s : Scopes} (inside : s.InBlock)
    (rest : List String) :
    s.uses "" (t.written ++ rest) =
      t.uses s.find s.declared ++ (s.past t.counters.length).uses "" rest := by
  -- The scopes are any: the body of a counted loop is read in those that its head has left.
  induction t generalizing s rest with
  | printText word text ends =>
      simp only [written, List.cons_append, List.nil_append]
      rw [s.uses_call (by decide) (by decide)]
      simp only [Scopes.uses_mark, marks]
      rfl
  | print word value ends =>
      have formed : Formula value.leaves := value.formed
      have type : meant s.find ["float"] = [] := meant_of_mem_reserved _ (by decide)
      simp only [written, List.cons_append, List.append_assoc, List.nil_append]
      rw [s.uses_call (by decide) (by decide)]
      simp only [Scopes.uses_mark, marks]
      rw [s.uses_object (by decide) (by decide) (by decide), type]
      simp only [Scopes.uses_mark, marks]
      rw [formed.uses s (by decide)]
      simp only [Scopes.uses_mark, marks]
      rfl
  | branch _ _ condition _ _ _ body _ _ _ _ ih | loop _ _ condition _ _ _ body _ _ _ _ ih =>
      have formed : Formula condition.leaves := condition.formed
      simp only [written, braced, List.cons_append, List.append_assoc, List.nil_append]
      rw [s.uses_call (by decide) (by decide), formed.uses s (by decide), s.uses_mark (by decide),
        s.uses_enter, ih (.inr rfl) s.inBlock_enter, Scopes.uses_leave, Scopes.leave_enter inside]
      simp only [uses, List.append_assoc]
      rfl
  | count _ _ init _ condition _ step _ _ _ body _ _ _ _ _ _ ih =>
      have formed : Formula condition.leaves := condition.formed
      simp only [written, braced, List.cons_append, List.append_assoc, List.nil_append]
      rw [s.uses_enterCount, init.uses_init _ (by decide), Scopes.uses_mark _ (by decide),
        formed.uses _ (by decide), Scopes.uses_mark _ (by decide), step.uses_step _ (by decide),
        Scopes.uses_mark _ (by decide), Scopes.uses_enter, ih (.inr rfl) (Scopes.inBlock_enter _),
        Scopes.uses_leave, Scopes.leave_count]
      have means : (s.enterCount.given init.counter).find =
          binding s.find init.counter s.declared := s.enterCount.find_given _
      have declared : (s.enterCount.given init.counter).enter.declared =
          s.declared + ([init.counter].filter isName).length := s.enterCount.declared_given _
      rw [Scopes.find_enter, means, declared, uses, counters, List.length_append, words_append,
        words_append, meant_append, meant_append]
      simp only [List.append_assoc]
  | label word name ends =>
      have named := isWord_of_identifier name.2.2 name.2.1
      exact s.uses_place named rest
  | goto word name ends =>
      have named := isWord_of_identifier name.2.2 name.2.1
      exact s.uses_jump named rest
  | assign word name eq value ends =>
      have formed : Formula value.leaves := value.formed
      have named := isWord_of_identifier name.2.2 name.2.1
      simp only [written, List.cons_append, List.append_assoc, List.nil_append]
      rw [s.uses_object (by decide) named (by decide), s.uses_mark (by decide),
        formed.uses s (by decide), s.uses_mark (by decide), uses,
        meant_cons _ _ (words value.leaves), List.append_assoc]
      rfl
  | input word name ends =>
      have named := isWord_of_identifier name.2.2 name.2.1
      simp only [written, List.cons_append, List.nil_append]
      rw [s.uses_call (by decide) (by decide)]
      simp only [Scopes.uses_mark, marks]
      rw [s.uses_call (by decide) (by decide)]
      simp only [Scopes.uses_mark, marks]
      rw [s.uses_object (by decide) named (by decide)]
      simp only [Scopes.uses_mark, marks]
      rw [s.uses_enter, s.enter.uses_object (by decide) named (by decide)]
      simp only [Scopes.uses_mark, marks]
      rw [Scopes.uses_call _ (by decide) (by decide)]
      simp only [Scopes.uses_mark, marks]
      have outside : s.enter.leave = s := Scopes.leave_enter inside 0
      rw [Scopes.uses_leave, outside, uses, meant_cons _ _ [name.1.text], List.append_assoc]
      rfl
  | empty => rfl
  | cons first rest' ih ih' =>
      have inside' : (s.past first.counters.length).InBlock := inside
      rw [written, List.append_assoc, ih (.inl rfl) inside, ih' (.inr rfl) inside', s.past_past,
        ← List.append_assoc, ← List.length_append]
      rfl
  | _ => simp at whole

/-- A name that no counted loop begins by setting keeps the meaning it has outside. -/
theorem eq_of_mem_uses {part : Part} (t : Tree part) {means : String → Option Nat} {n : Nat}
    {use : String × Option Nat} (mem : use ∈ t.uses means n) (other : use.1 ∉ t.counters) :
    use.2 = means use.1 := by
  induction t generalizing means n with
  | print | assign | input => exact (mem_meant.mp mem).2.2
  | branch _ _ _ _ _ _ _ _ _ _ _ ih | loop _ _ _ _ _ _ _ _ _ _ _ ih =>
      obtain mem | mem := List.mem_append.mp mem
      · exact (mem_meant.mp mem).2.2
      · exact ih mem other
  | count _ _ init _ _ _ _ _ _ _ body _ _ _ _ _ _ ih =>
      obtain ⟨own, other⟩ := not_or.mp (mt List.mem_append.mpr other)
      rw [← binding_of_not_mem means own n]
      obtain mem | mem := List.mem_append.mp mem
      · exact (mem_meant.mp mem).2.2
      · exact ih mem other
  | cons first rest ih ih' =>
      obtain ⟨here, there⟩ := not_or.mp (mt List.mem_append.mpr other)
      obtain mem | mem := List.mem_append.mp mem
      · exact ih mem here
      · exact ih' mem there
  | _ => simp [uses] at mem

/-- The names of variables in the C text are those of identifiers of the source, and of none that
stands for a place. -/
theorem spoken_of_mem_uses {part : Part} (t : Tree part) {means : String → Option Nat} {n : Nat}
    {use : String × Option Nat} (mem : use ∈ t.uses means n) :
    isName use.1 = true ∧ Spoken t.leaves use.1 := by
  have named (name : Terminal .identifier) {ls : List Leaf} (mem : naming .target name.1 ∈ ls) :
      Spoken ls name.1.text :=
    ⟨_, mem, name.2.1, rfl, by simp [naming], by simp [naming]⟩
  induction t generalizing means n with
  | print _ value _ =>
      obtain ⟨mem, name, -⟩ := mem_meant.mp mem
      exact ⟨name, (value.spoken (by cases value; rfl) mem).mono fun l mem => by simp [leaves, mem]⟩
  | branch _ _ condition _ _ _ body _ _ _ _ ih | loop _ _ condition _ _ _ body _ _ _ _ ih =>
      obtain mem | mem := List.mem_append.mp mem
      · obtain ⟨mem, name, -⟩ := mem_meant.mp mem
        have spoken := condition.spoken (by cases condition; rfl) mem
        exact ⟨name, spoken.mono fun l mem => by simp [leaves, mem]⟩
      · obtain ⟨name, spoken⟩ := ih mem
        exact ⟨name, spoken.mono fun l mem => by simp [leaves, mem]⟩
  | count _ _ init _ condition _ step _ _ _ body _ _ _ _ _ _ ih =>
      obtain mem | mem := List.mem_append.mp mem
      · obtain ⟨mem, name, -⟩ := mem_meant.mp mem
        rw [words_append, words_append] at mem
        obtain mem | mem | mem : _ ∨ _ ∨ _ := by simpa only [List.mem_append] using mem
        · have spoken := init.spoken (by cases init; rfl) mem
          exact ⟨name, spoken.mono fun l mem => by simp [leaves, mem]⟩
        · have spoken := condition.spoken (by cases condition; rfl) mem
          exact ⟨name, spoken.mono fun l mem => by simp [leaves, mem]⟩
        · have spoken := step.spoken (by cases step; rfl) mem
          exact ⟨name, spoken.mono fun l mem => by simp [leaves, mem]⟩
      · obtain ⟨name, spoken⟩ := ih mem
        exact ⟨name, spoken.mono fun l mem => by simp [leaves, mem]⟩
  | assign _ name _ value _ =>
      obtain ⟨mem, isName, -⟩ := mem_meant.mp mem
      refine ⟨isName, ?_⟩
      obtain same | mem := List.mem_cons.mp mem
      · exact same ▸ named name (by simp [leaves])
      · exact (value.spoken (by cases value; rfl) mem).mono fun l mem => by simp [leaves, mem]
  | input _ name _ =>
      obtain ⟨mem, isName, -⟩ := mem_meant.mp mem
      have same : use.1 = name.1.text := by simpa using mem
      exact ⟨isName, same ▸ named name (by simp [leaves])⟩
  | cons first rest ih ih' =>
      obtain mem | mem := List.mem_append.mp mem
      · obtain ⟨name, spoken⟩ := ih mem
        exact ⟨name, spoken.mono fun l mem => by simp [leaves, mem]⟩
      · obtain ⟨name, spoken⟩ := ih' mem
        exact ⟨name, spoken.mono fun l mem => by simp [leaves, mem]⟩
  | _ => simp [uses] at mem

end Tree

namespace Program

variable {p : Program}

/-- The declared variables are spelled as names of the source. -/
theorem exists_name (lexed : ∀ t ∈ p.tokens, t.Lexed) :
    ∀ word ∈ (names .target p.leaves).eraseDups, ∃ name : Terminal .identifier,
      name.1.text = word := by
  intro word mem
  obtain ⟨l, inside, rfl⟩ := List.mem_map.mp (List.mem_eraseDups.mp mem)
  obtain ⟨inside, mention⟩ := List.mem_filter.mp inside
  have kind : l.token.kind = .identifier :=
    (p.heralded.named l inside).mp (by simp_all)
  exact ⟨⟨l.token, kind, lexed _ (List.mem_map_of_mem inside)⟩, rfl⟩

theorem isWord_of_mem (lexed : ∀ t ∈ p.tokens, t.Lexed) :
    ∀ word ∈ (names .target p.leaves).eraseDups, isWord word = true := by
  intro word mem
  obtain ⟨name, rfl⟩ := exists_name lexed word mem
  exact isWord_of_identifier name.2.2 name.2.1

/-- The C text of a program is taken for the tokens of its header and those of its body. -/
theorem tokens_text (lexed : ∀ t ∈ p.tokens, t.Lexed) :
    CText.tokens (p.header ++ p.code).toList =
      ["int", "main", "(", ")", "\x7b"] ++
        (names .target p.leaves).eraseDups.flatMap (fun word => ["float", word, ";"]) ++
          (p.body.written ++ ["return", "0", ";", "\x7d"]) := by
  have declarations (words : List String)
      (all : ∀ word ∈ words, ∃ name : Terminal .identifier, name.1.text = word) :
      Whole (String.join (words.map declaration))
        (words.flatMap fun word => ["float", word, ";"]) := by
    induction words with
    | nil => exact fun _ => rfl
    | cons word words ih =>
        obtain ⟨⟨name, rfl⟩, more⟩ := List.forall_mem_cons.mp all
        rw [List.map_cons, String.join_cons, List.flatMap_cons]
        exact (whole_declaration (takes_name name)).append (ih more)
  have head := whole_opening.append (declarations _ (exists_name lexed))
  have body := (p.body.whole (.inr rfl)).append whole_footer
  have text := head.append body []
  have none : CText.tokens [] = [] := by simp [CText.tokens, bare, bareTokens, pieces]
  rwa [none, List.append_nil, List.append_nil] at text

/-- The names in the C text of a program refer to the declarations that its statements say, and
those in its header to themselves. -/
theorem uses_text (lexed : ∀ t ∈ p.tokens, t.Lexed) :
    let declared := (names .target p.leaves).eraseDups.filter isName
    CText.uses (p.header ++ p.code) =
      meant declared.idxOf? declared ++ p.body.uses declared.idxOf? declared.length := by
  intro declared
  let s : Scopes := ⟨0, [⟨false, []⟩]⟩
  let words := (names .target p.leaves).eraseDups
  let s' := words.foldl Scopes.given s.enter
  have once : words.Nodup := Declarations.nodup_eraseDups _
  have all : ∀ word ∈ words, isWord word = true := isWord_of_mem lexed
  have means : s'.find = declared.idxOf? := by
    funext name
    simp only [s', Scopes.find_foldl _ once]
    simp [s, Scopes.find, Scopes.enter, declared, words]
  have number : s'.declared = declared.length := by
    rw [Scopes.declared_foldl]
    exact Nat.zero_add _
  have inside : s'.InBlock := Scopes.inBlock_foldl s.inBlock_enter words
  have given : meant s'.find words = meant declared.idxOf? declared := by
    simp [means, meant, declared, words]
  have footer (s : Scopes) : s.uses "" ["return", "0", ";", "\x7d"] = [] := by
    rw [s.uses_object (by decide) (by decide) (by decide), meant_of_mem_reserved _ (by decide),
      s.uses_mark (by decide), s.uses_mark (by decide), s.uses_leave]
    rfl
  have type : isName "int" = false := isName_of_mem_reserved (by decide)
  rw [CText.uses, tokens_text lexed]
  simp only [List.cons_append, List.nil_append]
  rw [Scopes.uses_skip _ (by decide) (by simp) (.inl type),
    Scopes.uses_call _ (by decide) (by decide), Scopes.uses_mark _ (by decide), Scopes.uses_enter,
    Scopes.uses_declarations _ once all, p.body.uses_written (.inr rfl) inside, footer,
    List.append_nil, given, means, number]

end Program

namespace Compiler

variable {c : Compiler} {source : String}

/-- Every variable in a compiled text refers to the counter of the innermost counted loop around it
that begins by setting it, and without one to the declaration of it in the header. So a name that no
counted loop begins by setting refers to this declaration everywhere. -/
theorem uses_of_compileText {k : Compilation} (h : (c.compileText source).1 = .ok k) :
    ∃ p : Program, tokenize source = .ok p.tokens ∧
      ∀ q : Program, tokenize source = .ok q.tokens →
        let declared := k.declarations.vars.filter CText.isName
        CText.uses k.file.text =
            meant declared.idxOf? declared ++ q.body.uses declared.idxOf? declared.length ∧
          ∀ use ∈ CText.uses k.file.text, use.1 ∈ declared ∧
            (use.1 ∉ q.body.counters → use.2 = declared.idxOf? use.1) := by
  obtain ⟨tokens, p, lexed, translation⟩ := translation_of_compileText h
  refine ⟨p, by rw [translation.derived, lexed], ?_⟩
  intro q lexed' declared
  have derived : q.tokens = tokens := Except.ok.inj (lexed'.symm.trans lexed)
  obtain ⟨leaves, code⟩ := translation.only q derived
  have vars : k.declarations.vars = (names .target q.leaves).eraseDups := by
    rw [translation.declarations, Declarations.vars_ofLeaves, leaves]
  have text : k.file.text = q.header ++ q.code := by
    rw [CFile.text, translation.header, translation.code, ← code, Program.header, Program.header,
      leaves]
  have all : ∀ t ∈ q.tokens, t.Lexed := by
    intro t mem
    rw [derived, ← (tokenize_eq_ok.mp lexed).2] at mem
    exact (Feed.lexed_ofCursor _ t mem).1
  have row : CText.uses k.file.text =
      meant declared.idxOf? declared ++ q.body.uses declared.idxOf? declared.length := by
    have row := Program.uses_text all
    rwa [← text, ← vars] at row
  refine ⟨row, fun use mem => ?_⟩
  rw [row] at mem
  obtain mem | mem := List.mem_append.mp mem
  · obtain ⟨mem, -, meaning⟩ := mem_meant.mp mem
    exact ⟨mem, fun _ => meaning⟩
  · refine ⟨?_, q.body.eq_of_mem_uses mem⟩
    obtain ⟨named, l, inside, kind, same, unmarked, unsought⟩ := q.body.spoken_of_mem_uses mem
    have mem' : l ∈ q.leaves := List.mem_append_right _ inside
    have target := q.mem_targets (leaves ▸ translation.named) mem' kind unmarked unsought
    refine List.mem_filter.mpr ⟨?_, named⟩
    rw [vars, ← same]
    exact List.mem_eraseDups.mpr target

set_option maxRecDepth 4096 in
theorem uses_of_loop : ∃ (k : Compilation) (p : Program),
    ((⟨"out.c", none⟩ : Compiler).compileText
        "FOR (LET i = 1; i < 3; i = i + 1) REPEAT\nENDFOR").1 = .ok k ∧
      tokenize "FOR (LET i = 1; i < 3; i = i + 1) REPEAT\nENDFOR" = .ok p.tokens ∧
        CText.uses k.file.text = [("i", some 0)] ++ p.body.uses ["i"].idxOf? 1 := by
  have compiled : ∃ k, ((⟨"out.c", none⟩ : Compiler).compileText
      "FOR (LET i = 1; i < 3; i = i + 1) REPEAT\nENDFOR").1 = .ok k ∧
        k.declarations.vars.filter CText.isName = ["i"] := ⟨_, by cbv, by cbv⟩
  obtain ⟨k, compiled, vars⟩ := compiled
  obtain ⟨p, lexed, all⟩ := uses_of_compileText compiled
  have row := (all p lexed).1
  rw [vars] at row
  have header : meant ["i"].idxOf? ["i"] = [("i", some 0)] := by cbv
  exact ⟨k, p, compiled, lexed, header ▸ row⟩

set_option maxRecDepth 4096 in
/-- The counter of a loop is another object than the variable of this name behind the loop. -/
theorem not_one_declaration :
    ¬ ∀ (c : Compiler) (source : String) (k : Compilation), (c.compileText source).1 = .ok k →
      ∀ use ∈ CText.uses k.file.text, ∀ use' ∈ CText.uses k.file.text,
        use.1 = use'.1 → use.2 = use'.2 := by
  have compiled : ∃ k, ((⟨"out.c", none⟩ : Compiler).compileText
      "FOR (LET i = 1; i < 3; i = i + 1) REPEAT\nENDFOR\nPRINT i").1 = .ok k ∧
        CText.uses k.file.text = [("i", some 0), ("i", some 1), ("i", some 1), ("i", some 1),
          ("i", some 1), ("i", some 0)] := ⟨_, by cbv, by cbv⟩
  obtain ⟨k, compiled, row⟩ := compiled
  intro all
  have same := all _ _ k compiled ("i", some 0) (by simp [row]) ("i", some 1) (by simp [row]) rfl
  simp at same

end Compiler

end YoloLang
