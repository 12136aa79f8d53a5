import YoloLang.Proofs.Lines
import YoloLang.Proofs.Loosening
import YoloLang.Proofs.Spacing

/-!
Tokens read from their own texts. Main statement: the text of an expression or a comparison, which
has no blanks in it, is lexed as the tokens it was written with.
-/

namespace YoloLang

open Leaf Lexeme

/-- What makes two tokens the same token. -/
structure Atom where
  kind : Kind
  text : String
deriving DecidableEq, Repr

def Token.atom (t : Token) : Atom := ⟨t.kind, t.text⟩

@[simp] theorem Token.kind_atom (t : Token) : t.atom.kind = t.kind := rfl

theorem Feed.Same.map_atom {f g : Feed} (h : f.Same g) :
    f.ahead.map Token.atom = g.ahead.map Token.atom := by
  have row {xs ys : List Token} (agree : List.Forall₂ (fun a b => a.agrees b = true) xs ys) :
      xs.map Token.atom = ys.map Token.atom := by
    induction agree with
    | nil => rfl
    | cons agrees _ ih =>
        obtain ⟨kind, text⟩ := Token.agrees_iff.mp agrees
        rw [List.map_cons, List.map_cons, ih, Token.atom, Token.atom, kind, text]
  exact row h.ahead

/-- The atoms of a text, up to its end or a fault. -/
def atoms (cs : List Char) : List Atom :=
  (Feed.ofCursor ⟨cs, .start, false⟩).ahead.map Token.atom

theorem atoms_nil : atoms [] = [] := by
  have none : Cursor.nextToken ⟨[], .start, false⟩ =
      (.ok (.eof (Position.start.span 0)), ⟨[], .start, false⟩) := rfl
  rw [atoms, Feed.ofCursor_of_eof none rfl]
  rfl

theorem atoms_blank (cs : List Char) : atoms (' ' :: cs) = atoms cs := by
  obtain ⟨rest, whole, skips⟩ := gap_skipped cs
  have wider : Gap ([' '] ++ skipped cs) rest := skips.blanks_append (by simp [Blanks])
  have same : ' ' :: cs = ' ' :: skipped cs ++ rest := congrArg _ whole
  exact (Feed.same_of_gaps same wider whole skips).map_atom

/-! Where a token ends that has no blank behind it. -/

/-- A character that goes on with a word or a number is a digit, a letter or a point, and only an
equal sign goes on with a sign. -/
theorem Lexeme.goesOn_cases {d c : Char} {raw : List Char} (quote : d ≠ '"')
    (h : GoesOn (d :: raw) c) :
    (Text.isDigit d = true ∨ Text.isAlphabetic d = true) ∧
        (Text.isDigit c = true ∨ Text.isAlphanumeric c = true ∨ c = '.') ∨
      d ∈ ['=', '!', '<', '>'] ∧ c = '=' := by
  obtain ⟨more, kind, spelled⟩ := h
  generalize whole : d :: raw ++ c :: more = longer at spelled
  cases spelled with
  | newline => simp at whole
  | string => simp [quote] at whole
  | whole _ decimal =>
      subst whole
      exact .inl ⟨.inl (decimal d (by simp)), .inl (decimal c (by simp))⟩
  | @fraction digits decimals some decimal _ decimal' =>
      obtain ⟨e, es, rfl⟩ := List.exists_cons_of_ne_nil some
      obtain ⟨rfl, split⟩ : d = e ∧ raw ++ c :: more = es ++ '.' :: decimals := by
        simpa using whole
      have mem : c ∈ es ++ '.' :: decimals := by simp [← split]
      refine .inl ⟨.inl (decimal d List.mem_cons_self), ?_⟩
      obtain mem | mem := List.mem_append.mp mem
      · exact .inl (decimal c (List.mem_cons_of_mem d mem))
      · obtain rfl | mem := List.mem_cons.mp mem
        · exact .inr (.inr rfl)
        · exact .inl (decimal' c mem)
  | word first inWord =>
      obtain ⟨rfl, rfl⟩ := List.cons.inj whole
      exact .inl ⟨.inr first, .inr (.inl (inWord c (by simp)))⟩
  | symbol mem =>
      have pairs : ∀ s ∈ Lexeme.symbols, s.1.toList.tail = [] ∨
          s.1.toList.tail = ['='] ∧ s.1.toList.headD ' ' ∈ ['=', '!', '<', '>'] := by decide
      obtain none | ⟨tail, head⟩ := whole ▸ pairs _ mem
      · simp at none
      · refine .inr ⟨head, ?_⟩
        simp [List.append_eq_singleton_iff] at tail
        exact tail.2.1

namespace Token

variable {t a b : Token} {rest : List Char}

/-- A token that can end a value is not gone on with by a mark or the end of a part. -/
theorem Lexed.not_goesOn_of_endsValue (h : t.Lexed) (ends : t.kind.endsValue = true) {c : Char}
    (quiet : CText.inWord c = false ∧ Text.isDigit c = false ∧ c ≠ '.') :
    ¬ GoesOn t.text.toList c := by
  have other : Text.isAlphanumeric c = false := by
    have inWord := quiet.1
    simp only [CText.inWord, Bool.or_eq_false_iff] at inWord
    exact inWord.1
  have start {d : Char} {raw : List Char} (text : t.text.toList = d :: raw)
      (mark : d ∉ ['"', '=', '!', '<', '>']) : ¬ GoesOn t.text.toList c := by
    rw [text]
    intro goes
    have quote : d ≠ '"' := fun same => mark (same ▸ List.mem_cons_self)
    obtain ⟨-, goes⟩ | ⟨mem, -⟩ := goesOn_cases quote goes
    · simp [quiet, other] at goes
    · exact mark (List.mem_cons_of_mem _ mem)
  have unmarked {p : Char → Bool} (none : ['"', '=', '!', '<', '>'].all fun d => !p d) {d : Char}
      (own : p d = true) : d ∉ ['"', '=', '!', '<', '>'] := fun mem => by
    simpa [own] using List.all_eq_true.mp none d mem
  cases kind : t.kind with
  | number =>
      obtain ⟨d, raw, text, digit, -⟩ := h.number kind
      exact start text (unmarked (by decide) digit)
  | identifier =>
      obtain ⟨d, raw, text, first, -⟩ := h.identifier kind
      exact start text (unmarked (by decide) first)
  | closeParen =>
      have mark : isMark t.kind = true := by simp [isMark, kind]
      have text : t.text.toList = [')'] := by simpa [kind, Lexeme.fixed] using (h.mark mark).1
      exact start text (by decide)
  | _ => simp [kind, Kind.endsValue] at ends

/-- Only an equal sign goes on with a mark. -/
theorem Lexed.not_goesOn_of_mark (h : t.Lexed) (mark : isMark t.kind = true) {c : Char}
    (quiet : c ≠ '=') : ¬ GoesOn t.text.toList c := by
  have start : ∀ raw ∈ CText.signs, raw.head?.any fun d =>
      d ≠ '"' && !Text.isDigit d && !Text.isAlphabetic d := by decide
  have start := start _ (h.mark mark).2
  cases text : t.text.toList with
  | nil => simp [text] at start
  | cons d raw =>
      simp [text] at start
      intro goes
      obtain ⟨first, -⟩ | ⟨-, same⟩ := goesOn_cases start.1.1 goes
      · simp [start] at first
      · exact quiet same

/-- In an expression or a comparison no token goes on with the one before it. -/
theorem Lexed.not_goesOn (h : a.Lexed) (h' : b.Lexed) (meets : a.kind.meets b.kind = true)
    (rest : List Char) : ∀ c ∈ (b.text.toList ++ rest).head?, ¬ GoesOn a.text.toList c := by
  intro c first
  rw [Kind.meets] at meets
  split at meets
  · rename_i ends
    have mark : isMark b.kind = true := by
      simp only [isMark, Bool.or_eq_true] at meets ⊢
      exact meets.imp .inl id
    exact h.not_goesOn_of_endsValue ends (h'.quiet_of_mark mark c first)
  · obtain ⟨opens, begins⟩ := Bool.and_eq_true_iff.mp meets
    have mark : isMark a.kind = true := by simp only [isMark, opens, Bool.true_or]
    obtain ⟨d, raw, text, notEq, -⟩ := h'.head_of_beginsValue begins
    obtain rfl : d = c := by simpa [text] using first
    exact h.not_goesOn_of_mark mark notEq

end Token

/-- A token that what comes after it does not go on with is lexed as itself. -/
theorem atoms_token {t : Token} (h : t.Lexed) (some : t.kind ≠ .eof) (other : t.kind ≠ .string)
    {after : List Char} (ends : ∀ c ∈ after.head?, ¬ GoesOn t.text.toList c) :
    atoms (t.text.toList ++ after) = t.atom :: atoms after := by
  have spelled := h.spelled some other
  have apart : ∀ c ∈ (t.text.toList ++ after).head?, c ≠ ' ' ∧ c ≠ '\t' ∧ c ≠ '\r' ∧ c ≠ '#' := by
    rw [List.head?_append_of_ne_nil _ spelled.ne_nil]
    exact spelled.head_apart
  have skips : Gap [] (t.text.toList ++ after) := .blanks (by simp) apart
  have whole : (Cursor.mk (t.text.toList ++ after) .start false).rest =
      [] ++ (t.text.toList ++ after) := rfl
  have call := Cursor.nextToken_of_read whole skips (read_of_not_goesOn spelled ends) rfl
  have later : (Feed.ofCursor ⟨after, (Position.start.after []).after t.text.toList, false⟩).Same
      (.ofCursor ⟨after, .start, false⟩) := Feed.same_of_rest rfl
  have text : (⟨t.kind, t.text.toList⟩ : Lexeme).text = t.text := by
    rw [Lexeme.text_of_ne_string other, String.ofList_toList]
  rw [atoms, Feed.ofCursor_of_call call some, List.map_cons, Token.atom, text]
  exact congrArg _ later.map_atom

/-- The text of a value is lexed as its own tokens up to the end of its part. -/
theorem Formula.atoms_spelling {ls : List Leaf} (h : Formula ls) (after : List Char)
    (ends : ∀ c ∈ after.head?, c = ';') :
    atoms ((spelling ls).toList ++ after) = ls.map (·.token.atom) ++ atoms after := by
  have last : ∀ l ∈ ls.getLast?, l.token.kind.endsValue = true := by
    obtain ⟨l, last, value⟩ := h.last
    exact fun a mem => Option.mem_unique last mem ▸ value
  have all : ∀ l ∈ ls, l.token.Lexed ∧ l.token.kind ≠ .eof ∧ l.token.kind ≠ .string :=
    fun l mem => ⟨h.lexed l mem, h.kind_ne rfl (fun k => by cases k <;> rfl) l mem,
      h.kind_ne rfl (fun k => by cases k <;> rfl) l mem⟩
  have meets := h.meets
  clear h
  induction ls with
  | nil => rfl
  | cons a ls ih =>
      obtain ⟨⟨lexed, some, other⟩, all⟩ := List.forall_mem_cons.mp all
      obtain ⟨next, meets⟩ := List.isChain_cons.mp meets
      rw [spelling, String.toList_append, List.append_assoc, List.map_cons, List.cons_append,
        atoms_token lexed some other]
      · cases ls with
        | nil => rfl
        | cons b ls => rw [ih (by simpa [List.getLast?_cons_cons] using last) all meets]
      · cases ls with
        | nil =>
            intro c first
            obtain rfl := ends c (by simpa [spelling] using first)
            exact lexed.not_goesOn_of_endsValue (last a rfl) (by decide)
        | cons b ls =>
            have lexed' := (all b List.mem_cons_self).1
            rw [spelling, String.toList_append, List.append_assoc]
            exact lexed.not_goesOn lexed' (next b rfl) _

end YoloLang
