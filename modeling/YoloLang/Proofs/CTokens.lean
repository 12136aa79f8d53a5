import YoloLang.Proofs.Printing

/-!
The tokens that C takes a text for. Main statement: the tokens of a program's C text are those of
its statements one after the other, and an expression stands in them as its own tokens, two equal
signs side by side being one.
-/

namespace YoloLang

open Leaf

namespace CText

/-- What a character of C text stands in. -/
inductive Mode where
  | code
  | literal
  | directive
deriving DecidableEq, Repr

/-- The text without what stands in string literals, each of which is left as its two quotes, and
without the lines that are meant for the preprocessor. -/
def bare : Mode → List Char → List Char
  | _, [] => []
  | .code, '"' :: cs => '"' :: bare .literal cs
  | .code, '#' :: cs => bare .directive cs
  | .code, c :: cs => c :: bare .code cs
  | .literal, '\\' :: _ :: cs => bare .literal cs
  | .literal, '"' :: cs => '"' :: bare .code cs
  | .literal, _ :: cs => bare .literal cs
  | .directive, '\n' :: cs => '\n' :: bare .code cs
  | .directive, _ :: cs => bare .directive cs

def isBlank (piece : List Char) : Bool := piece == [' '] || piece == ['\n']

/-- The pieces of a text without literals, but for blanks. -/
def bareTokens (cs : List Char) : List String :=
  ((pieces cs).filter fun p => !isBlank p).map String.ofList

/-- The tokens of a text, as C has them before macros are replaced. -/
def tokens (cs : List Char) : List String := bareTokens (bare .code cs)

example : tokens "#include <stdio.h>\nprintf(\"%.2f\\n\", (float)(a--b));\n".toList =
    ["printf", "(", "\"", "\"", ",", "(", "float", ")", "(", "a", "--", "b", ")", ")", ";"] := by
  cbv

/-! Characters that are tokens of their own. -/

def solos : List Char := [' ', '\n', '(', ')', ';', ':', ',', '"', '&', '\x7b', '\x7d']

/-- A character that is a token by itself, or parts tokens, whatever stands beside it. -/
structure Solo (c : Char) : Prop where
  inWord : inWord c = false
  digit : Text.isDigit c = false
  starts : startsWord c = false
  point : c ≠ '.'
  single : ∀ sign ∈ signs, sign.head? = some c → sign = [c]
  behind : ∀ sign ∈ signs, c ∉ sign.tail

theorem solo_of_mem {c : Char} (mem : c ∈ solos) : Solo c := by
  have quiet : solos.all fun c => !inWord c && !Text.isDigit c && !startsWord c && c != '.' := by
    decide
  have apart : signs.all fun sign =>
      (sign.tail.isEmpty || sign.head?.all (!solos.contains ·)) &&
        sign.tail.all (!solos.contains ·) := by decide
  have here := List.all_eq_true.mp quiet c mem
  have there := List.all_eq_true.mp apart
  simp only [Bool.and_eq_true, Bool.not_eq_true', bne_iff_ne] at here
  obtain ⟨⟨⟨inWord, digit⟩, starts⟩, point⟩ := here
  refine ⟨inWord, digit, starts, point, fun sign sign_mem first => ?_, fun sign sign_mem mem' => ?_⟩
  · obtain ⟨rest, rfl⟩ := List.head?_eq_some_iff.mp first
    simpa [mem] using (Bool.and_eq_true_iff.mp (there _ sign_mem)).1
  · simpa [mem] using List.all_eq_true.mp (Bool.and_eq_true_iff.mp (there _ sign_mem)).2 c mem'

variable {c d : Char} {xs rest : List Char}

theorem Solo.piece (solo : Solo c) (cs : List Char) : piece c cs = [c] := by
  rw [CText.piece, solo.digit, solo.starts]
  simp only [Bool.false_eq_true, if_false]
  cases found : signs.find? (·.isPrefixOf (c :: cs)) with
  | none => rfl
  | some sign =>
      have mem : sign ∈ signs := List.mem_of_find?_eq_some found
      obtain ⟨more, begins⟩ : sign <+: c :: cs := by
        simpa using List.find?_eq_some_iff_append.mp found |>.1
      refine solo.single sign mem ?_
      cases sign with
      | nil => simp [signs] at mem
      | cons d sign => simpa using (List.cons.inj begins).1

theorem takeWhile_append_of_neg {p : Char → Bool} (stops : p c = false) (xs rest : List Char) :
    (xs ++ c :: rest).takeWhile p = xs.takeWhile p ∧
      (xs ++ c :: rest).dropWhile p = xs.dropWhile p ++ c :: rest := by
  induction xs with
  | nil => simp [stops]
  | cons x xs ih =>
      rw [List.cons_append, List.takeWhile_cons, List.takeWhile_cons, List.dropWhile_cons,
        List.dropWhile_cons]
      split <;> simp [ih]

theorem prefix_append_of_notMem {sign : List Char} (other : c ∉ sign) :
    sign <+: xs ++ c :: rest ↔ sign <+: xs := by
  refine ⟨fun begins => ?_, fun begins => begins.trans (List.prefix_append _ _)⟩
  have longer : xs ++ [c] <+: xs ++ c :: rest := by
    rw [List.prefix_append_right_inj]
    exact ⟨rest, rfl⟩
  by_cases length : sign.length ≤ xs.length
  · exact List.prefix_of_prefix_length_le begins (List.prefix_append _ _) length
  · have within : xs ++ [c] <+: sign :=
      List.prefix_of_prefix_length_le longer begins (by simp; omega)
    exact absurd (within.subset (by simp)) other

theorem number_append_solo (solo : Solo c) : number (xs ++ c :: rest) = number xs := by
  obtain ⟨digits, others⟩ := takeWhile_append_of_neg solo.digit xs rest
  rw [number, number, digits, others]
  cases xs.dropWhile Text.isDigit with
  | nil => simp [solo.point]
  | cons x ys =>
      by_cases point : x = '.'
      · subst point
        simp [(takeWhile_append_of_neg solo.digit ys rest).1]
      · simp [point]

/-- What begins before such a character ends before it. -/
theorem piece_append_solo (solo : Solo c) : piece d (xs ++ c :: rest) = piece d xs := by
  have find : signs.find? (·.isPrefixOf (d :: (xs ++ c :: rest))) =
      signs.find? (·.isPrefixOf (d :: xs)) := by
    refine List.find?_congr fun sign mem => ?_
    cases sign with
    | nil => rfl
    | cons e sign =>
        have other : c ∉ sign := solo.behind _ mem
        rw [List.isPrefixOf_cons_cons, List.isPrefixOf_cons_cons, Bool.eq_iff_iff,
          Bool.and_eq_true_iff, Bool.and_eq_true_iff, List.isPrefixOf_iff_prefix,
          List.isPrefixOf_iff_prefix, prefix_append_of_notMem other]
  rw [piece, piece, find, (takeWhile_append_of_neg solo.inWord xs rest).1, ← List.cons_append,
    number_append_solo solo]

theorem number_begins (cs : List Char) : number cs <+: cs := by
  have whole := List.takeWhile_append_dropWhile (p := Text.isDigit) (l := cs)
  rw [number]
  split
  · rename_i rest point
    rw [point] at whole
    have more : '.' :: rest.takeWhile Text.isDigit <+: '.' :: rest :=
      (List.prefix_cons_inj '.').mpr (List.takeWhile_prefix _)
    calc
      _ <+: cs.takeWhile Text.isDigit ++ '.' :: rest := (List.prefix_append_right_inj _).mpr more
      _ = cs := whole
  · exact List.takeWhile_prefix _

theorem piece_begins (c : Char) (cs : List Char) : piece c cs <+: c :: cs := by
  rw [piece]
  split
  · exact number_begins (c :: cs)
  · split
    · exact (List.prefix_cons_inj c).mpr (List.takeWhile_prefix _)
    · cases found : signs.find? (·.isPrefixOf (c :: cs)) with
      | none => exact ⟨cs, rfl⟩
      | some sign => simpa using (List.find?_eq_some_iff_append.mp found).1

/-- A text is taken apart at such a character. -/
theorem pieces_append_solo (solo : Solo c) :
    pieces (xs ++ c :: rest) = pieces xs ++ pieces (c :: rest) := by
  fun_induction pieces xs with
  | case1 => rfl
  | case2 x xs ih =>
      have short : (piece x xs).length - 1 ≤ xs.length := by
        have within := (piece_begins x xs).length_le
        rw [List.length_cons] at within
        omega
      rw [List.cons_append, pieces, piece_append_solo solo, List.drop_append_of_le_length short, ih]
      rfl

theorem bareTokens_append (solo : Solo c) (xs rest : List Char) :
    bareTokens (xs ++ c :: rest) = bareTokens xs ++ bareTokens [c] ++ bareTokens rest := by
  have row (rest : List Char) : pieces (c :: rest) = [c] :: pieces rest := by
    rw [pieces, solo.piece]
    rfl
  simp [bareTokens, pieces_append_solo solo, row rest, row [], List.filter_cons, pieces]
  split <;> rfl

/-! Texts in a row. -/

/-- There is no literal and no line for the preprocessor in the text. -/
def Calm (xs : List Char) : Prop := ∀ c ∈ xs, c ≠ '"' ∧ c ≠ '#'

theorem bare_append (calm : Calm xs) (rest : List Char) :
    bare .code (xs ++ rest) = xs ++ bare .code rest := by
  induction xs with
  | nil => rfl
  | cons x xs ih =>
      obtain ⟨⟨quote, mark⟩, more⟩ := List.forall_mem_cons.mp calm
      rw [List.cons_append, bare, ih more, List.cons_append]
      · exact quote
      · exact mark

theorem bare_literal {text : List Char} (plain : ∀ c ∈ text, Lexeme.Literal c)
    (rest : List Char) : bare .literal (text ++ rest) = bare .literal rest := by
  induction text with
  | nil => rfl
  | cons c text ih =>
      obtain ⟨⟨-, quote, slash, -⟩, more⟩ := List.forall_mem_cons.mp plain
      rw [List.cons_append, bare, ih more]
      · exact fun _ _ same _ => slash same
      · exact quote

/-- Before a character that parts tokens, this text is taken for these tokens. -/
def Takes (text : String) (ts : List String) : Prop :=
  ∀ rest : List Char, rest.head?.any solos.contains = true →
    tokens (text.toList ++ rest) = ts ++ tokens rest

/-- Whatever comes behind it, this text is taken for these tokens. -/
def Whole (text : String) (ts : List String) : Prop :=
  ∀ rest : List Char, tokens (text.toList ++ rest) = ts ++ tokens rest

variable {a b : String} {ts us : List String}

theorem Whole.append (h : Whole a ts) (h' : Whole b us) : Whole (a ++ b) (ts ++ us) := by
  intro rest
  rw [String.toList_append, List.append_assoc, h, h', List.append_assoc]

theorem Whole.takes (h : Whole a ts) (h' : Takes b us) : Takes (a ++ b) (ts ++ us) := by
  intro rest stops
  rw [String.toList_append, List.append_assoc, h, h' rest stops, List.append_assoc]

theorem Takes.whole (h : Takes a ts) (h' : Whole b us)
    (stops : b.toList.head?.any solos.contains = true) : Whole (a ++ b) (ts ++ us) := by
  intro rest
  have begins : (b.toList ++ rest).head?.any solos.contains = true := by
    cases text : b.toList with
    | nil => simp [text] at stops
    | cons c cs => simpa [text] using stops
  rw [String.toList_append, List.append_assoc, h _ begins, h', List.append_assoc]

/-- A text ends whole with a character that is a token of its own. -/
theorem whole_fixed (text struck : String)
    (bared : ∀ rest, bare .code (text.toList ++ rest) = struck.toList ++ bare .code rest)
    (taken : bareTokens struck.toList = ts)
    (ends : struck.toList.getLast?.any solos.contains = true) : Whole text ts := by
  intro rest
  obtain ⟨front, c, split⟩ : ∃ front c, struck.toList = front ++ [c] := by
    obtain none | row := struck.toList.eq_nil_or_concat'
    · simp [none] at ends
    · exact row
  rw [split] at bared taken ends
  have solo : Solo c := solo_of_mem (by simpa using ends)
  rw [tokens, tokens, bared, List.append_assoc, List.singleton_append, bareTokens_append solo,
    ← taken, bareTokens_append solo]
  simp [bareTokens, pieces]

/-! Values. -/

theorem pieces_subset (cs : List Char) : ∀ piece ∈ pieces cs, piece ⊆ cs := by
  fun_induction pieces cs with
  | case1 => simp
  | case2 c cs ih =>
      refine List.forall_mem_cons.mpr ⟨(piece_begins c cs).subset, fun piece mem => ?_⟩
      have later := List.Subset.trans (ih piece mem) (List.drop_subset _ _)
      exact List.Subset.trans later (List.subset_cons_self _ _)

/-- A text without blanks is split into its tokens. -/
theorem bareTokens_eq_split {text : String} (blank : ' ' ∉ text.toList ∧ '\n' ∉ text.toList) :
    bareTokens text.toList = split text := by
  have all : ∀ piece ∈ pieces text.toList, (!isBlank piece) = true := by
    intro piece mem
    have within := pieces_subset _ piece mem
    rw [isBlank, Bool.not_eq_true', Bool.or_eq_false_iff, beq_eq_false_iff_ne, beq_eq_false_iff_ne]
    constructor
    · rintro rfl
      exact blank.1 (within List.mem_cons_self)
    · rintro rfl
      exact blank.2 (within List.mem_cons_self)
  rw [bareTokens, split, List.filter_eq_self.mpr all]

/-- There is no blank in the text and nothing that begins a literal or a line for the
preprocessor. -/
def Inked (text : List Char) : Prop := ∀ c ∈ text, c ∉ [' ', '\n', '"', '#']

theorem Inked.calm {text : List Char} (h : Inked text) : Calm text := by
  intro c mem
  have other := h c mem
  simp only [List.mem_cons, not_or] at other
  exact ⟨other.2.2.1, other.2.2.2.1⟩

/-- A text without blanks and literals is taken for the pieces it is split into. -/
theorem Inked.takes {text : String} (h : Inked text.toList) : Takes text (split text) := by
  intro rest stops
  have blank : ' ' ∉ text.toList ∧ '\n' ∉ text.toList :=
    ⟨fun mem => h ' ' mem (by decide), fun mem => h '\n' mem (by decide)⟩
  cases rest with
  | nil => simp at stops
  | cons c rest =>
      have mem : c ∈ solos := by simpa using stops
      have first : ∃ more, bare .code (c :: rest) = c :: more := by
        by_cases quote : c = '"'
        · subst quote
          exact ⟨_, rfl⟩
        · have mark : c ≠ '#' := by
            rintro rfl
            exact absurd mem (by decide)
          exact ⟨_, by rw [bare] <;> simp [quote, mark]⟩
      obtain ⟨more, row⟩ := first
      have alone := bareTokens_append (solo_of_mem mem) [] more
      rw [tokens, tokens, bare_append h.calm, row, bareTokens_append (solo_of_mem mem),
        bareTokens_eq_split blank]
      simpa [bareTokens, pieces] using alone.symm

end CText

open CText

/-- A lexeme has no such characters if no word, no number and no symbol of its kind has them. -/
theorem Lexeme.Spelled.avoids {raw cs : List Char} {kind : Kind} (h : Spelled raw kind)
    (line : kind ≠ .newline) (string : kind ≠ .string)
    (foreign : cs.all fun c => !Text.isDigit c && !Text.isAlphabetic c && !Text.isAlphanumeric c)
    (point : '.' ∉ cs)
    (symbols : ∀ s ∈ Lexeme.symbols, s.2 = kind → s.1.toList.all (· ∉ cs) = true) :
    ∀ c ∈ raw, c ∉ cs := by
  have other {c : Char} (mem : c ∈ cs) : Text.isDigit c = false ∧ Text.isAlphabetic c = false ∧
      Text.isAlphanumeric c = false := by
    simpa [and_assoc] using List.all_eq_true.mp foreign c mem
  cases h with
  | newline | string => contradiction
  | whole _ decimal => exact fun c mem mem' => absurd (decimal c mem) (by simp [other mem'])
  | fraction _ decimal _ decimal' =>
      refine List.forall_mem_append.mpr ⟨fun c mem mem' => ?_, ?_⟩
      · exact absurd (decimal c mem) (by simp [other mem'])
      · refine List.forall_mem_cons.mpr ⟨point, fun c mem mem' => ?_⟩
        exact absurd (decimal' c mem) (by simp [other mem'])
  | word first inWord =>
      refine List.forall_mem_cons.mpr ⟨fun mem' => ?_, fun c mem mem' => ?_⟩
      · exact absurd first (by simp [other mem'])
      · exact absurd (inWord c mem) (by simp [other mem'])
  | symbol mem => simpa using symbols _ mem rfl

theorem Lexeme.Spelled.inked {raw : List Char} {kind : Kind} (h : Spelled raw kind)
    (line : kind ≠ .newline) (string : kind ≠ .string) : Inked raw := by
  have symbols : ∀ s ∈ Lexeme.symbols, s.1.toList.all (· ∉ [' ', '\n', '"', '#']) = true := by
    decide
  exact h.avoids line string (by decide) (by decide) fun s mem _ => symbols s mem

/-- The text of an expression has no such characters if no word, no number and no symbol has them,
the semicolon apart. -/
theorem Formula.avoids {ls : List Leaf} (h : Formula ls) {cs : List Char}
    (foreign : cs.all fun c => !Text.isDigit c && !Text.isAlphabetic c && !Text.isAlphanumeric c)
    (point : '.' ∉ cs)
    (symbols : ∀ s ∈ Lexeme.symbols, s.2 ≠ .semicolon → s.1.toList.all (· ∉ cs) = true) :
    ∀ c ∈ (spelling ls).toList, c ∉ cs := by
  intro c mem
  obtain ⟨l, inside, mem⟩ := mem_spelling.mp mem
  have other (kind : Kind) (first : kind.beginsValue = false)
      (later : ∀ k : Kind, k.meets kind = false) : l.token.kind ≠ kind :=
    h.kind_ne first later l inside
  have some := other .eof rfl fun k => by cases k <;> rfl
  have string := other .string rfl fun k => by cases k <;> rfl
  have semicolon := other .semicolon rfl fun k => by cases k <;> rfl
  have spelled := (h.lexed l inside).spelled some string
  exact spelled.avoids (h.mem_ne_newline l inside) string foreign point
    (fun s mem same => symbols s mem (same ▸ semicolon)) c mem

theorem Formula.inked {ls : List Leaf} (h : Formula ls) : Inked (spelling ls).toList := by
  have symbols : ∀ s ∈ Lexeme.symbols, s.1.toList.all (· ∉ [' ', '\n', '"', '#']) = true := by
    decide
  exact h.avoids (by decide) (by decide) fun s mem _ => symbols s mem

theorem Formula.takes {ls : List Leaf} (h : Formula ls) :
    Takes (spelling ls) (split (spelling ls)) := h.inked.takes

theorem takes_name (name : Terminal .identifier) : Takes name.1.text [name.1.text] := by
  have spelled := name.2.2.spelled (by simp [name.2.1]) (by simp [name.2.1])
  have inked := spelled.inked (by simp [name.2.1]) (by simp [name.2.1])
  have ends : name.1.kind.endsValue = true := by rw [name.2.1]; rfl
  obtain ⟨c, cs, text, whole⟩ := name.2.2.piece_of_endsValue ends [] (by simp)
  have row := pieces_append whole
  rw [List.append_nil, ← text, pieces] at row
  have alone : split name.1.text = [name.1.text] := by simp [split, row]
  exact alone ▸ inked.takes

/-! The tokens of C texts. -/

namespace CText

variable {name value word head body : String} {ts hs bs : List String}

/-- A block below its head. -/
def braced (word : String) (head body : List String) : List String :=
  word :: "(" :: (head ++ ")" :: "\x7b" :: (body ++ ["\x7d"]))

theorem whole_printText {text : String} (plain : ∀ c ∈ text.toList, Lexeme.Literal c) :
    Whole (printText text) ["printf", "(", "\"", "\"", ")", ";"] :=
  whole_fixed _ "printf(\"\");\n" (fun _ => by simp [printText, bare, bare_literal plain])
    (by cbv) (by decide)

theorem whole_printNumber (h : Takes value ts) :
    Whole (printNumber value) ("printf" :: "(" :: "\"" :: "\"" :: "," :: "(" :: "float" :: ")" ::
      "(" :: (ts ++ [")", ")", ";"])) := by
  obtain ⟨first, last⟩ :
      Whole "printf(\"%.2f\\n\", (float)("
          ["printf", "(", "\"", "\"", ",", "(", "float", ")", "("] ∧
        Whole "));\n" [")", ")", ";"] :=
    ⟨whole_fixed _ "printf(\"\", (float)(" (fun _ => by simp [bare]) (by cbv) (by decide),
      whole_fixed _ "));\n" (fun _ => by simp [bare]) (by cbv) (by decide)⟩
  exact (first.takes h).whole last (by decide)

theorem takes_assigned (h : Takes name [name]) (h' : Takes value ts) :
    Takes (assigned name ++ value) (name :: "=" :: ts) := by
  have equals : Whole " = " ["="] :=
    whole_fixed _ " = " (fun _ => by simp [bare]) (by cbv) (by decide)
  exact (h.whole equals (by decide)).takes h'

theorem takes_counter (h : Takes name [name]) (h' : Takes value ts) :
    Takes (counter name ++ value) ("int" :: name :: "=" :: ts) := by
  have type : Whole "int " ["int"] :=
    whole_fixed _ "int " (fun _ => by simp [bare]) (by cbv) (by decide)
  have row : counter name ++ value = "int " ++ (assigned name ++ value) := by
    simp only [counter, assigned, String.append_assoc]
  rw [row]
  exact type.takes (takes_assigned h h')

theorem whole_scan (h : Takes name [name]) :
    Whole (scan name) ["if", "(", "0", "==", "scanf", "(", "\"", "\"", ",", "&", name, ")", ")",
      "\x7b", name, "=", "0", ";", "scanf", "(", "\"", "\"", ")", ";", "\x7d"] := by
  obtain ⟨asks, opens, zero, drops, closes⟩ :
      Whole "if(0==scanf(\"%f\", &" ["if", "(", "0", "==", "scanf", "(", "\"", "\"", ",", "&"] ∧
        Whole ")) \x7b\n" [")", ")", "\x7b"] ∧ Whole " = 0;\n" ["=", "0", ";"] ∧
          Whole "scanf(\"%*s\");\n" ["scanf", "(", "\"", "\"", ")", ";"] ∧
            Whole "\x7d\n" ["\x7d"] :=
    ⟨whole_fixed _ "if(0==scanf(\"\", &" (fun _ => by simp [bare]) (by cbv) (by decide),
      whole_fixed _ ")) \x7b\n" (fun _ => by simp [bare]) (by cbv) (by decide),
      whole_fixed _ " = 0;\n" (fun _ => by simp [bare]) (by cbv) (by decide),
      whole_fixed _ "scanf(\"\");\n" (fun _ => by simp [bare]) (by cbv) (by decide),
      whole_fixed _ "\x7d\n" (fun _ => by simp [bare]) (by cbv) (by decide)⟩
  have first := (asks.takes h).whole opens (by decide)
  exact (((first.takes h).whole zero (by decide)).append drops).append closes

theorem whole_marker (h : Takes name [name]) : Whole (marker name) [name, ":"] := by
  have colon : Whole ":\n" [":"] :=
    whole_fixed _ ":\n" (fun _ => by simp [bare]) (by cbv) (by decide)
  exact h.whole colon (by decide)

theorem whole_semicolon : Whole ";\n" [";"] :=
  whole_fixed _ ";\n" (fun _ => by simp [bare]) (by cbv) (by decide)

theorem whole_jump (h : Takes name [name]) : Whole (jump name) ["goto", name, ";"] := by
  have goes : Whole "goto " ["goto"] :=
    whole_fixed _ "goto " (fun _ => by simp [bare]) (by cbv) (by decide)
  exact (goes.takes h).whole whole_semicolon (by decide)

theorem whole_block (begins : Whole (word ++ "(") [word, "("]) (h : Takes head hs)
    (h' : Whole body bs) : Whole (block word head body) (braced word hs bs) := by
  obtain ⟨opens, closes⟩ : Whole ")\x7b\n" [")", "\x7b"] ∧ Whole "\x7d\n" ["\x7d"] :=
    ⟨whole_fixed _ ")\x7b\n" (fun _ => by simp [bare]) (by cbv) (by decide),
      whole_fixed _ "\x7d\n" (fun _ => by simp [bare]) (by cbv) (by decide)⟩
  have row := (((begins.takes h).whole opens (by decide)).append h').append closes
  simpa [block, braced] using row

theorem whole_declaration (h : Takes name [name]) :
    Whole (declaration name) ["float", name, ";"] := by
  have type : Whole "float " ["float"] :=
    whole_fixed _ "float " (fun _ => by simp [bare]) (by cbv) (by decide)
  exact (type.takes h).whole whole_semicolon (by decide)

theorem whole_opening : Whole opening ["int", "main", "(", ")", "\x7b"] := by
  obtain ⟨first, second⟩ : Whole "#include <stdio.h>\n" [] ∧
      Whole "int main()\x7b\n" ["int", "main", "(", ")", "\x7b"] :=
    ⟨whole_fixed _ "\n" (fun _ => by simp [bare]) (by cbv) (by decide),
      whole_fixed _ "int main()\x7b\n" (fun _ => by simp [bare]) (by cbv) (by decide)⟩
  exact first.append second

theorem whole_footer : Whole footer ["return", "0", ";", "\x7d"] :=
  whole_fixed _ "return 0;\n\x7d\n" (fun _ => by simp [footer, bare]) (by cbv) (by decide)

end CText

/-! The tokens of trees. -/

namespace Tree

/-- The tokens that C takes statements for. -/
def written {part : Part} : Tree part → List String
  | forInit _ name _ value => "int" :: name.1.text :: "=" :: split (spelling value.leaves)
  | forStep name _ value => name.1.text :: "=" :: split (spelling value.leaves)
  | printText _ _ _ => ["printf", "(", "\"", "\"", ")", ";"]
  | print _ value _ =>
      "printf" :: "(" :: "\"" :: "\"" :: "," :: "(" :: "float" :: ")" :: "(" ::
        (split (spelling value.leaves) ++ [")", ")", ";"])
  | branch _ _ condition _ _ _ body _ _ =>
      braced "if" (split (spelling condition.leaves)) body.written
  | loop _ _ condition _ _ _ body _ _ =>
      braced "while" (split (spelling condition.leaves)) body.written
  | count _ _ init _ condition _ step _ _ _ body _ _ =>
      braced "for" (init.written ++ ";" :: (split (spelling condition.leaves) ++
        ";" :: step.written)) body.written
  | label _ name _ => [name.1.text, ":"]
  | goto _ name _ => ["goto", name.1.text, ";"]
  | assign _ name _ value _ => name.1.text :: "=" :: (split (spelling value.leaves) ++ [";"])
  | input _ name _ =>
      ["if", "(", "0", "==", "scanf", "(", "\"", "\"", ",", "&", name.1.text, ")", ")", "\x7b",
        name.1.text, "=", "0", ";", "scanf", "(", "\"", "\"", ")", ";", "\x7d"]
  | cons first rest => first.written ++ rest.written
  | _ => []

theorem takes_init (t : Tree (.phrase .forInit)) : Takes t.code t.written := by
  cases t with
  | forInit _ name _ value => exact takes_counter (takes_name name) (Formula.takes value.formed)

theorem takes_step (t : Tree (.phrase .forStep)) : Takes t.code t.written := by
  cases t with
  | forStep name _ value => exact takes_assigned (takes_name name) (Formula.takes value.formed)

/-- C takes the text of statements for their tokens. -/
theorem whole {part : Part} (t : Tree part) (kind : part = .statement ∨ part = .statements) :
    Whole t.code t.written := by
  induction t with
  | printText _ text _ => exact whole_printText (text.2.2.literal text.2.1)
  | print _ value _ => exact whole_printNumber (Formula.takes value.formed)
  | branch _ _ condition _ _ _ body _ _ _ _ ih =>
      have begins : Whole "if(" ["if", "("] :=
        whole_fixed _ "if(" (fun _ => by simp [bare]) (by cbv) (by decide)
      exact whole_block begins (Formula.takes condition.formed) (ih (.inr rfl))
  | loop _ _ condition _ _ _ body _ _ _ _ ih =>
      have begins : Whole "while(" ["while", "("] :=
        whole_fixed _ "while(" (fun _ => by simp [bare]) (by cbv) (by decide)
      exact whole_block begins (Formula.takes condition.formed) (ih (.inr rfl))
  | count _ _ init _ condition _ step _ _ _ body _ _ _ _ _ _ ih =>
      obtain ⟨begins, semicolon⟩ : Whole "for(" ["for", "("] ∧ Whole ";" [";"] :=
        ⟨whole_fixed _ "for(" (fun _ => by simp [bare]) (by cbv) (by decide),
          whole_fixed _ ";" (fun _ => by simp [bare]) (by cbv) (by decide)⟩
      have first := init.takes_init.whole semicolon (by decide)
      have second := (first.takes (Formula.takes condition.formed)).whole semicolon (by decide)
      have head := second.takes step.takes_step
      rw [List.append_assoc, List.append_assoc, List.append_assoc] at head
      exact whole_block begins head (ih (.inr rfl))
  | label _ name _ => exact whole_marker (takes_name name)
  | goto _ name _ => exact whole_jump (takes_name name)
  | assign _ name _ value _ =>
      have row := takes_assigned (takes_name name) (Formula.takes value.formed)
      exact row.whole whole_semicolon (by decide)
  | input _ name _ => exact whole_scan (takes_name name)
  | empty => exact fun _ => rfl
  | cons first rest ih ih' => exact (ih (.inl rfl)).append (ih' (.inr rfl))
  | _ => simp at kind

end Tree

end YoloLang
