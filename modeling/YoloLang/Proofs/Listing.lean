import Mathlib
import YoloLang.CommandLine.Run
import YoloLang.Proofs.Excerpt
import YoloLang.Proofs.Feed
import YoloLang.Proofs.Lines
import YoloLang.Proofs.Quoted

/-!
The listing of a source's tokens. Main statement: it has one row for each token, in order, and the
places, kinds and texts of the tokens can be read off it, however wide its columns get and whatever
notes stand between its rows. So sources with one listing have the same tokens at the same places.
-/

namespace YoloLang

open Text

namespace Report

theorem endFree_decimal (n : Nat) : EndFree (decimal n) :=
  ⟨notMem_decimal rfl n, notMem_decimal rfl n⟩

theorem endFree_cited (span : Span) : EndFree span.cited.toList := by
  rw [toList_cited, ← List.singleton_append, endFree_append, endFree_append]
  exact ⟨endFree_decimal _, by decide, endFree_decimal _⟩

theorem number_decimal (n : Nat) : Nat.ofDigitChars 10 (decimal n) 0 = n :=
  Nat.ofDigitChars_ten_toDigits

end Report

/-- The text can stand as a word between blanks. -/
structure Text.Solid (cs : List Char) : Prop where
  some : cs ≠ []
  blank : ' ' ∉ cs

namespace Kind

theorem solid_name (k : Kind) : Solid k.name.toList := by
  cases k with
  | keyword word => cases word <;> exact ⟨by decide, by decide⟩
  | _ => exact ⟨by decide, by decide⟩

theorem endFree_name (k : Kind) : EndFree k.name.toList := by
  cases k with
  | keyword word => cases word <;> decide
  | _ => decide

theorem endFree_tag (k : Kind) : EndFree k.tag.toList := by
  cases k with
  | keyword word => cases word <;> decide
  | _ => decide

theorem ofName?_name (k : Kind) : ofName? k.name = some k := by
  cases k with
  | keyword word => cases word <;> rfl
  | _ => rfl

end Kind

namespace CommandLine

/-! The row of a token. -/

/-- Line and column of a token, as one word. -/
def place (t : Token) : List Char :=
  Report.decimal t.span.line ++ ':' :: Report.decimal t.span.column

/-- The place at the end of eight columns, the name of the kind at the beginning of ten, and the
text in quotes. What is wider takes the room that it needs. -/
def row (t : Token) : List Char :=
  List.replicate (8 - (place t).length) ' ' ++ place t ++ ' ' :: t.kind.name.toList ++
    List.replicate (10 - t.kind.name.toList.length) ' ' ++ ' ' :: (Quoted.string t.text).toList

theorem toList_tokenLine (t : Token) : (tokenLine t).toList = row t ++ ['\n'] := by
  simp only [tokenLine, padLeft, padRight, String.toList_append, String.toList_ofList, row,
    ← Report.toList_cited, place, String.length_toList]
  simp

-- Neither the place nor the kind fits into its column here.
example : tokenLine ⟨"say \"é\"", .closeParen, ⟨0, 1, 123456, 78⟩⟩ =
    "123456:78 CLOSE_PAREN \"say \\\"é\\\"\"\n" := by
  cbv

theorem solid_place (t : Token) : Solid (place t) := by
  refine ⟨by simp [place], ?_⟩
  simp [place, Report.notMem_decimal (c := ' ') rfl]

theorem endFree_row (t : Token) : EndFree (row t) := by
  have place : EndFree (place t) := by
    rw [CommandLine.place, ← Report.toList_cited]
    exact Report.endFree_cited t.span
  have blanks (n : Nat) : EndFree (List.replicate n ' ') := by
    simp [EndFree, List.mem_replicate]
  have blank (cs : List Char) : EndFree (' ' :: cs) ↔ EndFree cs := by
    simp [EndFree]
  simp only [row, endFree_append, blank]
  exact ⟨⟨⟨⟨blanks _, place⟩, t.kind.endFree_name⟩, blanks _⟩, Quoted.endFree_string t.text⟩

/-! Reading a row. -/

/-- What a row shows of a token. -/
structure Entry where
  line : Nat
  column : Nat
  kind : Kind
  text : String
deriving DecidableEq, Repr

def Entry.ofToken (t : Token) : Entry := ⟨t.span.line, t.span.column, t.kind, t.text⟩

/-- The first word of a row, and what stands behind it. -/
def word (cs : List Char) : List Char × List Char :=
  let cs := cs.dropWhile (· == ' ')
  (cs.takeWhile (· != ' '), cs.dropWhile (· != ' '))

def Entry.read? (row : List Char) : Option Entry :=
  let place := word row
  let name := word place.2
  let line := place.1.takeWhile (· != ':')
  let column := (place.1.dropWhile (· != ':')).tail
  (Kind.ofName? (String.ofList name.1)).map fun kind =>
    ⟨Nat.ofDigitChars 10 line 0, Nat.ofDigitChars 10 column 0, kind,
      Quoted.unquoted (name.2.dropWhile (· == ' '))⟩

theorem dropWhile_blanks {cs : List Char} (begins : ∀ c ∈ cs.head?, c ≠ ' ') (n : Nat) :
    (List.replicate n ' ' ++ cs).dropWhile (· == ' ') = cs := by
  have blank : ∀ c ∈ List.replicate n ' ', (c == ' ') = true := by
    simp [List.mem_replicate]
  exact (Lexeme.span_eq blank fun c first => beq_false_of_ne (begins c first)).2

theorem word_blanks {cs rest : List Char} (solid : Solid cs) (n : Nat)
    (ends : ∀ c ∈ rest.head?, c = ' ') :
    word (List.replicate n ' ' ++ (cs ++ rest)) = (cs, rest) := by
  have begins : ∀ c ∈ (cs ++ rest).head?, c ≠ ' ' := by
    intro c first
    rw [List.head?_append_of_ne_nil _ solid.some] at first
    exact fun same => solid.blank (same ▸ List.mem_of_mem_head? first)
  have inner : ∀ c ∈ cs, (c != ' ') = true := by
    intro c mem
    exact bne_iff_ne.mpr fun same => solid.blank (same ▸ mem)
  have stops : ∀ c ∈ rest.head?, (c != ' ') = false := by
    intro c first
    simp [ends c first]
  have whole := Lexeme.span_eq inner stops
  rw [word, dropWhile_blanks begins, whole.1, whole.2]

/-- A place is cut at its colon. -/
theorem span_place (t : Token) :
    (place t).takeWhile (· != ':') = Report.decimal t.span.line ∧
      (place t).dropWhile (· != ':') = ':' :: Report.decimal t.span.column := by
  have digits : ∀ c ∈ Report.decimal t.span.line, (c != ':') = true := by
    intro c mem
    apply bne_iff_ne.mpr
    rintro rfl
    exact Report.notMem_decimal rfl _ mem
  exact Lexeme.span_eq digits (by simp)

theorem read_row (t : Token) : Entry.read? (row t) = some (Entry.ofToken t) := by
  let behindName := List.replicate (10 - t.kind.name.toList.length + 1) ' ' ++
    (Quoted.string t.text).toList
  let behindPlace := List.replicate 1 ' ' ++ (t.kind.name.toList ++ behindName)
  have whole : row t =
      List.replicate (8 - (place t).length) ' ' ++ (place t ++ behindPlace) := by
    simp [row, behindPlace, behindName, List.replicate_succ']
  have first : word (row t) = (place t, behindPlace) := by
    rw [whole]
    exact word_blanks (solid_place t) _ (by simp [behindPlace])
  have second : word behindPlace = (t.kind.name.toList, behindName) :=
    word_blanks t.kind.solid_name _ (by simp [behindName, List.replicate_succ])
  have third : behindName.dropWhile (· == ' ') = (Quoted.string t.text).toList :=
    dropWhile_blanks (by simp [Quoted.string]) _
  simp only [Entry.read?, first, second, third, span_place, Quoted.unquoted_string,
    String.ofList_toList, Kind.ofName?_name, List.tail_cons, Report.number_decimal,
    Option.map_some, Entry.ofToken]

/-! Rows among notes. -/

/-- Rows of tokens begin with a blank or a digit, and notes with the name of their level. -/
def isEntry (row : List Char) : Bool := row.head?.any fun c => c == ' ' || c.isDigit

/-- What can be read of tokens in a printed text. -/
def entries? (printed : String) : Option (List Entry) :=
  ((lines printed.toList).filter isEntry).mapM Entry.read?

theorem isEntry_row (t : Token) : isEntry (row t) = true := by
  rw [row]
  cases 8 - (place t).length with
  | zero =>
      obtain ⟨c, cs, digits⟩ : ∃ c cs, Report.decimal t.span.line = c :: cs :=
        List.exists_cons_of_ne_nil Nat.toDigits_ne_nil
      have digit : c.isDigit = true :=
        Report.digit_of_mem_decimal (digits ▸ List.mem_cons_self)
      simp [isEntry, place, digits, digit]
  | succ n => simp [isEntry, List.replicate_succ]

/-- The text is made of whole rows, those of the tokens in order and notes between them. -/
def Lists (printed : String) (tokens : List Token) : Prop :=
  ∃ rows : List (List Char), printed.toList = rows.flatMap (· ++ ['\n']) ∧
    (∀ row ∈ rows, EndFree row) ∧ rows.filter isEntry = tokens.map row

namespace Lists

variable {printed printed' : String} {tokens tokens' : List Token}

theorem empty : Lists "" [] := ⟨[], rfl, by simp, rfl⟩

theorem append (h : Lists printed tokens) (h' : Lists printed' tokens') :
    Lists (printed ++ printed') (tokens ++ tokens') := by
  obtain ⟨rows, whole, free, entries⟩ := h
  obtain ⟨rows', whole', free', entries'⟩ := h'
  refine ⟨rows ++ rows', ?_, List.forall_mem_append.mpr ⟨free, free'⟩, ?_⟩
  · rw [String.toList_append, whole, whole', List.flatMap_append]
  · rw [List.filter_append, entries, entries', List.map_append]

/-- A text that lists tokens is its lines, and the tokens are read off it. -/
theorem told (h : Lists printed tokens) :
    printed.toList = (lines printed.toList).flatMap (· ++ ['\n']) ∧
      (lines printed.toList).filter isEntry = tokens.map row ∧
        entries? printed = some (tokens.map Entry.ofToken) := by
  obtain ⟨rows, whole, free, entries⟩ := h
  have same : lines printed.toList = rows := by
    rw [whole, lines_ended fun row mem => (free row mem).lined]
  have read (ts : List Token) : (ts.map row).mapM Entry.read? = some (ts.map Entry.ofToken) := by
    induction ts with
    | nil => rfl
    | cons t ts ih => simp [read_row, ih]
  exact ⟨by rw [same, whole], by rw [same, entries], by rw [entries?, same, entries, read]⟩

end Lists

/-- A note is no row of a token. -/
theorem lists_line (a : Invocation) {level : Level} {message : String} (low : level ≠ .info)
    (free : EndFree message.toList) : Lists (line a level message) [] := by
  rw [line]
  split
  · refine ⟨[(level.column ++ " " ++ message).toList], by simp, ?_, ?_⟩
    · have column : EndFree level.column.toList := by cases level <;> decide
      simpa +decide only [List.forall_mem_singleton, endFree_toList_append, and_true]
        using ⟨column, free⟩
    · cases level with
      | info => contradiction
      | debug | trace => simp [isEntry, Level.column]
  · exact .empty

theorem lists_tokenLine (t : Token) : Lists (tokenLine t) [t] := by
  refine ⟨[row t], by simp [toList_tokenLine], by simpa using endFree_row t, ?_⟩
  simp [isEntry_row]

theorem endFree_lexed (t : Token) : EndFree (Note.lexed t).message.toList := by
  unfold Note.message Token.dump
  simp +decide only [toString, endFree_toList_append, t.kind.endFree_tag, Quoted.endFree_string,
    Report.endFree_cited]

theorem lists_listed (a : Invocation) (tokens : List Token) :
    Lists (String.join (tokens.map (listed a))) tokens := by
  induction tokens with
  | nil => exact .empty
  | cons t tokens ih =>
      have note : Lists (line a .trace (Note.lexed t).message) [] :=
        lists_line a (by decide) (endFree_lexed t)
      rw [List.map_cons, String.join_cons]
      exact (note.append (lists_tokenLine t)).append ih

/-- The tokens before the end of a source, or before its fault, are listed. -/
theorem lists_listTokens (a : Invocation) (source : String) :
    Lists (listTokens a source).printed (Feed.ofCursor (.ofSource source)).ahead := by
  have tokens := lists_listed a (Feed.ofCursor (.ofSource source)).ahead
  simp only [listTokens]
  split
  case h_1 span _ =>
    have last : Lists (line a .trace (Note.lexed (.eof span)).message) [] :=
      lists_line a (by decide) (endFree_lexed _)
    simpa only [List.append_nil] using tokens.append last
  case h_2 => exact tokens

/-- Without notes a listing is the rows and nothing else. -/
theorem printed_of_quiet {a : Invocation} (quiet : a.shows .trace = false) (source : String) :
    (listTokens a source).printed =
      String.join ((Feed.ofCursor (.ofSource source)).ahead.map tokenLine) := by
  have silent (message : String) : line a .trace message = "" := by
    simp only [line, quiet, Bool.false_eq_true, if_false]
  have plain : listed a = tokenLine := by
    funext t
    rw [listed, silent, String.empty_append]
  simp only [listTokens, plain]
  split
  · rw [silent, String.append_empty]
  · rfl

theorem lines_of_quiet {a : Invocation} (quiet : a.shows .trace = false) (source : String) :
    lines (listTokens a source).printed.toList =
      (Feed.ofCursor (.ofSource source)).ahead.map row := by
  have plain : (listTokens a source).printed.toList =
      ((Feed.ofCursor (.ofSource source)).ahead.map row).flatMap (· ++ ['\n']) := by
    simp [printed_of_quiet quiet, String.toList_join, List.flatMap_map, toList_tokenLine]
  rw [plain]
  apply lines_ended
  simpa using fun t _ => (endFree_row t).lined

theorem finish_of_ok {a : Invocation} {source : String} {tokens : List Token}
    (lexed : tokenize source = .ok tokens) : (listTokens a source).finish = .success := by
  obtain ⟨⟨⟨span, ends⟩, -, -⟩, -⟩ := tokenize_eq_ok.mp lexed
  simp only [listTokens, ends]

/-- The listing of a source that is lexed has one row for each token, in order, and no other row if
no notes are shown. The places, kinds and texts of the tokens can be read off it. So two sources
with one listing have the same tokens at the same lines and columns. -/
theorem entries_of_listTokens {a b : Invocation} {source source' : String}
    {tokens tokens' : List Token} (lexed : tokenize source = .ok tokens)
    (lexed' : tokenize source' = .ok tokens') :
    let listing := listTokens a source
    let rows := lines listing.printed.toList
    listing.finish = .success ∧
      (listing.printed.toList = rows.flatMap (· ++ ['\n']) ∧ rows.filter isEntry = tokens.map row ∧
        (a.shows .trace = false → rows = tokens.map row)) ∧
      entries? listing.printed = some (tokens.map Entry.ofToken) ∧
      (listing.printed = (listTokens b source').printed →
        tokens.map Entry.ofToken = tokens'.map Entry.ofToken) := by
  intro listing rows
  have lists : Lists listing.printed tokens :=
    (tokenize_eq_ok.mp lexed).2 ▸ lists_listTokens a source
  have lists' : Lists (listTokens b source').printed tokens' :=
    (tokenize_eq_ok.mp lexed').2 ▸ lists_listTokens b source'
  obtain ⟨whole, entries, told⟩ := lists.told
  refine ⟨finish_of_ok lexed, ⟨whole, entries, ?_⟩, told, ?_⟩
  · intro quiet
    exact (tokenize_eq_ok.mp lexed).2 ▸ lines_of_quiet quiet source
  · intro same
    rw [same, lists'.told.2.2] at told
    exact (Option.some.inj told).symm

/-- What a comment says is not listed, and neither are the blanks outside of a string. -/
theorem entries_of_commented :
    let a : Invocation := ⟨0, 0, "a.yolo", "out.c", none, true⟩
    let printed := "     1:1 PRINT      \"PRINT\"\n     1:8 STRING     \" é \"\n" ++
      "    1:15 NEWLINE    \"\\n\"\n"
    ∃ tokens tokens' : List Token, tokenize "PRINT  \" é \"  " = .ok tokens ∧
      tokenize "PRINT\t \" é \"#2" = .ok tokens' ∧
        (listTokens a "PRINT  \" é \"  ").printed = printed ∧
          (listTokens a "PRINT\t \" é \"#2").printed = printed ∧
            tokens.map Entry.ofToken = tokens'.map Entry.ofToken ∧
              entries? printed = some [⟨1, 1, .keyword .PRINT, "PRINT"⟩, ⟨1, 8, .string, " é "⟩,
                ⟨1, 15, .newline, "\n"⟩] := by
  intro a printed
  obtain ⟨tokens, lexed, joined, entries⟩ : ∃ tokens : List Token,
      tokenize "PRINT  \" é \"  " = .ok tokens ∧
        String.join (tokens.map tokenLine) = printed ∧
          tokens.map Entry.ofToken = [⟨1, 1, .keyword .PRINT, "PRINT"⟩, ⟨1, 8, .string, " é "⟩,
            ⟨1, 15, .newline, "\n"⟩] := ⟨_, by cbv, by cbv, by cbv⟩
  obtain ⟨tokens', lexed', joined'⟩ : ∃ tokens : List Token,
      tokenize "PRINT\t \" é \"#2" = .ok tokens ∧
        String.join (tokens.map tokenLine) = printed := ⟨_, by cbv, by cbv⟩
  have listed : (listTokens a _).printed = printed :=
    (printed_of_quiet rfl _).trans ((tokenize_eq_ok.mp lexed).2 ▸ joined)
  have listed' : (listTokens a _).printed = printed :=
    (printed_of_quiet rfl _).trans ((tokenize_eq_ok.mp lexed').2 ▸ joined')
  obtain ⟨-, -, read, told⟩ := @entries_of_listTokens a a _ _ _ _ lexed lexed'
  refine ⟨tokens, tokens', lexed, lexed', listed, listed', told (listed.trans listed'.symm), ?_⟩
  rw [← listed, read, entries]

end CommandLine
end YoloLang
