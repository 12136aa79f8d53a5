import YoloLang.Proofs.Printing

/-!
Lines of C text told from the rows of characters they are written as. Main statement: the lines of a
program are read from its code.
-/

namespace YoloLang

open CText

namespace CText.Line

/-- What stands between these two texts. -/
def between (before after : String) (cs : List Char) : String :=
  .ofList ((cs.drop before.length).rdrop after.length)

theorem between_append (before value after : String) :
    between before after (before ++ value ++ after).toList = value := by
  rw [between, String.toList_append, String.toList_append, List.append_assoc,
    ← String.length_toList, ← String.length_toList, List.drop_left, List.rdrop_append_length,
    String.ofList_toList]

/-- The line that begins with a word and a bracket, by what stands behind the word. -/
def readCall (word : String) (row : List Char) : Line :=
  if word = "printf" then
    if "(\"%".toList.isPrefixOf row then .printNumber (between "(\"%.2f\\n\", (float)(" "));" row)
    else .printText (between "(\"" "\\n\");" row)
  else if word = "scanf" then .dropping
  else if " \x7b".toList.isSuffixOf row then .asking (between "(0==scanf(\"%f\", &" ")) \x7b" row)
  else .opening word (between "(" ")\x7b" row)

/-- The line that is written as this row of characters, by the word it begins with and the
characters behind that. -/
def read (row : List Char) : Line :=
  let word := String.ofList (row.takeWhile Text.isAlphanumeric)
  let rest := row.dropWhile Text.isAlphanumeric
  match rest with
  | '(' :: _ => readCall word rest
  | ':' :: _ => .marker word
  | ' ' :: '=' :: _ => .assign word (between " = " ";" rest)
  | ' ' :: '0' :: _ => .answer
  | ' ' :: _ => .jump (between " " ";" rest)
  | _ => .closing

/-- What the line holds of a program cannot be taken for another part of it. -/
def Plain : Line → Prop
  | printText text => '%' ∉ text.toList
  | opening word _ => word ∈ ["if", "while", "for"]
  | marker name | jump name | assign name _ =>
      ∃ c cs, name.toList = c :: cs ∧ Text.isAlphabetic c = true ∧
        ∀ d ∈ cs, Text.isAlphanumeric d = true
  | _ => True

theorem all_alphanumeric {name : String} (named : ∃ c cs, name.toList = c :: cs ∧
    Text.isAlphabetic c = true ∧ ∀ d ∈ cs, Text.isAlphanumeric d = true) :
    name.toList.all Text.isAlphanumeric = true := by
  obtain ⟨c, cs, text, first, more⟩ := named
  rw [text, List.all_cons, List.all_eq_true.mpr more]
  simp [Text.isAlphanumeric, first]

theorem span_word (l : Line) (word tail : String) (whole : l.text = word ++ tail)
    (inWord : word.toList.all Text.isAlphanumeric = true)
    (stops : tail.toList.head?.all fun c => !Text.isAlphanumeric c) :
    l.text.toList.takeWhile Text.isAlphanumeric = word.toList ∧
      l.text.toList.dropWhile Text.isAlphanumeric = tail.toList := by
  rw [whole, String.toList_append]
  refine Lexeme.span_eq (List.all_eq_true.mp inWord) fun c first => ?_
  simpa [Option.mem_def.mp first] using stops

theorem read_of_call {l : Line} {word tail : String} (whole : l.text = word ++ ("(" ++ tail))
    (inWord : word.toList.all Text.isAlphanumeric = true) :
    read l.text.toList = readCall word ("(" ++ tail).toList := by
  have row := span_word l word _ whole inWord (by simp; decide)
  rw [read, row.1, row.2]
  simp

/-- A line can be told from the row it is written as. -/
theorem read_text {l : Line} (plain : l.Plain) : read l.text.toList = l := by
  cases l with
  | printText text =>
      have call : (printText text).text = "printf" ++ ("(" ++ ("\"" ++ text ++ "\\n\");")) := by
        simp [Line.text, parts, ← String.toList_inj]
      have other : ¬ ['%'] <+: text.toList ++ ['\\', 'n', '"', ')', ';'] := by
        cases inner : text.toList with
        | nil => simp
        | cons c cs =>
            rintro ⟨more, same⟩
            obtain rfl : '%' = c := by simpa using (List.cons.inj same).1
            exact plain (inner ▸ List.mem_cons_self)
      have back := between_append "(\"" text "\\n\");"
      rw [read_of_call call (by decide), readCall, if_pos rfl, if_neg (by simpa using other)]
      simpa using back
  | printNumber value =>
      have call : (printNumber value).text =
          "printf" ++ ("(" ++ ("\"%.2f\\n\", (float)(" ++ value ++ "));")) := by
        simp [Line.text, parts, ← String.toList_inj]
      have back := between_append "(\"%.2f\\n\", (float)(" value "));"
      rw [read_of_call call (by decide), readCall, if_pos rfl, if_pos (by simp)]
      simpa using back
  | opening word condition =>
      have words : ∀ w ∈ ["if", "while", "for"],
          w ≠ "printf" ∧ w ≠ "scanf" ∧ w.toList.all Text.isAlphanumeric = true := by decide
      obtain ⟨first, second, inWord⟩ := words word plain
      have call : (opening word condition).text = word ++ ("(" ++ (condition ++ ")\x7b")) := by
        simp [Line.text, parts]
      have other : ¬ " \x7b".toList <:+ ("(" ++ (condition ++ ")\x7b")).toList := by
        rintro ⟨front, same⟩
        simp only [String.toList_append] at same
        rw [← List.append_assoc] at same
        exact absurd (List.append_inj_right' same rfl) (by decide)
      have back := between_append "(" condition ")\x7b"
      rw [read_of_call call inWord, readCall, if_neg first, if_neg second,
        if_neg (by simpa using other)]
      simpa using back
  | closing => cbv
  | marker name =>
      have row := (marker name).span_word name ":"
        (by simp [Line.text, parts]) (all_alphanumeric plain) (by decide)
      rw [read, row.1, row.2]
      simp
  | jump name =>
      obtain ⟨c, cs, text, first, -⟩ := plain
      have row := (jump name).span_word "goto" (" " ++ name ++ ";")
        (by simp [Line.text, parts, ← String.toList_inj]) (by decide) (by simp; decide)
      have other : c ≠ '=' ∧ c ≠ '0' := by
        constructor <;> rintro rfl <;> contradiction
      have back := between_append " " name ";"
      rw [read, row.1, row.2, back]
      simp [text, other]
  | assign name value =>
      have row := (assign name value).span_word name (" = " ++ value ++ ";")
        (by simp [Line.text, parts, String.append_assoc]) (all_alphanumeric plain) (by simp; decide)
      have back := between_append " = " value ";"
      rw [read, row.1, row.2, back]
      simp
  | asking name =>
      have call : (asking name).text =
          "if" ++ ("(" ++ ("0==scanf(\"%f\", &" ++ name ++ ")) \x7b")) := by
        simp [Line.text, parts, ← String.toList_inj]
      have ends : " \x7b".toList <:+ ("(" ++ ("0==scanf(\"%f\", &" ++ name ++ ")) \x7b")).toList :=
        ⟨("(" ++ ("0==scanf(\"%f\", &" ++ name ++ "))")).toList, by simp⟩
      have back := between_append "(0==scanf(\"%f\", &" name ")) \x7b"
      rw [read_of_call call (by decide), readCall, if_neg (by decide), if_neg (by decide),
        if_pos (by simpa using ends)]
      simpa using back
  | dropping => cbv
  | answer => cbv

end CText.Line

/-- Every line of a tree can be told from the others. -/
theorem Tree.plain_lines {part : Part} (t : Tree part) : ∀ l ∈ t.lines, l.Plain := by
  have name (t : Terminal .identifier) := t.2.2.identifier t.2.1
  have text (t : Terminal .string) : '%' ∉ t.1.text.toList := fun mem =>
    (t.2.2.literal t.2.1 _ mem).2.2.2 rfl
  induction t with
  | printText _ inner => simpa [lines, Line.Plain] using text inner
  | label _ target | goto _ target | assign _ target | input _ target =>
      simpa [lines, Line.Plain] using name target
  | branch _ _ _ _ _ _ _ _ _ _ _ ih | loop _ _ _ _ _ _ _ _ _ _ _ ih
  | count _ _ _ _ _ _ _ _ _ _ _ _ _ _ _ _ _ ih =>
      simpa [lines, Line.Plain, or_imp, forall_and] using ih
  | cons first rest ih ih' => exact List.forall_mem_append.mpr ⟨ih, ih'⟩
  | _ => simp [lines, Line.Plain]

/-- The lines of a program are read from its code. -/
theorem Program.read_lines (p : Program) : (Text.lines p.code.toList).map Line.read = p.lines := by
  have plain : ∀ l ∈ p.lines, l.Plain := by
    rw [lines]
    refine List.forall_mem_append.mpr ⟨p.body.plain_lines, ?_⟩
    simp [Line.Plain]
  have same : p.lines.map (fun l => Line.read l.text.toList) = p.lines.map id :=
    List.map_congr_left fun l mem => Line.read_text (plain l mem)
  rw [p.lines_code, List.map_map]
  exact same.trans (List.map_id _)

end YoloLang
