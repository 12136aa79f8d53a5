import YoloLang.Proofs.Program
import YoloLang.Proofs.Split
import YoloLang.Text.Lines

/-!
The C text of a program line by line. Main statements: the lines of the text are those that its
statements are written as, and it can be told from a line whether it marks a place or seeks one.
-/

namespace YoloLang

/-- A line that stands in a text is the first of it and of what comes after it. -/
theorem Text.lines_append {row : List Char} (unbroken : '\n' ∉ row)
    (ends : row.getLast? ≠ some '\r') (rest : List Char) :
    lines (row ++ '\n' :: rest) = row :: lines rest := by
  induction row with
  | nil => rfl
  | cons c row ih =>
      have here : c ≠ '\n' := fun same => unbroken (same ▸ List.mem_cons_self)
      have later : '\n' ∉ row := fun mem => unbroken (List.mem_cons_of_mem c mem)
      have next : lines (row ++ '\n' :: rest) = row :: lines rest := by
        apply ih later
        intro last
        rw [List.getLast?_cons, last] at ends
        exact ends rfl
      rw [List.cons_append, lines, next]
      · exact here
      · rintro cs rfl whole
        cases row with
        | nil => exact ends rfl
        | cons d row => exact later ((List.cons.inj whole).1 ▸ List.mem_cons_self)

/-- The lines of a text that ends each of its rows are these rows. -/
theorem Text.lines_ended {rows : List (List Char)}
    (unbroken : ∀ row ∈ rows, '\n' ∉ row ∧ row.getLast? ≠ some '\r') :
    lines (rows.flatMap (· ++ ['\n'])) = rows := by
  induction rows with
  | nil => rfl
  | cons row rows ih =>
      obtain ⟨⟨line, ends⟩, more⟩ := List.forall_mem_cons.mp unbroken
      rw [List.flatMap_cons, List.append_assoc, List.singleton_append, lines_append line ends,
        ih more]

open Leaf

/-! Texts without the end of a line. -/

theorem Lexeme.mem_raw_of_mem_text {l : Lexeme} {c : Char} (mem : c ∈ l.text.toList) :
    c ∈ l.raw := by
  rw [text, String.toList_ofList] at mem
  split at mem
  · exact List.mem_of_mem_tail ((List.dropLast_prefix _).subset mem)
  · exact mem

/-- The text of a token that is no string is spelled as one of its kind. -/
theorem Token.Lexed.spelled {t : Token} (h : t.Lexed) (some : t.kind ≠ .eof)
    (other : t.kind ≠ .string) : Lexeme.Spelled t.text.toList t.kind := by
  obtain ⟨_, l, read, kind, text⟩ := h
  rw [kind] at some other ⊢
  rw [text, Lexeme.text_of_ne_string other, String.toList_ofList]
  obtain ⟨-, rfl⟩ | spelled := Lexeme.eof_or_spelled read
  · contradiction
  · exact spelled

theorem Token.Lexed.unbroken {t : Token} (h : t.Lexed) (other : t.kind ≠ .newline) :
    '\n' ∉ t.text.toList := by
  obtain ⟨_, l, read, kind, text⟩ := h
  intro mem
  have mem : '\n' ∈ l.raw := Lexeme.mem_raw_of_mem_text (text ▸ mem)
  obtain ⟨-, rfl⟩ | spelled := Lexeme.eof_or_spelled read
  · contradiction
  · exact spelled.unbroken (kind ▸ other) mem

/-- A kind that neither begins a value nor can stand behind anything in one is in none. -/
theorem Formula.kind_ne {ls : List Leaf} {kind : Kind} (h : Formula ls)
    (first : kind.beginsValue = false) (later : ∀ k : Kind, k.meets kind = false) :
    ∀ l ∈ ls, l.token.kind ≠ kind := by
  have all (xs : List Leaf) (head : ∀ l ∈ xs.head?, l.token.kind ≠ kind)
      (meets : xs.IsChain fun a b => a.token.kind.meets b.token.kind = true) :
      ∀ l ∈ xs, l.token.kind ≠ kind := by
    induction xs with
    | nil => simp
    | cons x xs ih =>
        obtain ⟨next, more⟩ := List.isChain_cons.mp meets
        refine List.forall_mem_cons.mpr ⟨head x rfl, ih ?_ more⟩
        rintro l mem rfl
        simpa [later] using next l mem
  refine all ls ?_ h.meets
  rintro l mem rfl
  obtain ⟨l', begin, begins⟩ := h.first
  obtain rfl := Option.mem_unique begin mem
  rw [begins] at first
  contradiction

theorem Formula.mem_ne_newline {ls : List Leaf} (h : Formula ls) :
    ∀ l ∈ ls, l.token.kind ≠ .newline :=
  h.kind_ne rfl fun k => by cases k <;> rfl

/-- The text is all on one line. -/
def CText.Unbroken (text : String) : Prop := '\n' ∉ text.toList

open CText

theorem Leaf.mem_spelling {ls : List Leaf} {c : Char} :
    c ∈ (spelling ls).toList ↔ ∃ l ∈ ls, c ∈ l.token.text.toList := by
  induction ls with
  | nil => simp [spelling]
  | cons l ls ih => simp [spelling, ih]

theorem Formula.unbroken {ls : List Leaf} (h : Formula ls) : Unbroken (spelling ls) := by
  intro mem
  obtain ⟨l, inside, mem⟩ := mem_spelling.mp mem
  exact (h.lexed l inside).unbroken (h.mem_ne_newline l inside) mem

/-! Lines by what stands in them. -/

namespace CText

inductive Line where
  | printText (text : String)
  | printNumber (value : String)
  | opening (word condition : String)
  | closing
  | marker (name : String)
  | jump (name : String)
  | assign (name value : String)
  | asking (name : String)
  | dropping
  | answer
deriving DecidableEq, Repr

namespace Line

def parts : Line → List String
  | printText text => ["printf(\"", text, "\\n\");"]
  | printNumber value => ["printf(\"%.2f\\n\", (float)(", value, "));"]
  | opening word condition => [word, "(", condition, ")\x7b"]
  | closing => ["\x7d"]
  | marker name => [name, ":"]
  | jump name => ["goto ", name, ";"]
  | assign name value => [name, " = ", value, ";"]
  | asking name => ["if(0==scanf(\"%f\", &", name, ")) \x7b"]
  | dropping => ["scanf(\"%*s\");"]
  | answer => ["return 0;"]

def text (l : Line) : String := String.join l.parts

/-- The name of the place that the line marks or seeks. -/
def place? (m : Mention) : Line → Option String
  | marker name => if .marked = m then some name else none
  | jump name => if .sought = m then some name else none
  | _ => none

/-- The character that the line ends with. -/
def ending : Line → Char
  | opening .. | asking _ => '\x7b'
  | closing => '\x7d'
  | marker _ => ':'
  | printText _ | printNumber _ | jump _ | assign .. | dropping | answer => ';'

theorem getLast_text (l : Line) : l.text.toList.getLast? = some l.ending := by
  cases l <;> simp [text, parts, ending, List.getLast?_cons, List.getLast?_append]

/-- A line that is read as a jump to a word is one. -/
theorem sought_of_text {l : Line} {name : String} (word : ' ' ∉ name.toList)
    (same : l.text = "goto " ++ name ++ ";") : l.place? .sought = some name := by
  have ends : l.ending = ';' := by
    have last := l.getLast_text
    rw [same] at last
    simpa [List.getLast?_cons, List.getLast?_append] using last.symm
  cases l with
  | opening | closing | marker | asking => simp [ending] at ends
  | printText | printNumber | dropping | answer =>
      have first := congrArg (fun s => s.toList.head?) same
      simp [text, parts] at first
  | jump name' =>
      have inner : name' = name := by simpa [text, parts, ← String.toList_inj] using same
      rw [place?, if_pos rfl, inner]
  | assign name' value =>
      -- Such a line has more blanks than a jump to a word.
      have row : "goto".toList ++ ' ' :: (name.toList ++ [';']) =
          name'.toList ++ ' ' :: ('=' :: ' ' :: value.toList ++ [';']) := by
        simpa [text, parts] using (congrArg String.toList same).symm
      have none : ' ' ∉ name.toList ++ [';'] := by simpa using word
      obtain ⟨-, -, rest⟩ := (List.append_cons_inj_of_notMem (by decide) none).mp row
      rw [rest] at none
      simp at none

end Line

/-- Lines one after the other, each with its end. -/
def joined (ls : List Line) : String := String.join (ls.map fun l => l.text ++ "\n")

theorem joined_nil : joined [] = "" := rfl

theorem joined_cons (l : Line) (ls : List Line) :
    joined (l :: ls) = l.text ++ "\n" ++ joined ls := by
  simp [joined]

theorem joined_append (xs ys : List Line) : joined (xs ++ ys) = joined xs ++ joined ys := by
  simp [joined]

theorem joined_block (word condition : String) (ls : List Line) :
    joined (.opening word condition :: (ls ++ [.closing])) = block word condition (joined ls) := by
  simp [joined_cons, joined_append, joined_nil, Line.text, Line.parts, block, String.append_assoc]

/-- The lines of a text are those that it was joined of. -/
theorem lines_joined {ls : List Line} (whole : ∀ l ∈ ls, Unbroken l.text) :
    Text.lines (joined ls).toList = ls.map (·.text.toList) := by
  have rows : (joined ls).toList = (ls.map (·.text.toList)).flatMap (· ++ ['\n']) := by
    simp [joined, String.toList_join, List.flatMap_map]
  rw [rows]
  apply Text.lines_ended
  intro row mem
  obtain ⟨l, inside, rfl⟩ := List.mem_map.mp mem
  refine ⟨whole l inside, ?_⟩
  rw [l.getLast_text]
  cases l <;> simp [Line.ending]

/-- The lines that end in a colon mark places, in their order. -/
theorem filter_lines (ls : List Line) :
    (ls.map (·.text.toList)).filter (·.getLast? = some ':') =
      (ls.filterMap (Line.place? .marked)).map fun name => (name ++ ":").toList := by
  induction ls with
  | nil => rfl
  | cons l ls ih =>
      rw [List.map_cons, List.filter_cons, l.getLast_text, ih, List.filterMap_cons]
      cases l with
      | marker name => simp [Line.ending, Line.place?, Line.text, Line.parts]
      | _ => simp [Line.ending, Line.place?]

theorem unbroken_block {word condition : String} {ls : List Line}
    (head : Unbroken (word ++ condition)) (body : ∀ l ∈ ls, Unbroken l.text) :
    ∀ l ∈ Line.opening word condition :: (ls ++ [.closing]), Unbroken l.text := by
  refine List.forall_mem_cons.mpr ⟨?_, List.forall_mem_append.mpr ⟨body, ?_⟩⟩
  · simpa [Line.text, Line.parts, Unbroken] using head
  · simp [Line.text, Line.parts, Unbroken]

theorem filterMap_block (m : Mention) (word condition : String) (ls : List Line) :
    (Line.opening word condition :: (ls ++ [.closing])).filterMap (Line.place? m) =
      ls.filterMap (Line.place? m) := by
  simp [List.filterMap_cons, Line.place?]

end CText

/-! The lines of trees. -/

namespace Tree

/-- The lines that statements are written as. -/
def lines {part : Part} : Tree part → List Line
  | printText _ text _ => [.printText text.1.text]
  | print _ value _ => [.printNumber (spelling value.leaves)]
  | branch _ _ condition _ _ _ body _ _ =>
      .opening "if" (spelling condition.leaves) :: (body.lines ++ [.closing])
  | loop _ _ condition _ _ _ body _ _ =>
      .opening "while" (spelling condition.leaves) :: (body.lines ++ [.closing])
  | count _ _ init _ condition _ step _ _ _ body _ _ =>
      .opening "for" (init.code ++ ";" ++ spelling condition.leaves ++ ";" ++ step.code) ::
        (body.lines ++ [.closing])
  | label _ name _ => [.marker name.1.text]
  | goto _ name _ => [.jump name.1.text]
  | assign _ name _ value _ => [.assign name.1.text (spelling value.leaves)]
  | input _ name _ => [.asking name.1.text, .assign name.1.text "0", .dropping, .closing]
  | cons first rest => first.lines ++ rest.lines
  | _ => []

end Tree

/-- What is written as code is written as lines. -/
def Part.Lined : Part → String → List Line → Prop
  | .statement, code, ls | .statements, code, ls => code = joined ls
  | _, _, _ => True

theorem Tree.lined {part : Part} (t : Tree part) : part.Lined t.code t.lines := by
  induction t with
  | branch _ _ condition _ _ _ body _ _ _ _ ih | loop _ _ condition _ _ _ body _ _ _ _ ih
  | count _ _ _ _ condition _ _ _ _ _ body _ _ _ _ _ _ ih =>
      have ih : body.code = joined body.lines := ih
      simp only [Part.Lined, code, lines, joined_block, ih]
  | cons first rest ih ih' =>
      have ih : first.code = joined first.lines := ih
      have ih' : rest.code = joined rest.lines := ih'
      simp only [Part.Lined, code, lines, ih, ih', joined_append]
  | printText | print | label | goto | assign | input =>
      simp [Part.Lined, code, lines, joined_cons, joined_nil, Line.text, Line.parts,
        CText.printText, printNumber_eq, CText.marker, CText.jump, CText.assigned, scan_eq,
        String.append_assoc]
  | empty => exact joined_nil.symm
  | _ => trivial

namespace Tree

/-- Every line is on its own. -/
theorem unbroken {part : Part} (t : Tree part) : ∀ l ∈ t.lines, Unbroken l.text := by
  have word (name : Terminal .identifier) : Unbroken name.1.text :=
    name.2.2.unbroken (by simp [name.2.1])
  have value (t : Tree (.phrase .expression)) : Unbroken (spelling t.leaves) :=
    Formula.unbroken t.formed
  have condition (t : Tree (.phrase .comparison)) : Unbroken (spelling t.leaves) :=
    Formula.unbroken t.formed
  have init (t : Tree (.phrase .forInit)) : Unbroken t.code := by
    cases t with
    | forInit _ name _ inner =>
        simpa [code, counter, Unbroken] using And.intro (word name) (value inner)
  have step (t : Tree (.phrase .forStep)) : Unbroken t.code := by
    cases t with
    | forStep name _ inner =>
        simpa [code, assigned, Unbroken] using And.intro (word name) (value inner)
  induction t with
  | printText _ text _ =>
      have inner : Unbroken text.1.text := text.2.2.unbroken (by simp [text.2.1])
      simpa [lines, Line.text, Line.parts, Unbroken] using inner
  | print _ inner _ => simpa [lines, Line.text, Line.parts, Unbroken] using value inner
  | branch _ _ head _ _ _ _ _ _ _ _ ih | loop _ _ head _ _ _ _ _ _ _ _ ih =>
      apply unbroken_block _ ih
      simpa [Unbroken] using condition head
  | count _ _ first _ head _ next _ _ _ _ _ _ _ _ _ _ ih =>
      apply unbroken_block _ ih
      simpa [Unbroken] using And.intro (init first) (And.intro (condition head) (step next))
  | label _ name _ | goto _ name _ | input _ name _ =>
      simpa [lines, Line.text, Line.parts, Unbroken] using word name
  | assign _ name _ inner _ =>
      simpa [lines, Line.text, Line.parts, Unbroken] using And.intro (word name) (value inner)
  | cons first rest ih ih' => exact List.forall_mem_append.mpr ⟨ih, ih'⟩
  | _ => simp [lines]

end Tree

/-- The names that the lines mark or seek are those of the leaves, in their order. -/
theorem Tree.filterMap_lines {m : Mention} (place : m = .marked ∨ m = .sought) {part : Part}
    (t : Tree part) : t.lines.filterMap (Line.place? m) = names m t.leaves := by
  have other : Mention.target ≠ m ∧ Mention.operand ≠ m ∧ Mention.stepped ≠ m := by
    obtain rfl | rfl := place <;> decide
  have blank (ends : Tree (.phrase .newline)) : names m ends.leaves = [] := by
    cases ends with
    | newline first more => exact names_lines more
  induction t with
  | newline first more => exact (names_lines more).symm
  | label word name ends | goto word name ends =>
      simp only [lines, leaves, names_plain, names_naming, blank, List.filterMap_cons, Line.place?]
      split <;> simp_all
  | assign | input =>
      simp_all [lines, leaves, names_append, names_plain, names_naming, List.filterMap_cons,
        Line.place?]
  | branch | loop | count =>
      simp_all [lines, leaves, names_append, names_plain, filterMap_block]
  | cons => simp_all [lines, leaves, names_append]
  | _ =>
      simp_all [lines, leaves, names_nil, names_append, names_plain, names_naming, Line.place?]

/-- The lines of the code of a program. -/
def Program.lines (p : Program) : List Line := p.body.lines ++ [.answer, .closing]

theorem Program.filterMap_lines (p : Program) {m : Mention} (place : m = .marked ∨ m = .sought) :
    p.lines.filterMap (Line.place? m) = names m p.leaves := by
  rw [lines, leaves, List.filterMap_append, names_append, names_lines, p.body.filterMap_lines place]
  simp [List.filterMap_cons, Line.place?]

theorem Program.code_eq_joined (p : Program) : p.code = joined p.lines := by
  have body : p.body.code = joined p.body.lines := p.body.lined
  have footer : joined [.answer, .closing] = CText.footer := by
    simp [joined_cons, joined_nil, Line.text, Line.parts, CText.footer]
  rw [code, body, lines, joined_append, footer]

theorem Program.lines_code (p : Program) :
    Text.lines p.code.toList = p.lines.map (·.text.toList) := by
  rw [code_eq_joined]
  apply lines_joined
  rw [lines]
  refine List.forall_mem_append.mpr ⟨p.body.unbroken, ?_⟩
  simp [Line.text, Line.parts, Unbroken]

end YoloLang
