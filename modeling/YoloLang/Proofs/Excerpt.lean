import Mathlib.Data.List.Flatten
import Mathlib.Data.List.Range
import YoloLang.Source.Report

/-!
What a report quotes of a source. Main statement: below the message and the place stand the lines
from two before the place to one behind it, each after its number, and one marker, right below the
line that the place is on or, for a place below all lines, below the last one.
-/

namespace YoloLang

namespace Text

/-- What is left behind trimming does not end in a blank. -/
theorem getLast_trimEnd (cs : List Char) : ∀ c ∈ (trimEnd cs).getLast?, isBlank c = false := by
  intro c last
  have first := List.head?_dropWhile_not isBlank cs.reverse
  rw [trimEnd, List.getLast?_reverse, Option.mem_def] at last
  rwa [last] at first

/-- What is left of a line without the blanks at its end. -/
structure Trimmed (line text : List Char) : Prop where
  rest : ∃ blanks, line = text ++ blanks ∧ ∀ c ∈ blanks, isBlank c = true
  last : ∀ c ∈ text.getLast?, isBlank c = false

theorem trimmed_trimEnd (line : List Char) : Trimmed line (trimEnd line) :=
  ⟨exists_eq_trimEnd_append line, getLast_trimEnd line⟩

theorem Trimmed.subset {line text : List Char} (h : Trimmed line text) : text ⊆ line := by
  obtain ⟨blanks, rfl, -⟩ := h.rest
  exact List.subset_append_left text blanks

/-- No line has a line end in it. -/
theorem unbroken_of_mem_lines {cs line : List Char} (mem : line ∈ lines cs) : '\n' ∉ line := by
  fun_induction lines cs generalizing line with
  | case1 => simp at mem
  | case2 cs ih | case3 cs ih =>
      obtain rfl | mem := List.mem_cons.mp mem
      · exact List.not_mem_nil
      · exact ih mem
  | case4 c cs other _ none ih =>
      obtain rfl := List.mem_singleton.mp mem
      simpa [eq_comm] using other
  | case5 c cs other _ line' rest more ih =>
      rw [more] at ih
      obtain rfl | mem := List.mem_cons.mp mem
      · have first := ih List.mem_cons_self
        simpa [first, eq_comm] using other
      · exact ih (List.mem_cons_of_mem _ mem)

end Text

namespace Report

/-- The numbers from one to another. -/
def upTo (first last : Nat) : List Nat := List.range' first (last + 1 - first)

theorem mem_upTo {first last k : Nat} : k ∈ upTo first last ↔ first ≤ k ∧ k ≤ last := by
  rw [upTo, List.mem_range'_1]
  omega

theorem upTo_split {first last k : Nat} (low : first ≤ k) (high : k ≤ last) (pos : 1 ≤ k) :
    upTo first last = upTo first (k - 1) ++ k :: upTo (k + 1) last := by
  have before : k - 1 + 1 - first = k - first := by omega
  have behind : last + 1 - k = last + 1 - (k + 1) + 1 := by omega
  have all : last + 1 - first = (k - first) + (last + 1 - k) := by omega
  have start : first + (k - first) = k := by omega
  rw [upTo, upTo, upTo, before, ← List.range'_succ, ← behind, all, ← List.range'_append_1, start]

theorem length_decimal_le {k n : Nat} (le : k ≤ n) :
    (decimal k).length ≤ (decimal n).length := by
  have below : n < 10 ^ (decimal n).length :=
    (Nat.length_toDigits_le_iff (by omega) Nat.length_toDigits_pos).mp (Nat.le_refl _)
  exact (Nat.length_toDigits_le_iff (by omega) Nat.length_toDigits_pos).mpr
    (Nat.lt_of_le_of_lt le below)

theorem digit_of_mem_decimal {n : Nat} {c : Char} (mem : c ∈ decimal n) : c.isDigit = true :=
  Nat.isDigit_of_mem_toDigits (by omega) (by omega) mem

/-- A number set to the right of a gutter. -/
def gutter (width number : Nat) : List Char :=
  List.replicate (width - (decimal number).length) ' ' ++ decimal number ++ [' ', '|', ' ']

theorem length_gutter {width number : Nat} (fits : (decimal number).length ≤ width) :
    (gutter width number).length = width + 3 := by
  simp only [gutter, List.length_append, List.length_replicate, List.length_cons, List.length_nil]
  omega

/-- The line of a place, or the last line if the place lies below all of them. -/
def base (span : Span) (lines : List (List Char)) : Nat := min span.line lines.length

/-- The first line that is quoted. -/
def first (span : Span) (lines : List (List Char)) : Nat := max 1 (base span lines - 2)

/-- The last line that is quoted. -/
def last (span : Span) (lines : List (List Char)) : Nat := min lines.length (base span lines + 1)

/-- The lines that are quoted around a place, by their numbers, and the marker. -/
structure Quotation (span : Span) (lines : List (List Char)) where
  width : Nat
  text : Nat → List Char
  marker : List Char
  narrow : width = (decimal (last span lines)).length
  trimmed : ∀ k, first span lines ≤ k → k ≤ last span lines →
    ∃ line, lines[k - 1]? = some line ∧ Text.Trimmed line (text k)
  aligned : ∀ k, first span lines ≤ k → k ≤ last span lines →
    (gutter width k).length = width + 3
  tildes : span.line ≤ lines.length → 0 < span.length →
    marker = List.replicate (width + 3 + (max 1 span.column - 1)) ' ' ++
      List.replicate span.length '~'
  caret : span.line ≤ lines.length → span.length = 0 →
    marker = List.replicate (width + 3 + (max 1 span.column - 1)) ' ' ++ ['^']
  below : lines.length < span.line →
    marker = List.replicate (width + 3 + (text lines.length).length) ' ' ++ ['^']

namespace Quotation

variable {span : Span} {lines : List (List Char)}

def row (q : Quotation span lines) (k : Nat) : List Char := gutter q.width k ++ q.text k

def rows (q : Quotation span lines) : List (List Char) :=
  (upTo (first span lines) (base span lines - 1)).map q.row ++
    [q.row (base span lines), q.marker] ++
      (upTo (base span lines + 1) (last span lines)).map q.row

end Quotation

variable {span : Span} {lines : List (List Char)}

/-- A stretch of lines with their numbers. -/
theorem zipIdx_stretch (lines : List (List Char)) {low high : Nat} (pos : 1 ≤ low)
    (within : high ≤ lines.length) :
    ((lines.take high).drop (low - 1)).zipIdx low =
      (upTo low high).map fun k => (lines[k - 1]?.getD [], k) := by
  apply List.ext_getElem
  · simp only [List.length_zipIdx, List.length_drop, List.length_take, List.length_map, upTo,
      List.length_range']
    omega
  · intro i inside inside'
    simp only [List.length_map, upTo, List.length_range'] at inside'
    have place : low - 1 + i = low + i - 1 := by omega
    simp only [List.getElem_zipIdx, List.getElem_drop, List.getElem_take, List.getElem_map, upTo,
      List.getElem_range'_1, place]
    rw [List.getElem?_eq_getElem (by omega), Option.getD_some]

theorem base_pos (some : lines ≠ []) (line : 1 ≤ span.line) : 1 ≤ base span lines := by
  have := List.length_pos_iff.mpr some
  rw [base]
  omega

theorem line_ofSpan (span : Span) (lines : List (List Char)) :
    (Marker.ofSpan span lines).line = base span lines := by
  rw [Marker.ofSpan, base]
  split
  · rename_i inside
    exact (Nat.min_eq_left inside).symm
  · rename_i below
    exact (Nat.min_eq_right (Nat.le_of_not_le below)).symm

/-- A report of a place quotes the lines around it, each at its number. -/
theorem exists_quotation (some : lines ≠ []) (line : 1 ≤ span.line) :
    ∃ q : Quotation span lines, excerpt span lines = q.rows := by
  have pos := base_pos some line
  have within : base span lines ≤ lines.length := Nat.min_le_right ..
  have low : first span lines ≤ base span lines := by rw [first]; omega
  have high : base span lines ≤ last span lines := by rw [last]; omega
  have most : last span lines ≤ lines.length := Nat.min_le_left ..
  have least : 1 ≤ first span lines := Nat.le_max_left ..
  let width := (decimal (last span lines)).length
  let text k := Text.trimEnd (lines[k - 1]?.getD [])
  refine ⟨⟨width, text, (Marker.ofSpan span lines).drawn width, rfl, ?_, ?_, ?_, ?_, ?_⟩,
    ?_⟩
  case refine_1 =>
    intro k above under
    have inside : k - 1 < lines.length := by omega
    obtain ⟨line, found⟩ : ∃ line, lines[k - 1]? = Option.some line :=
      ⟨_, List.getElem?_eq_getElem inside⟩
    refine ⟨line, found, ?_⟩
    change Text.Trimmed line (Text.trimEnd (lines[k - 1]?.getD []))
    rw [found]
    exact Text.trimmed_trimEnd line
  case refine_2 => exact fun k _ under => length_gutter (length_decimal_le under)
  case refine_3 =>
    intro inside some
    simp only [Marker.ofSpan, if_pos inside, Marker.drawn, if_neg (Nat.ne_of_gt some)]
    congr 3
    omega
  case refine_4 =>
    intro inside none
    simp only [Marker.ofSpan, if_pos inside, Marker.drawn, if_pos none]
    congr 3
    omega
  case refine_5 =>
    intro below
    simp [Marker.ofSpan, if_neg (Nat.not_le_of_lt below), Marker.drawn, text,
      List.getLast?_eq_getElem?]
  case refine_6 =>
    have lastLine : (Marker.ofSpan span lines).lastLine lines.length = last span lines := by
      rw [Marker.lastLine, line_ofSpan, last, Nat.min_comm]
    have firstLine : (Marker.ofSpan span lines).firstLine = first span lines := by
      rw [Marker.firstLine, line_ofSpan, first, Nat.max_comm]
    have filled : lines.isEmpty = false := by simpa using some
    simp only [excerpt, filled, Bool.false_eq_true, if_false, lastLine, firstLine, line_ofSpan]
    rw [zipIdx_stretch lines least most, List.flatMap_map, upTo_split low high pos,
      List.flatMap_append, List.flatMap_cons, if_pos rfl]
    -- Only the line of the place has the marker below it.
    have plain {ks : List Nat} (other : base span lines ∉ ks) :
        (ks.flatMap fun k => quotedLine width k (lines[k - 1]?.getD []) ::
          if k = base span lines then [(Marker.ofSpan span lines).drawn width] else []) =
        ks.map fun k => gutter width k ++ text k := by
      rw [List.map_eq_flatMap]
      refine List.flatMap_congr fun k mem => ?_
      rw [if_neg (ne_of_mem_of_not_mem mem other)]
      rfl
    rw [plain (by rw [mem_upTo]; omega), plain (by rw [mem_upTo]; omega), ← List.append_assoc]
    rfl

/-- Where a place is, as it stands below a message. -/
def cited (span : Span) : List Char :=
  [' ', ' ', '-', '>', ' '] ++ decimal span.line ++ ':' :: decimal span.column

theorem toList_cited (span : Span) :
    span.cited.toList = decimal span.line ++ ':' :: decimal span.column := by
  have whole : span.cited = span.line.repr ++ ":" ++ span.column.repr := rfl
  simp [whole, Nat.toList_repr, decimal]

/-- Only digits stand in a number. -/
theorem notMem_decimal {c : Char} (other : c.isDigit = false) (n : Nat) : c ∉ decimal n := by
  intro mem
  rw [digit_of_mem_decimal mem] at other
  contradiction

theorem unbroken_decimal (n : Nat) : '\n' ∉ decimal n := notMem_decimal rfl n

theorem unbroken_cited (span : Span) : '\n' ∉ cited span := by
  simp [cited, unbroken_decimal]

theorem unbroken_gutter (width number : Nat) : '\n' ∉ gutter width number := by
  simp [gutter, unbroken_decimal]

/-- Nothing that is quoted of the lines of a text has a line end in it. -/
theorem Quotation.unbroken_rows {cs : List Char} (q : Quotation span (Text.lines cs))
    (some : Text.lines cs ≠ []) (line : 1 ≤ span.line) : ∀ row ∈ q.rows, '\n' ∉ row := by
  have pos := base_pos some line
  have within : base span (Text.lines cs) ≤ (Text.lines cs).length := Nat.min_le_right ..
  have low : first span (Text.lines cs) ≤ base span (Text.lines cs) := by rw [first]; omega
  have high : base span (Text.lines cs) ≤ last span (Text.lines cs) := by rw [last]; omega
  have quoted (k : Nat) (above : first span (Text.lines cs) ≤ k)
      (under : k ≤ last span (Text.lines cs)) : '\n' ∉ q.row k := by
    obtain ⟨line, found, trimmed⟩ := q.trimmed k above under
    have unbroken := Text.unbroken_of_mem_lines (List.mem_of_getElem? found)
    rw [row, List.mem_append, not_or]
    exact ⟨unbroken_gutter _ _, fun mem => unbroken (trimmed.subset mem)⟩
  have marked : '\n' ∉ q.marker := by
    rcases Nat.lt_or_ge (Text.lines cs).length span.line with below | inside
    · simp [q.below below]
    · rcases Nat.eq_zero_or_pos span.length with none | wide
      · simp [q.caret inside none]
      · simp [q.tildes inside wide]
  intro r mem
  simp only [rows, List.mem_append, List.mem_map, List.mem_cons, List.not_mem_nil, mem_upTo] at mem
  obtain (⟨k, ⟨above, under⟩, rfl⟩ | rfl | rfl | none) | ⟨k, ⟨above, under⟩, rfl⟩ := mem
  · exact quoted k above (by omega)
  · exact quoted _ low high
  · exact marked
  · contradiction
  · exact quoted k (by omega) under

end Report

namespace Located

variable {e : Located String} {span : Span} {source : String}

theorem toList_render_of_none (none : e.span = none) :
    (e.render source).toList = e.cause.toList ++ ['\n'] := by
  simp [render, heading, none]

theorem toList_render_of_some (place : e.span = some span) :
    (e.render source).toList = (e.cause.toList :: Report.cited span ::
      Report.excerpt span (Text.lines source.toList)).flatMap (· ++ ['\n']) := by
  have heading : e.heading = e.cause ++ "\n  -> " ++ span.cited := by
    rw [Located.heading, place]
    rfl
  simp [render, heading, place, Report.cited, Report.toList_cited]

/-- A message in one line is shown as it stands, its place below it, and then the lines around the
place with one marker among them. What is shown consists of these rows and nothing else. -/
theorem rows_of_render (e : Located String) (source : String) (message : '\n' ∉ e.cause.toList)
    (line : ∀ span, e.span = some span → 1 ≤ span.line) :
    ∃ rows : List (List Char), (e.render source).toList = rows.flatMap (· ++ ['\n']) ∧
      (∀ row ∈ rows, '\n' ∉ row) ∧
      (e.span = none → rows = [e.cause.toList]) ∧
      ∀ span, e.span = some span →
        (Text.lines source.toList = [] → rows = [e.cause.toList, Report.cited span]) ∧
        (Text.lines source.toList ≠ [] →
          ∃ q : Report.Quotation span (Text.lines source.toList),
            rows = [e.cause.toList, Report.cited span] ++ q.rows) := by
  cases place : e.span with
  | none =>
      refine ⟨[e.cause.toList], ?_, by simpa using message, fun _ => rfl, nofun⟩
      simp [toList_render_of_none place]
  | some span =>
      have line := line span place
      have unbroken := Report.unbroken_cited span
      by_cases none : Text.lines source.toList = []
      · refine ⟨[e.cause.toList, Report.cited span], ?_, by simp [message, unbroken], nofun, ?_⟩
        · rw [toList_render_of_some place, none]
          rfl
        · rintro _ ⟨⟩
          exact ⟨fun _ => rfl, fun some => absurd none some⟩
      · obtain ⟨q, quoted⟩ := Report.exists_quotation none line
        refine ⟨[e.cause.toList, Report.cited span] ++ q.rows, ?_, ?_, nofun, ?_⟩
        · rw [toList_render_of_some place, quoted]
          rfl
        · have inner := q.unbroken_rows none line
          simpa [message, unbroken] using inner
        · rintro _ ⟨⟩
          exact ⟨fun empty => absurd empty none, fun _ => ⟨q, rfl⟩⟩

/-- A place below both lines of a text is marked behind the second one. -/
theorem rows_of_end_place :
    let e : Located String := ⟨"reached end", some ⟨19, 0, 4, 1⟩⟩
    ('\n' ∉ e.cause.toList ∧ ∀ span, e.span = some span → 1 ≤ span.line) ∧
      ∃ rows : List (List Char),
        (e.render "LET a = 1\nPRINT a\n").toList = rows.flatMap (· ++ ['\n']) ∧
          ∃ q : Report.Quotation ⟨19, 0, 4, 1⟩ (Text.lines "LET a = 1\nPRINT a\n".toList),
            rows = [e.cause.toList, Report.cited ⟨19, 0, 4, 1⟩] ++ q.rows := by
  intro e
  have message : '\n' ∉ e.cause.toList := by decide
  have line : ∀ span, e.span = some span → 1 ≤ span.line := by
    rintro _ ⟨⟩
    decide
  have some : Text.lines "LET a = 1\nPRINT a\n".toList ≠ [] := by decide
  obtain ⟨rows, shown, -, -, quoted⟩ := rows_of_render e "LET a = 1\nPRINT a\n" message line
  exact ⟨⟨message, line⟩, rows, shown, (quoted _ rfl).2 some⟩

end Located
end YoloLang
