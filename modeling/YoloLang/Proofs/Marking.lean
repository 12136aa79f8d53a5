import YoloLang.Proofs.Excerpt
import YoloLang.Proofs.Heralds
import YoloLang.Proofs.Unterminated
import YoloLang.Proofs.Widening

/-!
Markers below the text of a fault. Main statement: the marker of a compilation's fault stands right
below the line that the fault is on and starts below the first character of its region, and it is as
long as the region if and only if every character in this takes one byte.
-/

namespace YoloLang

/-- There are as many bytes as characters if every character takes one byte, and only then. -/
theorem utf8Length_eq_length_iff {cs : List Char} :
    utf8Length cs = cs.length ↔ ∀ c ∈ cs, c.utf8Size = 1 := by
  induction cs with
  | nil => simp [utf8Length]
  | cons c cs ih =>
      have pos := c.utf8Size_pos
      have least := length_le_utf8Length cs
      rw [List.forall_mem_cons, ← ih, List.length_cons]
      change c.utf8Size + utf8Length cs = _ ↔ _
      omega

/-- A text is divided at a number of bytes in one way. -/
theorem eq_of_utf8Length {xs ys xs' ys' : List Char} (whole : xs ++ ys = xs' ++ ys')
    (length : utf8Length xs = utf8Length xs') : xs = xs' ∧ ys = ys' := by
  have none {xs between : List Char} (same : utf8Length xs = utf8Length (xs ++ between)) :
      between = [] := by
    by_contra some
    have pos := utf8Length_pos some
    rw [utf8Length_append] at same
    omega
  obtain ⟨between, rfl, rfl⟩ | ⟨between, rfl, rfl⟩ := List.append_eq_append_iff.mp whole
  · simp [none length]
  · simp [none length.symm]

/-! Lines of a text, from the beginning of one of them. -/

namespace Text

/-- Nothing stands before the place behind this text on its line. -/
def Ended (cs : List Char) : Prop := ∀ c ∈ cs.getLast?, c = '\n'

theorem Ended.tail {c : Char} {cs : List Char} (ended : Ended (c :: cs)) :
    Ended cs := by
  intro d mem
  have more : cs ≠ [] := by
    rintro rfl
    simp at mem
  exact ended d (by rwa [List.getLast?_cons_of_ne_nil more])

theorem Ended.mem {xs ys : List Char} (h : Ended (xs ++ ys)) (some : ys ≠ []) : '\n' ∈ ys := by
  have last := List.getLast?_eq_some_getLast some
  rw [← List.getLast?_append_of_ne_nil xs some] at last
  exact h _ last ▸ List.getLast_mem some

/-- Lines that have ended are told apart from what comes behind them. -/
theorem lines_of_ended {above : List Char} (ended : Ended above) (rest : List Char) :
    lines (above ++ rest) = lines above ++ lines rest ∧
      (lines above).length = above.count '\n' := by
  fun_induction lines above with
  | case1 => exact ⟨rfl, rfl⟩
  | case2 cs ih =>
      obtain ⟨whole, count⟩ := ih ended.tail
      rw [List.cons_append, lines, whole, List.length_cons, count, List.count_cons_self]
      exact ⟨rfl, rfl⟩
  | case3 cs ih =>
      obtain ⟨whole, count⟩ := ih ended.tail.tail
      rw [List.cons_append, List.cons_append, lines, whole, List.length_cons, count,
        List.count_cons_of_ne (by decide), List.count_cons_self]
      exact ⟨rfl, rfl⟩
  | case4 c cs other _ none ih =>
      obtain rfl := lines_eq_nil_iff.mp none
      exact absurd (ended c rfl) other
  | case5 c cs other pair line below found ih =>
      have more : cs ≠ [] := by
        rintro rfl
        cases (lines_eq_nil_iff.mpr rfl).symm.trans found
      obtain ⟨whole, count⟩ := ih ended.tail
      rw [found] at whole count
      rw [List.cons_append, lines, whole]
      · rw [List.count_cons_of_ne other, ← count]
        exact ⟨rfl, rfl⟩
      · exact other
      · rintro cs' rfl split
        obtain ⟨d, ds, rfl⟩ := List.exists_cons_of_ne_nil more
        obtain ⟨rfl, -⟩ := List.cons.inj split
        exact pair ds rfl rfl

/-- The first line of a text, up to where it ends. -/
theorem exists_line {rest : List Char} (more : rest ≠ []) :
    ∃ line blanks behind, (lines rest)[0]? = some line ∧
      rest ++ ['\n'] = line ++ blanks ++ '\n' :: behind ∧ '\n' ∉ line ++ blanks ∧
        ∀ c ∈ blanks, isBlank c = true := by
  fun_induction lines rest with
  | case1 => contradiction
  | case2 cs => exact ⟨[], [], cs ++ ['\n'], rfl, rfl, by simp, by simp⟩
  | case3 cs =>
      exact ⟨[], ['\r'], cs ++ ['\n'], rfl, rfl, by simp, List.forall_mem_singleton.mpr rfl⟩
  | case4 c cs other _ none ih =>
      obtain rfl := lines_eq_nil_iff.mp none
      exact ⟨[c], [], [], rfl, rfl, by simpa [eq_comm] using other, by simp⟩
  | case5 c cs other _ line below found ih =>
      have more : cs ≠ [] := by
        rintro rfl
        cases (lines_eq_nil_iff.mpr rfl).symm.trans found
      obtain ⟨line', blanks, behind, first, whole, unbroken, blank⟩ := ih more
      rw [found] at first
      obtain rfl := Option.some.inj first
      refine ⟨c :: line, blanks, behind, rfl, by simp [whole], ?_, blank⟩
      rw [List.cons_append, List.mem_cons, not_or]
      exact ⟨Ne.symm other, unbroken⟩

end Text

/-! Regions and the lines they begin on. -/

/-- A region of a text: the lines above it, what stands before it on its line, what is in it, and
what comes behind. -/
structure Span.Region (span : Span) (cs : List Char) where
  above : List Char
  lead : List Char
  slice : List Char
  after : List Char
  whole : cs = above ++ (lead ++ slice ++ after)
  covers : span.Covers (above ++ lead) slice
  ended : Text.Ended above
  inLine : '\n' ∉ lead

namespace Span

variable {span : Span}

theorem exists_region {cs before slice after : List Char} (covers : span.Covers before slice)
    (whole : cs = before ++ slice ++ after) :
    ∃ r : span.Region cs, r.above ++ r.lead = before ∧ r.slice = slice ∧ r.after = after := by
  obtain ⟨lead, above, split, inLine, stops⟩ := Lexeme.exists_span (· != '\n') before.reverse
  obtain rfl : before = above.reverse ++ lead.reverse := by
    rw [← List.reverse_append, ← split, List.reverse_reverse]
  refine ⟨⟨above.reverse, lead.reverse, slice, after, by simp [whole], covers, ?_, ?_⟩, rfl, rfl,
    rfl⟩
  · intro c last
    rw [List.getLast?_reverse] at last
    simpa using stops c last
  · intro mem
    simpa using inLine _ (List.mem_reverse.mp mem)

namespace Region

variable {cs : List Char}

theorem line_eq (r : span.Region cs) : span.line = r.above.count '\n' + 1 := by
  rw [r.covers.line, List.count_append, List.count_eq_zero_of_not_mem r.inLine]
  omega

theorem column_eq (r : span.Region cs) : span.column = r.lead.length + 1 := by
  have inLine : ∀ c ∈ r.lead.reverse, (c != '\n') = true := by
    intro c mem
    simpa using ne_of_mem_of_not_mem (List.mem_reverse.mp mem) r.inLine
  have stops : ∀ c ∈ r.above.reverse.head?, (c != '\n') = false := by
    intro c first
    rw [List.head?_reverse] at first
    simp [r.ended c first]
  have split := Lexeme.span_eq inLine stops
  rw [r.covers.column, List.reverse_append, split.1, List.length_reverse, Nat.add_comm]

/-- What is in a region is settled by the place. -/
theorem slice_eq (r r' : span.Region cs) : r.slice = r'.slice := by
  have before (r : span.Region cs) : utf8Length (r.above ++ r.lead) = span.offset := by
    rw [r.covers.offset, utf8ByteSize_ofList]
  have within (r : span.Region cs) : utf8Length r.slice = span.length := by
    rw [r.covers.length, utf8ByteSize_ofList]
  have whole : (r.above ++ r.lead) ++ (r.slice ++ r.after) =
      (r'.above ++ r'.lead) ++ (r'.slice ++ r'.after) := by
    have same := r.whole.symm.trans r'.whole
    simpa using same
  obtain ⟨-, whole⟩ := eq_of_utf8Length whole ((before r).trans (before r').symm)
  exact (eq_of_utf8Length whole ((within r).trans (within r').symm)).1

/-- A region that is nothing but a newline, with nothing else on its line. -/
theorem alone (r : span.Region cs) (full : r.slice ≠ [])
    (whole : r.lead ++ r.slice ++ r.after = ['\n']) :
    r.slice = ['\n'] ∧ Text.Ended (r.above ++ r.lead) := by
  rw [List.append_assoc] at whole
  obtain ⟨none, whole⟩ | ⟨line, whole⟩ := List.append_eq_singleton_iff.mp whole
  · obtain ⟨none, -⟩ | ⟨line, -⟩ := List.append_eq_singleton_iff.mp whole
    · exact absurd none full
    · refine ⟨line, ?_⟩
      rw [none, List.append_nil]
      exact r.ended
  · exact absurd (List.append_eq_nil_iff.mp whole).1 full

/-- A region that does not begin at the end of the last line is on a line of its source. -/
theorem exists_line {source : String} (r : span.Region (source.toList ++ ['\n']))
    (full : r.slice ≠ []) (begun : r.lead ++ r.slice ++ r.after ≠ ['\n']) :
    ∃ line blanks behind, (Text.lines source.toList)[span.line - 1]? = some line ∧
      r.lead ++ r.slice ++ r.after = line ++ blanks ++ '\n' :: behind ∧ '\n' ∉ line ++ blanks ∧
        ∀ c ∈ blanks, Text.isBlank c = true := by
  obtain ⟨rest, split⟩ : ∃ rest, r.lead ++ r.slice ++ r.after = rest ++ ['\n'] := by
    have last := congrArg List.getLast? r.whole
    rw [List.getLast?_concat, List.getLast?_append_of_ne_nil _ (by simp [full])] at last
    exact List.getLast?_eq_some_iff.mp last.symm
  have source : source.toList = r.above ++ rest := by
    have whole := r.whole
    rw [split, ← List.append_assoc] at whole
    exact (List.append_inj' whole rfl).1
  have more : rest ≠ [] := by
    rintro rfl
    exact begun split
  obtain ⟨lines, count⟩ := Text.lines_of_ended r.ended rest
  obtain ⟨line, blanks, behind, first, whole, rest⟩ := Text.exists_line more
  refine ⟨line, blanks, behind, ?_, split.trans whole, rest⟩
  rw [source, lines, r.line_eq, Nat.add_sub_cancel, ← count, List.getElem?_append_right (by omega),
    Nat.sub_self, first]

end Region
end Span

/-! Tiles and line ends. -/

/-- The only tile that a line ends in is a newline. -/
theorem Tile.Laid.kind_of_line {t : Tile} {before after : List Char} (h : t.Laid before after)
    (lexed : t.token.Lexed) (line : '\n' ∈ t.slice) : t.token.kind = .newline := by
  have stands := h.slice
  by_contra other
  have unbroken := lexed.unbroken other
  rw [Token.Stands] at stands
  split at stands <;> simp_all

/-- A tile is a newline if a line begins behind it and a gap. -/
theorem Tile.Laid.kind_of_ended {t : Tile} {before after gap : List Char} (h : t.Laid before after)
    (lexed : t.token.Lexed) (kind : t.token.kind ≠ .eof) (unbroken : '\n' ∉ gap)
    (ended : Text.Ended (before ++ t.text ++ gap)) : t.token.kind = .newline := by
  have none : gap = [] := by
    by_contra some
    exact unbroken (ended.mem some)
  rw [none, List.append_nil, Tile.text, ← List.append_assoc] at ended
  exact h.kind_of_line lexed (ended.mem (mt h.empty.mp kind))

/-! Faults at newlines. -/

/-- Nothing stands before this token on its line. -/
def LineBegins (tokens : List Token) (k : Nat) : Prop :=
  ∀ kind ∈ ((tokens.take k).map Token.kind).getLast?, kind = .newline

theorem Continues.map_kind {tokens tokens' : List Token} (h : Continues tokens tokens') :
    (tokens'.take tokens.length).map Token.kind = tokens.map Token.kind := by
  rw [Continues] at h
  generalize tokens'.take tokens.length = begun at h
  induction h with
  | nil => rfl
  | cons agrees _ ih => rw [List.map_cons, List.map_cons, ih, (Token.agrees_iff.mp agrees).1]

theorem Continues.lineBegins {tokens tokens' : List Token} {k : Nat}
    (h : Continues tokens tokens') (inside : k ≤ tokens.length) (begins : LineBegins tokens k) :
    LineBegins tokens' k := by
  have kinds := congrArg (List.take k) h.map_kind
  rw [← List.map_take, ← List.map_take, List.take_take, Nat.min_eq_left inside] at kinds
  rwa [LineBegins, kinds]

theorem Continues.kind_getElem {tokens tokens' : List Token} {k : Nat}
    (h : Continues tokens tokens') (inside : k < tokens.length) (inside' : k < tokens'.length) :
    tokens'[k].kind = tokens[k].kind := by
  have kinds := congrArg (·[k]?) h.map_kind
  simpa [List.getElem?_take_of_lt inside, inside, inside'] using kinds

namespace FirstFault

variable {tokens : List Token} {k : Nat} {t : Token} {cause : Fault}

/-- A fault of a name is met at a name. -/
theorem identifier_of_naming {fault : NameFault} (first : FirstFault tokens k (.naming fault))
    (found : tokens[k]? = some t) : t.kind = .identifier := by
  have inside := (List.getElem?_eq_some_iff.mp found).1
  have leaf {p : Program} {l : Leaf} (begins : tokens.take (k + 1) <+: p.tokens)
      (here : p.leaves[k]? = some l) : l.token = t := by
    have same : p.tokens[k]? = tokens[k]? := by
      obtain ⟨rest, whole⟩ := begins
      rw [← whole, List.getElem?_append_left (by rw [List.length_take_of_le inside]; omega),
        List.getElem?_take_of_lt (Nat.lt_succ_self k)]
    rw [found, Program.tokens, List.getElem?_map, here] at same
    exact Option.some.inj same
  cases fault with
  | undeclaredVariable name | duplicateLabel name =>
      obtain ⟨-, ⟨p, begins⟩, all⟩ := first
      obtain ⟨-, l, here, kind, -⟩ := all p begins
      exact leaf begins here ▸ kind
  | undeclaredLabel name =>
      obtain ⟨⟨p, rfl⟩, all⟩ := first
      obtain ⟨-, l, missing, -⟩ := all p rfl
      have named := p.heralded.named l (List.mem_of_getElem? missing.found)
      exact leaf (List.take_prefix ..) missing.found ▸ named.mp (by simp [missing.sought])

/-- Nothing stands against a newline behind another one, or before all other tokens. -/
theorem ne_newline (h : FirstFault tokens k cause) (found : tokens[k]? = some t) (lexed : t.Lexed)
    (begins : LineBegins tokens k) : t.kind ≠ .newline := by
  intro kind
  have inside := (List.getElem?_eq_some_iff.mp found).1
  cases cause with
  | lexing | file => exact h.elim
  | naming fault =>
      rw [h.identifier_of_naming found] at kind
      contradiction
  | grammar fault =>
      obtain ⟨-, ⟨p, viable⟩, stuck, -⟩ := h
      rw [if_pos inside] at stuck
      have read : (p.leaves.take k).map Leaf.token = tokens.take k := by
        have same := List.prefix_iff_eq_take.mp viable
        rwa [List.length_take_of_le (Nat.le_of_lt inside), Program.tokens, ← List.map_take,
          eq_comm] at same
      have line : ∀ l ∈ (p.leaves.take k).getLast?, l.token.kind = .newline := by
        intro l last
        refine begins _ ?_
        rw [← read, List.getLast?_map, List.getLast?_map, Option.mem_def.mp last]
        rfl
      obtain ⟨q, row, -⟩ := p.exists_put (List.take_append_drop k _).symm line ⟨t, kind, lexed⟩
      refine stuck ⟨q, (p.leaves.drop k).map Leaf.token, ?_⟩
      rw [Program.tokens, row, List.map_append, read, List.take_add_one, found]
      simp [Leaf.plain]

end FirstFault

/-! The regions of faults. -/

/-- A region that is more than the newline behind the last line. -/
structure Span.Begun (span : Span) (cs : List Char) extends span.Region cs where
  some : slice ≠ []
  more : lead ++ slice ++ after ≠ ['\n']

namespace Feed

variable {source : String}

/-- A token is in the text, and not a newline behind the last line unless it ends an empty one. -/
theorem begun_of_token {t : Token} {k : Nat}
    (found : (ofCursor (.ofSource source)).ahead[k]? = some t)
    (other : LineBegins (ofCursor (.ofSource source)).ahead k → t.kind ≠ .newline) :
    Nonempty (t.span.Begun (source.toList ++ ['\n'])) := by
  have lexed := lexed_ofCursor (.ofSource source)
  obtain ⟨tiles, rest, whole, tiled, ahead, -⟩ := exists_tiles (Cursor.behind_ofSource source)
  rw [ahead] at found other lexed
  rw [List.getElem?_map] at found
  obtain ⟨tile, here, rfl⟩ := Option.map_eq_some_iff.mp found
  obtain ⟨earlier, later, rfl, rfl⟩ : ∃ earlier later, tiles = earlier ++ tile :: later ∧
      k = earlier.length := by
    obtain ⟨inside, rfl⟩ := List.getElem?_eq_some_iff.mp here
    exact ⟨tiles.take k, tiles.drop (k + 1), by simp, by simp; omega⟩
  have laid := tiled.laid earlier tile later rfl
  obtain ⟨lexed', kind⟩ := lexed tile.token (by simp)
  have some : tile.slice ≠ [] := mt laid.empty.mp kind
  have split : source.toList ++ ['\n'] = earlier.flatMap Tile.text ++ tile.gap ++ tile.slice ++
      (later.flatMap Tile.text ++ rest) := by
    refine Eq.trans whole ?_
    simp [Tile.text]
  obtain ⟨r, before, slice, after⟩ := Span.exists_region laid.place split
  refine ⟨⟨r, slice ▸ some, fun alone => ?_⟩⟩
  obtain ⟨line, ended⟩ := r.alone (slice ▸ some) alone
  refine other ?_ (laid.kind_of_line lexed' (by simp [← slice, line]))
  intro kind last
  obtain ⟨tile', here', rfl⟩ : ∃ tile' ∈ earlier.getLast?, tile'.token.kind = kind := by
    simpa using last
  obtain ⟨init, rfl⟩ := List.getLast?_eq_some_iff.mp here'
  obtain ⟨lexed, kind⟩ := lexed tile'.token (by simp)
  have unbroken := laid.gap.not_line
  have laid := tiled.laid init tile' (tile :: later) (by simp)
  refine laid.kind_of_ended lexed kind unbroken ?_
  rw [before] at ended
  simpa using ended

/-- A text breaks off in the text, and not at a newline. -/
theorem begun_of_fault {fault : Located LexFault}
    (ends : (ofCursor (.ofSource source)).ending = .fault fault) :
    ∃ span, fault.span = some span ∧ Nonempty (span.Begun (source.toList ++ ['\n'])) := by
  obtain ⟨tiles, rest, whole, -, -, ending⟩ := exists_tiles (Cursor.behind_ofSource source)
  rw [ends] at ending
  obtain ⟨gap, sound, broken, span, rfl, -, breaks, place, covers⟩ := ending
  have none (ended : Text.Ended (tiles.flatMap Tile.text ++ gap ++ sound)) : sound = [] := by
    by_contra some
    exact breaks.unbroken (ended.mem some)
  have some : broken ≠ [] := by
    rintro rfl
    have ended : Text.Ended (Cursor.ofSource source).rest := by simp [Cursor.ofSource, Text.Ended]
    rw [whole, List.append_nil, ← List.append_assoc] at ended
    obtain rfl := none ended
    have read := Lexeme.read_of_breaks breaks
    contradiction
  have split : source.toList ++ ['\n'] = tiles.flatMap Tile.text ++ gap ++ sound ++
      broken.take 1 ++ broken.drop 1 := by
    refine Eq.trans whole ?_
    rw [List.append_assoc _ (broken.take 1), List.take_append_drop]
    simp
  obtain ⟨r, before, slice, after⟩ := Span.exists_region covers split
  have full : r.slice ≠ [] := by simpa [slice] using some
  refine ⟨span, place, ⟨r, full, fun alone => ?_⟩⟩
  obtain ⟨line, ended⟩ := r.alone full alone
  rw [before] at ended
  obtain rfl := none ended
  obtain ⟨c, cs, rfl⟩ := List.exists_cons_of_ne_nil some
  obtain rfl : c = '\n' := by simpa [slice] using line
  have read := Lexeme.read_of_line .newline (by simp) cs
  have fails := Lexeme.read_of_breaks breaks
  have same := fails.symm.trans read
  contradiction

end Feed

/-- A place on a line is marked right below this line, from its column on. -/
theorem Report.Quotation.rows_of_inside {span : Span} {lines : List (List Char)}
    (q : Report.Quotation span lines) (pos : 1 ≤ span.line) (inside : span.line ≤ lines.length)
    (full : 0 < span.length) :
    (∃ line, lines[span.line - 1]? = some line ∧ Text.Trimmed line (q.text span.line)) ∧
      ∃ earlier later, q.rows =
        earlier ++ [Report.gutter q.width span.line ++ q.text span.line,
          List.replicate ((Report.gutter q.width span.line).length + (max 1 span.column - 1)) ' ' ++
            List.replicate span.length '~'] ++ later := by
  have base : Report.base span lines = span.line := Nat.min_eq_left inside
  have low : Report.first span lines ≤ span.line := by
    rw [Report.first, base]
    omega
  have high : span.line ≤ Report.last span lines := by
    rw [Report.last, base]
    omega
  refine ⟨q.trimmed _ low high, ?_⟩
  rw [Report.Quotation.rows, base, q.aligned _ low high, ← q.tildes inside full]
  exact ⟨_, _, rfl⟩

namespace Compiler

variable {c : Compiler} {source : String} {e : Located Fault} {span : Span}

/-- The place of a fault is that of a token, that where the text breaks off, or empty. -/
theorem begun_of_compileText (failed : (c.compileText source).1 = .error e)
    (place : e.span = some span) (full : span.isEmpty = false) :
    Nonempty (span.Begun (source.toList ++ ['\n'])) := by
  cases lexed : tokenize source with
  | ok tokens =>
      obtain ⟨_, _, compiled, -⟩ | ⟨e', k, failed', first, place'⟩ := compileText_outcome c lexed
      · simp [compiled] at failed
      · obtain rfl := Except.error.inj (failed'.symm.trans failed)
        obtain ⟨⟨⟨eof, ends⟩, -, -⟩, rfl⟩ := tokenize_eq_ok.mp lexed
        obtain rfl := Option.some.inj (place.symm.trans place')
        by_cases inside : k < (Feed.ofCursor (.ofSource source)).ahead.length
        · have found := List.getElem?_eq_getElem inside
          have lexed := (Feed.lexed_ofCursor _ _ (List.getElem_mem inside)).1
          rw [Feed.token, found]
          exact Feed.begun_of_token found (first.ne_newline found lexed)
        · rw [Feed.token, List.getElem?_eq_none (Nat.le_of_not_lt inside), ends,
            Feed.span_of_eof ends] at full
          contradiction
  | error fault =>
      obtain ⟨clear, begins⟩ := exists_source (.ofSource source)
      have lexed' := tokenize_of_beginsWith begins
      obtain ⟨e', failed', outcome⟩ := compileText_of_continues (c := c) lexed lexed' begins.2
      obtain rfl := Except.error.inj (failed'.symm.trans failed)
      cases outcome with
      | met e' k _ first early _ place' =>
          have room := early.room
          have inside : k < (Feed.ofCursor (.ofSource source)).ahead.length := by omega
          have found := List.getElem?_eq_getElem inside
          rw [found] at place'
          obtain rfl := Option.some.inj (place.symm.trans place')
          have inside' := Nat.lt_of_lt_of_le inside begins.length_le
          have lexed := (Feed.lexed_ofCursor _ _ (List.getElem_mem inside')).1
          refine Feed.begun_of_token found fun line => ?_
          rw [← begins.2.kind_getElem inside inside']
          exact first.ne_newline (List.getElem?_eq_getElem inside') lexed
            (begins.2.lineBegins (Nat.le_of_lt inside) line)
      | broken same =>
          obtain ⟨span', place', begun⟩ := Feed.begun_of_fault (tokenize_eq_error.mp lexed)
          rw [same] at place
          obtain rfl := Option.some.inj (place.symm.trans place')
          exact begun

/-- A fault with a region is shown with the line that the region begins on, without the blanks at
its end, and right below this a marker that starts below the first character of the region. There
are as many tildes as bytes, so the marker covers the region and no more if and only if every
character of this takes one byte. -/
theorem marked_of_compileText (failed : (c.compileText source).1 = .error e)
    (place : e.span = some span) (full : span.isEmpty = false) :
    ∃ r : span.Region (source.toList ++ ['\n']), r.slice ≠ [] ∧
      ∃ width text blanks behind earlier later,
        r.lead ++ r.slice ++ r.after = text ++ blanks ++ '\n' :: behind ∧
          '\n' ∉ text ++ blanks ∧ (∀ x ∈ blanks, Text.isBlank x = true) ∧
          (∀ x ∈ text.getLast?, Text.isBlank x = false) ∧
          let gutter := Report.gutter width span.line
          let indent := List.replicate (gutter.length + r.lead.length) ' '
          let tildes := List.replicate (utf8Length r.slice) '~'
          (e.shown source).toList = (e.message.toList :: Report.cited span ::
              (earlier ++ [gutter ++ text, indent ++ tildes] ++ later)).flatMap (· ++ ['\n']) ∧
            (tildes.length = r.slice.length ↔ ∀ x ∈ r.slice, x.utf8Size = 1) := by
  obtain ⟨r, some, more⟩ := begun_of_compileText failed place full
  obtain ⟨line, blanks, behind, found, split, unbroken, blank⟩ := r.exists_line some more
  have inside : span.line ≤ (Text.lines source.toList).length := by
    have := (List.getElem?_eq_some_iff.mp found).1
    omega
  have pos : 1 ≤ span.line := by
    rw [r.line_eq]
    omega
  have length : span.length = utf8Length r.slice := by
    rw [r.covers.length, utf8ByteSize_ofList]
  have lined := List.ne_nil_of_mem (List.mem_of_getElem? found)
  obtain ⟨q, quoted⟩ := Report.exists_quotation lined pos
  obtain ⟨⟨line', found', ⟨blanks', rfl, blank'⟩, last⟩, earlier, later, rows⟩ :=
    q.rows_of_inside pos inside (length ▸ utf8Length_pos some)
  obtain rfl := Option.some.inj (found.symm.trans found')
  have shown : (e.shown source).toList = (e.message.toList :: Report.cited span ::
      Report.excerpt span (Text.lines source.toList)).flatMap (· ++ ['\n']) :=
    Located.toList_render_of_some place
  have column : max 1 span.column - 1 = r.lead.length := by
    rw [r.column_eq]
    omega
  rw [quoted, rows, column, length] at shown
  refine ⟨r, some, q.width, _, blanks' ++ blanks, behind, earlier, later, by simpa using split,
    by simpa using unbroken, ?_, last, shown, ?_⟩
  · intro x mem
    exact (List.mem_append.mp mem).elim (blank' x) (blank x)
  · rw [List.length_replicate]
    exact utf8Length_eq_length_iff

/-- A name of one character that takes two bytes is marked with two tildes. -/
theorem marked_of_accent :
    let c : Compiler := ⟨"out.c", none⟩
    let span : Span := ⟨6, 2, 1, 7⟩
    let e : Located Fault := ⟨.naming (.undeclaredVariable "é"), some span⟩
    ((c.compileText "PRINT é").1 = .error e ∧ e.span = some span ∧ span.isEmpty = false) ∧
      ∃ r : span.Region ("PRINT é".toList ++ ['\n']), r.slice = ['é'] ∧
        ∃ (earlier later : List (List Char)) (quoted : List Char) (indent : Nat),
          (e.shown "PRINT é").toList = (e.message.toList :: Report.cited span :: (earlier ++
            [quoted, List.replicate indent ' ' ++ ['~', '~']] ++ later)).flatMap (· ++ ['\n']) := by
  intro c span e
  have failed : (c.compileText "PRINT é").1 = .error e := by cbv
  obtain ⟨r, -, width, text, -, -, earlier, later, -, -, -, -, shown, -⟩ :=
    marked_of_compileText failed rfl rfl
  have covers : span.Covers "PRINT ".toList ['é'] := by
    have place : (Position.start.after "PRINT ".toList).span (utf8Length ['é']) = span := by decide
    exact place ▸ Position.covers_span _ _
  let accent : span.Region ("PRINT é".toList ++ ['\n']) :=
    ⟨[], "PRINT ".toList, ['é'], ['\n'], by decide, covers, by simp [Text.Ended], by decide⟩
  have slice : r.slice = ['é'] := r.slice_eq accent
  rw [slice] at shown
  exact ⟨⟨failed, rfl, rfl⟩, r, slice, earlier, later, _, _, shown⟩

example : Report.excerpt ⟨6, 2, 1, 7⟩ ["PRINT é".toList] =
    ["1 | PRINT é".toList, "          ~~".toList] := by cbv

end Compiler
end YoloLang
