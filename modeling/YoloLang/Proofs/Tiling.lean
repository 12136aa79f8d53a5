import Mathlib.Data.List.Induction
import YoloLang.Proofs.Lexing
import YoloLang.Token.Feed

/-!
The tokens of a text, side by side. Main statement: the calls of a cursor give tokens that cover the
text with the gaps between them, each with its place, up to the end of the text or to a fault.
-/

namespace YoloLang

/-! Places. -/

/-- A region in a text: what stands before it, and what is in it. -/
structure Span.Covers (span : Span) (before slice : List Char) : Prop where
  offset : span.offset = (String.ofList before).utf8ByteSize
  length : span.length = (String.ofList slice).utf8ByteSize
  line : span.line = 1 + before.count '\n'
  column : span.column = 1 + (before.reverse.takeWhile (· != '\n')).length

theorem utf8ByteSize_ofList (cs : List Char) : (String.ofList cs).utf8ByteSize = utf8Length cs := by
  induction cs with
  | nil => rfl
  | cons c cs ih =>
      rw [String.ofList_cons, String.utf8ByteSize_append, String.utf8ByteSize_singleton, ih]
      rfl

theorem utf8Length_pos {cs : List Char} (some : cs ≠ []) : 0 < utf8Length cs := by
  obtain ⟨c, cs, rfl⟩ := List.exists_cons_of_ne_nil some
  exact Nat.add_pos_left c.utf8Size_pos _

/-- A text has no more characters than bytes. -/
theorem length_le_utf8Length (cs : List Char) : cs.length ≤ utf8Length cs := by
  induction cs with
  | nil => exact Nat.le_refl 0
  | cons c cs ih =>
      have bytes := c.utf8Size_pos
      change cs.length + 1 ≤ c.utf8Size + utf8Length cs
      omega

namespace Position

theorem after_snoc (p : Position) (cs : List Char) (c : Char) :
    p.after (cs ++ [c]) = (p.after cs).next c :=
  after_append p cs [c]

theorem line_after (cs : List Char) : (start.after cs).line = 1 + cs.count '\n' := by
  induction cs using List.reverseRecOn with
  | nil => rfl
  | append_singleton cs c ih =>
      rw [after_snoc, next, List.count_append]
      by_cases line : c = '\n'
      · simp [line, ih, Nat.add_assoc]
      · simp [line, ih]

theorem column_after (cs : List Char) :
    (start.after cs).column = 1 + (cs.reverse.takeWhile (· != '\n')).length := by
  induction cs using List.reverseRecOn with
  | nil => rfl
  | append_singleton cs c ih =>
      rw [after_snoc, next]
      by_cases line : c = '\n'
      · simp [line]
      · simp [line, ih, Nat.add_assoc]

/-- A place that has moved over a text knows its bytes, lines and columns. -/
theorem covers_span (before slice : List Char) :
    ((start.after before).span (utf8Length slice)).Covers before slice := by
  constructor
  case offset =>
    rw [utf8ByteSize_ofList]
    exact (offset_after start before).trans (Nat.zero_add _)
  case length => exact (utf8ByteSize_ofList slice).symm
  case line => exact line_after before
  case column => exact column_after before

end Position

/-! Tiles. -/

namespace Lexeme

theorem Gap.not_line {gap rest : List Char} (h : Gap gap rest) : '\n' ∉ gap := by
  have other {gap : List Char} (blank : ∀ c ∈ gap, c = ' ' ∨ c = '\t' ∨ c = '\r') : '\n' ∉ gap :=
    fun mem => by simpa using blank _ mem
  cases h with
  | blanks blank => exact other blank
  | comment blank line => simpa using ⟨other blank, line⟩

/-- A comment ends at a newline, unless the text does not end with one. -/
theorem Gap.head_of_comment {gap rest before : List Char} (h : Gap gap rest) (comment : '#' ∈ gap)
    (ends : (before ++ (gap ++ rest)).getLast? = some '\n') : rest.head? = some '\n' := by
  have some : gap ≠ [] := List.ne_nil_of_mem comment
  cases rest with
  | nil =>
      rw [List.append_nil, List.getLast?_append_of_ne_nil _ some] at ends
      exact absurd (List.mem_of_getLast? ends) h.not_line
  | cons c rest =>
      cases h with
      | blanks blank => simpa using blank _ comment
      | comment _ _ line => exact congrArg _ (line c rfl)

end Lexeme

/-- A token with the slice of the text that it stands for, and the gap before it. -/
structure Tile where
  gap : List Char
  slice : List Char
  token : Token

def Tile.text (t : Tile) : List Char := t.gap ++ t.slice

/-- A tile in its place, between what stands before it and what comes after it. -/
structure Tile.Laid (t : Tile) (before after : List Char) : Prop where
  gap : Lexeme.Gap t.gap (t.slice ++ after)
  comment : '#' ∈ t.gap → (t.slice ++ after).head? = some '\n'
  slice : t.token.Stands t.slice
  place : t.token.span.Covers (before ++ t.gap) t.slice
  empty : t.slice = [] ↔ t.token.kind = .eof

/-- Tiles side by side, with a text before them and a text after them. -/
structure Tiled (before : List Char) (tiles : List Tile) (after : List Char) : Prop where
  laid : ∀ earlier t later, tiles = earlier ++ t :: later →
    t.Laid (before ++ earlier.flatMap Tile.text) (later.flatMap Tile.text ++ after)
  ordered : tiles.Pairwise fun s t => s.token.span.offset < t.token.span.offset ∧
    s.token.span.offset + s.token.span.length ≤ t.token.span.offset

namespace Tiled

variable {before after : List Char} {t : Tile} {tiles : List Tile}

theorem nil : Tiled before [] after := ⟨by simp, .nil⟩

theorem offset_le (h : Tiled before tiles after) (mem : t ∈ tiles) :
    utf8Length before ≤ t.token.span.offset := by
  obtain ⟨earlier, later, whole⟩ := List.append_of_mem mem
  have place := (h.laid earlier t later whole).place.offset
  rw [utf8ByteSize_ofList, List.append_assoc, utf8Length_append] at place
  omega

theorem cons (laid : t.Laid before (tiles.flatMap Tile.text ++ after))
    (more : tiles ≠ [] → t.token.kind ≠ .eof) (h : Tiled (before ++ t.text) tiles after) :
    Tiled before (t :: tiles) after := by
  constructor
  case laid =>
    intro earlier u later whole
    obtain ⟨rfl, same⟩ | ⟨earlier, rfl, rfl⟩ := List.cons_eq_append_iff.mp whole
    · obtain ⟨rfl, rfl⟩ := List.cons.inj same
      simpa using laid
    · simpa using h.laid earlier u later rfl
  case ordered =>
    refine List.pairwise_cons.mpr ⟨fun u mem => ?_, h.ordered⟩
    have later := h.offset_le mem
    have offset := laid.place.offset
    have length := laid.place.length
    have some := utf8Length_pos (mt laid.empty.mp (more (List.ne_nil_of_mem mem)))
    rw [utf8ByteSize_ofList, utf8Length_append] at offset
    rw [utf8ByteSize_ofList] at length
    rw [Tile.text, utf8Length_append, utf8Length_append] at later
    omega

end Tiled

/-- A fault behind a text, at the first character that is not in order. -/
def BrokenOff (before rest : List Char) (fault : Located LexFault) : Prop :=
  ∃ gap sound broken span, rest = gap ++ sound ++ broken ∧ Lexeme.Gap gap (sound ++ broken) ∧
    Lexeme.Breaks (sound ++ broken) fault.cause sound ∧ fault.span = some span ∧
      span.Covers (before ++ gap ++ sound) (broken.take 1)

namespace Cursor

open Lexeme

/-- Calls one after the other that give these tokens. -/
inductive Calls : Cursor → List Token → Cursor → Prop where
  | nil {c : Cursor} : Calls c [] c
  | cons {c next stop : Cursor} {t : Token} {ts : List Token} (call : c.nextToken = (.ok t, next))
      (more : Calls next ts stop) : Calls c (t :: ts) stop

/-- A cursor behind this part of a text. -/
structure Behind (c : Cursor) (before : List Char) : Prop where
  position : c.position = .after .start before
  line : (before ++ c.rest).getLast? = some '\n'

theorem behind_ofSource (source : String) : (ofSource source).Behind [] :=
  ⟨rfl, by simp [ofSource]⟩

variable {c : Cursor} {before : List Char}

/-- A call lays the next tile or meets a fault. -/
theorem exists_tile (behind : c.Behind before) :
    (∃ (t : Tile) (next : Cursor), c.nextToken = (.ok t.token, next) ∧
        c.rest = t.text ++ next.rest ∧ t.Laid before next.rest ∧ next.Behind (before ++ t.text) ∧
          (t.token.kind = .eof → next.rest = [])) ∨
      ∃ fault, c.nextToken.1 = .error fault ∧ BrokenOff before c.rest fault := by
  obtain ⟨gap, rest, whole, skips, found⟩ := c.nextToken_cases
  have place : c.position.after gap = .after .start (before ++ gap) := by
    rw [behind.position, Position.after_append]
  obtain ⟨l, after, read, rfl, gives⟩ | ⟨fault, sound, broken, breaks, rfl, fails⟩ := found
  · refine .inl ⟨⟨gap, l.raw, _⟩, _, gives, ?_, ?_, ?_, ?_⟩
    · simp [whole, Tile.text]
    · constructor
      case gap => exact skips
      case comment => exact fun comment => skips.head_of_comment comment (whole ▸ behind.line)
      case slice => exact Token.stands_of_read read _
      case place => exact place ▸ Position.covers_span (before ++ gap) l.raw
      case empty => exact raw_eq_nil_iff read
    · constructor
      case position => simp [Tile.text, place, Position.after_append]
      case line => simpa [whole, Tile.text] using behind.line
    · intro kind
      obtain ⟨none, -⟩ | spelled := eof_or_spelled read
      · exact (List.append_eq_nil_iff.mp none).2
      · exact absurd kind spelled.kind_ne_eof
  · refine .inr ⟨_, by rw [fails], gap, sound, broken, _, ?_, skips, breaks, rfl, ?_⟩
    · simp [whole]
    · rw [place, ← Position.after_append]
      exact Position.covers_span _ _

/-- A source has a token before its end, at least the newline that is added. -/
theorem kind_ne_eof_ofSource {source : String} {t : Token} {next : Cursor}
    (call : (ofSource source).nextToken = (.ok t, next)) : t.kind ≠ .eof := by
  intro kind
  obtain ⟨gap, rest, whole, skips, ⟨l, after, read, -, gives⟩ | ⟨_, _, _, -, -, fails⟩⟩ :=
    (ofSource source).nextToken_cases
  · rw [gives] at call
    obtain ⟨rfl, rfl⟩ := call
    obtain ⟨rfl, rfl⟩ | spelled := eof_or_spelled read
    · have whole : source.toList ++ ['\n'] = gap := by simpa [ofSource] using whole
      exact skips.not_line (whole ▸ by simp)
    · exact spelled.kind_ne_eof kind
  · simp [fails] at call

/-- Calls lay tiles up to the end of the text or to a fault. -/
theorem exists_tiles (behind : c.Behind before) :
    ∃ tiles rest stop, c.Calls (tiles.map Tile.token) stop ∧
      c.rest = tiles.flatMap Tile.text ++ rest ∧ Tiled before tiles rest ∧
        ((∃ body last, tiles = body ++ [last] ∧ (∀ t ∈ body, t.token.kind ≠ .eof) ∧
            last.token.kind = .eof ∧ rest = []) ∨
          (∀ t ∈ tiles, t.token.kind ≠ .eof) ∧ ∃ fault, stop.nextToken.1 = .error fault ∧
            BrokenOff (before ++ tiles.flatMap Tile.text) rest fault) := by
  induction size : c.rest.length using Nat.strongRecOn generalizing c before with
  | ind size ih =>
      obtain ⟨t, next, call, whole, laid, behind, ends⟩ | ⟨fault, fails, broken⟩ :=
        exists_tile behind
      · by_cases kind : t.token.kind = .eof
        · have none := ends kind
          rw [none] at whole laid
          exact ⟨[t], [], next, .cons call .nil, by simpa using whole,
            .cons (by simpa using laid) (by simp) .nil, .inl ⟨[], t, rfl, by simp, kind, rfl⟩⟩
        · have less := length_nextToken_lt call kind
          obtain ⟨tiles, rest, stop, calls, whole', tiled, ending⟩ := ih _ (size ▸ less) behind rfl
          refine ⟨t :: tiles, rest, stop, .cons call calls, by simp [whole, whole'],
            .cons (whole' ▸ laid) (fun _ => kind) tiled, ?_⟩
          obtain ⟨body, last, rfl, before, eof, none⟩ | ⟨before, fault, fails, broken⟩ := ending
          · exact .inl ⟨t :: body, last, rfl, List.forall_mem_cons.mpr ⟨kind, before⟩, eof, none⟩
          · exact .inr ⟨List.forall_mem_cons.mpr ⟨kind, before⟩, fault, fails,
              by simpa using broken⟩
      · exact ⟨[], c.rest, c, .nil, rfl, .nil, .inr ⟨by simp, fault, fails, by simpa using broken⟩⟩

/-- The tokens of a source and the gaps between them give back the source, up to its end or to a
fault, and every place is right. -/
theorem tiled_ofSource (source : String) :
    ∃ tiles rest stop, (ofSource source).Calls (tiles.map Tile.token) stop ∧
      source ++ "\n" = String.ofList (tiles.flatMap Tile.text ++ rest) ∧ Tiled [] tiles rest ∧
        ((∃ body last, tiles = body ++ [last] ∧ (∀ t ∈ body, t.token.kind ≠ .eof) ∧
            last.token.kind = .eof ∧ rest = []) ∨
          (∀ t ∈ tiles, t.token.kind ≠ .eof) ∧ ∃ fault, stop.nextToken.1 = .error fault ∧
            BrokenOff (tiles.flatMap Tile.text) rest fault) := by
  obtain ⟨tiles, rest, stop, calls, whole, tiled, ending⟩ := exists_tiles (behind_ofSource source)
  refine ⟨tiles, rest, stop, calls, ?_, tiled, ending⟩
  rw [← whole]
  simp [ofSource]

end Cursor

namespace Feed

/-- The tokens of a feed are those of tiles, up to where the text ends or breaks off. -/
theorem exists_tiles {c : Cursor} {before : List Char} (behind : c.Behind before) :
    ∃ tiles rest, c.rest = tiles.flatMap Tile.text ++ rest ∧ Tiled before tiles rest ∧
      (ofCursor c).ahead = tiles.map Tile.token ∧
        match (ofCursor c).ending with
        | .eof span => span.Covers (before ++ c.rest) []
        | .fault fault => BrokenOff (before ++ tiles.flatMap Tile.text) rest fault := by
  fun_induction ofCursor c generalizing before with
  | case1 c fault next call =>
      obtain ⟨tile, next', call', -⟩ | ⟨fault', fails, broken⟩ := Cursor.exists_tile behind
      · simp [call] at call'
      · rw [call] at fails
        obtain rfl := Except.error.inj fails
        exact ⟨[], c.rest, rfl, .nil, rfl, by simpa using broken⟩
  | case2 c token next call kind =>
      obtain ⟨tile, next', call', whole, laid, -, ends⟩ | ⟨fault', fails, -⟩ :=
        Cursor.exists_tile behind
      · obtain ⟨same, rfl⟩ := Prod.mk.inj (call.symm.trans call')
        obtain rfl := Except.ok.inj same
        have none := laid.empty.mpr kind
        have place := laid.place
        refine ⟨[], c.rest, rfl, .nil, rfl, ?_⟩
        rw [whole, Tile.text, ends kind, none, List.append_nil, List.append_nil]
        rwa [none] at place
      · rw [call] at fails
        contradiction
  | @case3 c token next call kind less rest ih =>
      obtain ⟨tile, next', call', whole, laid, behind', -⟩ | ⟨fault', fails, -⟩ :=
        Cursor.exists_tile behind
      · obtain ⟨same, rfl⟩ := Prod.mk.inj (call.symm.trans call')
        obtain rfl := Except.ok.inj same
        obtain ⟨tiles, left, whole', tiled, ahead, ending⟩ := ih behind'
        refine ⟨tile :: tiles, left, by simp [whole, whole'], .cons (whole' ▸ laid)
          (fun _ => kind) tiled, congrArg _ ahead, ?_⟩
        simpa [whole] using ending
      · rw [call] at fails
        contradiction

/-- Every token that is ahead stands where its place says. -/
theorem stands_of_mem {c : Cursor} {before : List Char} (behind : c.Behind before) :
    ∀ t ∈ (ofCursor c).ahead, ∃ inner slice after, c.rest = inner ++ slice ++ after ∧
      t.Stands slice ∧ t.span.Covers (before ++ inner) slice := by
  obtain ⟨tiles, rest, whole, tiled, ahead, -⟩ := exists_tiles behind
  intro t mem
  rw [ahead] at mem
  obtain ⟨tile, laid, rfl⟩ := List.mem_map.mp mem
  obtain ⟨earlier, later, rfl⟩ := List.append_of_mem laid
  have laid := tiled.laid earlier tile later rfl
  exact ⟨earlier.flatMap Tile.text ++ tile.gap, tile.slice, later.flatMap Tile.text ++ rest,
    by simp [whole, Tile.text], laid.slice, by simpa using laid.place⟩

end Feed
end YoloLang
