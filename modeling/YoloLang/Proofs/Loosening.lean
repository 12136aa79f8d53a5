import YoloLang.Proofs.Neighbours
import YoloLang.Proofs.Places
import YoloLang.Proofs.Tiling

/-!
Texts with more blanks and comments. Main statement: blanks that are put in directly before or
behind a token, and a comment directly before the end of a line, change nothing but places.
-/

namespace YoloLang

open Lexeme

/-! Gaps with more in them. -/

/-- Characters that are skipped and part lexemes. -/
def Blanks (cs : List Char) : Prop := ∀ c ∈ cs, c = ' ' ∨ c = '\t' ∨ c = '\r'

namespace Lexeme.Gap

variable {gap added rest : List Char}

theorem append_blanks (h : Gap gap rest) (blanks : Blanks added) : Gap (gap ++ added) rest := by
  cases h with
  | blanks blank ends => exact .blanks (List.forall_mem_append.mpr ⟨blank, blanks⟩) ends
  | @comment gap body rest blank line ends =>
      have line' : '\n' ∉ body ++ added := by
        simp only [List.mem_append, not_or]
        exact ⟨line, fun mem => by simpa using blanks _ mem⟩
      simpa using Gap.comment blank line' ends

theorem blanks_append (h : Gap gap rest) (blanks : Blanks added) : Gap (added ++ gap) rest := by
  cases h with
  | blanks blank ends => exact .blanks (List.forall_mem_append.mpr ⟨blanks, blank⟩) ends
  | comment blank line ends =>
      simpa using Gap.comment (List.forall_mem_append.mpr ⟨blanks, blank⟩) line ends

theorem append_comment (h : Gap gap rest) (ends : ∀ c ∈ rest.head?, c = '\n')
    (line : '\n' ∉ added) : Gap (gap ++ '#' :: added) rest := by
  cases h with
  | blanks blank => exact .comment blank line ends
  | @comment gap body rest blank line' ends =>
      have all : '\n' ∉ body ++ '#' :: added := by simpa using ⟨line', line⟩
      simpa using Gap.comment blank all ends

end Lexeme.Gap

namespace Feed

variable {c c' : Cursor}

/-- What stands in a gap has no effect on the tokens behind it. -/
theorem same_of_gaps {gap gap' rest : List Char} (whole : c.rest = gap ++ rest)
    (skips : Gap gap rest) (whole' : c'.rest = gap' ++ rest) (skips' : Gap gap' rest) :
    (ofCursor c).Same (ofCursor c') := by
  induction size : rest.length using Nat.strongRecOn generalizing c c' gap gap' rest with
  | ind size ih =>
      cases found : read rest with
      | ok l =>
          obtain ⟨after, split⟩ := read_prefix found
          have call := Cursor.nextToken_of_read whole skips found split
          have call' := Cursor.nextToken_of_read whole' skips' found split
          by_cases kind : l.kind = .eof
          · rw [ofCursor_of_eof call kind, ofCursor_of_eof call' kind]
            exact ⟨.nil, trivial⟩
          · obtain ⟨rest', next, skips⟩ := gap_skipped after
            have less : rest'.length < rest.length := by
              have pos := List.length_pos_iff.mpr (read_raw_ne_nil found kind)
              have long := congrArg List.length split
              have long' := congrArg List.length next
              simp only [List.length_append] at long long'
              omega
            rw [ofCursor_of_call call kind, ofCursor_of_call call' kind]
            refine .cons (Token.agrees_iff.mpr ⟨rfl, rfl⟩) ?_
            exact ih _ (size ▸ less) next skips next skips rfl
      | error bad =>
          have breaks := read_eq_error_iff.mp found
          obtain ⟨broken, split⟩ := breaks.begins
          rw [ofCursor_of_fault (Cursor.nextToken_of_breaks whole skips breaks split.symm),
            ofCursor_of_fault (Cursor.nextToken_of_breaks whole' skips' breaks split.symm)]
          exact ⟨.nil, rfl⟩

/-- The tokens of a text are the same wherever it stands. -/
theorem same_of_rest (same : c.rest = c'.rest) : (ofCursor c).Same (ofCursor c') := by
  obtain ⟨rest, whole, skips⟩ := gap_skipped c.rest
  exact same_of_gaps whole skips (same ▸ whole) skips

end Feed

/-- The one text with another gap somewhere behind its lexemes is the other one. -/
inductive Loosened : List Char → List Char → Prop where
  | gap {gap gap' rest : List Char} (skips : Gap gap rest) (skips' : Gap gap' rest) :
      Loosened (gap ++ rest) (gap' ++ rest)
  | lexeme {gap rest rest' : List Char} {l : Lexeme} (skips : Gap gap (l.raw ++ rest))
      (kind : l.kind ≠ .eof) (read : read (l.raw ++ rest) = .ok l)
      (read' : Lexeme.read (l.raw ++ rest') = .ok l) (more : Loosened rest rest') :
      Loosened (gap ++ (l.raw ++ rest)) (gap ++ (l.raw ++ rest'))

theorem Loosened.same {cs cs' : List Char} (h : Loosened cs cs') {c c' : Cursor}
    (whole : c.rest = cs) (whole' : c'.rest = cs') :
    (Feed.ofCursor c).Same (Feed.ofCursor c') := by
  induction h generalizing c c' with
  | gap skips skips' => exact Feed.same_of_gaps whole skips whole' skips'
  | @lexeme gap rest rest' l skips kind read read' more ih =>
      have some := read_raw_ne_nil read kind
      have skips' : Gap gap (l.raw ++ rest') := skips.of_head (by
        rw [List.head?_append_of_ne_nil _ some, List.head?_append_of_ne_nil _ some])
      rw [Feed.ofCursor_of_call (Cursor.nextToken_of_read whole skips read rfl) kind,
        Feed.ofCursor_of_call (Cursor.nextToken_of_read whole' skips' read' rfl) kind]
      exact .cons (Token.agrees_iff.mpr ⟨rfl, rfl⟩) (ih rfl rfl)

/-! Where something is put in. -/

theorem prefix_of_utf8Length_le {xs ys cs : List Char} (h : xs <+: cs) (h' : ys <+: cs)
    (le : utf8Length xs ≤ utf8Length ys) : xs <+: ys := by
  obtain shorter | ⟨more, rfl⟩ := List.prefix_or_prefix_of_prefix h h'
  · exact shorter
  · rw [utf8Length_append] at le
    have none : more = [] := by
      by_contra some
      have pos := utf8Length_pos some
      omega
    simp [none]

theorem Feed.offset_le_of_mem {c : Cursor} {t : Token} (mem : t ∈ (ofCursor c).ahead) :
    c.position.offset ≤ t.span.offset := by
  fun_induction ofCursor c with
  | case1 | case2 => contradiction
  | case3 c token next call kind less rest ih =>
      obtain ⟨gap, rest', -, -, ⟨l, after, -, -, gives⟩ | ⟨_, _, _, -, -, fails⟩⟩ :=
        c.nextToken_cases
      · rw [gives] at call
        obtain ⟨rfl, rfl⟩ := call
        have place := Position.offset_after c.position gap
        obtain rfl | mem := List.mem_cons.mp mem
        · exact (Nat.le_add_right _ _).trans_eq place.symm
        · have further := ih mem
          rw [Position.offset_after, place] at further
          omega
      · simp [fails] at call

/-- What can be put in at a token so that its end is at this place. -/
inductive Token.Takes (t : Token) (place : Nat) : List Char → Prop where
  | before {added : List Char} (blanks : Blanks added) (here : t.span.offset = place) :
      Takes t place added
  | behind {added : List Char} (blanks : Blanks added)
      (here : t.span.offset + t.span.length = place) : Takes t place added
  | comment {body : List Char} (line : t.kind = .newline) (here : t.span.offset = place)
      (inLine : '\n' ∉ body) : Takes t place ('#' :: body)

theorem Token.Takes.parts {t : Token} {place : Nat} {added : List Char}
    (h : t.Takes place added) : ∀ c ∈ added.head?, Lexeme.parts c = true := by
  have blank {added : List Char} (blanks : Blanks added) :
      ∀ c ∈ added.head?, Lexeme.parts c = true := by
    intro c first
    obtain rfl | rfl | rfl := blanks c (List.mem_of_head? first) <;> decide
  cases h with
  | before blanks | behind blanks => exact blank blanks
  | comment => simp [Lexeme.parts]

theorem Token.Takes.place_le {t : Token} {place : Nat} {added : List Char}
    (h : t.Takes place added) : t.span.offset ≤ place := by
  cases h <;> omega

/-- A lexeme is read before what is put in behind it. -/
theorem read_put {l : Lexeme} {xs added ys : List Char} (read : read (l.raw ++ (xs ++ ys)) = .ok l)
    (kind : l.kind ≠ .eof) (parted : ∀ c ∈ added.head?, parts c = true) :
    Lexeme.read (l.raw ++ (xs ++ (added ++ ys))) = .ok l := by
  cases xs with
  | nil =>
      cases added with
      | nil => exact read
      | cons c added =>
          obtain ⟨-, rfl⟩ | spelled := eof_or_spelled read
          · contradiction
          · exact read_append spelled parted
  | cons c xs => exact read_of_head read kind rfl

theorem loosened_start {added : List Char} (blanks : Blanks added) (ys : List Char) :
    Loosened ys (added ++ ys) := by
  obtain ⟨rest, whole, skips⟩ := gap_skipped ys
  have more := Loosened.gap skips (skips.blanks_append blanks)
  rwa [List.append_assoc, ← whole] at more

section Places

variable {gap xs added ys after : List Char} {l : Lexeme}

/-- What is put in directly before a lexeme is more of its gap. -/
theorem loosened_before (whole : gap ++ (l.raw ++ after) = xs ++ ys)
    (skips : Gap gap (l.raw ++ after)) (more : Gap (gap ++ added) (l.raw ++ after))
    (here : utf8Length gap = utf8Length xs) : Loosened (xs ++ ys) (xs ++ (added ++ ys)) := by
  have begins : gap <+: xs ++ ys := ⟨_, whole⟩
  have within := prefix_of_utf8Length_le begins ⟨ys, rfl⟩ here.le
  have within' := prefix_of_utf8Length_le ⟨ys, rfl⟩ begins here.ge
  obtain rfl := within.eq_of_length (Nat.le_antisymm within.length_le within'.length_le)
  obtain rfl := List.append_cancel_left whole
  simpa using Loosened.gap skips more

/-- What is put in further behind a lexeme leaves it as it is. -/
theorem loosened_behind (whole : gap ++ (l.raw ++ after) = xs ++ ys)
    (skips : Gap gap (l.raw ++ after)) (read : read (l.raw ++ after) = .ok l)
    (kind : l.kind ≠ .eof) (parted : ∀ c ∈ added.head?, parts c = true)
    (here : utf8Length gap + utf8Length l.raw ≤ utf8Length xs)
    (more : ∀ xs', after = xs' ++ ys → gap ++ (l.raw ++ xs') = xs →
      Loosened after (xs' ++ (added ++ ys))) :
    Loosened (xs ++ ys) (xs ++ (added ++ ys)) := by
  have begins : gap ++ l.raw <+: xs ++ ys := ⟨after, by simp [← whole]⟩
  obtain ⟨xs', rfl⟩ : gap ++ l.raw <+: xs :=
    prefix_of_utf8Length_le begins ⟨ys, rfl⟩ (by rwa [utf8Length_append])
  obtain rfl : after = xs' ++ ys := by simpa using whole
  have later := Loosened.lexeme skips kind read (read_put read kind parted)
    (more xs' rfl (by simp))
  simpa using later

end Places

/-- Something that is put in at a token of a text loosens it. -/
theorem loosened_of_mem {c : Cursor} {t : Token} (mem : t ∈ (Feed.ofCursor c).ahead)
    {xs added ys : List Char} (whole : c.rest = xs ++ ys) {place : Nat}
    (here : c.position.offset + utf8Length xs = place) (takes : t.Takes place added) :
    Loosened (xs ++ ys) (xs ++ (added ++ ys)) := by
  fun_induction Feed.ofCursor c generalizing xs with
  | case1 | case2 => contradiction
  | @case3 c token next call kind less rest ih =>
      obtain ⟨gap, rest', split, skips, ⟨l, after, read, rfl, gives⟩ | ⟨_, _, _, -, -, fails⟩⟩ :=
        c.nextToken_cases
      · rw [gives] at call
        obtain ⟨rfl, rfl⟩ := call
        have row := split.symm.trans whole
        have offset := Position.offset_after c.position gap
        have offset' := Position.offset_after (c.position.after gap) l.raw
        have parted := takes.parts
        obtain rfl | mem := List.mem_cons.mp mem
        · cases takes with
          | before blanks at' =>
              refine loosened_before row skips (skips.append_blanks blanks) ?_
              simp only [Position.span, offset] at at'
              omega
          | comment line at' inLine =>
              have raw : l.raw = ['\n'] := by
                obtain ⟨-, rfl⟩ | spelled := eof_or_spelled read
                · contradiction
                · exact (line ▸ spelled : Spelled l.raw .newline).eq_newline
              refine loosened_before row skips (skips.append_comment (by simp [raw]) inLine) ?_
              · simp only [Position.span, offset] at at'
                omega
          | behind blanks at' =>
              simp only [Position.span, offset] at at'
              refine loosened_behind row skips read kind parted (by omega) ?_
              rintro xs' rfl rfl
              simp only [utf8Length_append] at here
              obtain rfl : xs' = [] := by
                by_contra some
                have pos := utf8Length_pos some
                omega
              exact loosened_start blanks ys
        · have further := Feed.offset_le_of_mem mem
          have within := takes.place_le
          simp only [offset', offset] at further
          refine loosened_behind row skips read kind parted (by omega) ?_
          rintro xs' rfl rfl
          refine ih mem rfl ?_
          simp only [utf8Length_append] at here
          simp only [offset', offset]
          omega
      · simp [fails] at call

end YoloLang
