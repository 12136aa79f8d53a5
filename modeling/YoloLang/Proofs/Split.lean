import Mathlib.Data.List.Induction
import YoloLang.Proofs.Values

/-!
C's view of an expression. Main statement: C takes the text of an expression or a comparison for the
tokens it was written with if and only if no two equal signs of a sum stand side by side.
-/

namespace YoloLang

open Leaf CText

/-! The characters at the seams of two tokens. -/

namespace Token

variable {t : Token} {rest : List Char}

def isMark (k : Kind) : Bool := k.joinsValues || k == .openParen || k == .closeParen

theorem marks_fixed (k : Kind) (mark : isMark k = true) :
    ∃ p ∈ Lexeme.fixed, p.2 = k ∧ p.1 ∈ signs := by
  cases k <;> first | contradiction | decide

theorem Lexed.mark (h : t.Lexed) (mark : isMark t.kind = true) :
    (t.text.toList, t.kind) ∈ Lexeme.fixed ∧ t.text.toList ∈ signs := by
  obtain ⟨cs, l, read, kind, text⟩ := h
  obtain ⟨⟨raw, k⟩, mem, rfl, sign⟩ := marks_fixed t.kind mark
  have spelled : t.text = String.ofList raw :=
    text.trans ((Lexeme.shape_read read).text_of_fixed (kind ▸ mem))
  rw [spelled, String.toList_ofList]
  exact ⟨mem, sign⟩

theorem Lexed.identifier (h : t.Lexed) (kind : t.kind = .identifier) :
    ∃ c cs, t.text.toList = c :: cs ∧ Text.isAlphabetic c = true ∧
      ∀ d ∈ cs, Text.isAlphanumeric d = true := by
  obtain ⟨_, l, read, same, text⟩ := h
  have identifier : l.kind = .identifier := same ▸ kind
  have spelled := text.trans (Lexeme.text_of_ne_string (by simp [identifier]))
  cases Lexeme.shape_read read with
  | eof | string | whole | fraction => contradiction
  | word first more => exact ⟨_, _, by rw [spelled, String.toList_ofList], first, more⟩
  | fixed mem =>
      obtain rfl : _ = Kind.identifier := identifier
      simp [Lexeme.fixed] at mem

theorem Lexed.number (h : t.Lexed) (kind : t.kind = .number) :
    ∃ c cs, t.text.toList = c :: cs ∧ Text.isDigit c = true ∧
      ∀ rest, (∀ d ∈ rest.head?, Text.isDigit d = false ∧ d ≠ '.') →
        CText.number (c :: (cs ++ rest)) = c :: cs := by
  obtain ⟨_, l, read, same, text⟩ := h
  have number : l.kind = .number := same ▸ kind
  cases Lexeme.shape_read read with
  | eof | string => contradiction
  | word =>
      rw [Kind.ofWord] at number
      repeat' split at number
      all_goals contradiction
  | fixed mem =>
      obtain rfl : _ = Kind.number := number
      simp [Lexeme.fixed] at mem
  | @whole digits some decimal =>
      obtain ⟨c, cs, rfl⟩ := List.exists_cons_of_ne_nil some
      refine ⟨c, cs, by simp [text, Lexeme.text], decimal c List.mem_cons_self, ?_⟩
      exact fun rest ends => number_append decimal ends
  | @fraction digits decimals some decimal _ decimal' =>
      obtain ⟨c, cs, rfl⟩ := List.exists_cons_of_ne_nil some
      refine ⟨c, cs ++ '.' :: decimals, by simp [text, Lexeme.text],
        decimal c List.mem_cons_self, ?_⟩
      intro rest ends
      simpa using number_append_fraction decimal decimal' fun d mem => (ends d mem).1

theorem Lexed.piece_of_mark (h : t.Lexed) (mark : isMark t.kind = true)
    (ends : ∀ d ∈ rest.head?, t.text.toList ++ [d] ∉ signs) :
    ∃ c cs, t.text.toList = c :: cs ∧ piece c (cs ++ rest) = c :: cs := by
  obtain ⟨-, sign⟩ := h.mark mark
  cases text : t.text.toList with
  | nil => simp [text, signs] at sign
  | cons c cs =>
      rw [text] at sign ends
      exact ⟨c, cs, rfl, piece_sign sign ends⟩

/-- The text of a token that can end a value is a piece before a mark. -/
theorem Lexed.piece_of_endsValue (h : t.Lexed) (ends : t.kind.endsValue = true)
    (rest : List Char)
    (quiet : ∀ d ∈ rest.head?, inWord d = false ∧ Text.isDigit d = false ∧ d ≠ '.') :
    ∃ c cs, t.text.toList = c :: cs ∧ piece c (cs ++ rest) = c :: cs := by
  cases kind : t.kind with
  | number =>
      obtain ⟨c, cs, text, digit, whole⟩ := h.number kind
      exact ⟨c, cs, text, (piece_number digit).trans (whole rest fun d mem => (quiet d mem).2)⟩
  | identifier =>
      obtain ⟨c, cs, text, first, more⟩ := h.identifier kind
      exact ⟨c, cs, text, piece_word first more fun d mem => (quiet d mem).1⟩
  | closeParen =>
      have mark : isMark t.kind = true := by simp [isMark, kind]
      have text : t.text.toList = [')'] := by simpa [kind, Lexeme.fixed] using (h.mark mark).1
      exact h.piece_of_mark mark (by simp [text, signs])
  | _ => simp [kind, Kind.endsValue] at ends

/-- A mark continues neither a word nor a number. -/
theorem Lexed.quiet_of_mark (h : t.Lexed) (mark : isMark t.kind = true) :
    ∀ d ∈ (t.text.toList ++ rest).head?,
      inWord d = false ∧ Text.isDigit d = false ∧ d ≠ '.' := by
  have quiet : ∀ raw ∈ signs,
      raw.head?.any (fun d => !inWord d && !Text.isDigit d && d != '.') = true := by decide
  have start := quiet _ (h.mark mark).2
  cases text : t.text.toList with
  | nil => simp [text] at start
  | cons c cs => simpa [text, and_assoc] using start

/-- The first character of a value is that of a sign only if its first token is this sign. -/
theorem Lexed.head_of_beginsValue (h : t.Lexed) (begins : t.kind.beginsValue = true) :
    ∃ c cs, t.text.toList = c :: cs ∧ c ≠ '=' ∧ (c = '+' → t.kind = .plus) ∧
      (c = '-' → t.kind = .minus) := by
  have marked (mark : isMark t.kind = true) {c : Char} (spelling : ([c], t.kind) ∈ Lexeme.fixed) :
      t.text.toList = [c] :=
    Lexeme.fixed_spelling_unique _ (h.mark mark).1 _ spelling rfl
  cases kind : t.kind with
  | number =>
      obtain ⟨c, cs, text, digit, -⟩ := h.number kind
      refine ⟨c, cs, text, ?_, ?_, ?_⟩ <;> rintro rfl <;> contradiction
  | identifier =>
      obtain ⟨c, cs, text, first, -⟩ := h.identifier kind
      refine ⟨c, cs, text, ?_, ?_, ?_⟩ <;> rintro rfl <;> contradiction
  | openParen =>
      have text := marked (c := '(') (by simp [isMark, kind]) (by rw [kind]; decide)
      exact ⟨_, _, text, by decide, by decide, by decide⟩
  | plus =>
      have text := marked (c := '+') (by rw [kind]; rfl) (by rw [kind]; decide)
      exact ⟨_, _, text, by decide, fun _ => rfl, by decide⟩
  | minus =>
      have text := marked (c := '-') (by rw [kind]; rfl) (by rw [kind]; decide)
      exact ⟨_, _, text, by decide, by decide, fun _ => rfl⟩
  | _ => simp [kind, Kind.beginsValue] at begins

end Token

theorem longer_sign {raw : List Char} {d : Char} (some : raw ≠ []) (longer : raw ++ [d] ∈ signs) :
    d = '=' ∨ raw = [d] ∧ (d = '+' ∨ d = '-') := by
  have two : ∀ s ∈ signs, s.dropLast = [] ∨ s.getLast?.all (fun d =>
      d == '=' || s.dropLast == [d] && (d == '+' || d == '-')) = true := by decide
  simpa [some] using two _ longer

/-- Whether C keeps the tokens of two leaves side by side apart. -/
def Leaf.Apart (a b : Leaf) : Prop :=
  ¬ (a.token.kind.isSign = true ∧ b.token.kind = a.token.kind)

variable {a b : Leaf}

/-- A token that is kept apart from the next one is a piece of its own. -/
theorem piece_of_apart (lexed : a.token.Lexed) (lexed' : b.token.Lexed)
    (meets : a.token.kind.meets b.token.kind = true) (apart : a.Apart b) (rest : List Char) :
    ∃ c cs, a.token.text.toList = c :: cs ∧
      piece c (cs ++ (b.token.text.toList ++ rest)) = c :: cs := by
  rw [Kind.meets] at meets
  split at meets
  · rename_i ends
    have mark : Token.isMark b.token.kind = true := by
      simp only [Token.isMark, Bool.or_eq_true] at meets ⊢
      exact meets.imp .inl id
    exact lexed.piece_of_endsValue ends _ (lexed'.quiet_of_mark mark)
  · obtain ⟨opens, begins⟩ := Bool.and_eq_true_iff.mp meets
    have mark : Token.isMark a.token.kind = true := by simp only [Token.isMark, opens, Bool.true_or]
    refine lexed.piece_of_mark mark ?_
    intro d first longer
    obtain ⟨fixed, sign⟩ := lexed.mark mark
    have some : a.token.text.toList ≠ [] := by
      intro empty
      simp [empty, signs] at sign
    obtain ⟨c, cs, text, notEq, plus, minus⟩ := lexed'.head_of_beginsValue begins
    obtain rfl : c = d := by simpa [text] using first
    obtain rfl | ⟨same, rfl | rfl⟩ := longer_sign some longer
    · exact notEq rfl
    · have kind : a.token.kind = .plus := by simpa [same, Lexeme.fixed] using fixed
      exact apart ⟨by rw [kind]; rfl, by rw [kind, plus rfl]⟩
    · have kind : a.token.kind = .minus := by simpa [same, Lexeme.fixed] using fixed
      exact apart ⟨by rw [kind]; rfl, by rw [kind, minus rfl]⟩

/-- Two signs of the same kind side by side are one piece. -/
theorem piece_of_not_apart (lexed : a.token.Lexed) (lexed' : b.token.Lexed)
    (fused : ¬ a.Apart b) (rest : List Char) :
    ∃ c, a.token.text.toList = [c] ∧ piece c (b.token.text.toList ++ rest) = [c, c] := by
  obtain ⟨sign, same⟩ := not_not.mp fused
  have spelled {c : Char} (mem : ([c], a.token.kind) ∈ Lexeme.fixed)
      (mark : Token.isMark a.token.kind = true) :
      a.token.text.toList = [c] ∧ b.token.text.toList = [c] := by
    have mark' : Token.isMark b.token.kind = true := by rw [same, mark]
    have mem' : ([c], b.token.kind) ∈ Lexeme.fixed := by rw [same]; exact mem
    exact ⟨Lexeme.fixed_spelling_unique _ (lexed.mark mark).1 _ mem rfl,
      Lexeme.fixed_spelling_unique _ (lexed'.mark mark').1 _ mem' rfl⟩
  cases kind : a.token.kind with
  | plus =>
      obtain ⟨text, text'⟩ := spelled (c := '+') (by rw [kind]; decide) (by rw [kind]; rfl)
      exact ⟨'+', text, by rw [text']; exact piece_fused (.inl rfl) rest⟩
  | minus =>
      obtain ⟨text, text'⟩ := spelled (c := '-') (by rw [kind]; decide) (by rw [kind]; rfl)
      exact ⟨'-', text, by rw [text']; exact piece_fused (.inr rfl) rest⟩
  | _ => simp [kind, Kind.isSign] at sign

theorem pieces_spelling {ls : List Leaf} (lexed : ∀ l ∈ ls, l.token.Lexed)
    (meets : ls.IsChain fun a b => a.token.kind.meets b.token.kind = true)
    (last : ∀ l ∈ ls.getLast?, l.token.kind.endsValue = true) :
    pieces (spelling ls).toList = ls.map (·.token.text.toList) ↔ ls.IsChain Leaf.Apart := by
  induction ls with
  | nil => simp [spelling, pieces]
  | cons a ls ih =>
      have tail := ih (fun l mem => lexed l (List.mem_cons_of_mem _ mem)) meets.tail
      have here := lexed a List.mem_cons_self
      cases ls with
      | nil =>
          obtain ⟨c, cs, text, whole⟩ :=
            here.piece_of_endsValue (last a rfl) [] (by simp)
          have alone : pieces (c :: (cs ++ [])) = (c :: cs) :: pieces [] := pieces_append whole
          simpa [spelling, text, pieces] using alone
      | cons b ls =>
          have there := lexed b (by simp)
          obtain ⟨met, -⟩ := List.isChain_cons_cons.mp meets
          have whole : (spelling (b :: ls)).toList =
              b.token.text.toList ++ (spelling ls).toList := by
            simp [spelling]
          rw [List.isChain_cons_cons, ← tail last, spelling, String.toList_append, List.map_cons]
          by_cases apart : a.Apart b
          · obtain ⟨c, cs, text, first⟩ := piece_of_apart here there met apart (spelling ls).toList
            rw [← whole] at first
            rw [text, List.cons_append, pieces_append first, List.cons.injEq]
            simp [apart]
          · obtain ⟨c, text, first⟩ := piece_of_not_apart here there apart (spelling ls).toList
            rw [← whole] at first
            rw [text, List.singleton_append, pieces, first]
            simp [apart]

/-- What C takes a row of tokens for: each for itself, or two equal signs side by side for one
piece. -/
inductive Taken : List Leaf → List (List Char) → Prop where
  | nil : Taken [] []
  | own (l : Leaf) {ls : List Leaf} {ps : List (List Char)} (more : Taken ls ps) :
      Taken (l :: ls) (l.token.text.toList :: ps)
  | fused {a b : Leaf} {c : Char} (sign : a.token.kind.isSign = true)
      (same : b.token.kind = a.token.kind) (text : a.token.text.toList = [c]) {ls : List Leaf}
      {ps : List (List Char)} (more : Taken ls ps) : Taken (a :: b :: ls) ([c, c] :: ps)

theorem taken_spelling {ls : List Leaf} (lexed : ∀ l ∈ ls, l.token.Lexed)
    (meets : ls.IsChain fun a b => a.token.kind.meets b.token.kind = true)
    (last : ∀ l ∈ ls.getLast?, l.token.kind.endsValue = true) :
    Taken ls (pieces (spelling ls).toList) := by
  have whole (a : Leaf) (ls : List Leaf) :
      (spelling (a :: ls)).toList = a.token.text.toList ++ (spelling ls).toList := by
    simp [spelling]
  induction ls using List.twoStepInduction with
  | nil =>
      rw [spelling, String.toList_empty, pieces]
      exact .nil
  | singleton a =>
      have here := lexed a List.mem_cons_self
      obtain ⟨c, cs, text, first⟩ := here.piece_of_endsValue (last a rfl) [] (by simp)
      have row := pieces_append first
      rw [List.append_nil, ← text, pieces] at row
      rw [whole, spelling, String.toList_empty, List.append_nil, row]
      exact .own a .nil
  | cons_cons a b ls ih ih' =>
      have here := lexed a List.mem_cons_self
      have there := lexed b (by simp)
      obtain ⟨met, more⟩ := List.isChain_cons_cons.mp meets
      by_cases apart : a.Apart b
      · have tail := ih' b (List.forall_mem_cons.mp lexed).2 more
          (by simpa [List.getLast?_cons_cons] using last)
        obtain ⟨c, cs, text, first⟩ := piece_of_apart here there met apart (spelling ls).toList
        rw [← whole] at first
        rw [whole, text, List.cons_append, pieces_append first, ← text]
        exact .own a tail
      · -- The two signs are one piece, and what comes after them is left.
        obtain ⟨c, text, first⟩ := piece_of_not_apart here there apart (spelling ls).toList
        obtain ⟨sign, same⟩ := not_not.mp apart
        have mark : Token.isMark a.token.kind = true := by
          simp [Token.isMark, Kind.joinsValues, sign]
        have text' : b.token.text.toList = [c] := by
          have mark' : Token.isMark b.token.kind = true := same ▸ mark
          rw [← text]
          exact Lexeme.fixed_spelling_unique _ (there.mark mark').1 _ (here.mark mark).1 same
        have tail := ih (List.forall_mem_cons.mp (List.forall_mem_cons.mp lexed).2).2 more.tail
          fun l mem => last l (by simp [List.getLast?_cons, Option.mem_def.mp mem])
        have row : pieces (spelling (a :: b :: ls)).toList =
            [c, c] :: pieces (spelling ls).toList := by
          rw [whole, whole, text, List.singleton_append, pieces, first, text']
          rfl
        rw [row]
        exact .fused sign same text tail

theorem Formula.taken {ls : List Leaf} (h : Formula ls) :
    Taken ls (pieces (spelling ls).toList) := by
  obtain ⟨l, last, ends⟩ := h.last
  exact taken_spelling h.lexed h.meets fun a mem => Option.mem_unique last mem ▸ ends

/-- C takes a value for its own tokens if and only if it keeps all of them apart. -/
theorem Formula.split_eq_iff {ls : List Leaf} (h : Formula ls) :
    split (spelling ls) = ls.map (·.token.text) ↔ ls.IsChain Leaf.Apart := by
  obtain ⟨l, last, ends⟩ := h.last
  rw [← pieces_spelling h.lexed h.meets fun a mem => Option.mem_unique last mem ▸ ends, split]
  have texts : ls.map (·.token.text) = (ls.map (·.token.text.toList)).map String.ofList := by
    simp
  rw [texts]
  exact List.map_inj_right fun x y same => String.ofList_injective same

end YoloLang
