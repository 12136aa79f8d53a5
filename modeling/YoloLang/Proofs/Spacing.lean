import Mathlib.Data.List.Forall2
import YoloLang.Proofs.Feed
import YoloLang.Proofs.Lexing

/-!
Texts of given tokens. Main statement: tokens that are lexemes of some text, in any order, are the
first tokens of a text without a fault, which has them with a blank before each.
-/

namespace YoloLang

open Lexeme

/-- No lexeme but a newline begins with a character that parts lexemes. -/
theorem Lexeme.Spelled.head_apart {raw : List Char} {kind : Kind} (h : Spelled raw kind) :
    ∀ c ∈ raw.head?, c ≠ ' ' ∧ c ≠ '\t' ∧ c ≠ '\r' ∧ c ≠ '#' := by
  have apart {p : Char → Bool}
      (other : p ' ' = false ∧ p '\t' = false ∧ p '\r' = false ∧ p '#' = false) {c : Char}
      (own : p c = true) : c ≠ ' ' ∧ c ≠ '\t' ∧ c ≠ '\r' ∧ c ≠ '#' := by
    refine ⟨?_, ?_, ?_, ?_⟩ <;> rintro rfl <;> simp [other] at own
  cases h with
  | newline | string => simp
  | whole some decimal | fraction some decimal =>
      obtain ⟨d, ds, rfl⟩ := List.exists_cons_of_ne_nil some
      have digit := apart (p := Text.isDigit) (by decide) (decimal d (by simp))
      simpa using digit
  | word first =>
      have letter := apart (p := Text.isAlphabetic) (by decide) first
      simpa using letter
  | symbol mem =>
      have all : ∀ s ∈ symbols,
          s.1.toList.head?.all fun c => c ≠ ' ' ∧ c ≠ '\t' ∧ c ≠ '\r' ∧ c ≠ '#' := by decide
      intro c first
      simpa [Option.mem_def.mp first] using all _ mem

/-- A row of tokens that begins with these, wherever they stand. -/
def Continues (tokens tokens' : List Token) : Prop :=
  List.Forall₂ (fun a b => a.agrees b = true) tokens (tokens'.take tokens.length)

namespace Feed

/-- A feed without a fault that begins with these tokens. -/
def BeginsWith (f : Feed) (tokens : List Token) : Prop :=
  (∃ span, f.ending = .eof span) ∧ Continues tokens f.ahead

/-- A call that gives the first of the tokens. -/
theorem beginsWith_cons {c next : Cursor} {t a : Token} {ts : List Token}
    (call : c.nextToken = (.ok t, next)) (kind : t.kind ≠ .eof) (agrees : a.agrees t = true)
    (h : (ofCursor next).BeginsWith ts) : (ofCursor c).BeginsWith (a :: ts) := by
  rw [ofCursor_of_call call kind]
  exact ⟨h.1, .cons agrees h.2⟩

end Feed

/-- A lexeme that is parted from what comes after it is given by a call. -/
theorem Cursor.nextToken_of_spelled {c : Cursor} {gap after : List Char} {l : Lexeme}
    (whole : c.rest = gap ++ (l.raw ++ after)) (skips : Gap gap (l.raw ++ after))
    (spelled : Spelled l.raw l.kind) (apart : ∀ x ∈ after.head?, parts x = true) :
    ∃ t next, c.nextToken = (.ok t, next) ∧ t.kind = l.kind ∧ t.text = l.text ∧
      next.rest = after :=
  ⟨_, _, nextToken_of_read whole skips (read_append spelled apart) rfl, rfl, rfl, rfl⟩

/-- Tokens of any texts are the first tokens of one. -/
theorem exists_text {tokens : List Token} (lexed : ∀ t ∈ tokens, t.Lexed ∧ t.kind ≠ .eof) :
    ∃ cs : List Char, (∀ x ∈ (cs ++ ['\n']).head?, parts x = true) ∧
      ∀ c : Cursor, c.rest = cs ++ ['\n'] → (Feed.ofCursor c).BeginsWith tokens := by
  induction tokens with
  | nil =>
      refine ⟨[], by simp [parts], fun c whole => ?_⟩
      have line : Gap [] ['\n'] := .blanks (by simp) (by simp)
      have ends : Gap [] [] := .blanks (by simp) (by simp)
      have nothing : read [] = .ok ⟨.eof, []⟩ := rfl
      obtain ⟨t, next, call, kind, -, rest⟩ :=
        c.nextToken_of_spelled (l := ⟨.newline, ['\n']⟩) whole line .newline (by simp)
      have last := Cursor.nextToken_of_read rest ends nothing rfl
      rw [Feed.ofCursor_of_call call (by simp [kind]), Feed.ofCursor_of_eof last rfl]
      exact ⟨⟨_, rfl⟩, .nil⟩
  | cons t tokens ih =>
      obtain ⟨⟨⟨text, l, read, kind, same⟩, more⟩, lexed⟩ := List.forall_mem_cons.mp lexed
      obtain ⟨cs, apart, begins⟩ := ih lexed
      have spelled : Spelled l.raw l.kind := by
        obtain ⟨-, rfl⟩ | spelled := eof_or_spelled read
        · contradiction
        · exact spelled
      refine ⟨' ' :: (l.raw ++ cs), by simp [parts, isGap], fun c whole => ?_⟩
      have blank : Gap [' '] (l.raw ++ (cs ++ ['\n'])) := by
        refine .blanks (by simp) fun x first => ?_
        obtain ⟨y, ys, raw⟩ := List.exists_cons_of_ne_nil spelled.ne_nil
        exact spelled.head_apart x (by simpa [raw] using first)
      obtain ⟨t', next, call, kind', text', rest⟩ :=
        c.nextToken_of_spelled (by simpa using whole) blank spelled apart
      exact Feed.beginsWith_cons call (by rw [kind', ← kind]; exact more)
        (Token.agrees_iff.mpr ⟨kind.trans kind'.symm, same.trans text'.symm⟩) (begins next rest)

/-- The first tokens of a source with a fault are those of a source without one. -/
theorem exists_source (c : Cursor) :
    ∃ source : String, (Feed.ofCursor (.ofSource source)).BeginsWith (Feed.ofCursor c).ahead := by
  obtain ⟨cs, -, begins⟩ := exists_text (Feed.lexed_ofCursor c)
  exact ⟨String.ofList cs, begins _ (by simp [Cursor.ofSource])⟩

end YoloLang
