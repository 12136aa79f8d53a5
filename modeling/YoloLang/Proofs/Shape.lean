import YoloLang.Proofs.Recognition

/-!
The shapes of lexemes. Main statement: whatever is read off a text has one of them.
-/

namespace YoloLang.Lexeme

inductive Shape : Lexeme → Prop where
  | eof : Shape ⟨.eof, []⟩
  | string {body : List Char} (plain : ∀ c ∈ body, inString c = true) :
      Shape ⟨.string, '"' :: body ++ ['"']⟩
  | whole {digits : List Char} (some : digits ≠ [])
      (decimal : ∀ c ∈ digits, Text.isDigit c = true) : Shape ⟨.number, digits⟩
  | fraction {digits decimals : List Char} (some : digits ≠ [])
      (decimal : ∀ c ∈ digits, Text.isDigit c = true) (some' : decimals ≠ [])
      (decimal' : ∀ c ∈ decimals, Text.isDigit c = true) :
      Shape ⟨.number, digits ++ '.' :: decimals⟩
  | word {c : Char} {rest : List Char} (first : Text.isAlphabetic c = true)
      (more : ∀ d ∈ rest, Text.isAlphanumeric d = true) :
      Shape ⟨.ofWord (String.ofList (c :: rest)), c :: rest⟩
  | fixed {raw : List Char} {kind : Kind} (mem : (raw, kind) ∈ fixed) : Shape ⟨kind, raw⟩

theorem shape_read {cs : List Char} {l : Lexeme} (h : read cs = .ok l) : l.Shape := by
  obtain ⟨-, rfl⟩ | spelled := eof_or_spelled h
  · exact .eof
  · obtain ⟨kind, raw⟩ := l
    simp only at spelled
    cases spelled with
    | newline => exact .fixed (mem_fixed_iff.mpr (.inl ⟨rfl, rfl⟩))
    | string plain => exact .string fun c mem => inString_iff.mpr (plain c mem)
    | whole some decimal => exact .whole some decimal
    | fraction some decimal some' decimal' => exact .fraction some decimal some' decimal'
    | word first more named =>
        rw [named.unique (word_ofWord _)]
        exact .word first more
    | symbol mem => exact .fixed (mem_fixed_iff.mpr (.inr (by simpa using mem)))

theorem fixed_spelling_unique : ∀ p ∈ fixed, ∀ q ∈ fixed, p.2 = q.2 → p.1 = q.1 := by decide

theorem ofWord_not_fixed (word : String) : ∀ p ∈ fixed, p.2 ≠ Kind.ofWord word := by
  rw [Kind.ofWord]
  split
  · rename_i k _
    cases k <;> decide
  · split <;> decide

theorem text_of_ne_string {l : Lexeme} (h : l.kind ≠ .string) : l.text = String.ofList l.raw := by
  rw [text, if_neg h]

/-- A kind with one spelling is always spelled so. -/
theorem Shape.text_of_fixed {l : Lexeme} (shape : l.Shape) {raw : List Char}
    (mem : (raw, l.kind) ∈ Lexeme.fixed) : l.text = String.ofList raw := by
  cases shape with
  | eof | string | whole | fraction => revert mem; simp [Lexeme.fixed]
  | word => exact absurd rfl (ofWord_not_fixed _ _ mem)
  | fixed mem' =>
      rename_i raw' kind
      have same : raw' = raw := fixed_spelling_unique _ mem' _ mem rfl
      have notString : kind ≠ .string := by
        rintro rfl
        revert mem
        simp [Lexeme.fixed]
      simp [text, notString, same]

end YoloLang.Lexeme
