import Mathlib.Tactic.SplitIfs
import YoloLang.Text.Lines
import YoloLang.Text.Quoted

/-!
Quoted forms read back. Main statements: a text can be read off its quoted form, whatever characters
it is made of, and no quoted form has the end of a line in it.
-/

namespace YoloLang.Text

/-- No character of the text belongs to the end of a line. -/
def EndFree (cs : List Char) : Prop := '\n' ∉ cs ∧ '\r' ∉ cs

instance (cs : List Char) : Decidable (EndFree cs) :=
  inferInstanceAs (Decidable ('\n' ∉ cs ∧ '\r' ∉ cs))

/-- A text without line ends is a line, whatever comes behind the newline that ends it. -/
theorem EndFree.lined {cs : List Char} (free : EndFree cs) :
    '\n' ∉ cs ∧ cs.getLast? ≠ some '\r' :=
  ⟨free.1, fun last => free.2 (List.mem_of_getLast? last)⟩

theorem endFree_append {xs ys : List Char} : EndFree (xs ++ ys) ↔ EndFree xs ∧ EndFree ys := by
  simp only [EndFree, List.mem_append, not_or]
  exact and_and_and_comm

theorem endFree_toList_append {s t : String} :
    EndFree (s ++ t).toList ↔ EndFree s.toList ∧ EndFree t.toList := by
  rw [String.toList_append, endFree_append]

theorem endFree_flatMap {α : Type} {f : α → List Char} {xs : List α} :
    EndFree (xs.flatMap f) ↔ ∀ x ∈ xs, EndFree (f x) := by
  simp only [EndFree, List.mem_flatMap, not_exists, not_and]
  exact ⟨fun h x mem => ⟨h.1 x mem, h.2 x mem⟩,
    fun h => ⟨fun x mem => (h x mem).1, fun x mem => (h x mem).2⟩⟩

namespace Quoted

/-! Code points in base sixteen. -/

def hexDigits : List Char := "0123456789abcdef".toList

def hexDigit (c : Char) : Nat :=
  if c.isDigit then c.toNat - '0'.toNat else c.toNat - 'a'.toNat + 10

/-- The number that digits stand for behind a number read before them. -/
def value (before : Nat) (digits : List Char) : Nat :=
  digits.foldl (fun n c => 16 * n + hexDigit c) before

theorem value_append (n : Nat) (xs ys : List Char) : value n (xs ++ ys) = value (value n xs) ys :=
  List.foldl_append

theorem digitChar_mem_hexDigits {d : Nat} (h : d < 16) :
    d.digitChar ∈ hexDigits ∧ hexDigit d.digitChar = d := by
  have all : ∀ d < 16, d.digitChar ∈ hexDigits ∧ hexDigit d.digitChar = d := by decide
  exact all d h

theorem hex_toDigits (n : Nat) :
    (∀ c ∈ Nat.toDigits 16 n, c ∈ hexDigits) ∧ value 0 (Nat.toDigits 16 n) = n := by
  induction n using Nat.strongRecOn with
  | ind n ih =>
      rw [Nat.toDigits_eq_if (by decide)]
      split
      case isTrue small =>
        obtain ⟨mem, digit⟩ := digitChar_mem_hexDigits small
        simp [mem, digit, value]
      case isFalse large =>
        obtain ⟨mem, digit⟩ := digitChar_mem_hexDigits (Nat.mod_lt n (by decide : 0 < 16))
        obtain ⟨all, front⟩ := ih (n / 16) (by omega)
        constructor
        · simpa [or_imp, forall_and, mem] using all
        · rw [value_append, front, value, List.foldl_cons, List.foldl_nil, digit]
          omega

theorem notMem_toDigits {c : Char} (other : c ∉ hexDigits) (n : Nat) : c ∉ Nat.toDigits 16 n :=
  fun mem => other ((hex_toDigits n).1 c mem)

/-! What is written for one character. -/

/-- The character that a letter behind a backslash stands for. -/
def meant : Char → Char
  | '0' => '\x00'
  | 't' => '\t'
  | 'r' => '\r'
  | 'n' => '\n'
  | c => c

/-- The ways to write a character between double quotes. -/
inductive Escape (c : Char) : List Char → Prop where
  | letter {d : Char} (mem : d ∈ ['0', 't', 'r', 'n', '\\', '"']) (stands : meant d = c) :
      Escape c ['\\', d]
  | itself (slash : c ≠ '\\') (line : c ≠ '\n') (back : c ≠ '\r') : Escape c [c]
  | code : Escape c (['\\', 'u', '\x7b'] ++ Nat.toDigits 16 c.toNat ++ ['\x7d'])

theorem escape_escape (c : Char) : Escape c (escape '"' c) := by
  unfold escape
  split_ifs with nul tab back line own plain
  · exact .letter (by simp) nul.symm
  · exact .letter (by simp) tab.symm
  · exact .letter (by simp) back.symm
  · exact .letter (by simp) line.symm
  · obtain rfl | rfl := own <;> exact .letter (by simp) rfl
  · exact .itself (fun slash => own (.inl slash)) line back
  · exact .code

theorem Escape.endFree {c : Char} {cs : List Char} (h : Escape c cs) : EndFree cs := by
  cases h with
  | letter mem =>
      simp only [List.mem_cons, List.not_mem_nil, or_false] at mem
      obtain rfl | rfl | rfl | rfl | rfl | rfl := mem <;> decide
  | itself slash line back => simp [EndFree, line.symm, back.symm]
  | code =>
      have line : '\n' ∉ Nat.toDigits 16 c.toNat := notMem_toDigits (by decide) _
      have back : '\r' ∉ Nat.toDigits 16 c.toNat := notMem_toDigits (by decide) _
      simp [EndFree, line, back]

/-- A quoted form stands on one line. -/
theorem endFree_string (s : String) : EndFree (string s).toList := by
  have inner : EndFree (s.toList.flatMap (escape '"')) :=
    endFree_flatMap.mpr fun c _ => (escape_escape c).endFree
  rw [string, String.toList_ofList, ← List.singleton_append, endFree_append, endFree_append]
  exact ⟨⟨by decide, inner⟩, by decide⟩

/-! Reading back. -/

/-- Where a reader stands: between two characters, or inside what is written for one. -/
inductive Stage where
  | between
  | behindSlash
  | behindLetter
  | inCode (value : Nat)
deriving DecidableEq, Repr

/-- The characters that stand between two quotes, each read from what is written for it. -/
def unescaped : Stage → List Char → List Char
  | _, [] => []
  | .between, c :: cs =>
      if c = '\\' then unescaped .behindSlash cs else c :: unescaped .between cs
  | .behindSlash, c :: cs =>
      if c = 'u' then unescaped .behindLetter cs else meant c :: unescaped .between cs
  | .behindLetter, _ :: cs => unescaped (.inCode 0) cs
  | .inCode n, c :: cs =>
      if c = '\x7d' then Char.ofNat n :: unescaped .between cs
      else unescaped (.inCode (16 * n + hexDigit c)) cs

/-- The text that a quoted form is the form of. -/
def unquoted (cs : List Char) : String :=
  String.ofList (unescaped .between cs.tail.dropLast)

theorem unescaped_code {digits : List Char} (all : '\x7d' ∉ digits) (n : Nat)
    (rest : List Char) :
    unescaped (.inCode n) (digits ++ '\x7d' :: rest) =
      Char.ofNat (value n digits) :: unescaped .between rest := by
  induction digits generalizing n with
  | nil => rfl
  | cons c digits ih =>
      have here : c ≠ '\x7d' := fun same => all (same ▸ List.mem_cons_self)
      have later : '\x7d' ∉ digits := fun mem => all (List.mem_cons_of_mem c mem)
      rw [List.cons_append, unescaped, if_neg here, ih later]
      rfl

theorem Escape.unescaped_append {c : Char} {cs : List Char} (h : Escape c cs) (rest : List Char) :
    unescaped .between (cs ++ rest) = c :: unescaped .between rest := by
  cases h with
  | @letter d mem stands =>
      have other : d ≠ 'u' := by
        rintro rfl
        simp at mem
      simp only [List.cons_append, List.nil_append, unescaped, if_pos, if_neg other, stands]
  | itself slash => simp only [List.singleton_append, unescaped, if_neg slash]
  | code =>
      have inner : '\x7d' ∉ Nat.toDigits 16 c.toNat := notMem_toDigits (by decide) _
      rw [List.append_assoc, List.append_assoc, List.singleton_append]
      simp only [List.cons_append, List.nil_append, unescaped, if_pos]
      rw [unescaped_code inner, (hex_toDigits c.toNat).2, Char.ofNat_toNat]

/-- A text is read off its quoted form. -/
theorem unquoted_string (s : String) : unquoted (string s).toList = s := by
  have inner (cs : List Char) : unescaped .between (cs.flatMap (escape '"')) = cs := by
    induction cs with
    | nil => rfl
    | cons c cs ih => rw [List.flatMap_cons, (escape_escape c).unescaped_append, ih]
  rw [unquoted, string, String.toList_ofList, List.cons_append, List.tail_cons,
    List.dropLast_concat, inner, String.ofList_toList]

end Quoted
end YoloLang.Text
