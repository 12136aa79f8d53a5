import Mathlib.Data.List.DropRight
import YoloLang.Files.Path

/-!
Names in paths. Main statements: the folder of a path has the names of the path without the last
one, starts where the path starts, and is a part of its text unless it is a dot.
-/

namespace YoloLang.Path

variable {cs : List Char} {path : String} {segment : List Char} {ss ts : List (List Char)}

/-! Segments. -/

theorem segments_of_ne {c : Char} (other : c ≠ '/') (cs : List Char) :
    segments (c :: cs) = (segments cs).modifyHead (c :: ·) := by
  rw [segments.eq_3 _ _ other]
  cases rest : segments cs with
  | nil => exact absurd rest (segments_ne_nil cs)
  | cons => rfl

theorem segments_eq_splitOn (cs : List Char) : segments cs = cs.splitOn '/' := by
  induction cs with
  | nil => rfl
  | cons c cs ih =>
      rw [List.splitOn_cons_eq_if_modifyHead, ← ih]
      split_ifs with slash
      · obtain rfl := eq_of_beq slash
        rfl
      · exact segments_of_ne (by simpa using slash) cs

theorem slash_notMem (h : segment ∈ segments cs) : '/' ∉ segment := by
  induction cs generalizing segment with
  | nil => simp_all [segments]
  | cons c cs ih =>
      by_cases slash : c = '/'
      · subst slash
        rcases List.mem_cons.mp h with rfl | h
        · simp
        · exact ih h
      · rw [segments_of_ne slash] at h
        obtain ⟨first, rest, split⟩ := List.exists_cons_of_ne_nil (segments_ne_nil cs)
        rw [split] at h ih
        rcases List.mem_cons.mp h with rfl | h
        · simpa [Ne.symm slash] using ih List.mem_cons_self
        · exact ih (List.mem_cons_of_mem _ h)

theorem segments_joined (clean : ∀ segment ∈ ss, '/' ∉ segment) (some : ss ≠ []) :
    segments (joined ss) = ss := by
  rw [segments_eq_splitOn, joined, List.splitOn_intercalate '/' clean some]

theorem joined_begins (h : ss <+: ts) : joined ss <+: joined ts := by
  induction ss generalizing ts with
  | nil => exact List.nil_prefix
  | cons s ss ih =>
      obtain ⟨rest, rfl⟩ := h
      cases ss with
      | nil =>
        cases rest with
        | nil => exact List.prefix_rfl
        | cons t rest => exact ⟨'/' :: joined (t :: rest), by simp [joined]⟩
      | cons s' ss =>
        have more := ih (List.prefix_append (s' :: ss) rest)
        simpa [joined, List.intercalate_cons_cons] using more

/-! Segments that name something. -/

def names (cs : List Char) : List (List Char) := (segments cs).filter (!namesNothing ·)

theorem names_joined (clean : ∀ segment ∈ ss, '/' ∉ segment) :
    names (joined ss) = ss.filter (!namesNothing ·) := by
  cases ss with
  | nil => rfl
  | cons s ss => rw [names, segments_joined clean (List.cons_ne_nil s ss)]

theorem dropIdle_begins (ss : List (List Char)) : dropIdle ss <+: ss :=
  List.rdropWhile_prefix _ ss

theorem filter_dropIdle (ss : List (List Char)) :
    (dropIdle ss).filter (!namesNothing ·) = ss.filter (!namesNothing ·) := by
  induction ss using List.reverseRecOn with
  | nil => rfl
  | append_singleton ss s ih =>
      by_cases idle : namesNothing s = true
      · have same : dropIdle (ss ++ [s]) = dropIdle ss := List.rdropWhile_concat_pos _ _ _ idle
        simp [same, ih, idle]
      · have same : dropIdle (ss ++ [s]) = ss ++ [s] := List.rdropWhile_concat_neg _ _ _ idle
        rw [same]

/-- The last segment that is left names something, and is the last name. -/
theorem dropIdle_cases (cs : List Char) :
    dropIdle (segments cs) = [] ∧ names cs = [] ∨
      ∃ before name, dropIdle (segments cs) = before ++ [name] ∧
        names cs = before.filter (!namesNothing ·) ++ [name] := by
  rw [names, ← filter_dropIdle]
  obtain none | ⟨before, name, cut⟩ := (dropIdle (segments cs)).eq_nil_or_concat
  · exact .inl ⟨none, by rw [none]; rfl⟩
  · have busy := List.rdropWhile_last_not namesNothing (segments cs)
    rw [List.concat_eq_append] at cut
    have same : (segments cs).rdropWhile namesNothing = before ++ [name] := cut
    simp only [same] at busy
    exact .inr ⟨before, name, cut, by simp_all⟩

/-! The last segment. -/

def last (cs : List Char) : List Char := (segments cs).getLast (segments_ne_nil cs)

theorem dropLast_append_last (cs : List Char) : (segments cs).dropLast ++ [last cs] = segments cs :=
  List.dropLast_append_getLast _

theorem last_of_segments {name : List Char} (h : segments cs = ss ++ [name]) : last cs = name := by
  simp [last, h]

theorem names_of_last (busy : namesNothing (last cs) = false) :
    names cs = (segments cs).dropLast.filter (!namesNothing ·) ++ [last cs] := by
  rw [names]
  conv_lhs => rw [← dropLast_append_last]
  simp [busy]

/-- A path ends in a name that a file can have. -/
def NamesFile (path : String) : Prop := last path.toList ∉ [[], ['.'], ['.', '.']]

instance (path : String) : Decidable (NamesFile path) := inferInstanceAs (Decidable (_ ∉ _))

theorem proper_iff : segment ∉ [[], ['.'], ['.', '.']] ↔
    namesNothing segment = false ∧ segment ≠ ['.', '.'] := by
  simp [namesNothing, and_assoc]

theorem NamesFile.busy (h : NamesFile path) : namesNothing (last path.toList) = false :=
  (proper_iff.mp h).1

/-! Folders. -/

theorem front_append (cs : List Char) : (front cs).1 ++ (front cs).2 = cs := by
  fun_cases front cs <;> rfl

theorem head?_front (cs : List Char) : cs.head? = some '/' ↔ (front cs).1 = ['/'] := by
  fun_cases front cs with
  | case1 | case2 | case3 => simp
  | case4 _ other =>
      constructor
      · intro starts
        obtain ⟨rest, rfl⟩ := List.head?_eq_some_iff.mp starts
        exact absurd rfl (other rest)
      · intro starts
        contradiction

/-- What stands in front of a path names nothing. -/
theorem names_front_append {rest : List Char} (begins : rest <+: (front cs).2) :
    names ((front cs).1 ++ rest) = names rest := by
  fun_cases front cs with
  | case1 | case4 => rfl
  | case2 =>
      obtain rfl := List.prefix_nil.mp begins
      rfl
  | case3 cs =>
      cases rest with
      | nil => rfl
      | cons c rest =>
          obtain ⟨rfl, -⟩ := List.cons_prefix_cons.mp begins
          rfl

theorem names_front (cs : List Char) : names cs = names (front cs).2 := by
  rw [← names_front_append List.prefix_rfl, front_append]

theorem front_append_begins {rest : List Char} (begins : rest <+: (front cs).2) :
    (front cs).1 ++ rest <+: cs := by
  conv_rhs => rw [← front_append cs]
  exact (List.prefix_append_right_inj _).mpr begins

theorem toList_folder {text : List Char} (parent : parent? path = some (String.ofList text)) :
    (folder path).toList = if text = [] then ['.'] else text := by
  cases text <;> simp [folder, parent]

/-- What a folder keeps of the text of a path. -/
theorem exists_kept (named : names path.toList ≠ []) :
    ∃ rest, rest <+: (front path.toList).2 ∧ names rest = (names path.toList).dropLast ∧
      (folder path).toList =
        if (front path.toList).1 ++ rest = [] then ['.'] else (front path.toList).1 ++ rest := by
  have same := names_front path.toList
  obtain ⟨-, none⟩ | ⟨before, name, cut, filtered⟩ := dropIdle_cases (front path.toList).2
  · rw [same, none] at named
    contradiction
  · have begins : before <+: segments (front path.toList).2 :=
      (List.prefix_append before [name]).trans (cut ▸ dropIdle_begins _)
    have kept := (dropIdle_begins before).trans begins
    refine ⟨joined (dropIdle before), ?_, ?_, ?_⟩
    · simpa only [joined_segments] using joined_begins kept
    · rw [names_joined fun s h => slash_notMem (kept.subset h), filter_dropIdle, same,
        filtered, List.dropLast_concat]
    · exact toList_folder (by simp [parent?, cut])

/-- The folder of a path without names is a dot. -/
theorem folder_of_unnamed (unnamed : names path.toList = []) : folder path = "." := by
  rw [names_front] at unnamed
  obtain ⟨cut, -⟩ | ⟨before, name, -, filtered⟩ := dropIdle_cases (front path.toList).2
  · simp only [folder, parent?, cut]
    split <;> simp_all
  · simp [filtered] at unnamed

/-- The folder of a path has all names of the path but the last. -/
theorem names_folder (path : String) :
    names (folder path).toList = (names path.toList).dropLast := by
  by_cases unnamed : names path.toList = []
  · rw [folder_of_unnamed unnamed, unnamed]
    rfl
  · obtain ⟨rest, begins, kept, text⟩ := exists_kept unnamed
    rw [text, ← kept, ← names_front_append begins]
    split_ifs with nothing
    · rw [nothing]
      rfl
    · rfl

theorem head?_folder (named : names path.toList ≠ []) :
    (folder path).toList.head? = some '/' ↔ path.toList.head? = some '/' := by
  obtain ⟨rest, begins, -, text⟩ := exists_kept named
  rw [text]
  split_ifs with nothing
  · obtain ⟨none, -⟩ := List.append_eq_nil_iff.mp nothing
    simp [head?_front, none]
  · obtain ⟨more, whole⟩ := front_append_begins begins
    rw [← List.head?_append_of_ne_nil _ nothing, whole]

theorem folder_cases (path : String) :
    folder path = "." ∨ folder path ≠ "" ∧ (folder path).toList <+: path.toList := by
  by_cases unnamed : names path.toList = []
  · exact .inl (folder_of_unnamed unnamed)
  · obtain ⟨rest, begins, -, text⟩ := exists_kept unnamed
    split_ifs at text with nothing
    · exact .inl (String.toList_inj.mp text)
    · refine .inr ⟨fun empty => nothing ?_, ?_⟩
      · rw [← text, empty]
        rfl
      · rw [text]
        exact front_append_begins begins

end YoloLang.Path
