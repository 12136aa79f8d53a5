import Mathlib.Data.List.Induction
import YoloLang.Declarations
import YoloLang.Grammar.Fault
import YoloLang.Proofs.Tree

/-!
The rules on names, as properties of the leaves of a program in their order. Main statements: what
is kept of the names says of the next leaf whether the rules still hold with it, and at the end
whether a label that is sought is missing.
-/

namespace YoloLang

/-- Whether a value has to be there before. -/
def Mention.reads : Mention → Bool
  | operand | stepped => true
  | target | marked | sought => false

namespace Leaf

def reads (l : Leaf) : Bool := l.mention.any Mention.reads

/-- The names that are mentioned in this way, in their order. -/
def names (m : Mention) (ls : List Leaf) : List String :=
  (ls.filter fun l => l.mention = some m).map (·.token.text)

theorem names_append (m : Mention) (xs ys : List Leaf) :
    names m (xs ++ ys) = names m xs ++ names m ys := by
  simp [names]

theorem mem_names {m : Mention} {ls : List Leaf} {i : Nat} {l : Leaf} (found : ls[i]? = some l)
    (mention : l.mention = some m) : l.token.text ∈ names m ls := by
  refine List.mem_map_of_mem (List.mem_filter.mpr ⟨List.mem_of_getElem? found, ?_⟩)
  simp [mention]

theorem names_single (m : Mention) (l : Leaf) :
    names m [l] = if l.mention = some m then [l.token.text] else [] := by
  rw [names]
  split <;> simp_all

section Rows

variable {m : Mention} {ls : List Leaf}

theorem names_nil : names m [] = [] := rfl

theorem names_plain (t : Token) (ls : List Leaf) : names m (plain t :: ls) = names m ls := rfl

theorem names_naming (m' : Mention) (t : Token) (ls : List Leaf) :
    names m (naming m' t :: ls) = if m' = m then t.text :: names m ls else names m ls := by
  simp only [names, naming, List.filter_cons, Option.some.injEq, decide_eq_true_eq]
  split <;> rfl

theorem names_lines (ts : List (Terminal .newline)) : names m (ts.map (plain ·.1)) = [] := by
  induction ts with
  | nil => rfl
  | cons t ts ih => exact ih

/-- The tokens that are mentioned in this way, in their order. -/
def mentioned (m : Mention) (ls : List Leaf) : List Token :=
  (ls.filter fun l => l.mention = some m).map Leaf.token

theorem map_text_mentioned : (mentioned m ls).map Token.text = names m ls := by
  rw [mentioned, List.map_map]
  rfl

theorem mentioned_cons (l : Leaf) :
    mentioned m (l :: ls) =
      if l.mention = some m then l.token :: mentioned m ls else mentioned m ls := by
  rw [mentioned, List.filter_cons]
  split <;> simp_all [mentioned]

theorem mentioned_append (xs ys : List Leaf) :
    mentioned m (xs ++ ys) = mentioned m xs ++ mentioned m ys := by
  simp [mentioned]

theorem mentioned_snoc (l : Leaf) :
    mentioned m (ls ++ [l]) =
      if l.mention = some m then mentioned m ls ++ [l.token] else mentioned m ls := by
  rw [mentioned_append]
  split <;> simp_all [mentioned]

end Rows

end Leaf

open Leaf

/-- The rules that hold of every beginning of a program if they hold of all of it. -/
structure Orderly (ls : List Leaf) : Prop where
  declared : ∀ i l, ls[i]? = some l → l.reads = true →
    l.token.text ∈ names .target (ls.take i)
  unique : (names .marked ls).Nodup

structure WellNamed (ls : List Leaf) : Prop extends Orderly ls where
  resolved : ∀ name ∈ names .sought ls, name ∈ names .marked ls

theorem orderly_nil : Orderly [] := ⟨by simp, List.nodup_nil⟩

theorem Orderly.of_append {xs ys : List Leaf} (h : Orderly (xs ++ ys)) : Orderly xs := by
  refine ⟨?_, ?_⟩
  · intro i l found reads
    have inside : i < xs.length := (List.getElem?_eq_some_iff.mp found).1
    have known := h.declared i l (by rw [List.getElem?_append_left inside, found]) reads
    rwa [List.take_append_of_le_length (Nat.le_of_lt inside)] at known
  · have unique := h.unique
    rw [names_append] at unique
    exact (List.nodup_append.mp unique).1

theorem orderly_snoc {ls : List Leaf} {l : Leaf} :
    Orderly (ls ++ [l]) ↔ Orderly ls ∧
      (l.reads = true → l.token.text ∈ names .target ls) ∧
      (l.mention = some .marked → l.token.text ∉ names .marked ls) := by
  constructor
  · intro h
    refine ⟨h.of_append, ?_, ?_⟩
    · intro reads
      simpa using h.declared ls.length l (by simp) reads
    · intro marked
      have unique := h.unique
      rw [names_append, names_single, if_pos marked] at unique
      exact fun mem => (List.nodup_append.mp unique).2.2 _ mem _ (List.mem_singleton.mpr rfl) rfl
  · rintro ⟨h, known, new⟩
    refine ⟨?_, ?_⟩
    · intro i l' found reads
      by_cases inside : i < ls.length
      · rw [List.getElem?_append_left inside] at found
        rw [List.take_append_of_le_length (Nat.le_of_lt inside)]
        exact h.declared i l' found reads
      · have bound := (List.getElem?_eq_some_iff.mp found).1
        have last : i = ls.length := by
          simp only [List.length_append, List.length_singleton] at bound
          omega
        subst last
        obtain rfl : l = l' := by simpa using found
        simpa using known reads
    · rw [names_append, names_single]
      split
      · rename_i marked
        have none := new marked
        refine List.nodup_append.mpr ⟨h.unique, by simp, ?_⟩
        intro a mem b
        rw [List.mem_singleton]
        rintro rfl rfl
        exact none mem
      · simpa using h.unique

theorem take_snoc_drop {ls : List Leaf} {i : Nat} {l : Leaf} (found : ls[i]? = some l) :
    ls.take i ++ [l] ++ ls.drop (i + 1) = ls := by
  have next : ls.take (i + 1) = ls.take i ++ [l] := by simp [List.take_add_one, found]
  rw [← next, List.take_append_drop]

theorem Orderly.not_marked_before {ls : List Leaf} (h : Orderly ls) {i : Nat} {l : Leaf}
    (found : ls[i]? = some l) (marked : l.mention = some .marked) :
    l.token.text ∉ names .marked (ls.take i) := by
  rw [← take_snoc_drop found] at h
  exact (orderly_snoc.mp h.of_append).2.2 marked

/-- A name is sought here that is not among these, and no such name is sought before. -/
structure FirstMissing (known : List String) (ls : List Leaf) (i : Nat) (l : Leaf) : Prop where
  found : ls[i]? = some l
  sought : l.mention = some .sought
  missing : l.token.text ∉ known
  first : ∀ name ∈ names .sought (ls.take i), name ∈ known

theorem FirstMissing.append {known : List String} {ls : List Leaf} {i : Nat} {l : Leaf}
    (h : FirstMissing known ls i l) (more : List Leaf) : FirstMissing known (ls ++ more) i l := by
  have inside : i < ls.length := (List.getElem?_eq_some_iff.mp h.found).1
  refine ⟨?_, h.sought, h.missing, ?_⟩
  · rw [List.getElem?_append_left inside, h.found]
  · rw [List.take_append_of_le_length (Nat.le_of_lt inside)]
    exact h.first

namespace Declarations

def mention (d : Declarations) (l : Leaf) : Declarations :=
  match l.mention with
  | some .target => d.addVar l.token.text
  | some .marked => d.addLabel l.token.text
  | some .sought => d.addGoto l.token.text l.token.span
  | _ => d

def ofLeaves (ls : List Leaf) : Declarations := ls.foldl mention empty

/-- What the rules on names hold against a leaf. -/
def objection? (d : Declarations) (l : Leaf) : Option NameFault :=
  match l.mention with
  | some .operand | some .stepped =>
      if l.token.text ∈ d.vars then none else some (.undeclaredVariable l.token.text)
  | some .marked =>
      if l.token.text ∈ d.labels then some (.duplicateLabel l.token.text) else none
  | _ => none

theorem ofLeaves_snoc (ls : List Leaf) (l : Leaf) :
    ofLeaves (ls ++ [l]) = (ofLeaves ls).mention l := by
  simp [ofLeaves]

theorem eraseDups_snoc (names : List String) (name : String) :
    (names ++ [name]).eraseDups =
      if name ∈ names.eraseDups then names.eraseDups else names.eraseDups ++ [name] := by
  rw [List.eraseDups_append]
  by_cases mem : name ∈ names
  · simp [mem, List.removeAll]
  · simp [mem, List.removeAll, List.eraseDups_cons]

theorem nodup_eraseDups (names : List String) : names.eraseDups.Nodup := by
  induction names using List.reverseRecOn with
  | nil => exact List.nodup_nil
  | append_singleton names name ih =>
      rw [eraseDups_snoc]
      split
      · exact ih
      · rename_i new
        refine List.nodup_append.mpr ⟨ih, by simp, ?_⟩
        simpa using fun a mem => ne_of_mem_of_not_mem mem new

theorem eraseDups_of_nodup {names : List String} (once : names.Nodup) :
    names.eraseDups = names := by
  induction names using List.reverseRecOn with
  | nil => rfl
  | append_singleton names name ih =>
      obtain ⟨before, -, apart⟩ := List.nodup_append.mp once
      have new : name ∉ names := fun mem => apart name mem name (by simp) rfl
      rw [eraseDups_snoc, ih before, if_neg new]

theorem vars_addVar (d : Declarations) (name : String) :
    (d.addVar name).vars = if name ∈ d.vars then d.vars else d.vars ++ [name] := by
  rw [addVar]
  split <;> rfl

theorem labels_addLabel (d : Declarations) (name : String) :
    (d.addLabel name).labels = if name ∈ d.labels then d.labels else d.labels ++ [name] := by
  rw [addLabel]
  split <;> rfl

theorem vars_addLabel (d : Declarations) (name : String) : (d.addLabel name).vars = d.vars := by
  rw [addLabel]
  split <;> rfl

theorem vars_addGoto (d : Declarations) (name : String) (span : Span) :
    (d.addGoto name span).vars = d.vars := by
  rw [addGoto]
  split <;> rfl

theorem vars_mention (d : Declarations) (l : Leaf) :
    (d.mention l).vars =
      if l.mention = some .target then (d.addVar l.token.text).vars else d.vars := by
  rw [mention]
  split <;> simp_all [vars_addLabel, vars_addGoto]

theorem labels_mention (d : Declarations) (l : Leaf) :
    (d.mention l).labels =
      if l.mention = some .marked then (d.addLabel l.token.text).labels else d.labels := by
  rw [mention]
  split <;> simp_all [addVar, addGoto, apply_ite labels]

theorem vars_ofLeaves (ls : List Leaf) : (ofLeaves ls).vars = (names .target ls).eraseDups := by
  induction ls using List.reverseRecOn with
  | nil => rfl
  | append_singleton ls l ih =>
      rw [ofLeaves_snoc, vars_mention, names_append, names_single]
      split
      · rw [vars_addVar, ih, eraseDups_snoc]
      · rw [ih, List.append_nil]

theorem labels_ofLeaves (ls : List Leaf) :
    (ofLeaves ls).labels = (names .marked ls).eraseDups := by
  induction ls using List.reverseRecOn with
  | nil => rfl
  | append_singleton ls l ih =>
      rw [ofLeaves_snoc, labels_mention, names_append, names_single]
      split
      · rw [labels_addLabel, ih, eraseDups_snoc]
      · rw [ih, List.append_nil]

/-- A leaf that nothing is held against keeps the rules, and only such a leaf does. -/
theorem orderly_snoc_iff {ls : List Leaf} {l : Leaf} (h : Orderly ls) :
    Orderly (ls ++ [l]) ↔ (ofLeaves ls).objection? l = none := by
  rw [orderly_snoc, objection?, vars_ofLeaves, labels_ofLeaves]
  cases named : l.mention with
  | none => simp [reads, named, h]
  | some m => cases m <;> simp [reads, named, Mention.reads, h]

theorem objection_eq_undeclared {d : Declarations} {l : Leaf} {name : String} :
    d.objection? l = some (.undeclaredVariable name) ↔
      l.reads = true ∧ l.token.text = name ∧ name ∉ d.vars := by
  rw [objection?]
  cases named : l.mention with
  | none => simp [reads, named]
  | some m => cases m <;> simp only [reads, named, Option.any_some, Mention.reads] <;> grind

theorem objection_eq_duplicate {d : Declarations} {l : Leaf} {name : String} :
    d.objection? l = some (.duplicateLabel name) ↔
      l.mention = some .marked ∧ l.token.text = name ∧ name ∈ d.labels := by
  rw [objection?]
  cases named : l.mention with
  | none => simp
  | some m => cases m <;> grind

/-- A name that is read and that nothing is held against has its value. -/
theorem mem_vars_of_reads {d : Declarations} {l : Leaf} (reads : l.reads = true)
    (free : d.objection? l = none) : l.token.text ∈ d.vars := by
  by_contra unknown
  have bars := objection_eq_undeclared.mpr ⟨reads, rfl, unknown⟩
  rw [free] at bars
  contradiction

/-- Against a name that is read it is only held that it has no value. -/
theorem not_mem_vars_of_reads {d : Declarations} {l : Leaf} {fault : NameFault}
    (reads : l.reads = true) (bars : d.objection? l = some fault) :
    l.token.text ∉ d.vars ∧ fault = .undeclaredVariable l.token.text := by
  rw [objection?] at bars
  cases named : l.mention with
  | none => simp [Leaf.reads, named] at reads
  | some m =>
      cases m <;> simp [Leaf.reads, named, Mention.reads] at reads bars
      all_goals exact ⟨bars.1, bars.2.symm⟩

theorem objection_ne_undeclaredLabel (d : Declarations) (l : Leaf) (name : String) :
    d.objection? l ≠ some (.undeclaredLabel name) := by
  rw [objection?]
  repeat' split
  all_goals simp

/-! The labels that are sought. -/

theorem gotos_mention (d : Declarations) (l : Leaf) :
    (d.mention l).gotos =
      if l.mention = some .sought ∧ l.token.text ∉ d.gotos.map Prod.fst then
        d.gotos ++ [(l.token.text, l.token.span)]
      else d.gotos := by
  by_cases sought : l.mention = some .sought
  · by_cases known : l.token.text ∈ d.gotos.map Prod.fst <;>
      simp only [mention, addGoto, sought, known, if_true, if_false, not_true, not_false_eq_true,
        and_self, and_false]
  · rw [if_neg (fun h => sought h.1)]
    rw [mention]
    split <;> simp_all [addVar, addLabel, apply_ite gotos]

theorem map_fst_gotos (ls : List Leaf) :
    (ofLeaves ls).gotos.map Prod.fst = (names .sought ls).eraseDups := by
  induction ls using List.reverseRecOn with
  | nil => rfl
  | append_singleton ls l ih =>
      rw [ofLeaves_snoc, gotos_mention, names_append, names_single, ih]
      by_cases sought : l.mention = some .sought
      · rw [if_pos sought, eraseDups_snoc]
        split <;> simp_all
      · simp [sought, ih]

theorem fst_gotos (ls : List Leaf) (name : String) :
    name ∈ (ofLeaves ls).gotos.map Prod.fst ↔ name ∈ names .sought ls := by
  rw [map_fst_gotos, List.mem_eraseDups]

theorem firstMissing_of_find {known : List String} {ls : List Leaf} {g : String × Span}
    (h : (ofLeaves ls).gotos.find? (fun (name, _) => name ∉ known) = some g) :
    ∃ i l, FirstMissing known ls i l ∧ (l.token.text, l.token.span) = g := by
  induction ls using List.reverseRecOn with
  | nil => simp [ofLeaves, empty] at h
  | append_singleton ls l ih =>
      rw [ofLeaves_snoc, gotos_mention] at h
      split at h
      · rename_i new
        rw [List.find?_append] at h
        cases before : (ofLeaves ls).gotos.find? (fun (name, _) => name ∉ known) with
        | some g' =>
            rw [before] at h
            obtain ⟨i, l', missing, same⟩ := ih (before.trans h)
            exact ⟨i, l', missing.append _, same⟩
        | none =>
            rw [before] at h
            obtain ⟨missing, rfl⟩ : l.token.text ∉ known ∧ (l.token.text, l.token.span) = g := by
              simpa [List.find?_singleton] using h
            refine ⟨ls.length, l, ⟨by simp, new.1, missing, ?_⟩, rfl⟩
            intro name mem
            have mem : name ∈ (ofLeaves ls).gotos.map Prod.fst := by
              simpa [fst_gotos] using mem
            obtain ⟨g, given, rfl⟩ := List.mem_map.mp mem
            simpa using List.find?_eq_none.mp before g given
      · obtain ⟨i, l', missing, same⟩ := ih h
        exact ⟨i, l', missing.append _, same⟩

/-- No label is missing when all that are sought are given. -/
theorem missingLabel_ofLeaves_eq_none (ls : List Leaf) :
    (ofLeaves ls).missingLabel? = none ↔ ∀ name ∈ names .sought ls, name ∈ names .marked ls := by
  simp only [missingLabel?_eq_none_iff, labels_ofLeaves, List.mem_eraseDups, ← fst_gotos ls]
  simp

theorem firstMissing_of_missingLabel {ls : List Leaf} {name : String} {span : Span}
    (h : (ofLeaves ls).missingLabel? = some (name, span)) :
    ∃ i l, FirstMissing (names .marked ls) ls i l ∧ l.token.text = name ∧ l.token.span = span := by
  have found : (ofLeaves ls).gotos.find? (fun (name, _) => name ∉ names .marked ls) =
      some (name, span) := by
    simpa [missingLabel?, labels_ofLeaves] using h
  obtain ⟨i, l, missing, same⟩ := firstMissing_of_find found
  obtain ⟨rfl, rfl⟩ := Prod.mk.inj same
  exact ⟨i, l, missing, rfl, rfl⟩

end Declarations
end YoloLang
