import YoloLang.Proofs.Compile
import YoloLang.Proofs.Heralds
import YoloLang.Proofs.Lines

/-!
Labels. Main statement: a program that is accepted has one line for each of its labels, in their
order, and jumps to no others, and a program with nothing else against it is refused for the first
GOTO to a label that it does not have.
-/

namespace YoloLang

open Leaf

theorem Program.behind_eq (p : Program) {m : Mention} {words : List Keyword}
    (said : m.SaidBy words) : behind words p.tokens = mentioned m p.leaves :=
  p.heralded.behind_eq rfl said

namespace Declarations

/-- The place that is kept of a label is that of the first token that seeks it. -/
theorem find_of_mem_gotos {ls : List Leaf} {g : String × Span} (mem : g ∈ (ofLeaves ls).gotos) :
    ∃ t, (mentioned .sought ls).find? (·.text = g.1) = some t ∧ t.span = g.2 := by
  induction ls using List.reverseRecOn with
  | nil => contradiction
  | append_singleton ls l ih =>
      have kept (mem : g ∈ (ofLeaves ls).gotos) :
          ∃ t, (mentioned .sought (ls ++ [l])).find? (·.text = g.1) = some t ∧ t.span = g.2 := by
        obtain ⟨t, first, place⟩ := ih mem
        refine ⟨t, ?_, place⟩
        rw [mentioned_snoc]
        split
        · rw [List.find?_append, first, Option.some_or]
        · exact first
      rw [ofLeaves_snoc, gotos_mention] at mem
      split at mem
      · rename_i new
        obtain mem | mem := List.mem_append.mp mem
        · exact kept mem
        · obtain rfl := List.mem_singleton.mp mem
          refine ⟨l.token, ?_, rfl⟩
          have none : (mentioned .sought ls).find? (·.text = l.token.text) = none := by
            rw [List.find?_eq_none]
            intro t mem same
            rw [fst_gotos, ← map_text_mentioned] at new
            exact new.2 (of_decide_eq_true same ▸ List.mem_map_of_mem mem)
          rw [mentioned_snoc, if_pos new.1, List.find?_append, none]
          simp
      · exact kept mem

end Declarations

/-- The first name that is missing is that of the first token that seeks one. -/
theorem FirstMissing.find_eq {known : List String} {ls : List Leaf} {i : Nat} {l : Leaf}
    (h : FirstMissing known ls i l) :
    (mentioned .sought ls).find? (·.text ∉ known) = some l.token := by
  have none : (mentioned .sought (ls.take i)).find? (·.text ∉ known) = none := by
    rw [List.find?_eq_none]
    intro t mem
    have mem := List.mem_map_of_mem (f := Token.text) mem
    rw [map_text_mentioned] at mem
    simpa using h.first _ mem
  rw [← take_snoc_drop h.found, mentioned_append, mentioned_snoc, if_pos h.sought]
  simp only [List.find?_append, none]
  simp [h.missing]

/-- What these tokens, names and lines of C have of labels in common. A name has no blank, unlike
what stands behind the name in a line that gives a value to a variable called goto. -/
structure Labelled (tokens : List Token) (d : Declarations) (lines : List (List Char)) : Prop where
  given : d.labels = (behind [.LABEL] tokens).map Token.text
  once : d.labels.Nodup
  markers : lines.filter (·.getLast? = some ':') = d.labels.map fun name => (name ++ ":").toList
  jumps : ∀ name : String, ' ' ∉ name.toList → ("goto " ++ name ++ ";").toList ∈ lines →
    name ∈ d.labels
  sought : d.gotos.map Prod.fst = ((behind [.GOTO] tokens).map Token.text).eraseDups
  sites : ∀ g ∈ d.gotos, ∃ t, (behind [.GOTO] tokens).find? (·.text = g.1) = some t ∧ t.span = g.2

theorem Translation.labelled {tokens : List Token} {p : Program} {file : CFile} {d : Declarations}
    (h : Translation tokens p file d) : Labelled tokens d (Text.lines file.code.toList) := by
  have code : Text.lines file.code.toList = p.lines.map (·.text.toList) := by
    rw [h.code, p.lines_code]
  have labels : d.labels = names .marked p.leaves := by
    rw [h.declarations, Declarations.labels_ofLeaves,
      Declarations.eraseDups_of_nodup h.named.unique]
  have given : (behind [.LABEL] tokens).map Token.text = names .marked p.leaves := by
    rw [← h.derived, p.behind_eq Mention.marked_saidBy, map_text_mentioned]
  have seeking : behind [.GOTO] tokens = mentioned .sought p.leaves := by
    rw [← h.derived, p.behind_eq Mention.sought_saidBy]
  constructor
  case given => rw [labels, given]
  case once => exact labels ▸ h.named.unique
  case markers => rw [code, CText.filter_lines, labels, p.filterMap_lines (.inl rfl)]
  case jumps =>
    intro name word mem
    rw [code] at mem
    obtain ⟨l, mem, same⟩ := List.mem_map.mp mem
    have jumps := CText.Line.sought_of_text word (String.toList_inj.mp same)
    have sought : name ∈ names .sought p.leaves := by
      rw [← p.filterMap_lines (.inr rfl)]
      exact List.mem_filterMap.mpr ⟨l, mem, jumps⟩
    exact labels ▸ h.named.resolved name sought
  case sought => rw [h.declarations, Declarations.map_fst_gotos, seeking, map_text_mentioned]
  case sites =>
    intro g mem
    rw [seeking]
    exact Declarations.find_of_mem_gotos (h.declarations ▸ mem)

namespace Reading

variable {σ : Type} {source path : String} {o : Observer σ} {s : σ}

theorem labelled_of_result {d : Declarations}
    (result : (ofFeed o (.ofCursor (.ofSource source)) (.empty path) s).result = .ok d) :
    ∃ tokens, tokenize source = .ok tokens ∧
      Labelled tokens d (Text.lines
        (ofFeed o (.ofCursor (.ofSource source)) (.empty path) s).file.code.toList) := by
  have lexed := tokenize_of_result result
  obtain ⟨clean, -⟩ := tokenize_eq_ok.mp lexed
  refine ⟨_, lexed, ?_⟩
  obtain ⟨p, d', result', translation⟩ | ⟨fault, k, failed, -⟩ := outcome clean o path s
  · obtain rfl := Except.ok.inj (result.symm.trans result')
    exact translation.labelled
  · rw [result] at failed
    contradiction

theorem result_of_missing {p : Program} (lexed : tokenize source = .ok p.tokens)
    (orderly : Orderly p.leaves) {t : Token}
    (first : (mentioned .sought p.leaves).find? (·.text ∉ names .marked p.leaves) = some t) :
    (ofFeed o (.ofCursor (.ofSource source)) (.empty path) s).result =
      .error ⟨.naming (.undeclaredLabel t.text), some t.span⟩ := by
  obtain ⟨clean, tokens⟩ := tokenize_eq_ok.mp lexed
  obtain ⟨q, d, -, translation⟩ | ⟨⟨fault, span⟩, k, failed, found, place⟩ :=
    outcome clean o path s
  · obtain ⟨same, -⟩ := translation.only p tokens.symm
    have sought : t.text ∈ names .sought p.leaves := by
      rw [← map_text_mentioned]
      exact List.mem_map_of_mem (List.mem_of_find?_eq_some first)
    have known := translation.named.resolved t.text (same ▸ sought)
    rw [← same] at known
    simpa [known] using List.find?_some first
  · obtain ⟨l, missing, cause⟩ := found.missing_of_orderly tokens.symm orderly
    obtain rfl : l.token = t := Option.some.inj (missing.find_eq.symm.trans first)
    have here : (Feed.ofCursor (.ofSource source)).ahead[k]? = some l.token := by
      rw [tokens, Program.tokens, List.getElem?_map, missing.found]
      rfl
    have token : (Feed.ofCursor (.ofSource source)).token k = l.token := by
      rw [Feed.token, here]
      rfl
    obtain rfl : fault = .naming (.undeclaredLabel l.token.text) := cause
    obtain rfl : span = some l.token.span := token ▸ place
    exact failed

/-- An accepted program marks the place of each label once and jumps to no other place. A program
with nothing against it but labels that are missing is refused for the first GOTO to one. -/
theorem labels_of_source (source path : String) (o : Observer σ) (s : σ) :
    let r := ofFeed o (.ofCursor (.ofSource source)) (.empty path) s
    (∀ d, r.result = .ok d → ∃ tokens, tokenize source = .ok tokens ∧
        Labelled tokens d (Text.lines r.file.code.toList)) ∧
      ∀ p : Program, tokenize source = .ok p.tokens → Orderly p.leaves → ∀ t,
        (behind [.GOTO] p.tokens).find?
            (·.text ∉ (behind [.LABEL] p.tokens).map Token.text) = some t →
          r.result = .error ⟨.naming (.undeclaredLabel t.text), some t.span⟩ := by
  intro r
  refine ⟨fun d result => labelled_of_result result, ?_⟩
  intro p lexed orderly t first
  rw [p.behind_eq Mention.sought_saidBy, p.behind_eq Mention.marked_saidBy,
    map_text_mentioned] at first
  exact result_of_missing lexed orderly first

theorem labels_of_jumps :
    (∃ d tokens, tokenize "GOTO a\nLABEL a" = .ok tokens ∧
        Labelled tokens d (Text.lines "goto a;\na:\nreturn 0;\n\x7d\n".toList)) ∧
      (ofFeed Observer.silent (.ofCursor (.ofSource "GOTO a\nGOTO b\nLABEL a"))
          (.empty "out.c") ()).result =
        .error ⟨.naming (.undeclaredLabel "b"), some ⟨12, 1, 2, 6⟩⟩ := by
  constructor
  · obtain ⟨d, result, code⟩ : ∃ d,
        (ofFeed Observer.silent (.ofCursor (.ofSource "GOTO a\nLABEL a")) (.empty "out.c")
            ()).result = .ok d ∧
          (ofFeed Observer.silent (.ofCursor (.ofSource "GOTO a\nLABEL a")) (.empty "out.c")
            ()).file.code = "goto a;\na:\nreturn 0;\n\x7d\n" := ⟨_, by cbv, by cbv⟩
    have accepted := (labels_of_source "GOTO a\nLABEL a" "out.c" Observer.silent ()).1 d result
    rw [← code]
    exact ⟨d, accepted⟩
  · obtain ⟨tokens, lexed, first⟩ : ∃ tokens,
        tokenize "GOTO a\nGOTO b\nLABEL a" = .ok tokens ∧
          (behind [.GOTO] tokens).find? (·.text ∉ (behind [.LABEL] tokens).map Token.text) =
            some ⟨"b", .identifier, ⟨12, 1, 2, 6⟩⟩ := ⟨_, by cbv, by cbv⟩
    obtain ⟨span, failed⟩ : ∃ span, ((⟨"out.c", none⟩ : Compiler).compileText
        "GOTO a\nGOTO b\nLABEL a").1 = .error ⟨.naming (.undeclaredLabel "b"), span⟩ :=
      ⟨_, by cbv⟩
    obtain ⟨_, _, compiled, -⟩ | ⟨_, i, failed', missing, -⟩ :=
      Compiler.compileText_outcome ⟨"out.c", none⟩ lexed
    · simp [compiled] at failed
    · obtain rfl := Except.error.inj (failed'.symm.trans failed)
      obtain ⟨⟨p, rfl⟩, all⟩ := missing
      obtain ⟨orderly, -⟩ := all p rfl
      exact (labels_of_source _ "out.c" Observer.silent ()).2 p lexed orderly _ first

end Reading
end YoloLang
