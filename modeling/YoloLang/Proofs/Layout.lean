import YoloLang.Proofs.LineByLine
import YoloLang.Proofs.Loosening
import YoloLang.Proofs.Widening

/-!
The layout of a text. Main statement: blanks beside tokens and comments before newlines change
nothing of a compilation but places, and further lines without a token change nothing of the C text
and the names of a text that is accepted.
-/

namespace YoloLang

open Leaf

/-- Blanks are put in directly before or behind a token, or a comment directly before a newline.
The newline that is added to every text is one of the tokens. -/
def Spaced (source source' : String) : Prop :=
  ∃ t ∈ (Feed.ofCursor (.ofSource source)).ahead, ∃ before added after : String,
    source ++ "\n" = before ++ after ∧ source' ++ "\n" = before ++ added ++ after ∧
      t.Takes before.utf8ByteSize added.toList

/-- A line of blanks, with or without a comment, is put in where a line begins. -/
def Lined (source source' : String) : Prop :=
  ∃ before line after : String, source ++ "\n" = before ++ after ∧
    source' ++ "\n" = before ++ line ++ "\n" ++ after ∧
      (∀ c ∈ before.toList.getLast?, c = '\n') ∧ Lexeme.Gap line.toList ['\n']

theorem Cursor.rest_ofSource (source : String) :
    (ofSource source).rest = (source ++ "\n").toList := by
  simp [ofSource]

variable {source source' : String}

theorem Spaced.same (h : Spaced source source') :
    (Feed.ofCursor (.ofSource source)).Same (.ofCursor (.ofSource source')) := by
  obtain ⟨t, mem, before, added, after, whole, whole', takes⟩ := h
  have rest : (Cursor.ofSource source).rest = before.toList ++ after.toList := by
    rw [Cursor.rest_ofSource, whole, String.toList_append]
  have rest' : (Cursor.ofSource source').rest =
      before.toList ++ (added.toList ++ after.toList) := by
    rw [Cursor.rest_ofSource, whole', String.toList_append, String.toList_append,
      List.append_assoc]
  have here : (Cursor.ofSource source).position.offset + utf8Length before.toList =
      before.utf8ByteSize := by
    rw [← utf8ByteSize_ofList, String.ofList_toList]
    exact Nat.zero_add _
  exact (loosened_of_mem mem rest here takes).same rest rest'

theorem same_of_spaced (h : Relation.ReflTransGen Spaced source source') :
    (Feed.ofCursor (.ofSource source)).Same (.ofCursor (.ofSource source')) := by
  induction h with
  | refl => exact .refl _
  | tail _ spaced ih => exact ih.trans spaced.same

/-! Texts with a further line. -/

/-- A line without a token is read as its end. -/
theorem Feed.ofCursor_line {line : List Char} (skips : Lexeme.Gap line ['\n']) (rest : List Char)
    (p : Position) (e : Bool) :
    ∃ t : Token, t.kind = .newline ∧ t.Lexed ∧
      Same ⟨t :: (ofCursor ⟨rest, p, e⟩).ahead, (ofCursor ⟨rest, p, e⟩).ending⟩
        (ofCursor ⟨line ++ '\n' :: rest, p, e⟩) := by
  have read : Lexeme.read ('\n' :: rest) = .ok ⟨.newline, ['\n']⟩ :=
    Lexeme.read_of_line .newline (List.mem_singleton.mpr rfl) rest
  have call := Cursor.nextToken_of_read (c := ⟨line ++ '\n' :: rest, p, e⟩) rfl
    (skips.of_head rfl) read rfl
  refine ⟨_, rfl, Cursor.lexed_of_nextToken call, ?_⟩
  rw [ofCursor_of_call call (by simp)]
  exact .cons (Token.agrees_refl _) (same_of_rest rfl)

/-- With a further line a text that is lexed has a further newline where a line begins. -/
theorem Lined.feed (h : Lined source source')
    {span : Span} (ends : (Feed.ofCursor (.ofSource source)).ending = .eof span) :
    ∃ (xs ys : List Token) (t : Terminal .newline),
      (Feed.ofCursor (.ofSource source)).ahead = xs ++ ys ∧
        (∀ l ∈ xs.getLast?, l.kind = .newline) ∧
          Feed.Same ⟨xs ++ t.1 :: ys, .eof span⟩ (.ofCursor (.ofSource source')) := by
  obtain ⟨before, line, after, whole, whole', lines, skips⟩ := h
  have cursor : Cursor.ofSource source = ⟨before.toList ++ after.toList, .start, false⟩ := by
    rw [← String.toList_append, ← whole, ← Cursor.rest_ofSource]
    rfl
  have cursor' : Cursor.ofSource source' =
      ⟨before.toList ++ (line.toList ++ '\n' :: after.toList), .start, false⟩ := by
    have rest := Cursor.rest_ofSource source'
    rw [whole'] at rest
    simpa [Cursor.ofSource] using rest
  have feed := Feed.ofCursor_append lines after.toList .start false
  rw [cursor] at ends ⊢
  rw [feed, Feed.append] at ends ⊢
  cases first : (Feed.ofCursor ⟨before.toList, .start, false⟩).ending with
  | fault fault => simp [first] at ends
  | eof span' =>
      simp only [first] at ends ⊢
      obtain ⟨t, kind, lexed, same⟩ :=
        Feed.ofCursor_line skips after.toList (Position.start.after before.toList) false
      refine ⟨_, _, ⟨t, kind, lexed⟩, rfl, Feed.kind_getLast lines _ _ first, ?_⟩
      rw [cursor', Feed.ofCursor_append lines, Feed.append, first, ← ends]
      exact same.append_left _

theorem Feed.Clean.put {f : Feed} (clean : f.Clean) {xs ys : List Token}
    (row : f.ahead = xs ++ ys) (t : Terminal .newline) (span : Span) :
    Clean ⟨xs ++ t.1 :: ys, .eof span⟩ := by
  have lexed := clean.lexed
  have before := clean.before
  simp only [row, List.forall_mem_append] at lexed before
  refine ⟨⟨span, rfl⟩, List.forall_mem_append.mpr ⟨lexed.1, ?_⟩,
    List.forall_mem_append.mpr ⟨before.1, ?_⟩⟩
  · exact List.forall_mem_cons.mpr ⟨t.2.2, lexed.2⟩
  · exact List.forall_mem_cons.mpr ⟨by simp [t.2.1], before.2⟩

namespace Reading

/-- A feed that has the tokens of a well named program is read as this program. -/
theorem translation_ofFeed {σ : Type} {f : Feed} (clean : f.Clean) {p : Program}
    (derived : p.tokens = f.ahead) (named : WellNamed p.leaves) (o : Observer σ) (path : String)
    (watcher : σ) :
    ∃ d, (ofFeed o f (.empty path) watcher).result = .ok d ∧
      Translation f.ahead p (ofFeed o f (.empty path) watcher).file d := by
  obtain ⟨q, d, result, translation⟩ | ⟨fault, k, -, first, -⟩ := outcome clean o path watcher
  · exact ⟨d, result, translation.of_tokens derived⟩
  · exact absurd named (first.not_wellNamed derived)

end Reading

theorem Declarations.alike_put (xs ys : List Leaf) (t : Token) :
    (ofLeaves (xs ++ ys)).Alike (ofLeaves (xs ++ plain t :: ys)) := by
  constructor
  case vars => rw [vars_ofLeaves, vars_ofLeaves, names_put]
  case labels => rw [labels_ofLeaves, labels_ofLeaves, names_put]
  case gotos => rw [map_fst_gotos, map_fst_gotos, names_put]

theorem Declarations.Alike.trans {a b d : Declarations} (h : a.Alike b) (h' : b.Alike d) :
    a.Alike d :=
  ⟨h.vars.trans h'.vars, h.labels.trans h'.labels, h.gotos.trans h'.gotos⟩

/-- Two compilations to the same C text with the same names. -/
structure Compilation.SameText (k k' : Compilation) : Prop where
  header : k.file.header = k'.file.header
  code : k.file.code = k'.file.code
  declarations : k.declarations.Alike k'.declarations

theorem Compilation.SameText.trans {a b d : Compilation} (h : a.SameText b) (h' : b.SameText d) :
    a.SameText d :=
  ⟨h.header.trans h'.header, h.code.trans h'.code, h.declarations.trans h'.declarations⟩

theorem Compilation.Alike.sameText {k k' : Compilation} (h : k.Alike k') : k.SameText k' :=
  ⟨congrArg CFile.header h.file, congrArg CFile.code h.file, h.declarations⟩

namespace Compiler

variable {c : Compiler} {k : Compilation}

/-- A further line changes nothing of the C text and the names of a text that is accepted. -/
theorem sameText_of_lined (h : (c.compileText source).1 = .ok k) (lined : Lined source source') :
    ∃ k', (c.compileText source').1 = .ok k' ∧ k.SameText k' := by
  obtain ⟨tokens, p, lexed, translation⟩ := translation_of_compileText h
  obtain ⟨clean, rfl⟩ := tokenize_eq_ok.mp lexed
  obtain ⟨span, ends⟩ := clean.ending
  obtain ⟨_, _, t, row, line, same⟩ := lined.feed ends
  obtain ⟨xs, ys, whole, rfl, rfl⟩ :=
    List.map_eq_append_iff.mp (translation.derived.trans row)
  -- The program with the further newline is read from the tokens of the first text.
  obtain ⟨q, leaves, code⟩ := p.exists_put whole (by simpa using line) t
  have clean' := clean.put row t span
  have derived : q.tokens = xs.map Leaf.token ++ t.1 :: ys.map Leaf.token := by
    rw [Program.tokens, leaves, List.map_append, List.map_cons]
    rfl
  have named : WellNamed q.leaves := leaves ▸ (whole ▸ translation.named).put t.1
  obtain ⟨σ, o, watcher, graph, placeless, compiled⟩ := c.exists_placeless
  obtain ⟨d, result, translation'⟩ :=
    Reading.translation_ofFeed clean' derived named o c.output watcher
  -- The second text has these tokens in other places.
  obtain ⟨told, file, -⟩ := Reading.same_ofFeed same placeless (.empty c.output) watcher
  obtain ⟨d', result', alike⟩ := (result ▸ told).of_ok
  refine ⟨_, by rw [compiled, finish_eq, result']; rfl, ?_⟩
  constructor
  case header =>
    rw [translation.header, ← file, translation'.header, Program.header, Program.header, leaves,
      names_put, whole]
  case code => rw [translation.code, ← file, translation'.code, code]
  case declarations =>
    rw [translation.declarations, whole]
    have names := Declarations.alike_put xs ys t.1
    rw [← leaves, ← translation'.declarations] at names
    exact names.trans alike

/-- Blanks beside tokens and comments before newlines change nothing but places, and what is refused
is refused for the same cause, so with the same message. Lines without a token change neither the C
text nor the names of a text that is accepted. -/
theorem compileText_of_layout (c : Compiler) (source : String) :
    (∀ source', Relation.ReflTransGen Spaced source source' →
        Told Compilation.Alike (c.compileText source).1 (c.compileText source').1) ∧
      ∀ k, (c.compileText source).1 = .ok k → ∀ source',
        Relation.ReflTransGen (fun a b => Spaced a b ∨ Lined a b) source source' →
          ∃ k', (c.compileText source').1 = .ok k' ∧ k.SameText k' := by
  refine ⟨fun source' spaced => c.told_compileText (same_of_spaced spaced), ?_⟩
  intro k compiled source' steps
  induction steps with
  | refl => exact ⟨k, compiled, rfl, rfl, rfl, rfl, rfl⟩
  | @tail b b' _ step ih =>
      obtain ⟨k₁, compiled₁, same₁⟩ := ih
      obtain spaced | lined := step
      · have told := c.told_compileText spaced.same
        rw [compiled₁] at told
        obtain ⟨k₂, compiled₂, alike⟩ := told.of_ok
        exact ⟨k₂, compiled₂, same₁.trans alike.sameText⟩
      · obtain ⟨k₂, compiled₂, same₂⟩ := sameText_of_lined compiled₁ lined
        exact ⟨k₂, compiled₂, same₁.trans same₂⟩

theorem layout_of_comments :
    (Relation.ReflTransGen Spaced "PRINT a" "PRINT  a# b" ∧
      Told Compilation.Alike ((⟨"out.c", none⟩ : Compiler).compileText "PRINT a").1
        ((⟨"out.c", none⟩ : Compiler).compileText "PRINT  a# b").1) ∧
      ∃ k k', ((⟨"out.c", none⟩ : Compiler).compileText "PRINT 1").1 = .ok k ∧
        Lined "PRINT 1" "# b\nPRINT 1" ∧
          ((⟨"out.c", none⟩ : Compiler).compileText "# b\nPRINT 1").1 = .ok k' ∧
            k.SameText k' := by
  obtain ⟨more, first⟩ : ∃ more, (Feed.ofCursor (.ofSource "PRINT a")).ahead =
      ⟨"PRINT", .keyword .PRINT, ⟨0, 5, 1, 1⟩⟩ :: more := ⟨_, by cbv⟩
  obtain ⟨word, name, third⟩ : ∃ word name, (Feed.ofCursor (.ofSource "PRINT  a")).ahead =
      [word, name, ⟨"\n", .newline, ⟨8, 1, 1, 9⟩⟩] := ⟨_, _, by cbv⟩
  have wider : Spaced "PRINT a" "PRINT  a" :=
    ⟨_, first ▸ List.mem_cons_self, "PRINT", " ", " a\n", rfl, rfl, .behind (by simp [Blanks]) rfl⟩
  have comment : Token.Takes ⟨"\n", .newline, ⟨8, 1, 1, 9⟩⟩ 8 ['#', ' ', 'b'] :=
    .comment rfl rfl (by simp)
  have commented : Spaced "PRINT  a" "PRINT  a# b" :=
    ⟨_, by rw [third]; simp, "PRINT  a", "# b", "\n", rfl, rfl, comment⟩
  have gap : Lexeme.Gap ([] ++ ['#', ' ', 'b']) ['\n'] := .comment (by simp) (by simp) (by simp)
  have lined : Lined "PRINT 1" "# b\nPRINT 1" :=
    ⟨"", "# b", "PRINT 1\n", rfl, rfl, by simp, gap⟩
  have spaced := (Relation.ReflTransGen.single wider).tail commented
  obtain ⟨k, compiled⟩ : ∃ k, ((⟨"out.c", none⟩ : Compiler).compileText "PRINT 1").1 = .ok k :=
    ⟨_, by cbv⟩
  obtain ⟨k', compiled', same⟩ :=
    (compileText_of_layout ⟨"out.c", none⟩ "PRINT 1").2 k compiled _ (.single (.inr lined))
  exact ⟨⟨spaced, (compileText_of_layout ⟨"out.c", none⟩ "PRINT a").1 _ spaced⟩,
    k, k', compiled, lined, compiled', same⟩

end Compiler
end YoloLang
