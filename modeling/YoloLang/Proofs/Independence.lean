import YoloLang.Proofs.Compile
import YoloLang.Proofs.Transport

/-!
What a reading depends on. Main statements: no observer makes a difference to anything but its own
state, and of sources that are read one after the other into one file each is read as it is alone,
its C text below that of those before it.
-/

namespace YoloLang

variable {σ τ : Type}

namespace Reading

/-- A source read alone. -/
def alone (o : Observer σ) (s : σ) (path source : String) : Reading σ :=
  ofFeed o (.ofCursor (.ofSource source)) (.empty path) s

/-- A source that is read into a file is read as it is alone, and its C text comes below. -/
theorem ofFeed_eq_alone (o : Observer σ) (s : σ) (base : CFile) (path source : String) :
    ofFeed o (.ofCursor (.ofSource source)) base s = (alone o s path source).carried id base := by
  have same : o.Tells o id := fun _ _ => rfl
  rw [alone, ← ofFeed_carried same, CFile.below_empty]
  rfl

/-- Whoever observes a reading, it gives the same result, C text and notes. -/
theorem ofFeed_unobserved (o : Observer σ) (s : σ) (o' : Observer τ) (s' : τ) (f : Feed)
    (file : CFile) :
    let r := ofFeed o f file s
    let r' := ofFeed o' f file s'
    r.result = r'.result ∧ r.file = r'.file ∧ r.journal = r'.journal := by
  simp only
  rw [ofFeed_eq_carried o, ofFeed_eq_carried o']
  exact ⟨rfl, rfl, rfl⟩

/-- The readings of sources one after the other into one file. Each has an observer of its own. -/
def series (o : Observer σ) (s : σ) (file : CFile) : List String → List (Reading σ)
  | [] => []
  | source :: rest =>
      let r := ofFeed o (.ofCursor (.ofSource source)) file s
      r :: series o s r.file rest

/-- A source is read in a series as it is alone, whatever became of those before it. The header and
the code are those of the sources up to this one, each as it has them alone. -/
theorem series_of_getElem (o : Observer σ) (s : σ) (path : String) (base : CFile)
    {sources : List String} {i : Nat} {source : String} (found : sources[i]? = some source) :
    ∃ r, (series o s base sources)[i]? = some r ∧
      r.result = (alone o s path source).result ∧
      r.watcher = (alone o s path source).watcher ∧
      r.journal = (alone o s path source).journal ∧
      r.file.header = base.header ++
        String.join ((sources.take (i + 1)).map (alone o s path · |>.file.header)) ∧
      r.file.code = base.code ++
        String.join ((sources.take (i + 1)).map (alone o s path · |>.file.code)) := by
  induction sources generalizing base i with
  | nil => simp at found
  | cons first rest ih =>
      have read := ofFeed_eq_alone o s base path first
      cases i with
      | zero =>
          obtain rfl : first = source := by simpa using found
          refine ⟨_, rfl, ?_⟩
          rw [read]
          simp [carried, CFile.below]
      | succ i =>
          obtain ⟨r, mem, result, watcher, journal, header, code⟩ :=
            ih (ofFeed o (.ofCursor (.ofSource first)) base s).file (by simpa using found)
          refine ⟨r, mem, result, watcher, journal, ?_, ?_⟩
          · rw [header, read]
            simp [carried, CFile.below, String.append_assoc]
          · rw [code, read]
            simp [carried, CFile.below, String.append_assoc]

/-- A name that only another source of the series gives a value is not known. -/
theorem series_of_lost_name :
    ∃ r, (series Observer.silent () (.empty "out.c")
        ["LET a = 1\nLABEL b", "PRINT 2\nPRINT a", "PRINT \"", "GOTO b"])[1]? = some r ∧
      (∃ span, r.result = .error ⟨.naming (.undeclaredVariable "a"), span⟩) ∧
      r.file.code = "a = 1;\nb:\nreturn 0;\n\x7d\n" ++
        "printf(\"%.2f\\n\", (float)(2));\nprintf(\"%.2f\\n\", (float)(" := by
  have found : ["LET a = 1\nLABEL b", "PRINT 2\nPRINT a", "PRINT \"", "GOTO b"][1]? =
      some "PRINT 2\nPRINT a" := rfl
  obtain ⟨r, mem, result, -, -, -, code⟩ :=
    series_of_getElem Observer.silent () "out.c" (.empty "out.c") found
  refine ⟨r, mem, ?_, ?_⟩
  · rw [result]
    exact ⟨_, by cbv⟩
  · rw [code]
    cbv

end Reading

namespace Compiler

/-- What a text is compiled to apart from its graph is what it is read as with nothing to observe
it, wherever it goes. -/
theorem compileText_eq_alone (c : Compiler) (source : String) :
    (c.compileText source).1.map (fun k => (k.file.header, k.file.code, k.declarations)) =
      let r := Reading.alone Observer.silent () "" source
      r.result.map fun d => (r.file.header, r.file.code, d) := by
  obtain ⟨σ, r, o, s, graph, rfl, compiled⟩ := exists_reading c source
  obtain ⟨result, file, -⟩ := Reading.ofFeed_unobserved o s Observer.silent ()
    (.ofCursor (.ofSource source)) (.empty "")
  rw [compiled, Reading.ofFeed_eq_alone o s _ ""]
  simp only [Reading.alone, Reading.carried, result, file]
  cases (Reading.ofFeed Observer.silent (.ofCursor (.ofSource source)) (.empty "") ()).result with
  | error fault => rfl
  | ok d => simp [Except.map, CFile.below, CFile.empty]

/-- No two observers of a source make a difference to its names or its fault, to the C text or to
the notes, whatever the file holds before. A text is compiled alike with a graph and without. -/
theorem compileText_unobserved (source : String) :
    (∀ {σ τ : Type} (o : Observer σ) (s : σ) (o' : Observer τ) (s' : τ) (file : CFile),
      let r := Reading.ofFeed o (.ofCursor (.ofSource source)) file s
      let r' := Reading.ofFeed o' (.ofCursor (.ofSource source)) file s'
      r.result = r'.result ∧ r.file = r'.file ∧ r.journal = r'.journal) ∧
    ∀ c c' : Compiler,
      (c.compileText source).1.map (fun k => (k.file.header, k.file.code, k.declarations)) =
        (c'.compileText source).1.map fun k => (k.file.header, k.file.code, k.declarations) := by
  refine ⟨fun o s o' s' file => Reading.ofFeed_unobserved o s o' s' _ file, fun c c' => ?_⟩
  rw [compileText_eq_alone, compileText_eq_alone]

end Compiler

end YoloLang
