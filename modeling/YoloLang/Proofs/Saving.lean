import YoloLang.Compiler.Destination
import YoloLang.Compiler.Save
import YoloLang.Proofs.Compile
import YoloLang.Proofs.Disk
import YoloLang.Proofs.Transport

/-!
Compilations written to a disk. Main statements: a compilation that is written without a fault has
its graph where the graph was to go, and its C text where the output was to go unless this is the
same place, which a compiler does not look at when it is set up.
-/

namespace YoloLang

namespace Compiler

variable {d d' : Disk} {c : Compiler} {k : Compilation} {source : String}

/-! What the steps of a compiler do to a disk. -/

theorem run_writeGraph (c : Compiler) (k : Compilation) (d : Disk) :
    (c.writeGraph k : StateM Disk _).run d =
      match c.graph, k.graph with
      | some path, some graph =>
          match d.write path graph.dot with
          | .error fault => ((.error (.file fault), #[]), d)
          | .ok d' => ((.ok (), #[.wroteGraph path]), d')
      | _, _ => ((.ok (), #[]), d) := by
  obtain ⟨output, graph⟩ := c
  obtain ⟨file, declarations, recorded⟩ := k
  cases graph with
  | none => rfl
  | some path =>
      cases recorded with
      | none => rfl
      | some graph =>
          simp only [writeGraph, StateT.run, bind, StateT.bind, Files.write]
          cases d.write path graph.dot <;> rfl

theorem run_save (c : Compiler) (k : Compilation) (d : Disk) :
    (c.save k : StateM Disk _).run d =
      match d.write k.file.path k.file.text with
      | .error fault => ((.error (.file fault), #[]), d)
      | .ok d' =>
          let r := (c.writeGraph k : StateM Disk _).run d'
          ((r.1.1, #[.wrote k.file.path] ++ r.1.2), r.2) := by
  simp only [save, StateT.run, bind, StateT.bind, Files.write]
  cases d.write k.file.path k.file.text <;> rfl

theorem run_compile (c : Compiler) (path : String) (d : Disk) :
    (c.compile path : StateM Disk _).run d =
      match d.read path with
      | .error fault => ((.error (.file fault), #[]), d)
      | .ok source =>
          match c.compileText source with
          | (.error fault, notes) => ((.error fault, notes), d)
          | (.ok k, notes) =>
              let r := (c.save k : StateM Disk _).run d
              ((r.1.1.map fun () => k, notes ++ r.1.2), r.2) := by
  simp only [compile, StateT.run, bind, StateT.bind, Files.read]
  cases d.read path with
  | error fault => rfl
  | ok source =>
      simp only [compileSource]
      obtain ⟨result, notes⟩ := c.compileText source
      cases result <;> rfl

/-- How far the writing of a compilation gets, with what comes of it. -/
inductive Saved (c : Compiler) (k : Compilation) (d : Disk) :
    Except (Located Fault) Unit → Disk → Prop where
  | refused {fault : FileFault} (output : d.write k.file.path k.file.text = .error fault) :
      Saved c k d (.error (.file fault)) d
  | alone {d' : Disk} (output : d.write k.file.path k.file.text = .ok d')
      (none : c.graph = none ∨ k.graph = none) : Saved c k d (.ok ()) d'
  | cut {d' : Disk} {path : String} {graph : WalkGraph} {fault : FileFault}
      (output : d.write k.file.path k.file.text = .ok d') (wanted : c.graph = some path)
      (recorded : k.graph = some graph) (refused : d'.write path graph.dot = .error fault) :
      Saved c k d (.error (.file fault)) d'
  | whole {d₁ d' : Disk} {path : String} {graph : WalkGraph}
      (output : d.write k.file.path k.file.text = .ok d₁) (wanted : c.graph = some path)
      (recorded : k.graph = some graph) (written : d₁.write path graph.dot = .ok d') :
      Saved c k d (.ok ()) d'

theorem saved_save (c : Compiler) (k : Compilation) (d : Disk) :
    Saved c k d ((c.save k : StateM Disk _).run d).1.1 ((c.save k : StateM Disk _).run d).2 := by
  rw [run_save]
  cases output : d.write k.file.path k.file.text with
  | error fault => exact .refused output
  | ok d₁ =>
      simp only [run_writeGraph]
      cases wanted : c.graph with
      | none => exact .alone output (.inl wanted)
      | some path =>
          cases recorded : k.graph with
          | none => exact .alone output (.inr recorded)
          | some graph =>
              cases written : d₁.write path graph.dot with
              | error fault =>
                  simp only [written]
                  exact .cut output wanted recorded written
              | ok d' =>
                  simp only [written]
                  exact .whole output wanted recorded written

/-- How far the compiling of a file gets, with what comes of it. -/
inductive Compiled (c : Compiler) (path : String) (d : Disk) :
    Except (Located Fault) Compilation → Disk → Prop where
  | unread {fault : FileFault} (read : d.read path = .error fault) :
      Compiled c path d (.error (.file fault)) d
  | faulty {source : String} {fault : Located Fault} (read : d.read path = .ok source)
      (found : (c.compileText source).1 = .error fault) : Compiled c path d (.error fault) d
  | saved {source : String} {k : Compilation} {result : Except (Located Fault) Unit} {d' : Disk}
      (read : d.read path = .ok source) (made : (c.compileText source).1 = .ok k)
      (saved : Saved c k d result d') : Compiled c path d (result.map fun () => k) d'

theorem compiled_compile (c : Compiler) (path : String) (d : Disk) :
    Compiled c path d ((c.compile path : StateM Disk _).run d).1.1
      ((c.compile path : StateM Disk _).run d).2 := by
  rw [run_compile]
  cases read : d.read path with
  | error fault => exact .unread read
  | ok source =>
      obtain ⟨result, notes, pair⟩ : ∃ result notes, c.compileText source = (result, notes) :=
        ⟨_, _, rfl⟩
      have compiled : (c.compileText source).1 = result := by rw [pair]
      simp only [pair]
      cases result with
      | error fault => exact .faulty read compiled
      | ok k => exact .saved read compiled (saved_save c k d)

theorem Compiled.of_ok {path : String} (h : Compiled c path d (.ok k) d') :
    ∃ source, d.read path = .ok source ∧ (c.compileText source).1 = .ok k ∧
      Saved c k d (.ok ()) d' := by
  generalize ended : Except.ok k = whole at h
  cases h with
  | unread | faulty => contradiction
  | @saved source _ result _ read made saved =>
      cases result with
      | error fault => contradiction
      | ok =>
          obtain rfl := Except.ok.inj ended
          exact ⟨source, read, made, saved⟩

/-! What compilations know of their compiler. -/

/-- A compilation goes where its compiler writes, and has a graph if its compiler has a place for
one. -/
theorem destinations_of_compileText (h : (c.compileText source).1 = .ok k) :
    k.file.path = c.output ∧ k.graph.isSome = c.graph.isSome := by
  have path {σ : Type} (o : Observer σ) (f : Feed) (s : σ) :
      (Reading.ofFeed o f (.empty c.output) s).file.path = c.output := by
    rw [Reading.ofFeed_eq_carried]
    rfl
  rw [compileText] at h
  cases wanted : c.graph with
  | none =>
      rw [wanted] at h
      obtain ⟨-, file, graph⟩ := eq_of_finish h
      rw [← file, path, ← graph]
      exact ⟨rfl, rfl⟩
  | some there =>
      rw [wanted] at h
      obtain ⟨-, file, graph⟩ := eq_of_finish h
      rw [← file, path, ← graph]
      exact ⟨rfl, rfl⟩

/-- No C text is the text of a graph. -/
theorem text_ne_dot (h : (c.compileText source).1 = .ok k) (graph : WalkGraph) :
    k.file.text ≠ graph.dot := by
  obtain ⟨p, lexed, all⟩ := translations_of_compileText h
  intro same
  rw [(all p lexed).1.text, Program.header, CText.header, CText.opening_eq, WalkGraph.dot] at same
  have first := congrArg (·.toList.head?) same
  simp at first

/-- A compiler writes a compilation of its own without a fault, which it has just made or has been
given. -/
def Stores (c : Compiler) (k : Compilation) (d d' : Disk) : Prop :=
  (∃ path, let r := (c.compile path : StateM Disk _).run d
    r.1.1 = .ok k ∧ r.2 = d') ∨
  (∃ source, (c.compileText source).1 = .ok k) ∧
    let r := (c.save k : StateM Disk _).run d
    r.1.1 = .ok () ∧ r.2 = d'

theorem Stores.saved (h : Stores c k d d') :
    (∃ source, (c.compileText source).1 = .ok k) ∧ Saved c k d (.ok ()) d' := by
  obtain ⟨path, result, rfl⟩ | ⟨made, result, rfl⟩ := h
  · obtain ⟨source, -, made, saved⟩ := (result ▸ compiled_compile c path d).of_ok
    exact ⟨⟨source, made⟩, saved⟩
  · exact ⟨made, result ▸ saved_save c k d⟩

/-- What is at the two places when a compilation has been written. The graph comes last, and the C
text is still there if and only if the two are not one place. -/
theorem held_of_stores (h : Stores c k d d') :
    (c.graph = none → d'.read c.output = .ok k.file.text) ∧
      ∀ path, c.graph = some path → ∃ graph, k.graph = some graph ∧ d'.read path = .ok graph.dot ∧
        ∃ here there, d.destination c.output = .ok here ∧ d.destination path = .ok there ∧
          (d'.read c.output = .ok k.file.text ↔ here ≠ there) := by
  obtain ⟨⟨source, made⟩, saved⟩ := h.saved
  obtain ⟨place, recording⟩ := destinations_of_compileText made
  cases saved with
  | alone output none =>
      rw [place] at output
      refine ⟨fun _ => Disk.read_of_write output, fun path wanted => ?_⟩
      obtain none | none := none
      · simp [none] at wanted
      · simp [wanted, none] at recording
  | @whole d₁ _ path graph output wanted recorded written =>
      rw [place] at output
      refine ⟨fun none => by simp [none] at wanted, fun path' wanted' => ?_⟩
      obtain rfl : path = path' := Option.some.inj (wanted.symm.trans wanted')
      obtain ⟨here, there, first, second, read⟩ := Disk.read_of_writes output written
      refine ⟨graph, recorded, Disk.read_of_write written, here, there, first, second, ?_⟩
      rw [read]
      split_ifs with same
      · simp [same, (text_ne_dot made graph).symm]
      · simp [same]

set_option maxRecDepth 4096 in
/-- Two files in one place are accepted, and the C text is lost. -/
theorem lost_in_one_place : ∃ (d d' : Disk) (k : Compilation),
    d.read "a.yolo" = .ok "LET a = 1" ∧
      ((setUp (some "x") (some "./x") : StateM Disk _).run d).1 = .ok ⟨"x", some "./x"⟩ ∧
        Stores ⟨"x", some "./x"⟩ k d d' ∧ d'.read "x" ≠ .ok k.file.text := by
  have laid : ∃ d here, Disk.empty.write "a.yolo" "LET a = 1" = .ok d ∧
      ((setUp (some "x") (some "./x") : StateM Disk _).run d).1 = .ok ⟨"x", some "./x"⟩ ∧
        d.destination "x" = .ok here ∧ d.destination "./x" = .ok here :=
    ⟨_, _, by cbv, by cbv, by cbv, by cbv⟩
  obtain ⟨d, here, laid, accepted, first, second⟩ := laid
  have read := Disk.read_of_write laid
  obtain ⟨k, made⟩ : ∃ k, ((⟨"x", some "./x"⟩ : Compiler).compileText "LET a = 1").1 = .ok k :=
    ⟨_, by cbv⟩
  obtain ⟨place, recorded⟩ := destinations_of_compileText made
  obtain ⟨graph, recorded⟩ := Option.isSome_iff_exists.mp recorded
  obtain ⟨d₁, output⟩ : ∃ d₁, d.write "x" k.file.text = .ok d₁ :=
    ⟨_, Disk.write_eq_ok_iff.mpr ⟨here, first, rfl⟩⟩
  obtain ⟨_, _, _, replaced⟩ := Disk.replaced_of_write output
  obtain ⟨d₂, written⟩ : ∃ d₂, d₁.write "./x" graph.dot = .ok d₂ :=
    ⟨_, Disk.write_eq_ok_iff.mpr ⟨here, (replaced.grows.destination _ _).mpr second, rfl⟩⟩
  have stores : Stores ⟨"x", some "./x"⟩ k d d₂ := by
    refine .inl ⟨"a.yolo", ?_⟩
    obtain ⟨notes, pair⟩ : ∃ notes,
        (⟨"x", some "./x"⟩ : Compiler).compileText "LET a = 1" = (.ok k, notes) :=
      ⟨_, Prod.ext made rfl⟩
    simp [run_compile, read, pair, run_save, place, output, run_writeGraph, recorded, written,
      Except.map]
  obtain ⟨-, held⟩ := held_of_stores stores
  obtain ⟨_, _, _, here', there, first', second', same⟩ := held "./x" rfl
  refine ⟨d, d₂, k, read, accepted, stores, fun kept => same.mp kept ?_⟩
  obtain rfl := Except.ok.inj (first.symm.trans first')
  exact Except.ok.inj (second.symm.trans second')

end Compiler
end YoloLang
