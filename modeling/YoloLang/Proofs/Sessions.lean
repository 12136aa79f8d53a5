import YoloLang.Proofs.Saving
import YoloLang.Session

/-!
Work on a disk, one action after the other. Main statement: from any disk and after any actions only
the compiling of a file and the writing of the last compilation change files, and these change at
most two: the output of the compiler that made the compilation and, when this has been written, the
place that the writing compiler has for a graph.
-/

namespace YoloLang

open Disk

/-! Setting up a compiler looks at the files only. -/

section

variable {σ : Type} [Files (StateM σ)]

theorem still_checkDestination (calm : Files.Calm σ) (path : String) :
    Still (checkDestination path : StateM σ (Option DestinationFault)) := by
  refine (calm.status path).bind fun status => ?_
  split
  · exact still_pure _
  · refine (calm.status _).bind fun status => ?_
    split <;> exact still_pure _

theorem Compiler.still_setUp (calm : Files.Calm σ) (output graph : Option String) :
    Still (setUp output graph : StateM σ (Except DestinationFault Compiler)) := by
  refine (still_checkDestination calm _).bind fun fault => ?_
  split
  · exact still_pure _
  · split
    · exact still_pure _
    · refine (still_checkDestination calm _).bind fun fault => ?_
      split <;> exact still_pure _

end

namespace Session

/-- The files after a compilation has been written, as far as this went. -/
inductive Written (maker writer : Compiler) (k : Compilation) (d : Disk) : Disk → Prop where
  | refused {fault : FileFault} (output : d.destination maker.output = .error fault) :
      Written maker writer k d d
  | alone {here : Location} {d' : Disk} (output : d.destination maker.output = .ok here)
      (replaced : Replaced d here k.file.text d')
      (none : writer.graph = none ∨ k.graph = none) : Written maker writer k d d'
  | cut {here : Location} {d' : Disk} {path : String} {fault : FileFault}
      (output : d.destination maker.output = .ok here)
      (replaced : Replaced d here k.file.text d')
      (wanted : writer.graph = some path) (recorded : k.graph.isSome = true)
      (refused : d'.destination path = .error fault) : Written maker writer k d d'
  | whole {here there : Location} {d₁ d' : Disk} {path : String} {graph : WalkGraph}
      (output : d.destination maker.output = .ok here)
      (replaced : Replaced d here k.file.text d₁)
      (wanted : writer.graph = some path) (recorded : k.graph = some graph)
      (place : d₁.destination path = .ok there)
      (replaced' : Replaced d₁ there graph.dot d') : Written maker writer k d d'

variable {maker writer : Compiler} {k : Compilation} {d d' : Disk}

theorem written_of_saved {result : Except (Located Fault) Unit} (path : k.file.path = maker.output)
    (saved : writer.Saved k d result d') : Written maker writer k d d' := by
  cases saved with
  | refused output => exact .refused (write_eq_error_iff.mp (path ▸ output))
  | alone output none =>
      obtain ⟨here, place, -, replaced⟩ := replaced_of_write output
      exact .alone (path ▸ place) replaced none
  | cut output wanted recorded refused =>
      obtain ⟨here, place, -, replaced⟩ := replaced_of_write output
      have recorded : k.graph.isSome = true := by rw [recorded]; rfl
      exact .cut (path ▸ place) replaced wanted recorded (write_eq_error_iff.mp refused)
  | whole output wanted recorded written =>
      obtain ⟨here, place, -, replaced⟩ := replaced_of_write output
      obtain ⟨there, place', -, replaced'⟩ := replaced_of_write written
      exact .whole (path ▸ place) replaced wanted recorded place' replaced'

/-- No more than two files are changed. -/
theorem Written.two_places (h : Written maker writer k d d') :
    ∃ places : List Location, places.length ≤ 2 ∧
      ∀ other, other ∉ places → d'.entry? other = d.entry? other := by
  cases h with
  | refused => exact ⟨[], by simp, fun _ _ => rfl⟩
  | @alone here _ _ replaced | @cut here _ _ _ _ replaced =>
      exact ⟨[here], by simp, fun other apart => replaced.frame other (by simpa using apart)⟩
  | @whole here there _ _ _ _ _ replaced _ _ _ replaced' =>
      refine ⟨[here, there], by simp, fun other apart => ?_⟩
      obtain ⟨first, second⟩ : other ≠ here ∧ other ≠ there := by simpa using apart
      exact (replaced'.frame other second).trans (replaced.frame other first)

/-! Actions. -/

/-- The session when these actions have been done. -/
def after (s : Session) (actions : List Action) : Session :=
  actions.foldl (fun s action => (s.act action).2) s

theorem after_snoc (s : Session) (actions : List Action) (action : Action) :
    s.after (actions ++ [action]) = ((s.after actions).act action).2 := by
  simp [after]

/-- One of the actions was answered with this compilation, and this was the compiler then. -/
def Made (d : Disk) (past : List Action) (maker : Compiler) (k : Compilation) : Prop :=
  ∃ earlier action, earlier ++ [action] <+: past ∧
    ((start d).after earlier).compiler = some maker ∧
      (((start d).after earlier).act action).1 = .compiled (.ok k)

/-- What an action does to the files of a session with this past. -/
inductive Effect (d : Disk) (past : List Action) (s : Session) : Action → Disk → Prop where
  | setUp (output graph : Option String) : Effect d past s (.setUp output graph) s.disk
  | compileText (source : String) : Effect d past s (.compileText source) s.disk
  | idle {action : Action} (none : s.compiler = none) : Effect d past s action s.disk
  | nothing (none : s.compilation = none) : Effect d past s .save s.disk
  | unread {path : String} {fault : FileFault} (read : s.disk.read path = .error fault) :
      Effect d past s (.compile path) s.disk
  | faulty {path source : String} {c : Compiler} {fault : Located Fault}
      (compiler : s.compiler = some c) (read : s.disk.read path = .ok source)
      (found : (c.compileText source).1 = .error fault) : Effect d past s (.compile path) s.disk
  | compiled {path source : String} {c : Compiler} {k : Compilation} {d' : Disk}
      (compiler : s.compiler = some c) (read : s.disk.read path = .ok source)
      (made : (c.compileText source).1 = .ok k) (written : Written c c k s.disk d') :
      Effect d past s (.compile path) d'
  | saved {maker c : Compiler} {k : Compilation} {d' : Disk} (compiler : s.compiler = some c)
      (compilation : s.compilation = some k) (made : Made d past maker k)
      (written : Written maker c k s.disk d') : Effect d past s .save d'

variable {s : Session} {c : Compiler} {action : Action} {past : List Action}

theorem act_compile (compiler : s.compiler = some c) (path : String) :
    s.act (.compile path) =
      s.keep ((c.compile path : StateM Disk _).run s.disk).2
        ((c.compile path : StateM Disk _).run s.disk).1.1 := by
  simp only [act, compiler]
  rfl

/-- An answer with a compilation is what the compiler makes of some text. -/
theorem exists_source (answer : (s.act action).1 = .compiled (.ok k)) :
    ∃ c source, s.compiler = some c ∧ (c.compileText source).1 = .ok k := by
  cases action with
  | setUp output graph =>
      simp only [act] at answer
      split at answer <;> contradiction
  | compile path =>
      cases compiler : s.compiler with
      | none => simp [act, compiler] at answer
      | some c =>
          rw [act_compile compiler] at answer
          have result := Answer.compiled.inj answer
          obtain ⟨source, -, made, -⟩ := (result ▸ c.compiled_compile path s.disk).of_ok
          exact ⟨c, source, rfl, made⟩
  | compileText source =>
      cases compiler : s.compiler with
      | none => simp [act, compiler] at answer
      | some c =>
          simp only [act, compiler] at answer
          exact ⟨c, source, rfl, Answer.compiled.inj answer⟩
  | save =>
      simp only [act] at answer
      split at answer <;> contradiction

/-- The compilation that is kept is that of the last answer with one. -/
theorem compilation_act (s : Session) (action : Action) :
    (s.act action).2.compilation =
      match (s.act action).1 with
      | .compiled (.ok k) => some k
      | _ => s.compilation := by
  have kept (disk : Disk) (result : Except (Located Fault) Compilation) :
      (s.keep disk result).2.compilation =
        match (s.keep disk result).1 with
        | .compiled (.ok k) => some k
        | _ => s.compilation := by
    cases result <;> rfl
  cases action with
  | setUp output graph =>
      simp only [act]
      split <;> rfl
  | compile | compileText =>
      simp only [act]
      split
      · rfl
      · exact kept _ _
  | save =>
      simp only [act]
      split <;> rfl

theorem Made.mono {past' : List Action} (h : Made d past maker k) (begins : past <+: past') :
    Made d past' maker k := by
  obtain ⟨earlier, action, before, made⟩ := h
  exact ⟨earlier, action, before.trans begins, made⟩

/-- The compilation that a session has was made in it. -/
theorem made_of_compilation (d : Disk) (past : List Action)
    (compilation : ((start d).after past).compilation = some k) :
    ∃ maker, Made d past maker k ∧ ∃ source, (maker.compileText source).1 = .ok k := by
  induction past using List.reverseRecOn with
  | nil => contradiction
  | append_singleton past action ih =>
      rw [after_snoc, compilation_act] at compilation
      split at compilation
      · rename_i answer
        obtain rfl := Option.some.inj compilation
        obtain ⟨maker, source, compiler, made⟩ := exists_source answer
        exact ⟨maker, ⟨past, action, List.prefix_rfl, compiler, answer⟩, source, made⟩
      · obtain ⟨maker, made, compiles⟩ := ih compilation
        exact ⟨maker, made.mono (List.prefix_append _ _), compiles⟩

/-! What each action does to the files. -/

theorem disk_setUp (s : Session) (output graph : Option String) :
    (s.act (.setUp output graph)).2.disk = s.disk := by
  have still := Compiler.still_setUp Disk.calm output graph s.disk
  simp only [act]
  split <;> simp_all

theorem disk_compileText (s : Session) (source : String) :
    (s.act (.compileText source)).2.disk = s.disk := by
  simp only [act]
  split <;> rfl

theorem effect_of_compiled {path : String} {result : Except (Located Fault) Compilation}
    (compiler : s.compiler = some c) (h : c.Compiled path s.disk result d') :
    Effect d past s (.compile path) d' := by
  cases h with
  | unread read => exact .unread read
  | faulty read found => exact .faulty compiler read found
  | saved read made saved =>
      have path := (Compiler.destinations_of_compileText made).1
      exact .compiled compiler read made (written_of_saved path saved)

theorem effect_compile (d : Disk) (past : List Action) (s : Session) (path : String) :
    Effect d past s (.compile path) (s.act (.compile path)).2.disk := by
  cases compiler : s.compiler with
  | none =>
      have still : (s.act (.compile path)).2.disk = s.disk := by simp only [act, compiler]
      rw [still]
      exact .idle compiler
  | some c =>
      rw [act_compile compiler]
      exact effect_of_compiled compiler (c.compiled_compile path s.disk)

theorem effect_save (d : Disk) (past : List Action) :
    let s := (start d).after past
    Effect d past s .save (s.act .save).2.disk := by
  intro s
  cases compiler : s.compiler with
  | none =>
      have still : (s.act .save).2.disk = s.disk := by simp only [act, compiler]
      rw [still]
      exact .idle compiler
  | some c =>
      cases compilation : s.compilation with
      | none =>
          have still : (s.act .save).2.disk = s.disk := by simp only [act, compiler, compilation]
          rw [still]
          exact .nothing compilation
      | some k =>
          obtain ⟨maker, made, source, compiles⟩ := made_of_compilation d past compilation
          have path := (Compiler.destinations_of_compileText compiles).1
          have written := written_of_saved path (c.saved_save k s.disk)
          have run : (s.act .save).2.disk = ((c.save k : StateM Disk _).run s.disk).2 := by
            simp only [act, compiler, compilation]
            rfl
          exact run ▸ .saved compiler compilation made written

theorem Effect.two_places (h : Effect d past s action d') :
    ∃ places : List Location, places.length ≤ 2 ∧
      ∀ other, other ∉ places → d'.entry? other = s.disk.entry? other := by
  cases h with
  | compiled _ _ _ written | saved _ _ _ written => exact written.two_places
  | _ => exact ⟨[], by simp, fun _ _ => rfl⟩

/-- An action changes files only as far as it writes a compilation, and then no more than two. -/
theorem effect_act (d : Disk) (past : List Action) (action : Action) :
    let s := (start d).after past
    let disk := (s.act action).2.disk
    Effect d past s action disk ∧
      ∃ places : List Location, places.length ≤ 2 ∧
        ∀ other, other ∉ places → disk.entry? other = s.disk.entry? other := by
  intro s disk
  have effect : Effect d past s action (s.act action).2.disk := by
    cases action with
    | setUp output graph =>
        rw [disk_setUp]
        exact .setUp output graph
    | compileText source =>
        rw [disk_compileText]
        exact .compileText source
    | compile path => exact effect_compile d past s path
    | save => exact effect_save d past
  exact ⟨effect, effect.two_places⟩

end Session
end YoloLang
