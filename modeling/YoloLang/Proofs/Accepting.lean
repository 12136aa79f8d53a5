import YoloLang.Proofs.Invoking
import YoloLang.Proofs.Rooted

/-!
Compilers that are set up, and what they can write. Main statement: nothing is refused that could be
written, and a compilation is written if and only if its paths can be opened, all being accepted.
-/

namespace YoloLang.Compiler

open Disk

variable {d : Disk} {path : String} {c maker writer : Compiler} {k : Compilation}
  {output graph : Option String} {fault : DestinationFault}

/-! What is asked before compiling. -/

/-- Why a destination is refused: it is a folder, or the folder it is in is missing or a file. -/
inductive Refuses (d : Disk) (path : String) : DestinationFault → Prop where
  | isDirectory (folder : d.status path = .ok .folder) : Refuses d path (.isDirectory path)
  | noParent {fault : FileFault} (missing : d.status (Path.folder path) = .error fault) :
      Refuses d path (.noParent (Path.folder path) fault)
  | parentIsFile (file : d.status (Path.folder path) = .ok .file) :
      Refuses d path (.parentIsFile (Path.folder path))

theorem Refuses.not_accepts (h : Refuses d path fault) : ¬ d.Accepts path := by
  intro accepts
  cases h with
  | isDirectory folder => exact accepts.other folder
  | noParent missing => simp [accepts.folder] at missing
  | parentIsFile file => simp [accepts.folder] at file

/-- What comes of looking at a destination. -/
inductive Checked (d : Disk) (path : String) : Option DestinationFault → Prop where
  | accepted (accepts : d.Accepts path) : Checked d path none
  | refused {fault : DestinationFault} (refuses : Refuses d path fault) :
      Checked d path (some fault)

theorem checked_checkDestination (d : Disk) (path : String) :
    Checked d path ((checkDestination path : StateM Disk _).run d).1 := by
  have status (path : String) :
      ((Files.status path : StateM Disk (Except FileFault Status)).run d).1 = d.status path := rfl
  rw [checkDestination, (Disk.calm.status path).run_bind, status]
  split
  · exact .refused (.isDirectory ‹_›)
  · rename_i other
    rw [(Disk.calm.status _).run_bind, status]
    split
    · exact .accepted ⟨other, ‹_›⟩
    · exact .refused (.parentIsFile ‹_›)
    · exact .refused (.noParent ‹_›)

/-- The paths that a compiler has for what it makes. -/
def destinations (c : Compiler) : List String := c.output :: c.graph.toList

/-- How the setting up of a compiler ends. -/
inductive SetUp (d : Disk) (c : Compiler) : Except DestinationFault Compiler → Prop where
  | ready (accepts : ∀ path ∈ c.destinations, d.Accepts path) : SetUp d c (.ok c)
  | refused {path : String} {fault : DestinationFault} (asked : path ∈ c.destinations)
      (refuses : Refuses d path fault) : SetUp d c (.error fault)

theorem setUp_setUpAt (d : Disk) (output graph : Option String) :
    SetUp d (withPaths output graph) (setUpAt d output graph) := by
  rw [setUpAt, setUp, (still_checkDestination Disk.calm _).run_bind]
  have first := checked_checkDestination d (withPaths output graph).output
  generalize ((checkDestination (withPaths output graph).output : StateM Disk _).run d).1 = answer
    at first ⊢
  cases first with
  | refused refuses => exact .refused List.mem_cons_self refuses
  | accepted accepts =>
      cases wanted : (withPaths output graph).graph with
      | none =>
          refine .ready fun path asked => ?_
          obtain rfl : path = _ := by simpa [destinations, wanted] using asked
          exact accepts
      | some there =>
          have second := checked_checkDestination d there
          simp only [(still_checkDestination Disk.calm _).run_bind]
          generalize ((checkDestination there : StateM Disk _).run d).1 = answer at second ⊢
          cases second with
          | refused refuses => exact .refused (by simp [destinations, wanted]) refuses
          | accepted accepts' =>
              refine .ready fun path asked => ?_
              obtain rfl | rfl : path = _ ∨ path = there := by
                simpa [destinations, wanted] using asked
              · exact accepts
              · exact accepts'

theorem accepts_of_setUp (h : setUpAt d output graph = .ok c) :
    ∀ path ∈ c.destinations, d.Accepts path := by
  have ended := setUp_setUpAt d output graph
  rw [h] at ended
  cases ended with
  | ready accepts => exact accepts

/-! What is written then. -/

/-- The paths that a compiler writes when it saves a compilation. -/
def places (c : Compiler) (k : Compilation) : List String :=
  k.file.path :: if k.graph.isSome then c.graph.toList else []

theorem mem_places :
    path ∈ c.places k ↔ path = k.file.path ∨ k.graph.isSome = true ∧ c.graph = some path := by
  simp only [places, List.mem_cons]
  split_ifs with recorded <;> simp [recorded]

theorem places_accepted {source : String} (made : ∀ path ∈ maker.destinations, d.Accepts path)
    (ready : ∀ path ∈ writer.destinations, d.Accepts path)
    (compiled : (maker.compileText source).1 = .ok k) :
    ∀ path ∈ writer.places k, d.Accepts path := by
  intro path known
  obtain ⟨place, -⟩ := destinations_of_compileText compiled
  obtain rfl | ⟨-, wanted⟩ := mem_places.mp known
  · exact place ▸ made _ List.mem_cons_self
  · exact ready path (by simp [destinations, wanted])

/-- What has been written could be written, and is there. -/
theorem Saved.holds {d' : Disk} (h : Saved c k d (.ok ()) d') (known : path ∈ c.places k) :
    (∃ here, d.destination path = .ok here) ∧
      (d'.read path = .ok k.file.text ∨
        ∃ graph, k.graph = some graph ∧ d'.read path = .ok graph.dot) := by
  generalize ended : Except.ok () = result at h
  cases h with
  | refused | cut => contradiction
  | alone output none =>
      obtain rfl | ⟨recorded, wanted⟩ := mem_places.mp known
      · obtain ⟨here, place, -⟩ := write_eq_ok_iff.mp output
        exact ⟨⟨here, place⟩, .inl (read_of_write output)⟩
      · simp_all
  | @whole _ _ there graph output wanted recorded written =>
      obtain ⟨here, here', first, second, read⟩ := read_of_writes output written
      obtain rfl | ⟨-, same⟩ := mem_places.mp known
      · refine ⟨⟨here, first⟩, ?_⟩
        split_ifs at read
        · exact .inr ⟨graph, recorded, read⟩
        · exact .inl read
      · obtain rfl : there = path := Option.some.inj (wanted.symm.trans same)
        exact ⟨⟨here', second⟩, .inr ⟨graph, recorded, read_of_write written⟩⟩

theorem Saved.exists_fault {d' : Disk} {e : Located Fault} (h : Saved c k d (.error e) d') :
    ∃ path ∈ c.places k, ∃ (d₁ : Disk) (fault : FileFault),
      e = .file fault ∧ Disk.Grows d d₁ ∧ d₁.destination path = .error fault := by
  generalize ended : Except.error e = result at h
  cases h with
  | alone | whole => contradiction
  | refused output =>
      exact ⟨k.file.path, List.mem_cons_self, d, _, Except.error.inj ended,
        ⟨rfl, rfl, fun _ h => h⟩, write_eq_error_iff.mp output⟩
  | @cut _ path _ _ output wanted recorded refused =>
      obtain ⟨_, _, _, replaced⟩ := replaced_of_write output
      exact ⟨path, mem_places.mpr (.inr ⟨by rw [recorded]; rfl, wanted⟩), _, _,
        Except.error.inj ended, replaced.grows, write_eq_error_iff.mp refused⟩

/-- How the saving of a compilation ends: well if and only if its paths can be opened. What was
written is there then, and otherwise one of the paths stopped it. -/
structure Ends (c : Compiler) (k : Compilation) (result : Except (Located Fault) Unit)
    (d' : Disk) : Prop where
  ok_iff : result = .ok () ↔ ∀ path ∈ c.places k, Opens path
  holds : result = .ok () → ∀ path ∈ c.places k, d'.read path = .ok k.file.text ∨
    ∃ graph, k.graph = some graph ∧ d'.read path = .ok graph.dot
  stops : ∀ e, result = .error e →
    ∃ path ∈ c.places k, ∃ fault, e = .file fault ∧ Stops path fault

theorem Saved.ends {result : Except (Located Fault) Unit} {d' : Disk} (h : Saved c k d result d')
    (accepts : ∀ path ∈ c.places k, d.Accepts path) : c.Ends k result d' := by
  refine ⟨⟨?_, ?_⟩, ?_, ?_⟩
  · rintro rfl path known
    exact (accepts path known).destination_iff.mp (h.holds known).1
  · intro opens
    cases result with
    | ok => rfl
    | error e =>
        obtain ⟨path, known, d₁, fault, -, grows, stopped⟩ := h.exists_fault
        have accepts := (grows.accepts path).mpr (accepts path known)
        obtain ⟨here, written⟩ := accepts.destination_iff.mpr (opens path known)
        rw [written] at stopped
        contradiction
  · rintro rfl path known
    exact (h.holds known).2
  · rintro e rfl
    obtain ⟨path, known, d₁, fault, rfl, grows, stopped⟩ := h.exists_fault
    exact ⟨path, known, fault, rfl, ((grows.accepts path).mpr (accepts path known)).stops stopped⟩

/-- A compiler is refused only a destination that is a folder or has no folder to be in, and nothing
could be written there. Compilers that are accepted write a compilation that one of them made if and
only if each of its paths has no NUL, fits and ends in a name; what is written is there, and it is
one of these three that stops the writing. Two dots count as no name, but on a disk that has come
about by work on files no path ends in them that is accepted, has no NUL and fits. -/
theorem save_of_setUp (d : Disk) :
    (∀ output graph fault, setUpAt d output graph = .error fault →
      ∃ path ∈ (withPaths output graph).destinations, Refuses d path fault ∧
        ∀ here, d.destination path ≠ .ok here) ∧
    ∀ output graph output' graph' maker writer source k,
      setUpAt d output graph = .ok maker → setUpAt d output' graph' = .ok writer →
        (maker.compileText source).1 = .ok k →
          let saved := (writer.save k : StateM Disk _).run d
          writer.Ends k saved.1.1 saved.2 ∧
            (d.Formed → ∀ path ∈ writer.places k, (Opens path ↔
              '\x00' ∉ path.toList ∧ Fits path ∧
                Path.namesNothing (Path.last path.toList) = false)) := by
  constructor
  · intro output graph fault refused
    have ended := setUp_setUpAt d output graph
    rw [refused] at ended
    cases ended with
    | @refused path _ asked refuses =>
        refine ⟨path, asked, refuses, fun here written => refuses.not_accepts ?_⟩
        obtain ⟨r, -⟩ := destination_eq_ok_iff.mp written
        exact r.accepts
  · intro output graph output' graph' maker writer source k made ready compiled
    have accepts := places_accepted (accepts_of_setUp made) (accepts_of_setUp ready) compiled
    exact ⟨(saved_save writer k d).ends accepts, fun formed path known =>
      formed.rooted.opens_iff (accepts path known)⟩

/-- A destination that ends in a slash is accepted, and nothing can be written there. -/
theorem save_of_slash : ∃ k,
    setUpAt Disk.empty (some "q/") none = .ok ⟨"q/", none⟩ ∧
      ((⟨"q/", none⟩ : Compiler).compileText "LET a = 1").1 = .ok k ∧
        ((save ⟨"q/", none⟩ k : StateM Disk _).run Disk.empty).1.1 ≠ .ok () ∧
          Disk.empty.destination "q/" = .error .isADirectory := by
  have accepted : setUpAt Disk.empty (some "q/") none = .ok ⟨"q/", none⟩ := by cbv
  obtain ⟨k, made⟩ : ∃ k, ((⟨"q/", none⟩ : Compiler).compileText "LET a = 1").1 = .ok k :=
    ⟨_, by cbv⟩
  obtain ⟨place, -⟩ := destinations_of_compileText made
  obtain ⟨ends, named⟩ := (save_of_setUp Disk.empty).2 _ _ _ _ _ _ _ _ accepted accepted made
  refine ⟨k, accepted, made, fun ok => ?_, by cbv⟩
  have opens := ends.ok_iff.mp ok k.file.path List.mem_cons_self
  obtain ⟨-, -, busy⟩ := (named .empty k.file.path List.mem_cons_self).mp opens
  rw [place] at busy
  exact Bool.noConfusion (busy.symm.trans (show _ = true by decide +kernel))

end YoloLang.Compiler
