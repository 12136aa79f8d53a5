import YoloLang.Proofs.Disk
import YoloLang.Proofs.Paths

/-!
Destinations on a disk. What is asked before compiling goes by the names in a path, and what is
written goes by its text. Main statement: a path that is accepted can be written if and only if it
ends in a name, fits and has no NUL, and one that can be written is accepted.
-/

namespace YoloLang.Disk

variable {d d' : Disk} {here there : Location} {path : String} {segment name : List Char}
  {ss names : List (List Char)} {fault : FileFault}

/-! Ways into folders. -/

/-- Segments lead from one place to a folder. -/
structure Leads (d : Disk) (here : Location) (ss : List (List Char)) (there : Location) : Prop where
  walks : d.walk here ss = .ok there
  folder : d.isFolder there = true

theorem Leads.inside (h : d.Leads here ss there) : d.isFolder here = true := by
  by_contra other
  rw [Bool.not_eq_true] at other
  obtain rfl := eq_of_walk other h.walks
  exact Bool.noConfusion (h.folder.symm.trans other)

theorem leads_append {ts : List (List Char)} :
    d.Leads here (ss ++ ts) there ↔ ∃ mid, d.Leads here ss mid ∧ d.Leads mid ts there := by
  constructor
  · rintro ⟨walks, folder⟩
    rw [walk_append] at walks
    obtain ⟨mid, first, second⟩ := exists_of_bind walks
    have rest : d.Leads mid ts there := ⟨second, folder⟩
    exact ⟨mid, ⟨first, rest.inside⟩, rest⟩
  · rintro ⟨mid, first, second⟩
    refine ⟨?_, second.folder⟩
    rw [walk_append, first.walks]
    exact second.walks

theorem leads_cons :
    d.Leads here (segment :: ss) there ↔
      ∃ mid, d.Leads here [segment] mid ∧ d.Leads mid ss there := by
  rw [← List.singleton_append, leads_append]

/-- A segment that names nothing stays in its folder. -/
theorem leads_idle (idle : Path.namesNothing segment = true) :
    d.Leads here [segment] there ↔ d.isFolder here = true ∧ there = here := by
  constructor
  · intro h
    have walks := h.walks
    simp only [walk, h.inside, idle, Bool.not_true, Bool.false_eq_true, if_true, if_false] at walks
    exact ⟨h.inside, (Except.ok.inj walks).symm⟩
  · rintro ⟨folder, rfl⟩
    exact ⟨by simp [walk, folder, idle], folder⟩

/-- Only names count on the way to a folder. -/
theorem leads_filter :
    d.Leads here (ss.filter (!Path.namesNothing ·)) there ↔ d.Leads here ss there := by
  induction ss generalizing here with
  | nil => rfl
  | cons s ss ih =>
      by_cases idle : Path.namesNothing s = true
      · rw [List.filter_cons_of_neg (by simp [idle]), ih, leads_cons]
        simp only [leads_idle idle]
        constructor
        · intro h
          exact ⟨here, ⟨h.inside, rfl⟩, h⟩
        · rintro ⟨_, ⟨-, rfl⟩, h⟩
          exact h
      · rw [List.filter_cons_of_pos (by simp [idle]), leads_cons, leads_cons]
        simp only [ih]

theorem isSome_of_isFolder (folder : d.isFolder here = true) : (d.entry? here).isSome = true := by
  cases entry : d.entry? here <;> simp_all [isFolder]

/-- A name leads to the folder of this name. -/
theorem leads_name (proper : name ∉ [[], ['.'], ['.', '.']]) :
    d.Leads here [name] there ↔ d.isFolder here = true ∧ isTooLong name = false ∧
      there = here ++ [name] ∧ d.isFolder (here ++ [name]) = true := by
  obtain ⟨busy, up⟩ := Path.proper_iff.mp proper
  constructor
  · intro h
    have walks := h.walks
    simp only [walk, h.inside, busy, up, Bool.not_true, Bool.false_eq_true, if_false] at walks
    split_ifs at walks with long known
    obtain rfl := Except.ok.inj walks
    exact ⟨h.inside, by simpa using long, rfl, h.folder⟩
  · rintro ⟨inside, short, rfl, folder⟩
    have known := isSome_of_isFolder folder
    exact ⟨by simp [walk, inside, busy, up, short, known], folder⟩

/-! Paths that are accepted. -/

theorem checkPath_eq_ok_iff :
    checkPath path = .ok () ↔ '\x00' ∉ path.toList ∧ path ≠ "" ∧ path.utf8ByteSize < pathLimit := by
  rw [checkPath]
  split_ifs <;> simp_all

theorem checkPath_folder (checked : checkPath path = .ok ()) :
    checkPath (Path.folder path) = .ok () := by
  obtain dot | ⟨some, more, whole⟩ := Path.folder_cases path
  · rw [dot]
    decide +kernel
  · have split : path = Path.folder path ++ String.ofList more := by
      rw [← String.toList_inj, String.toList_append, String.toList_ofList, whole]
    obtain ⟨clean, -, short⟩ := checkPath_eq_ok_iff.mp checked
    refine checkPath_eq_ok_iff.mpr ⟨fun has => clean ?_, some, ?_⟩
    · rw [← whole]
      exact List.mem_append_left more has
    · rw [split, String.utf8ByteSize_append] at short
      omega

theorem origin_folder (named : Path.names path.toList ≠ []) :
    d.origin (Path.folder path) = d.origin path := by
  simp only [origin, Path.head?_folder named]

/-- The folder that a path leads to is found by the names in the path. -/
theorem status_eq_folder_iff :
    d.status path = .ok .folder ↔ checkPath path = .ok () ∧
      ∃ there, d.Leads (d.origin path) (Path.names path.toList) there := by
  simp only [Path.names, leads_filter]
  constructor
  · intro h
    obtain ⟨there, leads, asked⟩ := exists_of_bind h
    obtain ⟨⟨⟩, checked, walks⟩ := exists_of_bind leads
    refine ⟨checked, there, walks, ?_⟩
    by_contra other
    simp [other, pure, Except.pure] at asked
  · rintro ⟨checked, there, walks, folder⟩
    simp [status, resolve, checked, walks, folder, bind, Except.bind, pure, Except.pure]

/-- No folder is at the path, and the folder of the path is there. -/
structure Accepts (d : Disk) (path : String) : Prop where
  other : d.status path ≠ .ok .folder
  folder : d.status (Path.folder path) = .ok .folder

theorem Route.namesFile (r : Route d path) : Path.NamesFile path := by
  rw [Path.NamesFile, Path.last_of_segments r.segments]
  exact r.proper

/-- Where a file can be written is accepted. -/
theorem Route.accepts (r : Route d path) : d.Accepts path := by
  have named := Path.names_of_last r.namesFile.busy
  rw [Path.last_of_segments r.segments, r.segments, List.dropLast_concat] at named
  have inside : d.Leads (d.origin path) r.names r.folder := ⟨r.walks, r.inside⟩
  constructor
  · intro folder
    obtain ⟨-, there, leads⟩ := status_eq_folder_iff.mp folder
    rw [named, leads_append] at leads
    obtain ⟨mid, before, last⟩ := leads
    obtain rfl : r.folder = mid :=
      Except.ok.inj (r.walks.symm.trans (leads_filter.mp before).walks)
    obtain ⟨-, -, -, taken⟩ := (leads_name r.proper).mp last
    exact Bool.noConfusion (taken.symm.trans r.vacant)
  · refine status_eq_folder_iff.mpr ⟨checkPath_folder r.checked, r.folder, ?_⟩
    rw [origin_folder (by simp [named]), Path.names_folder, named, List.dropLast_concat]
    exact leads_filter.mpr inside

/-- A path that is accepted leads to a folder by all but its last segment, if this names
something. -/
theorem Accepts.leads (accepts : d.Accepts path)
    (busy : Path.namesNothing (Path.last path.toList) = false) :
    ∃ folder, d.Leads (d.origin path) (Path.segments path.toList).dropLast folder := by
  have named := Path.names_of_last busy
  obtain ⟨-, folder, leads⟩ := status_eq_folder_iff.mp accepts.folder
  rw [origin_folder (by simp [named]), Path.names_folder, named, List.dropLast_concat,
    leads_filter] at leads
  exact ⟨folder, leads⟩

theorem destination_of_leads (checked : checkPath path = .ok ()) (proper : Path.NamesFile path)
    (leads : d.Leads (d.origin path) (Path.segments path.toList).dropLast here) :
    d.destination path =
      if isTooLong (Path.last path.toList) then .error .nameTooLong
      else if d.isFolder (here ++ [Path.last path.toList]) then .error .isADirectory
      else .ok (here ++ [Path.last path.toList]) := by
  have split := Path.dropLast_append_last path.toList
  obtain ⟨busy, up⟩ := Path.proper_iff.mp proper
  have nonempty : (Path.last path.toList).isEmpty = false := by
    cases name : Path.last path.toList <;> simp_all [Path.namesNothing]
  have whole : (List.dropWhile List.isEmpty (Path.segments path.toList).reverse).reverse =
      Path.segments path.toList := by
    rw [← split]
    exact List.rdropWhile_concat_neg _ _ _ (by simp [nonempty])
  have last : (Path.segments path.toList).getLast? = some (Path.last path.toList) := by
    rw [← split, List.getLast?_concat]
  have dot : Path.last path.toList ≠ ['.'] := by simp_all [Path.namesNothing]
  simp only [destination, checked, whole, last, leads.walks, leads.folder, dot, up, bind,
    Except.bind, Nat.lt_irrefl, or_self, Bool.not_true, Bool.false_eq_true, if_false]
  rfl

/-- An accepted path that ends in a name has its place, since no folder is there. -/
theorem Accepts.exists_place (accepts : d.Accepts path) (checked : checkPath path = .ok ())
    (proper : Path.NamesFile path) :
    ∃ here, d.destination path =
      if isTooLong (Path.last path.toList) then .error .nameTooLong else .ok here := by
  obtain ⟨folder, leads⟩ := accepts.leads proper.busy
  refine ⟨folder ++ [Path.last path.toList], ?_⟩
  rw [destination_of_leads checked proper leads]
  split_ifs with long taken
  · rfl
  · refine absurd (status_eq_folder_iff.mpr ⟨checked, folder ++ [Path.last path.toList], ?_⟩)
      accepts.other
    rw [Path.names_of_last proper.busy, leads_append]
    exact ⟨folder, leads_filter.mpr leads,
      (leads_name proper).mpr ⟨leads.folder, by simpa using long, rfl, taken⟩⟩
  · rfl

/-- Short enough for the system. -/
structure Fits (path : String) : Prop where
  whole : path.utf8ByteSize < pathLimit
  parts : ∀ segment ∈ Path.segments path.toList, isTooLong segment = false

theorem Fits.short (fits : Fits path) (h : segment ∈ Path.segments path.toList) :
    ¬ isTooLong segment = true :=
  Bool.eq_false_iff.mp (fits.parts segment h)

/-- A file can be opened for writing by this path, if its place allows it. -/
structure Opens (path : String) : Prop where
  clean : '\x00' ∉ path.toList
  fits : Fits path
  proper : Path.NamesFile path

theorem Opens.checked (h : Opens path) : checkPath path = .ok () := by
  refine checkPath_eq_ok_iff.mpr ⟨h.clean, ?_, h.fits.whole⟩
  rintro rfl
  exact absurd h.proper (by decide)

theorem isTooLong_false_of_walk (walks : d.walk here ss = .ok there) (h : segment ∈ ss) :
    isTooLong segment = false := by
  induction ss generalizing here with
  | nil => contradiction
  | cons s ss ih =>
      rcases List.mem_cons.mp h with rfl | h
      · rw [walk] at walks
        split_ifs at walks with outside idle up long known
        · obtain rfl | rfl : segment = [] ∨ segment = ['.'] := by
            simpa [Path.namesNothing] using idle
          all_goals decide +kernel
        · rw [up]
          decide +kernel
        · simpa using long
      · rw [← List.singleton_append, walk_append] at walks
        obtain ⟨_, -, rest⟩ := exists_of_bind walks
        exact ih rest h

theorem Route.opens (r : Route d path) : Opens path := by
  obtain ⟨clean, -, short⟩ := checkPath_eq_ok_iff.mp r.checked
  refine ⟨clean, ⟨short, fun segment h => ?_⟩, r.namesFile⟩
  rw [r.segments, List.mem_append, List.mem_singleton] at h
  obtain h | rfl := h
  · exact isTooLong_false_of_walk r.walks h
  · exact r.short

/-- An accepted path is written if and only if it can be opened. -/
theorem Accepts.destination_iff (accepts : d.Accepts path) :
    (∃ here, d.destination path = .ok here) ↔ Opens path := by
  constructor
  · rintro ⟨here, h⟩
    obtain ⟨r, -⟩ := destination_eq_ok_iff.mp h
    exact r.opens
  · intro opens
    obtain ⟨here, place⟩ := accepts.exists_place opens.checked opens.proper
    have short := opens.fits.parts (Path.last path.toList) (List.getLast_mem _)
    exact ⟨here, by rw [place, short]; rfl⟩

/-! Why a path cannot be opened. -/

theorem error_of_bind {ε α β : Type} {x : Except ε α} {f : α → Except ε β} {e : ε}
    (h : x >>= f = .error e) : x = .error e ∨ ∃ a, x = .ok a ∧ f a = .error e := by
  cases x with
  | error => exact .inl (congrArg Except.error (Except.error.inj h))
  | ok a => exact .inr ⟨a, rfl, h⟩

/-- Something on the way is not there or no folder. -/
inductive Blocks : FileFault → Prop where
  | notFound : Blocks .notFound
  | notADirectory : Blocks .notADirectory
  | isADirectory : Blocks .isADirectory

theorem fault_of_checkPath (h : checkPath path = .error fault) :
    fault = .nulInPath ∧ '\x00' ∈ path.toList ∨ fault = .notFound ∧ path = "" ∨
      fault = .nameTooLong ∧ pathLimit ≤ path.utf8ByteSize := by
  rw [checkPath] at h
  split_ifs at h with nul empty long
  all_goals obtain rfl := Except.error.inj h
  · exact .inl ⟨rfl, nul⟩
  · exact .inr (.inl ⟨rfl, by simpa using empty⟩)
  · exact .inr (.inr ⟨rfl, long⟩)

theorem fault_of_walk (h : d.walk here ss = .error fault) :
    Blocks fault ∨ fault = .nameTooLong ∧ ∃ segment ∈ ss, isTooLong segment = true := by
  induction ss generalizing here with
  | nil => contradiction
  | cons s ss ih =>
      have later {here : Location} (h : d.walk here ss = .error fault) :
          Blocks fault ∨ fault = .nameTooLong ∧ ∃ segment ∈ s :: ss, isTooLong segment = true :=
        (ih h).imp_right fun ⟨long, segment, known, is⟩ =>
          ⟨long, segment, List.mem_cons_of_mem s known, is⟩
      rw [walk] at h
      split_ifs at h with outside idle up long known
      · obtain rfl := Except.error.inj h
        exact .inl .notADirectory
      · exact later h
      · exact later h
      · exact .inr ⟨(Except.error.inj h).symm, s, List.mem_cons_self, long⟩
      · exact later h
      · obtain rfl := Except.error.inj h
        exact .inl .notFound

theorem fault_of_destination (h : d.destination path = .error fault) :
    fault = .nulInPath ∧ '\x00' ∈ path.toList ∨ fault = .nameTooLong ∧ ¬ Fits path ∨
      Blocks fault := by
  obtain unchecked | ⟨⟨⟩, -, h⟩ := error_of_bind h
  · obtain nul | ⟨rfl, -⟩ | ⟨rfl, long⟩ := fault_of_checkPath unchecked
    · exact .inl nul
    · exact .inr (.inr .notFound)
    · exact .inr (.inl ⟨rfl, fun fits => absurd fits.whole (Nat.not_lt.mpr long)⟩)
  · have cut : (List.dropWhile List.isEmpty (Path.segments path.toList).reverse).reverse <+:
        Path.segments path.toList := List.rdropWhile_prefix _ _
    simp only at h
    split at h
    · obtain rfl := Except.error.inj h
      exact .inr (.inr .isADirectory)
    · rename_i name last
      obtain lost | ⟨folder, -, h⟩ := error_of_bind h
      · obtain blocked | ⟨rfl, segment, known, long⟩ := fault_of_walk lost
        · exact .inr (.inr blocked)
        · have known := cut.subset (List.dropLast_subset _ known)
          exact .inr (.inl ⟨rfl, fun fits => fits.short known long⟩)
      · split_ifs at h with outside open_end long taken
        all_goals first | contradiction | obtain rfl := Except.error.inj h
        · exact .inr (.inr .notADirectory)
        · exact .inr (.inr .isADirectory)
        · have known := cut.subset (List.mem_of_getLast? last)
          exact .inr (.inl ⟨rfl, fun fits => fits.short known long⟩)
        · exact .inr (.inr .isADirectory)

/-- What stops the writing of a file. -/
inductive Stops (path : String) : FileFault → Prop where
  | nul (has : '\x00' ∈ path.toList) : Stops path .nulInPath
  | long (long : ¬ Fits path) : Stops path .nameTooLong
  | unnamed {fault : FileFault} (unnamed : ¬ Path.NamesFile path) (blocks : Blocks fault) :
      Stops path fault

theorem Accepts.not_blocks (accepts : d.Accepts path) (proper : Path.NamesFile path)
    (h : d.destination path = .error fault) : ¬ Blocks fault := by
  intro blocks
  cases checked : checkPath path with
  | error fault' =>
      have same : d.destination path = .error fault' := by rw [destination, checked]; rfl
      obtain rfl := Except.error.inj (h.symm.trans same)
      obtain ⟨rfl, -⟩ | ⟨-, rfl⟩ | ⟨rfl, -⟩ := fault_of_checkPath checked
      · contradiction
      · exact absurd proper (by decide)
      · contradiction
  | ok =>
      obtain ⟨here, place⟩ := accepts.exists_place checked proper
      rw [place] at h
      split_ifs at h
      obtain rfl := Except.error.inj h
      contradiction

theorem Accepts.stops (accepts : d.Accepts path) (h : d.destination path = .error fault) :
    Stops path fault := by
  obtain ⟨rfl, has⟩ | ⟨rfl, long⟩ | blocks := fault_of_destination h
  · exact .nul has
  · exact .long long
  · exact .unnamed (fun proper => accepts.not_blocks proper h blocks) blocks

/-- Writing a file changes no answer. -/
theorem Grows.accepts (grows : Grows d d') (path : String) : d'.Accepts path ↔ d.Accepts path := by
  have status (path : String) : d'.status path = .ok .folder ↔ d.status path = .ok .folder := by
    simp only [status_eq_folder_iff, grows.origin]
    refine and_congr_right fun _ => exists_congr fun there => ?_
    constructor
    · rintro ⟨walks, folder⟩
      have folder : d.isFolder there = true := grows.folders ▸ folder
      exact ⟨grows.walk_folder walks folder, folder⟩
    · rintro ⟨walks, folder⟩
      exact ⟨grows.walk walks, grows.folders.symm ▸ folder⟩
  constructor <;> rintro ⟨other, folder⟩
  · exact ⟨mt (status _).mpr other, (status _).mp folder⟩
  · exact ⟨mt (status _).mp other, (status _).mpr folder⟩

end YoloLang.Disk
