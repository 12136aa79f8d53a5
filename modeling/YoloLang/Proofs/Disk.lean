import Mathlib.Data.List.DropRight
import YoloLang.Files.Disk

/-!
Files on a disk. Main statements: writing a file changes one place only and no folder, so what was
written is read again by the same path, and the places where files can be written stay the same.
-/

namespace YoloLang.Disk

variable {d d' : Disk} {here there : Location} {path text : String}

/-! Entries. -/

theorem lookup_filter (keep : Location → Bool) (entries : List (Location × Entry))
    (there : Location) :
    (entries.filter fun e => keep e.1).lookup there =
      if keep there then entries.lookup there else none := by
  induction entries with
  | nil => simp
  | cons entry entries ih =>
      obtain ⟨place, entry⟩ := entry
      rw [List.filter_cons]
      by_cases same : there = place
      · subst same
        cases kept : keep there <;> simp [kept, ih]
      · have differs : (there == place) = false := beq_eq_false_iff_ne.mpr same
        cases kept : keep place <;> simp [ih, List.lookup_cons, differs]

theorem entry?_put (inner : here ≠ []) (d : Disk) (entry : Entry) (there : Location) :
    entry? (d.put here entry) there = if there = here then some entry else d.entry? there := by
  have row := lookup_filter (· != here) d.entries there
  by_cases same : there = here
  · subst same
    simp [put, inner, entry?]
  · have differs : (there == here) = false := beq_eq_false_iff_ne.mpr same
    have kept : (there != here) = true := bne_iff_ne.mpr same
    simp only [put, entry?, List.lookup_cons, differs, row, kept, if_true, if_neg same]

theorem isFolder_put (inner : here ≠ []) (d : Disk) (bytes : ByteArray) (there : Location) :
    (d.put here (.file bytes)).isFolder there = (there != here && d.isFolder there) := by
  rw [isFolder, entry?_put inner]
  by_cases same : there = here <;> simp [same, isFolder]

/-! Walks. -/

theorem exists_of_bind {ε α β : Type} {x : Except ε α} {f : α → Except ε β} {b : β}
    (h : x >>= f = .ok b) : ∃ a, x = .ok a ∧ f a = .ok b := by
  cases x with
  | error => contradiction
  | ok a => exact ⟨a, rfl, h⟩

theorem walk_append (d : Disk) (here : Location) (xs ys : List (List Char)) :
    d.walk here (xs ++ ys) = d.walk here xs >>= (d.walk · ys) := by
  induction xs generalizing here with
  | nil => rfl
  | cons x xs ih =>
      simp only [List.cons_append, walk, ih]
      split_ifs <;> rfl

/-- The folders of the disks are the same, and what is in a place of the first is there on the
second too. -/
structure Grows (d d' : Disk) : Prop where
  home : d'.home = d.home
  folders : d'.isFolder = d.isFolder
  kept : ∀ here, (d.entry? here).isSome = true → (d'.entry? here).isSome = true

theorem grows_put (inner : here ≠ []) (other : d.isFolder here = false) (bytes : ByteArray) :
    Grows d (d.put here (.file bytes)) where
  home := rfl
  folders := by
    funext there
    rw [isFolder_put inner]
    by_cases same : there = here <;> simp [same, other]
  kept there some := by
    rw [entry?_put inner]
    split
    · rfl
    · exact some

theorem Grows.origin (grows : Grows d d') (path : String) : d'.origin path = d.origin path := by
  rw [Disk.origin, Disk.origin, grows.home]

/-- A walk that comes to an end still does. -/
theorem Grows.walk (grows : Grows d d') {names : List (List Char)}
    (walks : d.walk here names = .ok there) : d'.walk here names = .ok there := by
  induction names generalizing here with
  | nil => exact walks
  | cons name names ih =>
      simp only [Disk.walk, grows.folders] at walks ⊢
      split_ifs at walks ⊢ <;> simp_all [grows.kept]

/-- Nothing is looked up in what is no folder. -/
theorem eq_of_walk {names : List (List Char)} (other : d.isFolder here = false)
    (walks : d.walk here names = .ok there) : there = here := by
  cases names with
  | nil => exact (Except.ok.inj walks).symm
  | cons name names => simp [Disk.walk, other] at walks

/-- No new walk comes to an end in a folder. -/
theorem Grows.walk_folder (grows : Grows d d') {names : List (List Char)}
    (walks : d'.walk here names = .ok there) (folder : d.isFolder there = true) :
    d.walk here names = .ok there := by
  induction names generalizing here with
  | nil => exact walks
  | cons name names ih =>
      simp only [Disk.walk, grows.folders] at walks ⊢
      split_ifs at walks ⊢ with outside idle up long some known
      · exact ih walks
      · exact ih walks
      · exact ih walks
      · have other : d.isFolder (here ++ [name]) = false := by
          cases none : d.entry? (here ++ [name]) <;> simp_all [isFolder]
        rw [eq_of_walk (grows.folders ▸ other) walks, other] at folder
        contradiction

/-! Where files are written. -/

/-- A way to a place for a file: through folders, and by a name in the last of them. -/
structure Route (d : Disk) (path : String) where
  names : List (List Char)
  name : List Char
  folder : Location
  checked : checkPath path = .ok ()
  segments : Path.segments path.toList = names ++ [name]
  proper : name ∉ [[], ['.'], ['.', '.']]
  short : isTooLong name = false
  walks : d.walk (d.origin path) names = .ok folder
  inside : d.isFolder folder = true
  vacant : d.isFolder (folder ++ [name]) = false

def Route.place (r : Route d path) : Location := r.folder ++ [r.name]

theorem Route.place_ne_nil (r : Route d path) : r.place ≠ [] := by simp [Route.place]

/-- A file can be written where there is a way to. -/
theorem destination_eq_ok_iff :
    d.destination path = .ok here ↔ ∃ r : Route d path, r.place = here := by
  constructor
  · intro h
    obtain ⟨⟨⟩, checked, h⟩ := exists_of_bind h
    simp only at h
    split at h
    · contradiction
    rename_i name last
    obtain ⟨folder, walks, h⟩ := exists_of_bind h
    split_ifs at h with outside open_end long taken
    obtain ⟨dot, dots, length⟩ := by simpa only [not_or] using open_end
    -- A path that ends in a slash has been refused, so nothing was cut off at its end.
    have whole : (Path.segments path.toList).rdropWhile List.isEmpty =
        Path.segments path.toList :=
      (List.rdropWhile_prefix _ _).eq_of_length_le (Nat.le_of_not_lt length)
    have row : (List.dropWhile List.isEmpty (Path.segments path.toList).reverse).reverse =
        Path.segments path.toList := whole
    rw [row] at last walks
    obtain ⟨names, segments⟩ := List.getLast?_eq_some_iff.mp last
    have named : name ≠ [] := by
      rintro rfl
      have ends := List.rdropWhile_eq_self_iff.mp whole (Path.segments_ne_nil _)
      simp [segments] at ends
    rw [segments, List.dropLast_concat] at walks
    exact ⟨⟨names, name, folder, checked, segments, by simp [named, dot, dots], by simpa using long,
      walks, by simpa using outside, by simpa using taken⟩, Except.ok.inj h⟩
  · rintro ⟨r, rfl⟩
    have proper := r.proper
    have named : r.name.isEmpty = false := by
      cases name : r.name <;> simp_all
    have whole : (List.dropWhile List.isEmpty (Path.segments path.toList).reverse).reverse =
        r.names ++ [r.name] := by
      rw [r.segments]
      exact List.rdropWhile_concat_neg _ _ _ (by simp [named])
    simp only [destination, bind, Except.bind, whole]
    simp_all [r.checked, r.segments, r.walks, r.inside, r.short, r.vacant, Route.place]
    rfl

/-- The way to a place with something there already leads there. -/
theorem Route.resolve (r : Route d path) (some : (d.entry? r.place).isSome = true) :
    d.resolve path = .ok r.place := by
  have proper := r.proper
  have step : d.walk r.folder [r.name] = .ok r.place := by
    simp_all [Disk.walk, r.inside, r.short, Path.namesNothing, Route.place]
  simp only [Disk.resolve, r.checked, r.segments, walk_append, r.walks, bind, Except.bind, step]

/-- The same files can be written on both disks. -/
theorem Grows.destination (grows : Grows d d') (path : String) (here : Location) :
    d'.destination path = .ok here ↔ d.destination path = .ok here := by
  have origin := grows.origin path
  rw [destination_eq_ok_iff, destination_eq_ok_iff]
  constructor
  · rintro ⟨r, rfl⟩
    have inside : d.isFolder r.folder = true := grows.folders ▸ r.inside
    have walks := grows.walk_folder r.walks inside
    exact ⟨{ r with walks := origin ▸ walks, inside, vacant := grows.folders ▸ r.vacant }, rfl⟩
  · rintro ⟨r, rfl⟩
    have walks := grows.walk r.walks
    exact ⟨{ r with
      walks := origin.symm ▸ walks
      inside := grows.folders.symm ▸ r.inside
      vacant := grows.folders.symm ▸ r.vacant }, rfl⟩

theorem Grows.resolve (grows : Grows d d') (h : d.resolve path = .ok here) :
    d'.resolve path = .ok here := by
  obtain ⟨⟨⟩, checked, walks⟩ := exists_of_bind h
  rw [Disk.resolve, checked, grows.origin]
  exact grows.walk walks

/-! Reading and writing. -/

theorem read_of_resolve (there : d.resolve path = .ok here)
    (file : d.entry? here = some (.file text.toUTF8)) : d.read path = .ok text := by
  have decoded : String.fromUTF8? text.toUTF8 = some text := dif_pos text.isValidUTF8
  simp only [Disk.read, there, bind, Except.bind, file, decoded]
  rfl

theorem write_eq_ok_iff :
    d.write path text = .ok d' ↔
      ∃ here, d.destination path = .ok here ∧ d' = d.put here (.file text.toUTF8) := by
  cases there : d.destination path with
  | error fault => simp [write, there, bind, Except.bind]
  | ok here => simp [write, there, bind, Except.bind, pure, Except.pure, eq_comm]

theorem write_eq_error_iff {fault : FileFault} :
    d.write path text = .error fault ↔ d.destination path = .error fault := by
  cases there : d.destination path <;> simp [write, there, bind, Except.bind, pure, Except.pure]

/-- A text has been put in one place of a disk. -/
structure Replaced (d : Disk) (here : Location) (text : String) (d' : Disk) : Prop where
  held : d'.entry? here = some (.file text.toUTF8)
  frame : ∀ there, there ≠ here → d'.entry? there = d.entry? there
  grows : Grows d d'

/-- Writing a file changes the place of the file only, and this is where the path leads then. -/
theorem replaced_of_write (h : d.write path text = .ok d') :
    ∃ here, d.destination path = .ok here ∧ d'.resolve path = .ok here ∧
      Replaced d here text d' := by
  obtain ⟨here, there, rfl⟩ := write_eq_ok_iff.mp h
  obtain ⟨r, rfl⟩ := destination_eq_ok_iff.mp there
  have grows := grows_put r.place_ne_nil r.vacant text.toUTF8
  have held := entry?_put r.place_ne_nil d (.file text.toUTF8) r.place
  rw [if_pos rfl] at held
  obtain ⟨r', same⟩ := destination_eq_ok_iff.mp ((grows.destination path r.place).mpr there)
  have leads := r'.resolve (by rw [same, held]; rfl)
  rw [same] at leads
  refine ⟨r.place, there, leads, held, fun other differs => ?_, grows⟩
  rw [entry?_put r.place_ne_nil, if_neg differs]

/-- What was written is read again. -/
theorem read_of_write (h : d.write path text = .ok d') : d'.read path = .ok text := by
  obtain ⟨here, -, leads, replaced⟩ := replaced_of_write h
  exact read_of_resolve leads replaced.held

/-- Of two files that are written one after the other, the first is still there unless the second
has its place. -/
theorem read_of_writes {d₁ : Disk} {path' text' : String} (first : d.write path text = .ok d₁)
    (second : d₁.write path' text' = .ok d') :
    ∃ here there, d.destination path = .ok here ∧ d.destination path' = .ok there ∧
      d'.read path = .ok (if here = there then text' else text) := by
  obtain ⟨here, place, leads, replaced⟩ := replaced_of_write first
  obtain ⟨there, place', -, replaced'⟩ := replaced_of_write second
  have leads := replaced'.grows.resolve leads
  refine ⟨here, there, place, (replaced.grows.destination _ _).mp place', ?_⟩
  split_ifs with same
  · subst same
    exact read_of_resolve leads replaced'.held
  · exact read_of_resolve leads ((replaced'.frame here same).trans replaced.held)

end YoloLang.Disk

/-! Steps that only look at files. -/

namespace YoloLang

/-- No file is changed. -/
def Still {σ α : Type} (m : StateM σ α) : Prop := ∀ s : σ, (m.run s).2 = s

theorem still_pure {σ α : Type} (a : α) : Still (pure a : StateM σ α) := fun _ => rfl

theorem Still.bind {σ α β : Type} {m : StateM σ α} {next : α → StateM σ β} (h : Still m)
    (h' : ∀ a, Still (next a)) : Still (m >>= next) :=
  fun s => (h' (m.run s).1 (m.run s).2).trans (h s)

/-- What comes next finds the files as they were. -/
theorem Still.run_bind {σ α β : Type} {m : StateM σ α} (h : Still m) (next : α → StateM σ β)
    (s : σ) : (m >>= next).run s = (next (m.run s).1).run s := by
  have same : (m >>= next).run s = (next (m.run s).1).run (m.run s).2 := rfl
  rw [same, h s]

/-- Reading a file changes none, and neither does the question what a path leads to. -/
structure Files.Calm (σ : Type) [Files (StateM σ)] : Prop where
  read : ∀ path, Still (Files.read path : StateM σ (Except FileFault String))
  status : ∀ path, Still (Files.status path : StateM σ (Except FileFault Status))

theorem Disk.calm : Files.Calm Disk := ⟨fun _ _ => rfl, fun _ _ => rfl⟩

end YoloLang
