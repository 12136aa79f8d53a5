import YoloLang.Proofs.Destinations

/-!
Disks on which everything lies in a folder. Main statements: every disk that comes about by laying
out, taking away and writing is one, and on such a disk an accepted path that has no NUL and fits
can be opened if and only if its last segment names something.
-/

namespace YoloLang

namespace Disk

variable {d d' : Disk} {here there : Location} {path text : String} {ss : List (List Char)}

def Rooted (d : Disk) : Prop :=
  ∀ here, (d.entry? here).isSome = true → d.isFolder here.dropLast = true

theorem rooted_empty : Disk.empty.Rooted := by
  intro here known
  by_cases top : here = []
  · subst top
    rfl
  · have home : here = [['h', 'o', 'm', 'e']] := by
      by_contra other
      simp [empty, entry?, top, List.lookup_cons, beq_eq_false_iff_ne.mpr other] at known
    subst home
    rfl

/-! Laying out a disk. -/

theorem Rooted.put_folder (rooted : d.Rooted) (free : (d.entry? here).isSome = false)
    (inside : d.isFolder here.dropLast = true) : (d.put here .folder).Rooted := by
  have inner : here ≠ [] := by
    rintro rfl
    contradiction
  have kept (there : Location) (folder : d.isFolder there = true) :
      (d.put here .folder).isFolder there = true := by
    rw [isFolder, entry?_put inner]
    split_ifs
    · rfl
    · exact folder
  intro there known
  rw [entry?_put inner] at known
  split_ifs at known with same
  · subst same
    exact kept _ inside
  · exact kept _ (rooted there known)

theorem Rooted.makeFolders (rooted : d.Rooted) : (d.makeFolders here ss).Rooted := by
  induction ss generalizing d here with
  | nil => exact rooted
  | cons s ss ih =>
      rw [Disk.makeFolders]
      split_ifs with outside
      · exact rooted
      · exact ih rooted
      · exact ih rooted
      · exact rooted
      · refine ih ?_
        split_ifs with known
        · exact rooted
        · exact rooted.put_folder (by simpa using known) (by simpa using outside)

/-- A file at the end of a way is in the last folder of the way. -/
theorem Rooted.of_route (rooted : d.Rooted) (r : Route d path) (grows : Grows d d')
    (frame : ∀ there, there ≠ r.place → d'.entry? there = d.entry? there) : d'.Rooted := by
  intro there known
  rw [grows.folders]
  by_cases same : there = r.place
  · subst same
    simpa [Route.place] using r.inside
  · exact rooted there (frame there same ▸ known)

theorem Rooted.place (rooted : d.Rooted) (entry : Entry) : (d.place path entry).Rooted := by
  cases entry with
  | folder => exact rooted.makeFolders
  | file bytes =>
      rw [Disk.place]
      split
      · rename_i here written
        obtain ⟨r, rfl⟩ := destination_eq_ok_iff.mp written
        refine rooted.makeFolders.of_route r (grows_put r.place_ne_nil r.vacant bytes) ?_
        intro there apart
        rw [entry?_put r.place_ne_nil, if_neg apart]
      · exact rooted.makeFolders

theorem entry?_remove {gone : Location} (leads : d.resolve path = .ok gone) (there : Location) :
    entry? (d.remove path) there =
      if there = [] ∨ ¬ gone <+: there then d.entry? there else none := by
  have entries : (d.remove path).entries = d.entries.filter fun e => !gone.isPrefixOf e.1 := by
    rw [Disk.remove, leads]
  have row := lookup_filter (fun l => !gone.isPrefixOf l) d.entries there
  cases there with
  | nil => rfl
  | cons =>
      simpa [ entry?, entries, ← List.isPrefixOf_iff_prefix, apply_ite, ite_not] using row

/-- What is left does not lie in what is taken away, and neither does its folder. -/
theorem Rooted.remove (rooted : d.Rooted) : (d.remove path).Rooted := by
  cases leads : d.resolve path with
  | error =>
      rw [Disk.remove, leads]
      exact rooted
  | ok gone =>
      intro there known
      rw [entry?_remove leads] at known
      split_ifs at known with left
      · rw [isFolder, entry?_remove leads, if_pos]
        · exact rooted there known
        · obtain rfl | left := left
          · exact .inl rfl
          · exact .inr fun begins => left (begins.trans (List.dropLast_prefix there))
      · contradiction

/-! Disks that come about. -/

theorem Rooted.write (rooted : d.Rooted) (written : d.write path text = .ok d') : d'.Rooted := by
  obtain ⟨here, place, -, replaced⟩ := replaced_of_write written
  obtain ⟨r, rfl⟩ := destination_eq_ok_iff.mp place
  exact rooted.of_route r replaced.grows replaced.frame

/-- Disks that come about from the first one by laying out, taking away and writing. -/
inductive Formed : Disk → Prop where
  | empty : Formed .empty
  | place {d : Disk} (formed : Formed d) (path : String) (entry : Entry) :
      Formed (d.place path entry)
  | remove {d : Disk} (formed : Formed d) (path : String) : Formed (d.remove path)
  | write {d d' : Disk} {path text : String} (formed : Formed d)
      (written : d.write path text = .ok d') : Formed d'

theorem Formed.rooted (formed : d.Formed) : d.Rooted := by
  induction formed with
  | empty => exact rooted_empty
  | place _ path entry ih => exact ih.place entry
  | remove _ path ih => exact ih.remove
  | write _ written ih => exact ih.write written

/-- An accepted path leads up no folder at its end, since there would be one. -/
theorem Rooted.opens_iff (rooted : d.Rooted) (accepts : d.Accepts path) :
    Opens path ↔ '\x00' ∉ path.toList ∧ Fits path ∧
      Path.namesNothing (Path.last path.toList) = false := by
  refine ⟨fun opens => ⟨opens.clean, opens.fits, opens.proper.busy⟩, ?_⟩
  rintro ⟨clean, fits, busy⟩
  refine ⟨clean, fits, Path.proper_iff.mpr ⟨busy, ?_⟩⟩
  intro up
  have checked : checkPath path = .ok () := by
    refine checkPath_eq_ok_iff.mpr ⟨clean, ?_, fits.whole⟩
    rintro rfl
    contradiction
  obtain ⟨folder, leads⟩ := accepts.leads busy
  have above := rooted folder (isSome_of_isFolder leads.folder)
  refine accepts.other (status_eq_folder_iff.mpr ⟨checked, folder.dropLast, ?_⟩)
  rw [Path.names_of_last busy, leads_append]
  refine ⟨folder, leads_filter.mpr leads, ?_, above⟩
  rw [up] at busy ⊢
  simp [walk, leads.folder, busy]

end Disk

end YoloLang
