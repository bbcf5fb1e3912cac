import ThemeRender.Proofs.Store.DiskPlaces
/-!
What changes on a disk. Making directories and changing their modes leaves all files as they are,
and a write changes the one file that it writes; what was reached before is reached afterwards.
-/

namespace ThemeRender.Disk

open Outcome (except_bind_eq_ok)

variable {disk middle after : Disk} {path : Path} {place other : Location}

/-! One entry -/

theorem get?_put (disk : Disk) (place other : Location) (entry : DiskEntry)
    (nonempty : place ≠ []) :
    (disk.put place entry).get? other = if other = place then some entry else disk.get? other := by
  unfold get? put
  dsimp only
  rw [List.lookup_append]
  by_cases same : other = place
  · subst same
    have gone : (disk.entries.filter (·.1 ≠ other)).lookup other = none := by
      rw [List.lookup_eq_none_iff]
      intro entry member
      have different : entry.1 ≠ other := by simpa using (List.mem_filter.mp member).2
      simpa using different.symm
    rw [if_pos rfl, if_neg (by simpa using nonempty), gone]
    simp
  · have absent : (other == place) = false := by simpa using same
    rw [if_neg same, PathMap.lookup_filter_ne disk.entries same]
    simp [List.lookup_cons, absent]

theorem get?_put_top (disk : Disk) (other : Location) (entry : DiskEntry) :
    (disk.put [] entry).get? other = disk.get? other := by
  unfold get? put
  dsimp only
  split
  · rfl
  · rename_i nonempty
    have different : other ≠ [] := by simpa using nonempty
    have absent : (other == []) = false := by simpa using different
    rw [List.lookup_append, PathMap.lookup_filter_ne disk.entries different]
    simp [List.lookup_cons, absent]

theorem mem_of_get? {entry : DiskEntry} (found : disk.get? place = some entry)
    (nonempty : place ≠ []) : (place, entry) ∈ disk.entries := by
  unfold get? at found
  rw [if_neg (by simpa using nonempty)] at found
  obtain ⟨before, rest, whole, -⟩ := List.lookup_eq_some_iff.mp found
  rw [whole]
  exact List.mem_append_right _ List.mem_cons_self

theorem get?_top (disk : Disk) : disk.get? [] = some (.dir usualMode) := rfl

theorem ne_top_of_file {contents : ByteArray} {time : Nat}
    (found : disk.get? place = some (.file contents time)) : place ≠ [] := by
  rintro rfl
  rw [get?_top] at found
  cases found

/-! Directories that stay -/

structure KeepsDirs (disk after : Disk) : Prop where
  base : after.base = disk.base
  dirs : ∀ place mode, disk.get? place = some (.dir mode) →
    ∃ mode', after.get? place = some (.dir mode')

theorem KeepsDirs.follow (kept : KeepsDirs disk after) {here : Location}
    {pieces : List (List Char)} (leads : disk.follow here pieces = .ok place) :
    after.follow here pieces = .ok place := by
  induction pieces generalizing here with
  | nil =>
      cases leads
      rfl
  | cons piece rest ih =>
      obtain ⟨⟨mode, isDir⟩, further⟩ := follow_cons.mp leads
      refine follow_cons.mpr ⟨kept.dirs here mode isDir, ?_⟩
      split at further
      · rename_i idle
        rw [if_pos idle]
        exact ih further
      · rename_i busy
        rw [if_neg busy]
        split at further
        · rename_i isParent
          rw [if_pos isParent]
          exact ih further
        · rename_i notParent
          rw [if_neg notParent]
          exact ⟨further.1, ih further.2⟩

theorem KeepsDirs.locate (kept : KeepsDirs disk after) (found : disk.locate path = .ok place) :
    after.locate path = .ok place := by
  obtain ⟨unmarked, nonempty, short, leads⟩ := locate_eq_ok.mp found
  rw [← kept.base] at leads
  exact locate_eq_ok.mpr ⟨unmarked, nonempty, short, kept.follow leads⟩

/-! Directories alone -/

/-- Whether a later disk has the same files, and at least the same directories. -/
structure DirsOnly (disk after : Disk) : Prop extends KeepsDirs disk after where
  files : ∀ place contents time,
    after.get? place = some (.file contents time) ↔ disk.get? place = some (.file contents time)

theorem DirsOnly.refl (disk : Disk) : DirsOnly disk disk where
  base := rfl
  dirs _ mode isDir := ⟨mode, isDir⟩
  files _ _ _ := Iff.rfl

theorem DirsOnly.trans (first : DirsOnly disk middle) (second : DirsOnly middle after) :
    DirsOnly disk after where
  base := second.base.trans first.base
  dirs place mode isDir := by
    obtain ⟨mode', isDir'⟩ := first.dirs place mode isDir
    exact second.dirs place mode' isDir'
  files place contents time :=
    (second.files place contents time).trans (first.files place contents time)

theorem DirsOnly.find (kept : DirsOnly disk after) {contents : ByteArray} {time : Nat}
    (found : disk.find path = .ok (.file contents time)) :
    after.find path = .ok (.file contents time) := by
  obtain ⟨place, located, there⟩ := find_eq_ok.mp found
  exact find_eq_ok.mpr ⟨place, kept.locate located, (kept.files place contents time).mpr there⟩

theorem DirsOnly.read (kept : DirsOnly disk after) {text : String}
    (reads : Store.read disk path = .ok text) : Store.read after path = .ok text := by
  obtain ⟨contents, time, found, decodes⟩ := read_eq_ok.mp reads
  exact read_eq_ok.mpr ⟨contents, time, kept.find found, decodes⟩

theorem dirsOnly_put {mode : Mode} (nonempty : place ≠ [])
    (noFile : ∀ contents time, disk.get? place ≠ some (.file contents time)) :
    DirsOnly disk (disk.put place (.dir mode)) where
  base := rfl
  dirs other mode' isDir := by
    rw [get?_put _ _ _ _ nonempty]
    split
    · exact ⟨mode, rfl⟩
    · exact ⟨mode', isDir⟩
  files other contents time := by
    rw [get?_put _ _ _ _ nonempty]
    split
    · rename_i same
      subst same
      constructor
      · intro isFile
        cases isFile
      · intro isFile
        exact absurd isFile (noFile contents time)
    · rfl

theorem createDir_dirsOnly {mode : Mode} (made : disk.createDir path mode = .ok after) :
    DirsOnly disk after := by
  unfold createDir at made
  obtain ⟨place, -, puts⟩ := except_bind_eq_ok.mp made
  cases found : disk.get? place with
  | some entry =>
      rw [found] at puts
      cases puts
  | none =>
      have nonempty : place ≠ [] := by
        rintro rfl
        rw [get?_top] at found
        cases found
      rw [found] at puts
      dsimp only at puts
      split at puts
      · cases puts
        exact dirsOnly_put nonempty fun contents time isFile => by
          rw [found] at isFile
          cases isFile
      · cases puts
      · cases puts

theorem createDirsWithin_dirsOnly {mode : Mode} {levels : Nat}
    (made : createDirsWithin levels path mode disk = .ok after) : DirsOnly disk after := by
  induction levels generalizing path disk after with
  | zero => cases made
  | succ levels ih =>
      rw [createDirsWithin] at made
      split at made
      · cases made
        exact .refl disk
      · split at made
        · rename_i creates
          cases made
          exact createDir_dirsOnly creates
        · split at made
          · cases made
          · rename_i parent _
            obtain ⟨middle, above, rest⟩ := except_bind_eq_ok.mp made
            split at rest
            · cases rest
              exact ih above
            · exact (ih above).trans (createDir_dirsOnly rest)
        · split at made
          · cases made
            exact .refl disk
          · cases made

theorem setMode_dirsOnly {mode : Mode} (changed : disk.setMode path mode = .ok after) :
    DirsOnly disk after := by
  unfold setMode at changed
  obtain ⟨place, -, puts⟩ := except_bind_eq_ok.mp changed
  split at puts
  · cases puts
  · cases puts
    exact .refl disk
  · rename_i mode' isDir
    cases puts
    by_cases top : place = []
    · -- the top directory is no entry: what is put there is not seen
      subst top
      refine ⟨⟨rfl, fun other mode' isDir => ⟨mode', ?_⟩⟩, fun other contents time => ?_⟩
      · rw [get?_put_top]
        exact isDir
      · rw [get?_put_top]
    · exact dirsOnly_put top fun contents time isFile => by
        rw [isDir] at isFile
        cases isFile

/-! A file written -/

theorem write_eq_ok {contents : ByteArray} (written : disk.write path contents = .ok after) :
    ∃ place, disk.locate path = .ok place ∧ place ≠ [] ∧
      (∀ mode, disk.get? place ≠ some (.dir mode)) ∧ after.base = disk.base ∧
      ∀ other, after.get? other =
        if other = place then some (.file contents (disk.clock + 1)) else disk.get? other := by
  unfold write at written
  obtain ⟨place, located, puts⟩ := except_bind_eq_ok.mp written
  have noDir : ∀ mode, disk.get? place ≠ some (.dir mode) := by
    intro mode isDir
    rw [isDir] at puts
    cases puts
  have nonempty : place ≠ [] := by
    rintro rfl
    exact noDir _ disk.get?_top
  refine ⟨place, located, nonempty, noDir, ?_⟩
  split at puts
  · cases puts
  · cases puts
  · cases puts
  · cases puts
    exact ⟨rfl, fun other => get?_put disk place other _ nonempty⟩

theorem fromUTF8?_toUTF8 (text : String) : String.fromUTF8? text.toUTF8 = some text := by
  unfold String.fromUTF8?
  rw [String.toUTF8_eq_toByteArray, dif_pos text.isValidUTF8]
  rfl

theorem read_of_write {text : String} (written : disk.write path text.toUTF8 = .ok after) :
    Store.read after path = .ok text := by
  obtain ⟨place, located, -, noDir, base, entries⟩ := write_eq_ok written
  have kept : KeepsDirs disk after := by
    refine ⟨base, fun other mode isDir => ⟨mode, ?_⟩⟩
    rw [entries, if_neg, isDir]
    rintro rfl
    exact noDir mode isDir
  have found : after.get? place = some (.file text.toUTF8 (disk.clock + 1)) := by
    rw [entries, if_pos rfl]
  exact read_eq_ok.mpr ⟨_, _, find_eq_ok.mpr ⟨place, kept.locate located, found⟩,
    fromUTF8?_toUTF8 text⟩

end ThemeRender.Disk
