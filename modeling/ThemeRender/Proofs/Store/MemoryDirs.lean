import ThemeRender.Proofs.Outcome
import ThemeRender.Proofs.Store.Ancestors
import ThemeRender.Store.Memory

namespace ThemeRender

namespace PathMap

variable {α : Type} {map : PathMap α} {path other : Path} {value kept : α}

theorem contains_congr (same : path.components = other.components) :
    map.contains path = map.contains other := by
  unfold contains get?
  rw [same]

theorem contains_insert_of_contains (there : map.contains path = true) :
    (map.insert other value).contains path = true := by
  unfold contains at there ⊢
  rw [get?_insert]
  split
  · rfl
  · exact there

theorem contains_insertNew_self : (map.insertNew path value).contains path = true := by
  unfold insertNew
  split
  · rename_i there
    exact there
  · unfold contains
    rw [get?_insert, if_pos rfl]
    rfl

theorem contains_insertNew_of_contains (there : map.contains path = true) :
    (map.insertNew other value).contains path = true := by
  unfold insertNew
  split
  · exact there
  · exact contains_insert_of_contains there

theorem contains_foldl_insertNew (paths : List Path)
    (there : path ∈ paths ∨ map.contains path = true) :
    (paths.foldl (·.insertNew · value) map).contains path = true := by
  induction paths generalizing map with
  | nil => exact there.resolve_left List.not_mem_nil
  | cons first rest ih =>
      apply ih
      rcases there with member | there
      · rcases List.mem_cons.mp member with rfl | later
        · exact .inr contains_insertNew_self
        · exact .inl later
      · exact .inr (contains_insertNew_of_contains there)

theorem contains_of_get? (there : map.get? path = some kept) : map.contains path = true := by
  rw [contains, there]
  rfl

theorem get?_insertNew_of_get? (there : map.get? path = some kept) :
    (map.insertNew other value).get? path = some kept := by
  unfold insertNew
  split
  · exact there
  · rename_i absent
    have different : path.components ≠ other.components := by
      intro same
      exact absent ((contains_congr same).symm.trans (contains_of_get? there))
    rw [get?_insert, if_neg different]
    exact there

theorem get?_foldl_insertNew_of_get? (paths : List Path) (there : map.get? path = some kept) :
    (paths.foldl (·.insertNew · value) map).get? path = some kept := by
  induction paths generalizing map with
  | nil => exact there
  | cons first rest ih => exact ih (get?_insertNew_of_get? there)

theorem get?_foldl_insertNew_of_other (paths : List Path)
    (other : ∀ made ∈ paths, path.components ≠ made.components) :
    (paths.foldl (·.insertNew · value) map).get? path = map.get? path := by
  induction paths generalizing map with
  | nil => rfl
  | cons first rest ih =>
      rw [List.foldl_cons, ih fun made later => other made (List.mem_cons_of_mem _ later)]
      unfold insertNew
      split
      · rfl
      · rw [get?_insert, if_neg (other first List.mem_cons_self)]

theorem contains_of_insert (there : (map.insert other value).contains path = true) :
    map.contains path = true ∨ other.components = path.components := by
  by_cases same : path.components = other.components
  · exact .inr same.symm
  · unfold contains at there ⊢
    rw [get?_insert, if_neg same] at there
    exact .inl there

theorem contains_of_insertNew (there : (map.insertNew other value).contains path = true) :
    map.contains path = true ∨ other.components = path.components := by
  unfold insertNew at there
  split at there
  · exact .inl there
  · exact contains_of_insert there

theorem contains_of_foldl_insertNew (paths : List Path)
    (there : (paths.foldl (·.insertNew · value) map).contains path = true) :
    map.contains path = true ∨ ∃ made ∈ paths, made.components = path.components := by
  induction paths generalizing map with
  | nil => exact .inl there
  | cons first rest ih =>
      rcases ih there with before | ⟨made, later, same⟩
      · rcases contains_of_insertNew before with before | same
        · exact .inl before
        · exact .inr ⟨first, List.mem_cons_self, same⟩
      · exact .inr ⟨made, List.mem_cons_of_mem _ later, same⟩

end PathMap

namespace MemoryStore

/-- Nothing but directories may have changed, and none is gone. -/
structure DirsOnly (before after : MemoryStore) : Prop where
  files : after.files = before.files
  clock : after.clock = before.clock
  locked : after.locked = before.locked
  dirs : ∀ path, before.dirs.contains path = true → after.dirs.contains path = true

namespace DirsOnly

theorem refl (store : MemoryStore) : DirsOnly store store := ⟨rfl, rfl, rfl, fun _ => id⟩

theorem trans {first second third : MemoryStore} (before : DirsOnly first second)
    (after : DirsOnly second third) : DirsOnly first third where
  files := after.files.trans before.files
  clock := after.clock.trans before.clock
  locked := after.locked.trans before.locked
  dirs path there := after.dirs path (before.dirs path there)

end DirsOnly

variable {store : MemoryStore} {path other : Path}

theorem contains_insertDirs {above : Path} (leads : path.startsWith above = true)
    (some : above.components ≠ []) (mode : Mode) :
    (store.insertDirs path mode).dirs.contains above = true := by
  obtain ⟨ancestor, member, same⟩ := Path.exists_mem_ancestors leads some
  rw [← PathMap.contains_congr same]
  apply PathMap.contains_foldl_insertNew
  refine .inl (List.mem_filter.mpr ⟨member, ?_⟩)
  rw [Path.isEmpty_eq_false (same ▸ some)]
  rfl

theorem insertDirs_dirsOnly (store : MemoryStore) (path : Path) (mode : Mode) :
    DirsOnly store (store.insertDirs path mode) where
  files := rfl
  clock := rfl
  locked := rfl
  dirs _ there := PathMap.contains_foldl_insertNew _ (.inr there)

/-! Making a directory -/

open Outcome (finalState)

theorem createDirs_apply (path : Path) (mode : Mode) (store : MemoryStore) :
    createDirs path mode store =
      if store.isLocked path then .error (.permissionDenied path) store
      else
        match store.nearestDir? path with
        | none => .ok () (store.insertDirs path (store.masked mode))
        | some existing =>
            if existing.same path then .ok () store
            else if store.isWritable existing then
              .ok () (store.insertDirs path (store.masked mode))
            else .error (.permissionDenied existing) store := by
  change (if store.isLocked path then _ else _ : EStateM FileError MemoryStore Unit) store = _
  split
  · rfl
  · cases store.nearestDir? path with
    | none => rfl
    | some existing =>
        dsimp only
        split
        · rfl
        · split
          · rfl
          · rfl

theorem createDirs_cases (path : Path) (mode : Mode) (store : MemoryStore) :
    (∃ error, createDirs path mode store = .error error store) ∨
      createDirs path mode store = .ok () store ∨
      createDirs path mode store = .ok () (store.insertDirs path (store.masked mode)) := by
  rw [createDirs_apply]
  split
  · exact .inl ⟨_, rfl⟩
  · cases store.nearestDir? path with
    | none => exact .inr (.inr rfl)
    | some existing =>
        dsimp only
        split
        · exact .inr (.inl rfl)
        · split
          · exact .inr (.inr rfl)
          · exact .inl ⟨_, rfl⟩

theorem createDirs_error {mode : Mode} {error : FileError} {after : MemoryStore}
    (refused : createDirs path mode store = .error error after) : after = store := by
  rcases createDirs_cases path mode store with ⟨_, stays⟩ | stays | makes
  · cases refused.symm.trans stays
    rfl
  · cases refused.symm.trans stays
  · cases refused.symm.trans makes

theorem finalState_createDirs (path : Path) (mode : Mode) (store : MemoryStore) :
    finalState (createDirs path mode) store = store ∨
      finalState (createDirs path mode) store = store.insertDirs path (store.masked mode) := by
  rcases createDirs_cases path mode store with ⟨error, fails⟩ | stays | makes
  · exact .inl (Outcome.finalState_error fails)
  · exact .inl (Outcome.finalState_ok stays)
  · exact .inr (Outcome.finalState_ok makes)

theorem createDirs_dirsOnly (path : Path) (mode : Mode) (store : MemoryStore) :
    DirsOnly store (finalState (createDirs path mode) store) := by
  rcases finalState_createDirs path mode store with stays | makes
  · rw [stays]
    exact .refl store
  · rw [makes]
    exact insertDirs_dirsOnly store path _

/-! The closest directory -/

theorem nearestDir?_of_contains (some : path.components ≠ [])
    (there : store.dirs.contains path = true) : store.nearestDir? path = .some path := by
  have nonempty := Path.isEmpty_eq_false some
  unfold nearestDir?
  cases above : path.parent? with
  | none => simp [Path.ancestors_of_parent?_none above, nonempty, there]
  | some parent => simp [Path.ancestors_of_parent? above, nonempty, there]

theorem nearestDir?_of_parent? {parent : Path} (absent : store.dirs.contains path = false)
    (above : path.parent? = some parent) : store.nearestDir? path = store.nearestDir? parent := by
  unfold nearestDir?
  rw [Path.ancestors_of_parent? above, List.filter_cons]
  split
  · rw [List.find?_cons, absent]
  · rfl

theorem nearestDir?_of_top (absent : store.dirs.contains path = false)
    (top : path.parent? = none) : store.nearestDir? path = none := by
  unfold nearestDir?
  rw [Path.ancestors_of_parent?_none top, List.filter_cons]
  split
  · rw [List.find?_cons, absent]
    rfl
  · rfl

theorem nearestDir?_of_empty (empty : path.components = []) : store.nearestDir? path = none := by
  have top := (Path.parent?_eq_none_iff path).mpr (.inl empty)
  unfold nearestDir?
  rw [Path.ancestors_of_parent?_none top]
  simp [empty]

theorem isLocked_eq_false_iff :
    store.isLocked path = false ↔ ∀ lock ∈ store.locked, path.startsWith lock = false := by
  unfold isLocked
  simp only [List.any_eq_false, Bool.not_eq_true]

theorem isLocked_of_unlocked (unlocked : store.locked = []) : store.isLocked path = false := by
  unfold isLocked
  rw [unlocked]
  rfl

theorem isWritable_congr (same : path.components = other.components) :
    store.isWritable path = store.isWritable other := by
  unfold isWritable isLocked Path.startsWith PathMap.get?
  rw [same]

/-- A directory at a path or above it. The empty path is none. -/
structure DirOver (store : MemoryStore) (path above : Path) : Prop where
  there : store.dirs.contains above = true
  leads : path.startsWith above = true
  nonempty : above.components ≠ []

theorem DirOver.of_absent {above : Path} (isOver : store.DirOver path above)
    (absent : store.dirs.contains path = false) :
    ∃ parent, path.parent? = some parent ∧ store.DirOver parent above := by
  have proper : above.components ≠ path.components := by
    intro same
    rw [← PathMap.contains_congr same, isOver.there] at absent
    cases absent
  obtain ⟨parent, isParent, higher⟩ := Path.startsWith_parent isOver.leads isOver.nonempty proper
  exact ⟨parent, isParent, isOver.there, higher, isOver.nonempty⟩

theorem nearestDir?_closest {above : Path} (found : store.nearestDir? path = some above) :
    store.DirOver path above ∧
      ∀ other, store.DirOver path other → above.startsWith other = true := by
  induction path using Path.parent_induction with
  | step path ih =>
      have nonempty : path.components ≠ [] := by
        intro empty
        rw [nearestDir?_of_empty empty] at found
        cases found
      cases there : store.dirs.contains path with
      | true =>
          rw [nearestDir?_of_contains nonempty there] at found
          cases found
          exact ⟨⟨there, Path.startsWith_self _, nonempty⟩, fun other isOver => isOver.leads⟩
      | false =>
          cases parent : path.parent? with
          | none =>
              rw [nearestDir?_of_top there parent] at found
              cases found
          | some next =>
              rw [nearestDir?_of_parent? there parent] at found
              obtain ⟨isOver, closest⟩ := ih next parent found
              have below : path.startsWith next = true := Path.startsWith_of_parent? parent
              refine ⟨⟨isOver.there, Path.startsWith_trans below isOver.leads, isOver.nonempty⟩, ?_⟩
              intro other otherOver
              obtain ⟨_, same, higher⟩ := otherOver.of_absent there
              cases parent.symm.trans same
              exact closest other higher

theorem nearestDir?_eq_none_iff :
    store.nearestDir? path = none ↔ ∀ above, ¬ store.DirOver path above := by
  unfold nearestDir?
  rw [List.find?_eq_none]
  constructor
  · intro absent above isOver
    obtain ⟨ancestor, member, same⟩ := Path.exists_mem_ancestors isOver.leads isOver.nonempty
    have nonempty : ancestor.isEmpty = false := Path.isEmpty_eq_false (same ▸ isOver.nonempty)
    apply absent ancestor (List.mem_filter.mpr ⟨member, by rw [nonempty]; rfl⟩)
    rw [PathMap.contains_congr same]
    exact isOver.there
  · intro nothing ancestor member there
    obtain ⟨isAncestor, nonempty⟩ := List.mem_filter.mp member
    refine nothing ancestor ⟨there,
      (Path.startsWith_iff _ _).mpr (Path.prefix_of_mem_ancestors isAncestor), ?_⟩
    intro empty
    rw [(Path.isEmpty_iff ancestor).mpr empty] at nonempty
    cases nonempty

/-! Where there can be a directory -/

/-- Whether there can be a directory at a path, locks aside: it is there, or nothing is above it, or
the mode of what is closest above it lets the owner write. -/
def CanHaveDir (store : MemoryStore) (path : Path) : Prop :=
  store.dirs.contains path = true ∨ (∀ above, ¬ store.DirOver path above) ∨
    ∃ above mode, store.DirOver path above ∧
      (∀ other, store.DirOver path other → above.startsWith other = true) ∧
      store.dirs.get? above = some mode ∧ mode.allowsOwnerWrite = true

theorem canHaveDir_of_over (same : store.dirs.contains path = store.dirs.contains other)
    (leads : ∀ above, store.DirOver path above ↔ store.DirOver other above) :
    store.CanHaveDir path ↔ store.CanHaveDir other := by
  unfold CanHaveDir
  simp only [leads, same]

theorem canHaveDir_congr (same : path.components = other.components) :
    store.CanHaveDir path ↔ store.CanHaveDir other := by
  apply canHaveDir_of_over (PathMap.contains_congr same)
  intro above
  have sameLead := Path.startsWith_congr same above
  constructor
  · intro isOver
    exact ⟨isOver.there, sameLead ▸ isOver.leads, isOver.nonempty⟩
  · intro isOver
    exact ⟨isOver.there, sameLead ▸ isOver.leads, isOver.nonempty⟩

theorem isLocked_of_startsWith {above : Path} (below : path.startsWith above = true)
    (locked : store.isLocked above = true) : store.isLocked path = true := by
  obtain ⟨lock, member, held⟩ := List.any_eq_true.mp locked
  exact List.any_eq_true.mpr ⟨lock, member, Path.startsWith_trans below held⟩

theorem isLocked_above {above : Path} (below : path.startsWith above = true)
    (unlocked : store.isLocked path = false) : store.isLocked above = false := by
  cases locked : store.isLocked above with
  | false => rfl
  | true =>
      rw [isLocked_of_startsWith below locked] at unlocked
      cases unlocked

theorem isWritable_iff :
    store.isWritable path = true ↔
      store.isLocked path = false ∧
        ∃ mode, store.dirs.get? path = some mode ∧ mode.allowsOwnerWrite = true := by
  unfold isWritable
  cases store.dirs.get? path with
  | none => simp
  | some mode => simp

/-- The same locks are set, and directories that take files have the modes they had. -/
structure WritableKept (before after : MemoryStore) : Prop where
  locked : after.locked = before.locked
  modes : ∀ path, before.isWritable path = true → after.dirs.get? path = before.dirs.get? path

namespace WritableKept

theorem refl (store : MemoryStore) : WritableKept store store := ⟨rfl, fun _ _ => rfl⟩

theorem isWritable {before after : MemoryStore} (kept : WritableKept before after)
    (writable : before.isWritable path = true) : after.isWritable path = true := by
  unfold MemoryStore.isWritable isLocked
  rw [kept.modes path writable, kept.locked]
  exact writable

theorem trans {first second third : MemoryStore} (before : WritableKept first second)
    (after : WritableKept second third) : WritableKept first third where
  locked := after.locked.trans before.locked
  modes path writable :=
    (after.modes path (before.isWritable writable)).trans (before.modes path writable)

end WritableKept

theorem not_canHaveDir {existing : Path} (unlocked : store.isLocked path = false)
    (nearest : store.nearestDir? path = some existing)
    (different : existing.components ≠ path.components)
    (refuses : store.isWritable existing = false) : ¬ store.CanHaveDir path := by
  obtain ⟨isOver, closest⟩ := nearestDir?_closest nearest
  rintro (there | nothing | ⟨above, mode, aboveOver, aboveClosest, entry, allows⟩)
  · have nonempty := Path.nonempty_of_startsWith isOver.leads isOver.nonempty
    have higher := closest path ⟨there, Path.startsWith_self path, nonempty⟩
    exact different (Path.components_eq_of_startsWith higher isOver.leads)
  · exact nothing existing isOver
  · have same := Path.components_eq_of_startsWith (closest above aboveOver)
      (aboveClosest existing isOver)
    have writable : store.isWritable above = true :=
      isWritable_iff.mpr ⟨isLocked_above aboveOver.leads unlocked, mode, entry, allows⟩
    rw [← isWritable_congr same, refuses] at writable
    cases writable

theorem createDirs_ok_iff (unlocked : store.isLocked path = false) (mode : Mode) :
    (∃ after, createDirs path mode store = .ok () after) ↔ store.CanHaveDir path := by
  rw [createDirs_apply, if_neg (by simp [unlocked])]
  cases nearest : store.nearestDir? path with
  | none => exact ⟨fun _ => .inr (.inl (nearestDir?_eq_none_iff.mp nearest)), fun _ => ⟨_, rfl⟩⟩
  | some existing =>
      obtain ⟨isOver, closest⟩ := nearestDir?_closest nearest
      dsimp only
      by_cases there : existing.same path
      · have same : existing.components = path.components := by
          simpa [Path.same] using there
        rw [if_pos there]
        exact ⟨fun _ => .inl ((PathMap.contains_congr same).symm.trans isOver.there),
          fun _ => ⟨_, rfl⟩⟩
      · have different : existing.components ≠ path.components := by
          simpa [Path.same] using there
        rw [if_neg there]
        by_cases writable : store.isWritable existing
        · obtain ⟨-, mode, entry, allows⟩ := isWritable_iff.mp writable
          rw [if_pos writable]
          exact ⟨fun _ => .inr (.inr ⟨existing, mode, isOver, closest, entry, allows⟩),
            fun _ => ⟨_, rfl⟩⟩
        · have impossible :=
            not_canHaveDir unlocked nearest different (Bool.eq_false_iff.mpr writable)
          rw [if_neg writable]
          simp [impossible]

theorem createDirs_unchanged {mode : Mode} (unlocked : store.isLocked path = false)
    (impossible : ¬ store.CanHaveDir path) :
    finalState (createDirs path mode) store = store := by
  have fails := mt (createDirs_ok_iff unlocked mode).mp impossible
  rcases createDirs_cases path mode store with ⟨error, stays⟩ | stays | makes
  · exact Outcome.finalState_error stays
  · exact absurd ⟨_, stays⟩ fails
  · exact absurd ⟨_, makes⟩ fails

theorem insertDirs_writableKept (store : MemoryStore) (path : Path) (mode : Mode) :
    WritableKept store (store.insertDirs path mode) where
  locked := rfl
  modes other writable := by
    obtain ⟨-, mode, entry, -⟩ := isWritable_iff.mp writable
    rw [entry]
    exact PathMap.get?_foldl_insertNew_of_get? _ entry

theorem createDirs_writableKept (path : Path) (mode : Mode) (store : MemoryStore) :
    WritableKept store (finalState (createDirs path mode) store) := by
  rcases finalState_createDirs path mode store with stays | makes
  · rw [stays]
    exact .refl store
  · rw [makes]
    exact insertDirs_writableKept store path _

theorem contains_of_createDirs {mode : Mode} {after : MemoryStore} (some : path.components ≠ [])
    (succeeds : createDirs path mode store = .ok () after) :
    after.dirs.contains path = true := by
  rw [createDirs_apply] at succeeds
  split at succeeds
  · cases succeeds
  · cases nearest : store.nearestDir? path with
    | none =>
        rw [nearest] at succeeds
        cases succeeds
        exact contains_insertDirs (Path.startsWith_self path) some _
    | some existing =>
        rw [nearest] at succeeds
        dsimp only at succeeds
        split at succeeds
        · rename_i there
          cases succeeds
          have same : existing.components = path.components := by
            simpa [Path.same] using there
          rw [← PathMap.contains_congr same]
          exact List.find?_some nearest
        · split at succeeds
          · cases succeeds
            exact contains_insertDirs (Path.startsWith_self path) some _
          · cases succeeds

theorem canHaveDir_in_parent {parent : Path} (above : path.parent? = some parent)
    (nonempty : parent.components ≠ []) (there : store.dirs.contains parent = true)
    (writable : store.isWritable parent = true) : store.CanHaveDir path := by
  cases present : store.dirs.contains path with
  | true => exact .inl present
  | false =>
      obtain ⟨-, mode, entry, allows⟩ := isWritable_iff.mp writable
      refine .inr (.inr ⟨parent, mode, ⟨there, Path.startsWith_of_parent? above, nonempty⟩, ?_,
        entry, allows⟩)
      intro other isOver
      obtain ⟨_, same, higher⟩ := isOver.of_absent present
      cases above.symm.trans same
      exact higher.leads

/-! Giving a directory a mode -/

theorem setMode_apply (path : Path) (mode : Mode) (store : MemoryStore) :
    setMode path mode store =
      if store.isLocked path then .error (.permissionDenied path) store
      else if store.dirs.contains path then
        .ok () { store with dirs := store.dirs.insert path mode }
      else .error (.notFound path) store := by
  change (if store.isLocked path then _ else _ : EStateM FileError MemoryStore Unit) store = _
  split
  · rfl
  · split
    · rfl
    · rfl

theorem setMode_error {mode : Mode} {error : FileError} {after : MemoryStore}
    (refused : setMode path mode store = .error error after) : after = store := by
  rw [setMode_apply] at refused
  split at refused
  · cases refused
    rfl
  · split at refused
    · cases refused
    · cases refused
      rfl

theorem finalState_setMode (path : Path) (mode : Mode) (store : MemoryStore) :
    finalState (setMode path mode) store = store ∨
      store.dirs.contains path = true ∧
        finalState (setMode path mode) store =
          { store with dirs := store.dirs.insert path mode } := by
  unfold finalState
  rw [setMode_apply]
  by_cases locked : store.isLocked path
  · rw [if_pos locked]
    exact .inl rfl
  · rw [if_neg locked]
    by_cases there : store.dirs.contains path
    · rw [if_pos there]
      exact .inr ⟨there, rfl⟩
    · rw [if_neg there]
      exact .inl rfl

theorem setMode_dirsOnly (path : Path) (mode : Mode) (store : MemoryStore) :
    DirsOnly store (finalState (setMode path mode) store) := by
  rcases finalState_setMode path mode store with stays | ⟨-, given⟩
  · rw [stays]
    exact .refl store
  · rw [given]
    exact ⟨rfl, rfl, rfl, fun _ => PathMap.contains_insert_of_contains⟩

theorem isWritable_of_setMode (unlocked : store.isLocked path = false) {mode : Mode}
    (allows : mode.allowsOwnerWrite = true) (there : store.dirs.contains path = true) :
    (finalState (setMode path mode) store).isWritable path = true := by
  unfold finalState
  rw [setMode_apply, if_neg (by simp [unlocked]), if_pos there, isWritable_iff]
  refine ⟨unlocked, mode, ?_, allows⟩
  dsimp only
  rw [PathMap.get?_insert, if_pos rfl]

theorem setMode_writableKept (refuses : store.isWritable path = false) (mode : Mode) :
    WritableKept store (finalState (setMode path mode) store) := by
  rcases finalState_setMode path mode store with stays | ⟨-, given⟩
  · rw [stays]
    exact .refl store
  · rw [given]
    refine ⟨rfl, fun other writable => ?_⟩
    have different : other.components ≠ path.components := by
      intro same
      rw [isWritable_congr same, refuses] at writable
      cases writable
    exact (PathMap.get?_insert _ _ _ _).trans (if_neg different)

end MemoryStore

end ThemeRender
