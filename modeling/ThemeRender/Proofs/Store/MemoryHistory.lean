import ThemeRender.Proofs.Store.MemoryDirs
import ThemeRender.Proofs.Store.MemoryFiles
/-!
Changes of memory stores, one after another. Those that stay below one directory leave all files
outside it as they were, and all that is made are the directories on the way to it. Whatever is done
to a store, nothing is missing above a directory.
-/

/-! Changes below one directory -/

namespace ThemeRender

namespace MemoryStore

/-- Whether no more than the files and directories below a root has changed, and the directories
that lead to it. -/
structure Confined (root : Path) (before after : MemoryStore) : Prop where
  files : ∀ path : Path, path.startsWith root = false →
    after.files.get? path = before.files.get? path
  kept : ∀ path, before.files.contains path = true → after.files.contains path = true
  modes : ∀ (path : Path) mode, path.startsWith root = false →
    before.dirs.get? path = some mode → after.dirs.get? path = some mode
  made : ∀ path : Path, path.startsWith root = false → after.dirs.contains path = true →
    before.dirs.contains path = true ∨ root.startsWith path = true

namespace Confined

variable {root dir path : Path} {store first second third : MemoryStore}

theorem refl (root : Path) (store : MemoryStore) : Confined root store store where
  files _ _ := rfl
  kept _ there := there
  modes _ _ _ there := there
  made _ _ there := .inl there

theorem trans (before : Confined root first second) (after : Confined root second third) :
    Confined root first third where
  files path outside := (after.files path outside).trans (before.files path outside)
  kept path there := after.kept path (before.kept path there)
  modes path mode outside there :=
    after.modes path mode outside (before.modes path mode outside there)
  made path outside there := by
    rcases after.made path outside there with middle | above
    · exact before.made path outside middle
    · exact .inr above

theorem leads_to_root (below : dir.startsWith root = true) {ancestor : Path}
    (above : ancestor ∈ dir.ancestors) (outside : ancestor.startsWith root = false) :
    root.startsWith ancestor = true := by
  have leads := (Path.startsWith_iff dir ancestor).mpr (Path.prefix_of_mem_ancestors above)
  rcases Path.startsWith_or_startsWith leads below with lower | higher
  · rw [lower] at outside
    cases outside
  · exact higher

theorem insertDirs (below : dir.startsWith root = true) (mode : Mode) :
    Confined root store (store.insertDirs dir mode) where
  files _ _ := rfl
  kept _ there := there
  modes _ _ _ there := PathMap.get?_foldl_insertNew_of_get? _ there
  made path outside there := by
    rcases PathMap.contains_of_foldl_insertNew _ there with before | ⟨made, member, same⟩
    · exact .inl before
    · have above := (List.mem_filter.mp member).1
      unfold Path.startsWith at outside ⊢
      rw [← same] at outside ⊢
      exact .inr (leads_to_root below above outside)

open Outcome (finalState)

theorem createDirs (below : dir.startsWith root = true) (mode : Mode) :
    Confined root store (finalState (MemoryStore.createDirs dir mode) store) := by
  rcases finalState_createDirs dir mode store with stays | makes
  · rw [stays]
    exact .refl root store
  · rw [makes]
    exact insertDirs below _

theorem setMode (below : dir.startsWith root = true) (mode : Mode) :
    Confined root store (finalState (MemoryStore.setMode dir mode) store) := by
  rcases finalState_setMode dir mode store with stays | ⟨-, given⟩
  · rw [stays]
    exact .refl root store
  · rw [given]
    refine ⟨fun _ _ => rfl, fun _ there => there, ?_, ?_⟩
    · intro path kept outside there
      dsimp only
      rw [PathMap.get?_insert, if_neg (Path.components_ne_of_startsWith below outside)]
      exact there
    · intro path outside there
      unfold PathMap.contains at there ⊢
      rw [PathMap.get?_insert, if_neg (Path.components_ne_of_startsWith below outside)] at there
      exact .inl there

theorem writeFile (below : path.startsWith root = true) (contents : String) :
    Confined root store (finalState (MemoryStore.writeFile path contents) store) := by
  rcases finalState_writeFile path contents store with stays | ⟨-, -, -, -, writes⟩
  · rw [stays]
    exact .refl root store
  · rw [writes]
    refine ⟨?_, ?_, fun _ _ _ there => there, fun _ _ there => .inl there⟩
    · intro other outside
      rw [get?_putFile, if_neg (Path.components_ne_of_startsWith below outside)]
    · intro other there
      exact PathMap.contains_insert_of_contains there

end Confined

/-! One change after another -/

open Outcome (finalState)

inductive Change where
  | addFile (path : Path) (contents : String)
  | addDir (path : Path) (mode : Mode)
  | touch (path : Path)
  | setModified (path : Path) (time : Nat)
  | setUmask (umask : Mode)
  | lock (path : Path)
  | write (path : Path) (contents : String)
  | createDirs (path : Path) (mode : Mode)
  | setMode (path : Path) (mode : Mode)

def change (store : MemoryStore) : Change → MemoryStore
  | .addFile path contents => store.addFile path contents
  | .addDir path mode => store.addDir path mode
  | .touch path => store.touch path
  | .setModified path time => store.setModified path time
  | .setUmask umask => store.setUmask umask
  | .lock path => store.lock path
  | .write path contents => finalState (writeFile path contents) store
  | .createDirs path mode => finalState (MemoryStore.createDirs path mode) store
  | .setMode path mode => finalState (MemoryStore.setMode path mode) store

def afterChanges (changes : List Change) : MemoryStore :=
  changes.foldl change empty

/-- Whether what is above a directory is a directory too, the empty path aside. -/
def Rooted (store : MemoryStore) : Prop :=
  ∀ path above : Path, store.dirs.contains path = true → path.startsWith above = true →
    above.components ≠ [] → store.dirs.contains above = true

namespace Rooted

variable {store : MemoryStore} {path : Path}

theorem of_dirs {after : MemoryStore} (rooted : store.Rooted) (same : after.dirs = store.dirs) :
    after.Rooted := by
  intro other above there leads nonempty
  rw [same] at there ⊢
  exact rooted other above there leads nonempty

theorem insertDirs (rooted : store.Rooted) (path : Path) (mode : Mode) :
    (store.insertDirs path mode).Rooted := by
  intro other above there leads nonempty
  rcases PathMap.contains_of_foldl_insertNew _ there with before | ⟨made, member, same⟩
  · exact (insertDirs_dirsOnly store path mode).dirs above
      (rooted other above before leads nonempty)
  · have isAncestor := (List.mem_filter.mp member).1
    have below : path.startsWith other = true := by
      rw [Path.startsWith_iff, ← same]
      exact Path.prefix_of_mem_ancestors isAncestor
    exact contains_insertDirs (Path.startsWith_trans below leads) nonempty mode

theorem insert (rooted : store.Rooted)
    (present : path.components ≠ [] → store.dirs.contains path = true) (mode : Mode) :
    Rooted { store with dirs := store.dirs.insert path mode } := by
  intro other above there leads nonempty
  have before : store.dirs.contains other = true := by
    rcases PathMap.contains_of_insert there with before | same
    · exact before
    · rw [← PathMap.contains_congr same]
      apply present
      rw [same]
      exact Path.nonempty_of_startsWith leads nonempty
  exact PathMap.contains_insert_of_contains (rooted other above before leads nonempty)

theorem addFile (rooted : store.Rooted) (path : Path) (contents : String) :
    (store.addFile path contents).Rooted := by
  unfold MemoryStore.addFile
  split
  · exact rooted.of_dirs rfl
  · exact (rooted.insertDirs _ usualMode).of_dirs rfl

theorem addDir (rooted : store.Rooted) (path : Path) (mode : Mode) :
    (store.addDir path mode).Rooted :=
  (rooted.insertDirs path usualMode).insert
    (fun some => contains_insertDirs (Path.startsWith_self path) some usualMode) mode

theorem writeFile (rooted : store.Rooted) (path : Path) (contents : String) :
    (finalState (MemoryStore.writeFile path contents) store).Rooted := by
  rcases finalState_writeFile path contents store with stays | ⟨-, -, -, -, writes⟩
  · rw [stays]
    exact rooted
  · rw [writes]
    exact rooted.of_dirs rfl

theorem createDirs (rooted : store.Rooted) (path : Path) (mode : Mode) :
    (finalState (MemoryStore.createDirs path mode) store).Rooted := by
  rcases finalState_createDirs path mode store with stays | makes
  · rw [stays]
    exact rooted
  · rw [makes]
    exact rooted.insertDirs path _

theorem setMode (rooted : store.Rooted) (path : Path) (mode : Mode) :
    (finalState (MemoryStore.setMode path mode) store).Rooted := by
  rcases finalState_setMode path mode store with stays | ⟨there, given⟩
  · rw [stays]
    exact rooted
  · rw [given]
    exact rooted.insert (fun _ => there) mode

theorem change (rooted : store.Rooted) (change : Change) : (store.change change).Rooted := by
  cases change with
  | addFile path contents => exact rooted.addFile path contents
  | addDir path mode => exact rooted.addDir path mode
  | touch path => exact rooted.of_dirs rfl
  | setModified path time => exact rooted.of_dirs rfl
  | setUmask umask => exact rooted.of_dirs rfl
  | lock path => exact rooted.of_dirs rfl
  | write path contents => exact rooted.writeFile path contents
  | createDirs path mode => exact rooted.createDirs path mode
  | setMode path mode => exact rooted.setMode path mode

theorem changes (rooted : store.Rooted) (changes : List Change) :
    (changes.foldl MemoryStore.change store).Rooted := by
  induction changes generalizing store with
  | nil => exact rooted
  | cons first rest ih => exact ih (rooted.change first)

theorem empty : MemoryStore.empty.Rooted := by
  intro path above there leads nonempty
  cases there

/-- However a store has come about, nothing is missing above its directories. -/
theorem afterChanges (changes : List Change) : (MemoryStore.afterChanges changes).Rooted :=
  empty.changes changes

theorem absent_below (rooted : store.Rooted) {above : Path} (nonempty : above.components ≠ [])
    (absent : store.dirs.contains above = false) (below : path.startsWith above = true) :
    store.dirs.contains path = false := by
  refine Bool.eq_false_iff.mpr fun there => ?_
  rw [rooted path above there below nonempty] at absent
  cases absent

theorem canHaveDir_below (rooted : store.Rooted) {above : Path} (nonempty : above.components ≠ [])
    (absent : store.dirs.contains above = false) (below : path.startsWith above = true) :
    store.CanHaveDir path ↔ store.CanHaveDir above := by
  apply canHaveDir_of_over
  · rw [rooted.absent_below nonempty absent below, absent]
  · intro other
    constructor
    · intro isOver
      refine ⟨isOver.there, ?_, isOver.nonempty⟩
      rcases Path.startsWith_or_startsWith isOver.leads below with lower | higher
      · have missing := rooted.absent_below nonempty absent lower
        rw [isOver.there] at missing
        cases missing
      · exact higher
    · intro isOver
      exact ⟨isOver.there, Path.startsWith_trans below isOver.leads, isOver.nonempty⟩

end Rooted

end MemoryStore

end ThemeRender
