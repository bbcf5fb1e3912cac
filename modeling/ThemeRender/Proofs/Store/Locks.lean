import ThemeRender.Proofs.Store.MemoryDirs
import ThemeRender.Proofs.Store.MemoryFiles

namespace ThemeRender.MemoryStore

open Outcome (finalState finalState_ok finalState_error)

/-- Whether nothing has changed at or below a path in directories, and nothing below it in files. A
file at the path itself does not count: it is in the directory above. -/
structure SameWithin (root : Path) (before after : MemoryStore) : Prop where
  locked : after.locked = before.locked
  dirs : ∀ path : Path, path.startsWith root = true →
    after.dirs.get? path = before.dirs.get? path
  files : ∀ path : Path, path.startsWith root = true → path.components ≠ root.components →
    after.files.get? path = before.files.get? path

/-- Whether a change of stores has respected a lock over a path. -/
def HeldBelow (root : Path) (before after : MemoryStore) : Prop :=
  before.isLocked root = true → SameWithin root before after

variable {root path : Path} {store first second third : MemoryStore}

theorem parent_startsWith {parent : Path} (above : path.parent? = some parent)
    (below : path.startsWith root = true) (proper : path.components ≠ root.components) :
    parent.startsWith root = true := by
  by_cases empty : root.components = []
  · exact Path.startsWith_of_empty parent empty
  · obtain ⟨_, isParent, leads⟩ := Path.startsWith_parent below empty (Ne.symm proper)
    cases above.symm.trans isParent
    exact leads

theorem SameWithin.isLocked (same : SameWithin root first second) (path : Path) :
    second.isLocked path = first.isLocked path := by
  unfold MemoryStore.isLocked
  rw [same.locked]

namespace HeldBelow

theorem refl (root : Path) (store : MemoryStore) : HeldBelow root store store :=
  fun _ => ⟨rfl, fun _ _ => rfl, fun _ _ _ => rfl⟩

theorem trans (before : HeldBelow root first second) (after : HeldBelow root second third) :
    HeldBelow root first third := by
  intro locked
  have same := before locked
  have same' := after ((same.isLocked root).trans locked)
  constructor
  · exact same'.locked.trans same.locked
  · intro path below
    exact (same'.dirs path below).trans (same.dirs path below)
  · intro path below proper
    exact (same'.files path below proper).trans (same.files path below proper)

theorem insertDirs (unlocked : store.isLocked path = false) (mode : Mode) :
    HeldBelow root store (store.insertDirs path mode) := by
  intro locked
  refine ⟨rfl, ?_, fun _ _ _ => rfl⟩
  intro dir below
  apply PathMap.get?_foldl_insertNew_of_other
  intro made member same
  have leads : path.startsWith dir = true := by
    rw [Path.startsWith_iff, same]
    exact Path.prefix_of_mem_ancestors (List.mem_filter.mp member).1
  have lockedToo := isLocked_of_startsWith (Path.startsWith_trans leads below) locked
  rw [unlocked] at lockedToo
  cases lockedToo

theorem createDirs (path : Path) (mode : Mode) (store : MemoryStore) :
    HeldBelow root store (finalState (MemoryStore.createDirs path mode) store) := by
  cases unlocked : store.isLocked path with
  | true =>
      have refused := (createDirs_apply path mode store).trans (if_pos unlocked)
      rw [finalState_error refused]
      exact refl root store
  | false =>
      rcases finalState_createDirs path mode store with stays | makes
      · rw [stays]
        exact refl root store
      · rw [makes]
        exact insertDirs unlocked _

theorem setMode (path : Path) (mode : Mode) (store : MemoryStore) :
    HeldBelow root store (finalState (MemoryStore.setMode path mode) store) := by
  cases unlocked : store.isLocked path with
  | true =>
      have refused := (setMode_apply path mode store).trans (if_pos unlocked)
      rw [finalState_error refused]
      exact refl root store
  | false =>
      rcases finalState_setMode path mode store with stays | ⟨-, given⟩
      · rw [stays]
        exact refl root store
      · rw [given]
        intro locked
        refine ⟨rfl, ?_, fun _ _ _ => rfl⟩
        intro dir below
        have different : dir.components ≠ path.components := by
          intro same
          rw [Path.startsWith_congr same] at below
          rw [isLocked_of_startsWith below locked] at unlocked
          cases unlocked
        exact (PathMap.get?_insert _ _ _ _).trans (if_neg different)

theorem writeFile (path : Path) (contents : String) (store : MemoryStore) :
    HeldBelow root store (finalState (MemoryStore.writeFile path contents) store) := by
  rcases finalState_writeFile path contents store with
    stays | ⟨parent, above, -, writable, writes⟩
  · rw [stays]
    exact refl root store
  · obtain ⟨unlocked, -⟩ := isWritable_iff.mp writable
    rw [writes]
    intro locked
    refine ⟨rfl, fun _ _ => rfl, ?_⟩
    intro file below proper
    have different : file.components ≠ path.components := by
      intro same
      rw [Path.startsWith_congr same] at below
      rw [same] at proper
      have lockedToo := isLocked_of_startsWith (parent_startsWith above below proper) locked
      rw [unlocked] at lockedToo
      cases lockedToo
    rw [get?_putFile, if_neg different]

end HeldBelow

end ThemeRender.MemoryStore
