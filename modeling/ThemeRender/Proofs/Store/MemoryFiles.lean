import ThemeRender.Store.Memory
import ThemeRender.Proofs.Outcome

namespace ThemeRender

namespace PathMap

variable {α : Type} (map : PathMap α)

theorem get?_congr {path other : Path} (same : path.components = other.components) :
    map.get? path = map.get? other := by
  unfold get?
  rw [same]

theorem get?_update (path other : Path) (f : α → α) :
    (map.update other f).get? path =
      if path.components = other.components then (map.get? path).map f else map.get? path := by
  by_cases same : path.components = other.components
  · rw [if_pos same, get?_congr map same]
    unfold update
    cases entry : map.get? other with
    | none =>
        dsimp only
        rw [get?_congr map same, entry]
        rfl
    | some value =>
        dsimp only
        rw [get?_insert, if_pos same]
        rfl
  · rw [if_neg same]
    unfold update
    cases entry : map.get? other with
    | none => rfl
    | some value =>
        dsimp only
        rw [get?_insert, if_neg same]

end PathMap

namespace MemoryStore

open Outcome (finalState finalState_ok finalState_error)

theorem writeFile_apply (path : Path) (contents : String) (store : MemoryStore) :
    writeFile path contents store =
      match path.parent? with
      | none => .error (.notFound path) store
      | some parent =>
          if !store.dirs.contains parent then .error (.notFound parent) store
          else if !store.isWritable parent then .error (.permissionDenied parent) store
          else .ok () (store.putFile path contents) := by
  change (match path.parent? with | none => _ | some parent => _ :
    EStateM FileError MemoryStore Unit) store = _
  cases path.parent? with
  | none => rfl
  | some parent =>
      change (if !store.dirs.contains parent then _ else _ :
        EStateM FileError MemoryStore Unit) store = _
      dsimp only
      split
      · rfl
      · split
        · rfl
        · rfl

theorem writeFile_outcome (path : Path) (contents : String) (store : MemoryStore) :
    writeFile path contents store = .ok () (store.putFile path contents) ∨
      ∃ error, writeFile path contents store = .error error store := by
  rw [writeFile_apply]
  cases path.parent? with
  | none => exact .inr ⟨_, rfl⟩
  | some parent =>
      dsimp only
      split
      · exact .inr ⟨_, rfl⟩
      · split
        · exact .inr ⟨_, rfl⟩
        · exact .inl rfl

theorem of_writeFile {path : Path} {store after : MemoryStore} {contents : String}
    (writes : writeFile path contents store = .ok () after) :
    ∃ parent, path.parent? = some parent ∧ store.dirs.contains parent = true ∧
      store.isWritable parent = true ∧ after = store.putFile path contents := by
  rw [writeFile_apply] at writes
  cases above : path.parent? with
  | none =>
      rw [above] at writes
      cases writes
  | some parent =>
      rw [above] at writes
      dsimp only at writes
      split at writes
      · cases writes
      · rename_i there
        split at writes
        · cases writes
        · rename_i writable
          cases writes
          exact ⟨parent, rfl, by simpa using there, by simpa using writable, rfl⟩

theorem writeFile_error {path : Path} {store : MemoryStore} {contents : String} {error : FileError}
    {after : MemoryStore}
    (refused : writeFile path contents store = .error error after) : after = store := by
  rcases writeFile_outcome path contents store with writes | ⟨_, stays⟩
  · cases refused.symm.trans writes
  · cases refused.symm.trans stays
    rfl

theorem finalState_writeFile (path : Path) (contents : String) (store : MemoryStore) :
    finalState (writeFile path contents) store = store ∨
      ∃ parent, path.parent? = some parent ∧ store.dirs.contains parent = true ∧
        store.isWritable parent = true ∧
        finalState (writeFile path contents) store = store.putFile path contents := by
  cases outcome : writeFile path contents store with
  | error error after => exact .inl ((finalState_error outcome).trans (writeFile_error outcome))
  | ok _ after =>
      obtain ⟨parent, above, there, writable, put⟩ := of_writeFile outcome
      exact .inr ⟨parent, above, there, writable, (finalState_ok outcome).trans put⟩

theorem writeFile_ok {path parent : Path} {store : MemoryStore}
    (above : path.parent? = some parent) (there : store.dirs.contains parent = true)
    (writable : store.isWritable parent = true) (contents : String) :
    writeFile path contents store = .ok () (store.putFile path contents) := by
  rw [writeFile_apply]
  simp [above, there, writable]

theorem get?_putFile (store : MemoryStore) (path other : Path) (contents : String) :
    (store.putFile path contents).files.get? other =
      if other.components = path.components then some ⟨contents, store.clock + 1⟩
      else store.files.get? other :=
  PathMap.get?_insert store.files other path _

theorem get?_addFile (store : MemoryStore) (path other : Path) (contents : String) :
    (store.addFile path contents).files.get? other =
      if other.components = path.components then some ⟨contents, store.clock + 1⟩
      else store.files.get? other := by
  unfold addFile
  split
  · exact get?_putFile store path other contents
  · exact get?_putFile (store.insertDirs _ usualMode) path other contents

theorem clock_addFile (store : MemoryStore) (path : Path) (contents : String) :
    (store.addFile path contents).clock = store.clock + 1 := by
  unfold addFile
  split
  · rfl
  · rfl

theorem get?_touch (store : MemoryStore) (path other : Path) :
    (store.touch path).files.get? other =
      if other.components = path.components then
        (store.files.get? other).map ({ · with modified := store.clock + 1 })
      else store.files.get? other :=
  PathMap.get?_update store.files other path _

def NoFilesBelow (store : MemoryStore) (root : Path) : Prop :=
  ∀ path : Path, path.startsWith root = true → store.files.get? path = none

namespace NoFilesBelow

theorem empty (root : Path) : MemoryStore.empty.NoFilesBelow root := fun _ _ => rfl

variable {store : MemoryStore} {root : Path}

theorem addFile (clean : store.NoFilesBelow root) {path : Path}
    (outside : path.startsWith root = false) (contents : String) :
    (store.addFile path contents).NoFilesBelow root := by
  intro other below
  have different : other.components ≠ path.components := by
    intro same
    unfold Path.startsWith at below outside
    rw [same, outside] at below
    cases below
  rw [get?_addFile, if_neg different]
  exact clean other below

theorem setModified (clean : store.NoFilesBelow root) (path : Path) (time : Nat) :
    (store.setModified path time).NoFilesBelow root := by
  intro other below
  refine (PathMap.get?_update store.files other path _).trans ?_
  rw [clean other below]
  split
  · rfl
  · rfl

end NoFilesBelow

end MemoryStore

end ThemeRender
