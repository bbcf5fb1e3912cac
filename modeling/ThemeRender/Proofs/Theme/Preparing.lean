import Mathlib.Data.List.TakeWhile
import ThemeRender.Proofs.Store.MemoryDirs
import ThemeRender.Theme.Artifact
/-!
Preparing the directory of an artifact. Whatever comes of it, files stay as they are, and directories
that take files keep their modes. Where there can be a temp root, and without a lock over the
directory, all levels down to it take files afterwards.
-/

namespace ThemeRender.Theme

open Outcome (finalState)
open MemoryStore (DirsOnly WritableKept)

theorem attempt_eq {σ : Type} (action : EStateM FileError σ Unit) (store : σ) :
    attempt action store = finalState action store := by
  unfold attempt finalState
  cases action store with
  | ok => rfl
  | error => rfl

theorem prepareDir_stages {σ : Type} [Store σ] (theme : Theme) (dir : Path) (store : σ) :
    ∃ middle,
      (Store.isDir store dir = true ∧ middle = store ∨
        Store.isDir store dir = false ∧
          middle = finalState (Store.createDirs dir theme.settings.dirMode) store) ∧
      (Store.isDir middle dir = true ∧ Store.isWritable middle dir = false ∧
          theme.prepareDir dir store =
            finalState (Store.setMode dir theme.settings.dirMode) middle ∨
        (Store.isDir middle dir = false ∨ Store.isWritable middle dir = true) ∧
          theme.prepareDir dir store = middle) := by
  unfold prepareDir
  dsimp only
  refine ⟨if Store.isDir store dir = true then store
    else attempt (Store.createDirs dir theme.settings.dirMode) store, ?_, ?_⟩
  · cases there : Store.isDir store dir with
    | true => exact .inl ⟨rfl, rfl⟩
    | false => exact .inr ⟨rfl, attempt_eq _ store⟩
  · generalize (if Store.isDir store dir = true then store
      else attempt (Store.createDirs dir theme.settings.dirMode) store) = middle
    cases there : Store.isDir middle dir with
    | false => exact .inr ⟨.inl rfl, rfl⟩
    | true =>
        cases writable : Store.isWritable middle dir with
        | false => exact .inl ⟨rfl, rfl, attempt_eq _ middle⟩
        | true => exact .inr ⟨.inr rfl, rfl⟩

/-- Whether a relation holds between a store and what becomes of it when some directories are made or
get other modes. -/
structure KeptAmong {σ : Type} [Store σ] (Among : Path → Prop) (Keeps : σ → σ → Prop) : Prop where
  refl : ∀ store, Keeps store store
  trans : ∀ {first second third}, Keeps first second → Keeps second third → Keeps first third
  createDirs : ∀ dir mode store, Among dir →
    Keeps store (finalState (Store.createDirs dir mode) store)
  setMode : ∀ dir mode store, Among dir → Keeps store (finalState (Store.setMode dir mode) store)

namespace KeptAmong

variable {σ : Type} [Store σ] {Among : Path → Prop} {Keeps : σ → σ → Prop}
  (kept : KeptAmong Among Keeps) (theme : Theme)

include kept

theorem prepareDir {dir : Path} (among : Among dir) (store : σ) :
    Keeps store (theme.prepareDir dir store) := by
  obtain ⟨middle, made, given⟩ := theme.prepareDir_stages dir store
  have created : Keeps store middle := by
    rcases made with ⟨-, rfl⟩ | ⟨-, rfl⟩
    · exact kept.refl middle
    · exact kept.createDirs dir _ store among
  rcases given with ⟨-, -, prepares⟩ | ⟨-, prepares⟩
  · rw [prepares]
    exact kept.trans created (kept.setMode dir _ middle among)
  · rw [prepares]
    exact created

theorem prepareDirs {dirs : List Path} (among : ∀ dir ∈ dirs, Among dir) (store : σ) :
    Keeps store (dirs.foldl (fun store dir => theme.prepareDir dir store) store) := by
  induction dirs generalizing store with
  | nil => exact kept.refl store
  | cons dir rest ih =>
      exact kept.trans (kept.prepareDir theme (among dir List.mem_cons_self) store)
        (ih (fun other later => among other (List.mem_cons_of_mem _ later)) _)

end KeptAmong

structure KeptByDirs {σ : Type} [Store σ] (Keeps : σ → σ → Prop) : Prop where
  refl : ∀ store, Keeps store store
  trans : ∀ {first second third}, Keeps first second → Keeps second third → Keeps first third
  createDirs : ∀ dir mode store, Keeps store (finalState (Store.createDirs dir mode) store)
  setMode : ∀ dir mode store, Keeps store (finalState (Store.setMode dir mode) store)

namespace KeptByDirs

variable {σ : Type} [Store σ] {Keeps : σ → σ → Prop} (kept : KeptByDirs Keeps) (theme : Theme)

include kept

theorem among : KeptAmong (fun _ => True) Keeps where
  refl := kept.refl
  trans := kept.trans
  createDirs dir mode store _ := kept.createDirs dir mode store
  setMode dir mode store _ := kept.setMode dir mode store

theorem prepareDir (dir : Path) (store : σ) : Keeps store (theme.prepareDir dir store) :=
  kept.among.prepareDir theme trivial store

theorem prepareDirs (dirs : List Path) (store : σ) :
    Keeps store (dirs.foldl (fun store dir => theme.prepareDir dir store) store) :=
  kept.among.prepareDirs theme (fun _ _ => trivial) store

end KeptByDirs

theorem keptByDirs_memory : KeptByDirs DirsOnly where
  refl := .refl
  trans first second := first.trans second
  createDirs := MemoryStore.createDirs_dirsOnly
  setMode := MemoryStore.setMode_dirsOnly

variable (theme : Theme)

section

variable {σ : Type} [Store σ]

def prepared (dir : Path) (store : σ) : σ :=
  (theme.levels dir).foldl (fun store dir => theme.prepareDir dir store) store

theorem ensureWritable_apply (dir : Path) (room : Workroom σ) :
    theme.ensureWritable dir room =
      if Store.isDir (theme.prepared dir room.store) dir &&
          Store.isWritable (theme.prepared dir room.store) dir then
        .ok () { room with store := theme.prepared dir room.store }
      else .error (.notWritable dir) { room with store := theme.prepared dir room.store } := by
  change (if _ then _ else _ : EStateM RenderError (Workroom σ) Unit) _ = _
  split
  · rename_i ready
    exact (if_pos ready).symm
  · rename_i unready
    exact (if_neg unready).symm

end

variable {theme} {dir parent : Path}

theorem levels_below (below : dir.startsWith theme.settings.tempRoot = true) :
    ∀ level ∈ theme.levels dir, level.startsWith theme.settings.tempRoot = true := by
  intro level member
  unfold levels at member
  split at member
  · rw [List.mem_singleton.mp member]
    exact below
  · have taken := List.mem_takeWhile_imp (List.mem_reverse.mp member)
    exact taken

/-! Where it succeeds -/

variable {store : MemoryStore} {room : Workroom MemoryStore}

theorem ensureWritable_ready
    (ready : (theme.prepared dir room.store).dirs.contains dir = true ∧
      (theme.prepared dir room.store).isWritable dir = true) :
    theme.ensureWritable dir room =
      .ok () { room with store := theme.prepared dir room.store } := by
  rw [ensureWritable_apply]
  exact if_pos ((Bool.and_eq_true _ _).mpr ready)

theorem ensureWritable_unready
    (unready : ¬ ((theme.prepared dir room.store).dirs.contains dir = true ∧
      (theme.prepared dir room.store).isWritable dir = true)) :
    theme.ensureWritable dir room =
      .error (.notWritable dir) { room with store := theme.prepared dir room.store } := by
  rw [ensureWritable_apply]
  exact if_neg (mt (Bool.and_eq_true _ _).mp unready)

theorem levels_of_parent? (below : dir.startsWith theme.settings.tempRoot = true)
    (above : dir.parent? = some parent)
    (parentBelow : parent.startsWith theme.settings.tempRoot = true) :
    theme.levels dir = theme.levels parent ++ [dir] := by
  obtain ⟨more, parents⟩ := parent.ancestors_head
  unfold levels
  rw [Path.ancestors_of_parent? above, parents]
  simp [below, parentBelow]

theorem prepared_of_parent? (below : dir.startsWith theme.settings.tempRoot = true)
    (above : dir.parent? = some parent)
    (parentBelow : parent.startsWith theme.settings.tempRoot = true) {σ : Type} [Store σ]
    (store : σ) :
    theme.prepared dir store = theme.prepareDir dir (theme.prepared parent store) := by
  unfold prepared
  rw [levels_of_parent? below above parentBelow, List.foldl_append]
  rfl

theorem levels_of_top (below : dir.startsWith theme.settings.tempRoot = true)
    (top : ∀ parent, dir.parent? = some parent →
      parent.startsWith theme.settings.tempRoot = false) :
    theme.levels dir = [dir] := by
  unfold levels
  cases above : dir.parent? with
  | none => simp [Path.ancestors_of_parent?_none above, below]
  | some parent =>
      obtain ⟨more, parents⟩ := parent.ancestors_head
      rw [Path.ancestors_of_parent? above, parents]
      simp [below, top parent above]

theorem prepared_of_top (below : dir.startsWith theme.settings.tempRoot = true)
    (top : ∀ parent, dir.parent? = some parent →
      parent.startsWith theme.settings.tempRoot = false) {σ : Type} [Store σ] (store : σ) :
    theme.prepared dir store = theme.prepareDir dir store := by
  unfold prepared
  rw [levels_of_top below top]
  rfl

theorem components_of_top (temp : theme.settings.tempRoot.components ≠ [])
    (below : dir.startsWith theme.settings.tempRoot = true)
    (top : ∀ parent, dir.parent? = some parent →
      parent.startsWith theme.settings.tempRoot = false) :
    dir.components = theme.settings.tempRoot.components := by
  by_contra different
  obtain ⟨parent, above, higher⟩ := Path.startsWith_parent below temp (Ne.symm different)
  rw [top parent above] at higher
  cases higher

theorem level_induction
    {holds : ∀ dir : Path, dir.startsWith theme.settings.tempRoot = true → Prop}
    (top : ∀ dir below, (∀ parent, dir.parent? = some parent →
      parent.startsWith theme.settings.tempRoot = false) → holds dir below)
    (step : ∀ parent dir below, dir.parent? = some parent →
      ∀ parentBelow, holds parent parentBelow → holds dir below)
    (dir : Path) (below : dir.startsWith theme.settings.tempRoot = true) : holds dir below := by
  induction dir using Path.parent_induction with
  | step dir ih =>
      by_cases higher : ∃ parent, dir.parent? = some parent ∧
          parent.startsWith theme.settings.tempRoot = true
      · obtain ⟨parent, above, parentBelow⟩ := higher
        exact step parent dir below above parentBelow (ih parent above parentBelow)
      · refine top dir below ?_
        intro parent above
        exact Bool.eq_false_iff.mpr (fun parentBelow => higher ⟨parent, above, parentBelow⟩)

theorem prepareDir_ready (unlocked : store.isLocked dir = false)
    (allows : theme.settings.dirMode.allowsOwnerWrite = true) (some : dir.components ≠ [])
    (possible : store.CanHaveDir dir) :
    (theme.prepareDir dir store).dirs.contains dir = true ∧
      (theme.prepareDir dir store).isWritable dir = true := by
  obtain ⟨middle, made, given⟩ := theme.prepareDir_stages dir store
  have ready : middle.dirs.contains dir = true ∧ middle.locked = store.locked := by
    rcases made with ⟨there, rfl⟩ | ⟨-, rfl⟩
    · exact ⟨there, rfl⟩
    · obtain ⟨after, creates⟩ :=
        (MemoryStore.createDirs_ok_iff unlocked theme.settings.dirMode).mpr possible
      have creates' : Store.createDirs dir theme.settings.dirMode store = .ok () after := creates
      refine ⟨?_, (MemoryStore.createDirs_dirsOnly dir _ store).locked⟩
      rw [Outcome.finalState_ok creates']
      exact MemoryStore.contains_of_createDirs some creates
  obtain ⟨there, locked⟩ := ready
  rcases given with ⟨-, -, prepares⟩ | ⟨fine, prepares⟩
  · have unlocked' : middle.isLocked dir = false := by
      rw [MemoryStore.isLocked, locked]
      exact unlocked
    rw [prepares]
    exact ⟨(MemoryStore.setMode_dirsOnly dir _ middle).dirs dir there,
      MemoryStore.isWritable_of_setMode unlocked' allows there⟩
  · rw [prepares]
    refine ⟨there, fine.resolve_left fun absent => ?_⟩
    cases absent.symm.trans there

theorem prepareDir_writableKept (theme : Theme) (dir : Path) (store : MemoryStore) :
    WritableKept store (theme.prepareDir dir store) := by
  obtain ⟨middle, made, given⟩ := theme.prepareDir_stages dir store
  have kept : WritableKept store middle := by
    rcases made with ⟨-, rfl⟩ | ⟨-, rfl⟩
    · exact .refl middle
    · exact MemoryStore.createDirs_writableKept dir _ store
  rcases given with ⟨-, refuses, prepares⟩ | ⟨-, prepares⟩
  · rw [prepares]
    exact kept.trans (MemoryStore.setMode_writableKept refuses _)
  · rw [prepares]
    exact kept

theorem prepared_writableKept (theme : Theme) (dir : Path) (store : MemoryStore) :
    WritableKept store (theme.prepared dir store) := by
  unfold prepared
  induction theme.levels dir generalizing store with
  | nil => exact .refl store
  | cons first rest ih => exact (theme.prepareDir_writableKept first store).trans (ih _)

theorem prepareDir_unchanged (unlocked : store.isLocked dir = false)
    (impossible : ¬ store.CanHaveDir dir) : theme.prepareDir dir store = store := by
  obtain ⟨middle, made, given⟩ := theme.prepareDir_stages dir store
  have absent : store.dirs.contains dir = false := by
    cases there : store.dirs.contains dir with
    | false => rfl
    | true => exact absurd (.inl there) impossible
  have same : middle = store := by
    rcases made with ⟨-, same⟩ | ⟨-, same⟩
    · exact same
    · exact same.trans (MemoryStore.createDirs_unchanged unlocked impossible)
  rw [same] at given
  rcases given with ⟨there, -⟩ | ⟨-, prepares⟩
  · cases absent.symm.trans there
  · exact prepares

/-- All levels, from the temp root down, are there and take files once they are prepared, if there can
be a temp root. -/
theorem prepared_ready (unlocked : store.isLocked dir = false)
    (allows : theme.settings.dirMode.allowsOwnerWrite = true)
    (temp : theme.settings.tempRoot.components ≠ [])
    (possible : store.CanHaveDir theme.settings.tempRoot)
    (below : dir.startsWith theme.settings.tempRoot = true) {level : Path}
    (isLevel : level.startsWith theme.settings.tempRoot = true)
    (leads : dir.startsWith level = true) :
    (theme.prepared dir store).dirs.contains level = true ∧
      (theme.prepared dir store).isWritable level = true := by
  induction dir, below using level_induction generalizing level with
  | top dir below alone =>
      have same := components_of_top temp below alone
      have ready := prepareDir_ready unlocked allows (same ▸ temp)
        ((MemoryStore.canHaveDir_congr same).mpr possible)
      have whole : level.components = dir.components :=
        Path.components_eq_of_startsWith (Path.startsWith_trans isLevel
          ((Path.startsWith_iff _ _).mpr (same ▸ List.prefix_rfl))) leads
      rw [prepared_of_top below alone, PathMap.contains_congr whole,
        MemoryStore.isWritable_congr whole]
      exact ready
  | step parent dir below above parentBelow ih =>
      have higher := Path.startsWith_of_parent? above
      have ih := @ih (MemoryStore.isLocked_above higher unlocked)
      have nonempty := Path.nonempty_of_startsWith parentBelow temp
      have kept := keptByDirs_memory.prepareDirs theme (theme.levels parent) store
      rw [prepared_of_parent? below above parentBelow]
      by_cases whole : level.components = dir.components
      · have unlocked' : (theme.prepared parent store).isLocked dir = false := by
          rw [MemoryStore.isLocked, prepared, kept.locked]
          exact unlocked
        obtain ⟨there, writable⟩ := ih parentBelow (Path.startsWith_self parent)
        rw [PathMap.contains_congr whole, MemoryStore.isWritable_congr whole]
        exact prepareDir_ready unlocked' allows (Path.nonempty_of_startsWith below temp)
          (MemoryStore.canHaveDir_in_parent above nonempty there writable)
      · obtain ⟨_, same, overParent⟩ :=
          Path.startsWith_parent leads (Path.nonempty_of_startsWith isLevel temp) whole
        cases above.symm.trans same
        obtain ⟨there, writable⟩ := ih isLevel overParent
        have stays := theme.prepareDir_writableKept dir (theme.prepared parent store)
        exact ⟨(keptByDirs_memory.prepareDir theme dir _).dirs level there,
          stays.isWritable writable⟩

end ThemeRender.Theme
