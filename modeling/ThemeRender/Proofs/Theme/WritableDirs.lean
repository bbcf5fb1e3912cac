import ThemeRender.Proofs.Store.MemoryHistory
import ThemeRender.Proofs.Theme.Coherence
/-!
When the directory of an artifact can be made to take files. Locks are over a directory or not, and no
step changes them; what else decides is whether there can be a temp root, since each level is made in
one that takes files by then.
-/

namespace ThemeRender.Theme

open MemoryStore (Change afterChanges)

variable {theme : Theme} {store : MemoryStore} {dir : Path}

theorem prepared_unchanged (rooted : store.Rooted)
    (temp : theme.settings.tempRoot.components ≠ []) (unlocked : store.isLocked dir = false)
    (impossible : ¬ store.CanHaveDir theme.settings.tempRoot)
    (below : dir.startsWith theme.settings.tempRoot = true) : theme.prepared dir store = store := by
  have absent : store.dirs.contains theme.settings.tempRoot = false :=
    Bool.eq_false_iff.mpr fun there => impossible (.inl there)
  induction dir, below using level_induction with
  | top dir below alone =>
      rw [prepared_of_top below alone]
      exact prepareDir_unchanged unlocked
        (mt (rooted.canHaveDir_below temp absent below).mp impossible)
  | step parent dir below above parentBelow ih =>
      have higher := Path.startsWith_of_parent? above
      rw [prepared_of_parent? below above parentBelow,
        ih (MemoryStore.isLocked_above higher unlocked)]
      exact prepareDir_unchanged unlocked
        (mt (rooted.canHaveDir_below temp absent below).mp impossible)

theorem prepared_writable_iff (rooted : store.Rooted)
    (temp : theme.settings.tempRoot.components ≠ [])
    (allows : theme.settings.dirMode.allowsOwnerWrite = true)
    (below : dir.startsWith theme.settings.tempRoot = true) :
    (theme.prepared dir store).dirs.contains dir = true ∧
        (theme.prepared dir store).isWritable dir = true ↔
      store.isLocked dir = false ∧ store.CanHaveDir theme.settings.tempRoot := by
  constructor
  · rintro ⟨there, writable⟩
    have kept := keptByDirs_memory.prepareDirs theme (theme.levels dir) store
    have unlocked : store.isLocked dir = false := by
      have unlocked' := (MemoryStore.isWritable_iff.mp writable).1
      rwa [MemoryStore.isLocked, prepared, kept.locked] at unlocked'
    refine ⟨unlocked, ?_⟩
    by_contra impossible
    have absent : store.dirs.contains theme.settings.tempRoot = false :=
      Bool.eq_false_iff.mpr fun there => impossible (.inl there)
    rw [prepared_unchanged rooted temp unlocked impossible below,
      rooted.absent_below temp absent below] at there
    cases there
  · rintro ⟨unlocked, possible⟩
    exact prepared_ready unlocked allows temp possible below below (Path.startsWith_self dir)

/-- A directory at or below the temp root can be made to take files exactly where no lock is over it
and there can be a temp root, however the store has come about. Then all levels take files, and those
that did before have the modes they had; otherwise the error names the directory. -/
theorem ensureWritable_where_possible (theme : Theme) (changes : List Change) (compiled : List Path)
    (dir : Path) (temp : theme.settings.tempRoot.components ≠ [])
    (below : dir.startsWith theme.settings.tempRoot = true)
    (allows : theme.settings.dirMode.allowsOwnerWrite = true) :
    let store := afterChanges changes
    let outcome := theme.ensureWritable dir ⟨store, compiled⟩
    ((∃ after, outcome = .ok () after) ↔
      (∀ lock ∈ store.locked, dir.startsWith lock = false) ∧
        store.CanHaveDir theme.settings.tempRoot) ∧
    (∀ after, outcome = .ok () after →
      after.store.files = store.files ∧
      (∀ level : Path, level.startsWith theme.settings.tempRoot = true →
        dir.startsWith level = true →
        after.store.dirs.contains level = true ∧ after.store.isWritable level = true ∧
          (store.isWritable level = true →
            after.store.dirs.get? level = store.dirs.get? level)) ∧
      ∀ file parent contents, file.parent? = some parent → parent.components = dir.components →
        MemoryStore.writeFile file contents after.store =
          .ok () (after.store.putFile file contents)) ∧
    ∀ error after, outcome = .error error after →
      error = .notWritable dir ∧ after.store.files = store.files := by
  intro store outcome
  have rooted : store.Rooted := MemoryStore.Rooted.afterChanges changes
  have kept := keptByDirs_memory.prepareDirs theme (theme.levels dir) store
  have ready_iff := prepared_writable_iff rooted temp allows below
  rw [← MemoryStore.isLocked_eq_false_iff, ← ready_iff]
  by_cases ready : (theme.prepared dir store).dirs.contains dir = true ∧
      (theme.prepared dir store).isWritable dir = true
  · have succeeds : outcome = .ok () ⟨theme.prepared dir store, compiled⟩ :=
      ensureWritable_ready ready
    refine ⟨⟨fun _ => ready, fun _ => ⟨_, succeeds⟩⟩, ?_, ?_⟩
    · intro after leaves
      cases succeeds.symm.trans leaves
      obtain ⟨unlocked, possible⟩ := ready_iff.mp ready
      refine ⟨kept.files, ?_, ?_⟩
      · intro level isLevel leads
        obtain ⟨there, writable⟩ :=
          prepared_ready unlocked allows temp possible below isLevel leads
        exact ⟨there, writable, (theme.prepared_writableKept dir store).modes level⟩
      · intro file parent contents above same
        apply MemoryStore.writeFile_ok above
        · exact (PathMap.contains_congr same).trans ready.1
        · exact (MemoryStore.isWritable_congr same).trans ready.2
    · intro error after fails
      cases succeeds.symm.trans fails
  · have fails : outcome = .error (.notWritable dir) ⟨theme.prepared dir store, compiled⟩ :=
      ensureWritable_unready ready
    refine ⟨⟨?_, fun possible => absurd possible ready⟩, ?_, ?_⟩
    · rintro ⟨after, succeeds⟩
      cases fails.symm.trans succeeds
    · intro after succeeds
      cases fails.symm.trans succeeds
    · intro error after leaves
      cases fails.symm.trans leaves
      exact ⟨rfl, kept.files⟩

def guardedChanges : List Change :=
  [.setUmask 0o200, .addDir (.ofString "./tmp") 0o555, .lock (.ofString "./tmp/drafts")]

theorem guarded_posts_take_files :
    ∃ after, standard.ensureWritable (.ofString "./tmp/posts") ⟨afterChanges guardedChanges, []⟩ =
        .ok () after ∧
      after.store.isWritable (.ofString "./tmp") = true ∧
      MemoryStore.writeFile (.ofString "./tmp/posts/a.haml.php") "<p>a</p>" after.store =
        .ok () (after.store.putFile (.ofString "./tmp/posts/a.haml.php") "<p>a</p>") := by
  obtain ⟨possible, succeeds, -⟩ := ensureWritable_where_possible standard guardedChanges []
    (.ofString "./tmp/posts") (by decide +kernel) (by decide +kernel) (by decide)
  obtain ⟨after, ok⟩ := possible.mpr ⟨by decide +kernel, .inl (by decide +kernel)⟩
  obtain ⟨-, levels, writes⟩ := succeeds after ok
  refine ⟨after, ok, ?_, ?_⟩
  · exact (levels (.ofString "./tmp") (by decide +kernel) (by decide +kernel)).2.1
  · exact writes _ (.ofString "./tmp/posts") _ (by decide +kernel) rfl

def isEnsured (outcome : EStateM.Result RenderError (Workroom MemoryStore) Unit) : Bool :=
  match outcome with
  | .ok _ _ => true
  | .error _ _ => false

theorem of_isEnsured {outcome : EStateM.Result RenderError (Workroom MemoryStore) Unit}
    (ok : isEnsured outcome = true) : ∃ after, outcome = .ok () after := by
  cases outcome with
  | ok _ after => exact ⟨after, rfl⟩
  | error => cases ok

/-- The empty path is above a relative temp root and can be a directory that refuses files, but it is
no obstacle. -/
theorem empty_path_is_no_obstacle :
    ¬ ∀ (theme : Theme) (changes : List Change) (compiled : List Path) (dir : Path),
      theme.settings.tempRoot.components ≠ [] →
      dir.startsWith theme.settings.tempRoot = true →
      theme.settings.dirMode.allowsOwnerWrite = true →
      let store := afterChanges changes
      let temp := theme.settings.tempRoot
      ((∃ after, theme.ensureWritable dir ⟨store, compiled⟩ = .ok () after) ↔
        (∀ lock ∈ store.locked, dir.startsWith lock = false) ∧
          (store.dirs.contains temp = true ∨
            (∀ above ∈ temp.ancestors, store.dirs.contains above = false) ∨
            ∃ above mode, temp.ancestors.find? store.dirs.contains = some above ∧
              store.dirs.get? above = some mode ∧ mode.allowsOwnerWrite = true)) := by
  intro holds
  have claimed := holds ⟨.withRoot (.ofString "theme"), .standard⟩ [.addDir ⟨[]⟩ 0o555] []
    (.ofString "theme/tmp") (by decide +kernel) (by decide +kernel) (by decide)
  have made : isEnsured (Theme.ensureWritable ⟨.withRoot (.ofString "theme"), .standard⟩
      (.ofString "theme/tmp") ⟨afterChanges [.addDir ⟨[]⟩ 0o555], []⟩) = true := by
    decide +kernel
  obtain ⟨-, there | nothing | ⟨above, mode, nearest, entry, allows⟩⟩ :=
    claimed.mp (of_isEnsured made)
  · exact absurd there (by decide +kernel)
  · exact absurd (nothing ⟨[]⟩ (by decide +kernel)) (by decide +kernel)
  · have closest : some above = some ⟨[]⟩ := nearest.symm.trans (by decide +kernel)
    cases closest
    have readOnly : some mode = some 0o555 := entry.symm.trans (by decide +kernel)
    cases readOnly
    exact absurd allows (by decide)

end ThemeRender.Theme
