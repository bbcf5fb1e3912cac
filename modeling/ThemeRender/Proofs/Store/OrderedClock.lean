import ThemeRender.Proofs.Store.MemoryHistory
/-!
Memory stores as trees with a clock. Whatever is done to a store, the directories that its
directories and files are in are there, and files that were written, added or touched last have
times in the order in which that was done, none of them later than the clock. What is refused leaves
a store as it was.
-/

namespace ThemeRender

namespace MemoryStore

open Outcome (finalState finalState_ok finalState_error)

variable {store : MemoryStore} {path other : Path}

/-! Files in directories -/

/-- Whether the directory of a file is there, the empty path aside. -/
def Housed (store : MemoryStore) : Prop :=
  ∀ path parent : Path, store.files.contains path = true → path.parent? = some parent →
    parent.components ≠ [] → store.dirs.contains parent = true

theorem exists_parent_of_same {parent : Path} (same : path.components = other.components)
    (above : path.parent? = some parent) :
    ∃ parent', other.parent? = some parent' ∧ parent'.components = parent.components := by
  cases above' : other.parent? with
  | none =>
      have top := (Path.parent?_eq_none_iff other).mp above'
      rw [← same, ← Path.parent?_eq_none_iff path, above] at top
      cases top
  | some parent' =>
      refine ⟨parent', rfl, ?_⟩
      rw [Path.components_of_parent? above', Path.components_of_parent? above, same]

namespace Housed

theorem of_kept {after : MemoryStore} (housed : store.Housed)
    (files : ∀ path, after.files.contains path = true → store.files.contains path = true)
    (dirs : ∀ path, store.dirs.contains path = true → after.dirs.contains path = true) :
    after.Housed := by
  intro path parent there above nonempty
  exact dirs parent (housed path parent (files path there) above nonempty)

theorem putFile (housed : store.Housed) (path : Path) (contents : String)
    (ready : ∀ parent, path.parent? = some parent → parent.components ≠ [] →
      store.dirs.contains parent = true) :
    (store.putFile path contents).Housed := by
  intro other parent there above nonempty
  rcases PathMap.contains_of_insert there with before | same
  · exact housed other parent before above nonempty
  · obtain ⟨parent', above', sameParent⟩ := exists_parent_of_same same.symm above
    have some' : parent'.components ≠ [] := sameParent ▸ nonempty
    change store.dirs.contains parent = true
    rw [← PathMap.contains_congr sameParent]
    exact ready parent' above' some'

theorem addFile (housed : store.Housed) (path : Path) (contents : String) :
    (store.addFile path contents).Housed := by
  unfold MemoryStore.addFile
  cases above : path.parent? with
  | none =>
      apply housed.putFile
      intro parent above'
      rw [above] at above'
      cases above'
  | some dir =>
      have kept : (store.insertDirs dir usualMode).Housed :=
        housed.of_kept (fun _ => id) (insertDirs_dirsOnly store dir usualMode).dirs
      apply kept.putFile
      intro parent above' nonempty
      cases above.symm.trans above'
      exact contains_insertDirs (Path.startsWith_self dir) nonempty usualMode

theorem writeFile (housed : store.Housed) (path : Path) (contents : String) :
    (finalState (MemoryStore.writeFile path contents) store).Housed := by
  rcases finalState_writeFile path contents store with stays | ⟨parent, above, there, -, writes⟩
  · rw [stays]
    exact housed
  · rw [writes]
    apply housed.putFile
    intro parent' above' _
    cases above.symm.trans above'
    exact there

theorem update (housed : store.Housed) (path : Path) (clock : Nat) (f : MemoryFile → MemoryFile) :
    Housed { store with clock, files := store.files.update path f } := by
  refine housed.of_kept ?_ fun _ => id
  intro other there
  unfold PathMap.contains at there ⊢
  dsimp only at there
  rw [PathMap.get?_update] at there
  split at there
  · rw [Option.isSome_map] at there
    exact there
  · exact there

theorem change (housed : store.Housed) (change : Change) : (store.change change).Housed := by
  cases change with
  | addFile path contents => exact housed.addFile path contents
  | addDir path mode =>
      refine housed.of_kept (fun _ => id) fun other there => ?_
      have kept := (insertDirs_dirsOnly store path usualMode).dirs other there
      exact PathMap.contains_insert_of_contains kept
  | touch path => exact housed.update path _ _
  | setModified path time => exact housed.update path _ _
  | setUmask umask => exact housed.of_kept (fun _ => id) fun _ => id
  | lock path => exact housed.of_kept (fun _ => id) fun _ => id
  | write path contents => exact housed.writeFile path contents
  | createDirs path mode =>
      have kept := createDirs_dirsOnly path mode store
      refine housed.of_kept (fun other there => ?_) kept.dirs
      rw [← kept.files]
      exact there
  | setMode path mode =>
      have kept := setMode_dirsOnly path mode store
      refine housed.of_kept (fun other there => ?_) kept.dirs
      rw [← kept.files]
      exact there

theorem changes (housed : store.Housed) (changes : List Change) :
    (changes.foldl MemoryStore.change store).Housed := by
  induction changes generalizing store with
  | nil => exact housed
  | cons first rest ih => exact ih (housed.change first)

theorem empty : MemoryStore.empty.Housed := by
  intro path parent there
  cases there

theorem afterChanges (changes : List Change) : (MemoryStore.afterChanges changes).Housed :=
  empty.changes changes

end Housed

/-! Where the time of a file comes from -/

inductive Dating where
  /-- It is written, added or touched, and gets the time of the clock. -/
  | stamped
  | set
deriving DecidableEq

/-- How a change gives the file at a path a time, if it does. -/
def dating? (store : MemoryStore) (path : Path) : Change → Option Dating
  | .addFile other _ => if path.components = other.components then some .stamped else none
  | .touch other =>
      if path.components = other.components then
        (store.files.get? path).map fun _ => .stamped
      else none
  | .setModified other _ =>
      if path.components = other.components then (store.files.get? path).map fun _ => .set
      else none
  | .write other contents =>
      if path.components = other.components then
        match writeFile other contents store with
        | .error _ _ => none
        | .ok _ _ => some .stamped
      else none
  | .addDir _ _ | .setUmask _ | .lock _ | .createDirs _ _ | .setMode _ _ => none

def Change.file? : Change → Option Path
  | .addFile path _ | .touch path | .setModified path _ | .write path _ => some path
  | .addDir _ _ | .setUmask _ | .lock _ | .createDirs _ _ | .setMode _ _ => none

theorem file_of_dating? {change : Change} {dating : Dating}
    (dates : store.dating? path change = some dating) :
    ∃ other, change.file? = some other ∧ path.components = other.components := by
  cases change with
  | addFile other | touch other | setModified other | write other =>
      refine ⟨other, rfl, ?_⟩
      rw [dating?] at dates
      split at dates
      · assumption
      · cases dates
  | addDir | setUmask | lock | createDirs | setMode => cases dates

theorem get?_change_undated {change : Change} (undated : store.dating? path change = none) :
    (store.change change).files.get? path = store.files.get? path := by
  cases change with
  | addFile other contents =>
      have different : path.components ≠ other.components := by
        intro same
        rw [dating?, if_pos same] at undated
        cases undated
      rw [MemoryStore.change, get?_addFile, if_neg different]
  | touch other =>
      rw [MemoryStore.change, get?_touch]
      split
      · rename_i same
        rw [dating?, if_pos same, Option.map_eq_none_iff] at undated
        rw [undated]
        rfl
      · rfl
  | setModified other time =>
      refine (PathMap.get?_update store.files path other _).trans ?_
      split
      · rename_i same
        rw [dating?, if_pos same, Option.map_eq_none_iff] at undated
        rw [undated]
        rfl
      · rfl
  | write other contents =>
      rw [MemoryStore.change]
      cases outcome : writeFile other contents store with
      | error error after => rw [finalState_error outcome, writeFile_error outcome]
      | ok _ after =>
          have different : path.components ≠ other.components := by
            intro same
            rw [dating?, if_pos same, outcome] at undated
            cases undated
          obtain ⟨-, -, -, -, rfl⟩ := of_writeFile outcome
          rw [finalState_ok outcome, get?_putFile, if_neg different]
  | createDirs dir mode =>
      rw [MemoryStore.change, (createDirs_dirsOnly dir mode store).files]
  | setMode dir mode =>
      rw [MemoryStore.change, (setMode_dirsOnly dir mode store).files]
  | addDir | setUmask | lock => rfl

theorem change_stamped {change : Change} (stamped : store.dating? path change = some .stamped) :
    (store.change change).clock = store.clock + 1 ∧
      ∃ file, (store.change change).files.get? path = some file ∧
        file.modified = store.clock + 1 := by
  cases change with
  | addFile other contents =>
      obtain ⟨_, ⟨⟩, same⟩ := file_of_dating? stamped
      refine ⟨clock_addFile store other contents, ⟨contents, store.clock + 1⟩, ?_, rfl⟩
      rw [MemoryStore.change, get?_addFile, if_pos same]
  | touch other =>
      obtain ⟨_, ⟨⟩, same⟩ := file_of_dating? stamped
      rw [dating?, if_pos same, Option.map_eq_some_iff] at stamped
      obtain ⟨file, there, -⟩ := stamped
      refine ⟨rfl, { file with modified := store.clock + 1 }, ?_, rfl⟩
      rw [MemoryStore.change, get?_touch, if_pos same, there]
      rfl
  | setModified other time =>
      rw [dating?] at stamped
      split at stamped
      · simp at stamped
      · cases stamped
  | write other contents =>
      obtain ⟨_, ⟨⟩, same⟩ := file_of_dating? stamped
      rw [dating?, if_pos same] at stamped
      cases outcome : writeFile other contents store with
      | error error after =>
          rw [outcome] at stamped
          cases stamped
      | ok _ after =>
          obtain ⟨-, -, -, -, rfl⟩ := of_writeFile outcome
          rw [MemoryStore.change, finalState_ok outcome]
          refine ⟨rfl, ⟨contents, store.clock + 1⟩, ?_, rfl⟩
          rw [get?_putFile, if_pos same]
  | addDir | setUmask | lock | createDirs | setMode => cases stamped

theorem clock_le_change (store : MemoryStore) (change : Change) :
    store.clock ≤ (store.change change).clock := by
  cases change with
  | addFile path contents =>
      rw [MemoryStore.change, clock_addFile]
      exact Nat.le_succ _
  | touch path => exact Nat.le_succ _
  | write path contents =>
      rcases finalState_writeFile path contents store with stays | ⟨-, -, -, -, writes⟩
      · exact Nat.le_of_eq (congrArg MemoryStore.clock stays).symm
      · rw [MemoryStore.change, writes]
        exact Nat.le_succ _
  | createDirs path mode => exact Nat.le_of_eq (createDirs_dirsOnly path mode store).clock.symm
  | setMode path mode => exact Nat.le_of_eq (setMode_dirsOnly path mode store).clock.symm
  | addDir | setModified | setUmask | lock => exact Nat.le_refl _

/-! One change after another -/

/-- The store that change number `n` finds. -/
def found (changes : List Change) (n : Nat) : MemoryStore :=
  afterChanges (changes.take n)

/-- Change number `n` is the last that gave the file at a path a time. -/
structure LastDated (changes : List Change) (path : Path) (n : Nat) (dating : Dating) : Prop where
  number : n < changes.length
  dates : (found changes n).dating? path changes[n] = some dating
  latest : ∀ later (h : later < changes.length), n < later →
    (found changes later).dating? path changes[later] = none

variable {changes : List Change} {n m : Nat}

theorem found_succ (number : n < changes.length) :
    found changes (n + 1) = (found changes n).change changes[n] := by
  unfold found afterChanges
  rw [← List.take_append_getElem number, List.foldl_append]
  rfl

theorem found_length (changes : List Change) :
    found changes changes.length = afterChanges changes := by
  unfold found
  rw [List.take_length]

theorem found_of_le (le : changes.length ≤ n) : found changes n = afterChanges changes := by
  unfold found
  rw [List.take_of_length_le le]

theorem clock_found_mono (le : n ≤ m) : (found changes n).clock ≤ (found changes m).clock := by
  induction le with
  | refl => exact Nat.le_refl _
  | @step m le ih =>
      refine Nat.le_trans ih ?_
      by_cases number : m < changes.length
      · rw [Nat.succ_eq_add_one, found_succ number]
        exact clock_le_change _ _
      · have ended : changes.length ≤ m := Nat.not_lt.mp number
        exact Nat.le_of_eq (by rw [found_of_le ended, found_of_le (Nat.le_succ_of_le ended)])

theorem get?_found_undated (le : n ≤ m) (bound : m ≤ changes.length)
    (undated : ∀ later (h : later < changes.length), n ≤ later → later < m →
      (found changes later).dating? path changes[later] = none) :
    (found changes m).files.get? path = (found changes n).files.get? path := by
  induction le with
  | refl => rfl
  | @step m le ih =>
      have number : m < changes.length := bound
      rw [Nat.succ_eq_add_one, found_succ number,
        get?_change_undated (undated m number le (Nat.lt_succ_self m))]
      apply ih (Nat.le_of_lt number)
      intro later h above below
      exact undated later h above (Nat.lt_succ_of_lt below)

theorem LastDated.modified (last : LastDated changes path n .stamped) {file : MemoryFile}
    (there : (afterChanges changes).files.get? path = some file) :
    file.modified = (found changes n).clock + 1 ∧
      (found changes (n + 1)).clock = (found changes n).clock + 1 := by
  obtain ⟨ticks, stamped, made, time⟩ := change_stamped last.dates
  rw [← found_succ last.number] at ticks made
  have kept : (found changes changes.length).files.get? path =
      (found changes (n + 1)).files.get? path := by
    apply get?_found_undated last.number (Nat.le_refl _)
    intro later h above _
    exact last.latest later h above
  rw [found_length, there, made] at kept
  cases kept
  exact ⟨time, ticks⟩

theorem exists_dates (bound : m ≤ changes.length) {file : MemoryFile}
    (there : (found changes m).files.get? path = some file) :
    ∃ n, ∃ number : n < changes.length, ∃ dating, n < m ∧
      (found changes n).dating? path changes[n] = some dating ∧
      ∀ later (h : later < changes.length), n < later → later < m →
        (found changes later).dating? path changes[later] = none := by
  induction m generalizing file with
  | zero => cases there
  | succ m ih =>
      have number : m < changes.length := bound
      cases dates : (found changes m).dating? path changes[m] with
      | some dating =>
          refine ⟨m, number, dating, Nat.lt_succ_self m, dates, ?_⟩
          intro later _ above below
          omega
      | none =>
          rw [found_succ number, get?_change_undated dates] at there
          obtain ⟨n, isNumber, dating, before, given, nothing⟩ := ih (Nat.le_of_lt number) there
          refine ⟨n, isNumber, dating, Nat.lt_succ_of_lt before, given, ?_⟩
          intro later h above below
          rcases Nat.lt_succ_iff_lt_or_eq.mp below with lower | rfl
          · exact nothing later h above lower
          · exact dates

theorem exists_lastDated {file : MemoryFile}
    (there : (afterChanges changes).files.get? path = some file) :
    ∃ n dating, LastDated changes path n dating := by
  rw [← found_length] at there
  obtain ⟨n, number, dating, -, dates, nothing⟩ := exists_dates (Nat.le_refl _) there
  exact ⟨n, dating, number, dates, fun later h above => nothing later h above h⟩

/-- The times of files that were written, added or touched last are in the order of when that was
done. -/
theorem LastDated.lt_of_lt (first : LastDated changes path n .stamped)
    (second : LastDated changes other m .stamped) {file file' : MemoryFile}
    (there : (afterChanges changes).files.get? path = some file)
    (there' : (afterChanges changes).files.get? other = some file') (earlier : n < m) :
    file.modified < file'.modified := by
  obtain ⟨time, ticks⟩ := first.modified there
  obtain ⟨time', -⟩ := second.modified there'
  have le : (found changes (n + 1)).clock ≤ (found changes m).clock := clock_found_mono earlier
  omega

theorem LastDated.same_file (first : LastDated changes path n .stamped)
    (second : LastDated changes other n .stamped) : path.components = other.components := by
  obtain ⟨named, isFile, same⟩ := file_of_dating? first.dates
  obtain ⟨named', isFile', same'⟩ := file_of_dating? second.dates
  cases isFile.symm.trans isFile'
  rw [same, same']

/-- However a store has come about, all but the empty path that is above one of its directories is
one of its directories, and so is the parent of a file. Every file was last given a time by one of
the changes. If that was a write, an addition or a touch, the time is not later than the clock, and
two such files have times in the order of these changes, never the same. A refused change leaves a
store as it was. -/
theorem tree_with_ordered_clock (changes : List Change) :
    let store := afterChanges changes
    (∀ path above : Path, store.dirs.contains path = true → above ∈ path.ancestors →
      above.isEmpty = false → store.dirs.contains above = true) ∧
    (∀ path parent : Path, store.files.contains path = true → path.parent? = some parent →
      parent.isEmpty = false → store.dirs.contains parent = true) ∧
    (∀ path file, store.files.get? path = some file →
      (∃ n dating, LastDated changes path n dating) ∧
      ∀ n, LastDated changes path n .stamped → file.modified ≤ store.clock ∧
        ∀ other file' m, store.files.get? other = some file' →
          LastDated changes other m .stamped →
            (file.modified < file'.modified ↔ n < m) ∧
            (file.modified = file'.modified → path.components = other.components)) ∧
    ∀ (store after : MemoryStore) path error,
      (∀ contents, writeFile path contents store = .error error after → after = store) ∧
      (∀ mode, createDirs path mode store = .error error after → after = store) ∧
      (∀ mode, setMode path mode store = .error error after → after = store) := by
  intro store
  have some_of_nonempty {path : Path} (nonempty : path.isEmpty = false) : path.components ≠ [] := by
    intro empty
    rw [(Path.isEmpty_iff path).mpr empty] at nonempty
    cases nonempty
  refine ⟨?_, ?_, ?_, ?_⟩
  · intro path above there isAbove nonempty
    have leads := (Path.startsWith_iff path above).mpr (Path.prefix_of_mem_ancestors isAbove)
    exact Rooted.afterChanges changes path above there leads (some_of_nonempty nonempty)
  · intro path parent there above nonempty
    exact Housed.afterChanges changes path parent there above (some_of_nonempty nonempty)
  · intro path file there
    refine ⟨exists_lastDated there, ?_⟩
    intro n last
    constructor
    · obtain ⟨time, ticks⟩ := last.modified there
      have le : (found changes (n + 1)).clock ≤ (found changes changes.length).clock :=
        clock_found_mono last.number
      rw [found_length, ticks, ← time] at le
      exact le
    · intro other file' m there' last'
      rcases Nat.lt_trichotomy n m with earlier | rfl | later
      · have less := last.lt_of_lt last' there there' earlier
        exact ⟨iff_of_true less earlier, fun same => absurd same (Nat.ne_of_lt less)⟩
      · have same := last.same_file last'
        rw [PathMap.get?_congr _ same] at there
        cases there.symm.trans there'
        exact ⟨iff_of_false (Nat.lt_irrefl _) (Nat.lt_irrefl _), fun _ => same⟩
      · have less := last'.lt_of_lt last there' there later
        refine ⟨iff_of_false (Nat.lt_asymm less) (Nat.lt_asymm later), fun same => ?_⟩
        exact absurd same (Nat.ne_of_gt less)
  · intro store after path error
    exact ⟨fun _ => writeFile_error, fun _ => createDirs_error, fun _ => setMode_error⟩

def editedPages : List Change :=
  [.addFile (.ofString "./views/a.haml") "%p a", .addFile (.ofString "./views/b.haml") "%p b",
    .setModified (.ofString "./views/b.haml") 9, .addDir (.ofString "./tmp") 0o555,
    .touch (.ofString "./views//a.haml"), .write (.ofString "./tmp/a.haml.php") "<p></p>",
    .setMode (.ofString "./tmp") 0o760, .write (.ofString "./tmp/a.haml.php") "<p>a</p>"]

theorem artifact_later_than_touched_source :
    let store := afterChanges editedPages
    let source : Path := .ofString "./views/a.haml"
    let artifact : Path := .ofString "./tmp/a.haml.php"
    LastDated editedPages source 4 .stamped ∧ LastDated editedPages artifact 7 .stamped ∧
    LastDated editedPages (.ofString "./views/b.haml") 2 .set ∧
    ∃ written made, store.files.get? source = some written ∧ store.files.get? artifact = some made ∧
      written.modified < made.modified ∧ made.modified ≤ store.clock ∧
      store.dirs.contains (.ofString "./tmp") = true ∧
      store.dirs.contains (.ofString ".") = true := by
  intro store source artifact
  obtain ⟨above, housed, times, -⟩ := tree_with_ordered_clock editedPages
  have touched : LastDated editedPages source 4 .stamped :=
    ⟨by decide, by decide +kernel, by decide +kernel⟩
  have compiled : LastDated editedPages artifact 7 .stamped :=
    ⟨by decide, by decide +kernel, by decide +kernel⟩
  have dated : LastDated editedPages (.ofString "./views/b.haml") 2 .set :=
    ⟨by decide, by decide +kernel, by decide +kernel⟩
  have written : store.files.get? source = some ⟨"%p a", 3⟩ := by decide +kernel
  have made : store.files.get? artifact = some ⟨"<p>a</p>", 4⟩ := by decide +kernel
  have temp := housed artifact (.ofString "./tmp") (by decide +kernel) (by decide +kernel)
    (by decide +kernel)
  refine ⟨touched, compiled, dated, _, _, written, made, ?_, ?_, temp, ?_⟩
  · exact (((times source _ written).2 4 touched).2 artifact _ 7 made compiled).1.mpr (by decide)
  · exact ((times artifact _ made).2 7 compiled).1
  · exact above (.ofString "./tmp") (.ofString ".") temp (by decide +kernel) (by decide +kernel)

end MemoryStore

end ThemeRender
