import Mathlib.Data.List.Induction
import ThemeRender.Proofs.Store.DiskChanges
import ThemeRender.Proofs.Store.DiskDirs
import ThemeRender.Proofs.Theme.Fetching
import ThemeRender.Proofs.Theme.Guarded
/-!
What a call for the executable form of a source does on a disk. Of all files it writes the artifact
alone, and where the cache takes that, the call and the reading of what it returns come to what
compiling and reading the source on the spot come to. Below a temp root that is a directory with
nothing inside, the cache takes every artifact: its directory can be made, one level after another.
-/

namespace ThemeRender

namespace Disk

/-! Preparing directories -/

theorem attempt_dirsOnly {disk : Disk} {action : Disk → Except SystemFault Disk}
    (keeps : ∀ after, action disk = .ok after → DirsOnly disk after) :
    DirsOnly disk (Outcome.finalState (attempt action) disk) := by
  unfold Outcome.finalState attempt
  cases done : action disk with
  | ok after => exact keeps after done
  | error fault => exact .refl disk

theorem keptByDirs : Theme.KeptByDirs DirsOnly where
  refl := .refl
  trans first second := first.trans second
  createDirs _ _ _ := attempt_dirsOnly fun _ made => createDirsWithin_dirsOnly made
  setMode _ _ _ := attempt_dirsOnly fun _ changed => setMode_dirsOnly changed

variable (theme : Theme)

theorem ensureWritable_dirsOnly (dir : Path) (room : Workroom Disk) :
    ∃ after : Workroom Disk, DirsOnly room.store after.store ∧
      (theme.ensureWritable dir room = .ok () after ∨
        theme.ensureWritable dir room = .error (.notWritable dir) after) := by
  refine ⟨{ room with store := theme.prepared dir room.store },
    keptByDirs.prepareDirs theme (theme.levels dir) room.store, ?_⟩
  rw [Theme.ensureWritable_apply]
  split
  · exact .inl rfl
  · exact .inr rfl

end Disk

namespace Theme

open Disk (DirsOnly)
open Outcome (bind_ok bind_error)

variable (theme : Theme) {file : TemplateFile} {artifact : Path}

/-! Asking for an executable form -/

theorem isFresh_of_noFile {σ : Type} [Store σ] {source : Path} {room : Workroom σ}
    (absent : Store.isFile room.store artifact = false) :
    isFresh source artifact room = .ok false room := by
  unfold isFresh
  rw [Outcome.get_bind, absent]
  rfl

theorem isFresh_of_file {σ : Type} [Store σ] {source : Path} {room : Workroom σ}
    (there : Store.isFile room.store artifact = true) :
    (∃ fresh, isFresh source artifact room = .ok fresh room) ∨
      ∃ path error, isFresh source artifact room = .error (.file path error) room := by
  unfold isFresh
  rw [Outcome.get_bind, there]
  simp only [if_true]
  cases written : Store.modified room.store source with
  | error error => exact .inr ⟨source, error, bind_error (ask_error written)⟩
  | ok sourceTime =>
      rw [bind_ok (ask_ok written)]
      cases kept : Store.modified room.store artifact with
      | error error => exact .inr ⟨artifact, error, bind_error (ask_error kept)⟩
      | ok artifactTime =>
          rw [bind_ok (ask_ok kept)]
          exact .inl ⟨_, rfl⟩

inductive DiskOutcome (file : TemplateFile) (disk : Disk) :
    EStateM.Result RenderError (Workroom Disk) Path → Prop
  | fresh {after : Workroom Disk} (same : after.store = disk) :
      DiskOutcome file disk (.ok (theme.artifactPath file.path) after)
  | written {compiler : Compiler} {source text : String} {middle : Disk} {after : Workroom Disk}
      (registered : theme.compilers.compiler? file.dialect = some compiler)
      (kept : DirsOnly disk middle) (reads : Store.read middle file.path = .ok source)
      (compiles : compiler source file.path = .ok text)
      (writes : middle.write (theme.artifactPath file.path) text.toUTF8 = .ok after.store) :
      DiskOutcome file disk (.ok (theme.artifactPath file.path) after)
  | refused {compiler : Compiler} {source : String} {fault : CompileError} {after : Workroom Disk}
      (registered : theme.compilers.compiler? file.dialect = some compiler)
      (kept : DirsOnly disk after.store) (reads : Store.read after.store file.path = .ok source)
      (fails : compiler source file.path = .error fault) :
      DiskOutcome file disk (.error (.compile fault) after)
  | failed {error : RenderError} {after : Workroom Disk} (kept : DirsOnly disk after.store)
      (other : error.isTemplateFault = false) : DiskOutcome file disk (.error error after)

theorem act_write_disk (path : Path) (text : String) (room : Workroom Disk) :
    Workroom.act path (Store.write path text) room =
      match room.store.write path text.toUTF8 with
      | .ok store => .ok () { room with store }
      | .error fault => .error (.file path (.system fault)) room := by
  have asked : Store.write path text room.store =
      Disk.attempt (·.write path text.toUTF8) room.store := rfl
  unfold Workroom.act
  rw [asked]
  unfold Disk.attempt
  dsimp only
  cases room.store.write path text.toUTF8 with
  | ok store => rfl
  | error fault => rfl

theorem compileInto_diskOutcome {disk : Disk} {middle : Workroom Disk} {compiler : Compiler}
    (kept : DirsOnly disk middle.store)
    (registered : theme.compilers.compiler? file.dialect = some compiler) :
    theme.DiskOutcome file disk
      ((do compileInto compiler file (theme.artifactPath file.path)
           return theme.artifactPath file.path) middle) := by
  have runs := compileInto_of_read compiler file (theme.artifactPath file.path) middle
  cases reads : Store.read middle.store file.path with
  | error error =>
      rw [reads] at runs
      rw [bind_error runs]
      exact .failed kept rfl
  | ok source =>
      rw [reads] at runs
      dsimp only at runs
      cases compiles : compiler source file.path with
      | error fault =>
          rw [compiles] at runs
          rw [bind_error runs]
          exact .refused registered kept reads compiles
      | ok text =>
          rw [compiles] at runs
          have acts := act_write_disk (theme.artifactPath file.path) text (called file middle)
          cases writes : (called file middle).store.write (theme.artifactPath file.path)
              text.toUTF8 with
          | error fault =>
              rw [writes] at acts
              rw [bind_error (runs.trans acts)]
              exact .failed kept rfl
          | ok store =>
              rw [writes] at acts
              rw [bind_ok (runs.trans acts)]
              exact .written registered kept reads compiles writes

theorem compileTo_diskOutcome (file : TemplateFile) (room : Workroom Disk) :
    theme.DiskOutcome file room.store
      ((do theme.compileTo file (theme.artifactPath file.path)
           return theme.artifactPath file.path) room) := by
  unfold compileTo
  cases registered : theme.compilers.compiler? file.dialect with
  | none => exact .failed (.refl _) rfl
  | some compiler =>
      dsimp only
      cases above : (theme.artifactPath file.path).parent? with
      | none => exact theme.compileInto_diskOutcome (.refl _) registered
      | some dir =>
          dsimp only
          rw [bind_assoc]
          obtain ⟨middle, kept, prepared | refused⟩ := Disk.ensureWritable_dirsOnly theme dir room
          · rw [bind_ok prepared]
            exact theme.compileInto_diskOutcome kept registered
          · rw [bind_error refused]
            exact .failed kept rfl

theorem ensureCompiled_diskOutcome (compiled : file.dialect.isCompiled = true)
    (room : Workroom Disk) :
    theme.DiskOutcome file room.store (theme.ensureCompiled file room) := by
  unfold ensureCompiled
  simp only [compiled, Bool.not_true, Bool.false_eq_true, if_false]
  have recompiles : theme.DiskOutcome file room.store
      ((do theme.compileTo file (theme.artifactPath file.path)
           return theme.artifactPath file.path) room) := theme.compileTo_diskOutcome file room
  cases there : Store.isFile room.store (theme.artifactPath file.path) with
  | false =>
      rw [bind_ok (isFresh_of_noFile there)]
      exact recompiles
  | true =>
      rcases @isFresh_of_file _ _ _ file.path _ there with ⟨fresh, tells⟩ | ⟨_, _, fails⟩
      · rw [bind_ok tells]
        cases fresh with
        | true => exact .fresh rfl
        | false => exact recompiles
      · rw [bind_error fails]
        exact .failed (.refl _) rfl

/-! Where the cache takes the artifact -/

def CacheTakes (disk : Disk) (artifact : Path) : Prop :=
  ∃ dir after, artifact.parent? = some dir ∧
    theme.ensureWritable dir (.ofStore disk) = .ok () after ∧
    ∀ text : String, ∃ written, after.store.write artifact text.toUTF8 = .ok written

def compileAndLoad (file : TemplateFile) :
    EStateM RenderError (Workroom Disk) (String × List Template.Node) := do
  let executable ← theme.ensureCompiled file
  load executable

variable {theme} {disk : Disk} {source : String} {compiler : Compiler}

theorem compileAndLoad_of_native (native : file.dialect.isCompiled = false)
    (reads : Store.read disk file.path = .ok source) :
    theme.compileAndLoad file (.ofStore disk) =
      match Template.parse source with
      | .ok nodes => .ok (source, nodes) (.ofStore disk)
      | .error errors => .error (.malformed file.path errors) (.ofStore disk) := by
  unfold compileAndLoad
  have reads' : Store.read (Workroom.ofStore disk).store file.path = .ok source := reads
  exact (bind_ok (ensureCompiled_of_native native _)).trans (load_of_reads reads')

theorem compileAndLoad_of_compiled (compiled : file.dialect.isCompiled = true)
    (registered : theme.compilers.compiler? file.dialect = some compiler)
    (reads : Store.read disk file.path = .ok source)
    (absent : disk.isFile (theme.artifactPath file.path) = false)
    (takes : theme.CacheTakes disk (theme.artifactPath file.path)) :
    ∃ after, theme.compileAndLoad file (.ofStore disk) =
      match compiler source file.path with
      | .error fault => .error (.compile fault) after
      | .ok text =>
          match Template.parse text with
          | .ok nodes => .ok (text, nodes) after
          | .error errors => .error (.malformed (theme.artifactPath file.path) errors) after := by
  obtain ⟨dir, prepared, above, prepares, takes⟩ := takes
  have kept : DirsOnly disk prepared.store := by
    obtain ⟨after, kept, succeeds | fails⟩ :=
      Disk.ensureWritable_dirsOnly theme dir (.ofStore disk)
    · rw [prepares] at succeeds
      cases succeeds
      exact kept
    · rw [prepares] at fails
      cases fails
  have calls : theme.compileTo file (theme.artifactPath file.path) (.ofStore disk) =
      match compiler source file.path with
      | .error error => .error (.compile error) (called file prepared)
      | .ok text => Workroom.act (theme.artifactPath file.path)
          (Store.write (theme.artifactPath file.path) text) (called file prepared) := by
    have runs := compileInto_of_read compiler file (theme.artifactPath file.path) prepared
    rw [kept.read reads] at runs
    dsimp only at runs
    unfold compileTo
    simp only [registered, above]
    exact (bind_ok prepares).trans runs
  unfold compileAndLoad ensureCompiled
  simp only [compiled, Bool.not_true, Bool.false_eq_true, if_false, bind_assoc]
  have stale : isFresh file.path (theme.artifactPath file.path) (Workroom.ofStore disk) =
      .ok false (.ofStore disk) := isFresh_of_noFile absent
  rw [bind_ok stale]
  simp only [Bool.false_eq_true, if_false, bind_assoc, pure_bind]
  cases compiles : compiler source file.path with
  | error fault =>
      rw [compiles] at calls
      exact ⟨_, bind_error calls⟩
  | ok text =>
      obtain ⟨written, writes⟩ := takes text
      rw [compiles] at calls
      have acts := act_write_disk (theme.artifactPath file.path) text (called file prepared)
      have writes' : (called file prepared).store.write (theme.artifactPath file.path)
          text.toUTF8 = .ok written := writes
      rw [writes'] at acts
      exact ⟨{ called file prepared with store := written },
        (bind_ok (calls.trans acts)).trans (load_of_reads (Disk.read_of_write writes))⟩

end Theme

/-! An empty cache -/

open Location (along)
open ThemeRender.Path (IsName)

structure Disk.EmptyDir (disk : Disk) (dir : Path) : Prop where
  isDir : disk.isDir dir = true
  nothing : ∀ below, below ≠ [] → disk.get? (along disk.base dir.components ++ below) = none

theorem Disk.nothing_inside {disk : Disk} {place : Location}
    (outside : ∀ entry ∈ disk.entries, place <+: entry.1 → entry.1 = place) {below : Location}
    (nonempty : below ≠ []) : disk.get? (place ++ below) = none := by
  cases found : disk.get? (place ++ below) with
  | none => rfl
  | some entry =>
      have member := mem_of_get? found (by simp [nonempty])
      have same := outside _ member (List.prefix_append _ _)
      exact absurd (List.append_right_eq_self.mp same) nonempty

theorem artifactPath_eq_join (viewsRoot tempRoot : Path) {source : Path} {dialect : Dialect}
    (views : viewsRoot.components ≠ []) (spelled : Dialect.ofPath? source = some dialect)
    (compiled : dialect.isCompiled = true) :
    ∃ (above : Path) (name : List Char), IsName name ∧
      artifactPath viewsRoot tempRoot source = above.join ⟨name⟩ := by
  obtain ⟨name, named, notNative⟩ := Dialect.fileName?_of_ofPath? spelled compiled
  obtain ⟨lead, kept⟩ := components_relativeTo views named
  rw [artifactPath_eq]
  unfold executableUnder
  dsimp only
  rcases @localPlace_endsIn viewsRoot _ _ named with empty | ⟨dirs, split⟩
  · have noName : (relativeTo viewsRoot source).fileName? = none := by
      simp [Path.fileName?, kept, empty]
    have above := (Path.parent?_eq_none_iff _).mpr (.inl (kept.trans empty))
    rw [noName, above]
    exact ⟨tempRoot, '.' :: Dialect.native.extension.toList, ⟨by decide, by decide, by decide⟩, rfl⟩
  · rw [← kept] at split
    have sameName : (relativeTo viewsRoot source).fileName? = some name := by
      simp [Path.fileName?, split]
    obtain ⟨_, noSlash, busy, _⟩ := Path.name_of_fileName? named
    obtain ⟨clean, busyFile, notParent⟩ := executable_isName noSlash busy
    obtain ⟨dir, above, -, -⟩ := Path.parent?_of_lead_none lead split
    rw [sameName, above]
    simp only [Option.getD_some, notNative, Option.getD_none]
    exact ⟨tempRoot.join dir, _, ⟨clean, busyFile, notParent⟩, rfl⟩

namespace Theme

open Disk (Takes TakesAll)

variable (theme : Theme) {disk : Disk} {dir parent : Path} {name : List Char}

theorem prepareDir_of_isDir (there : disk.isDir dir = true) : theme.prepareDir dir disk = disk := by
  have isDir : Store.isDir disk dir = true := there
  have isWritable : Store.isWritable disk dir = true := there
  unfold prepareDir
  simp only [isDir, isWritable, if_true, Bool.not_true, Bool.and_false, Bool.false_eq_true,
    if_false]

theorem prepareDir_emptyDir {front : List (List Char)} (empty : disk.EmptyDir parent)
    (named : IsName name) (split : dir.components = parent.components ++ [.name name])
    (spelled : Text.splitAt '/' dir.text = front ++ [name]) (takes : Takes dir)
    (short : Text.byteLength name ≤ Disk.maxName) : (theme.prepareDir dir disk).EmptyDir dir := by
  have place (base : Location) : along base dir.components =
      along base parent.components ++ [name] := by
    rw [split, Location.along_append]
    rfl
  have nothing (below : Location) (nonempty : below ≠ []) :
      disk.get? (along disk.base parent.components ++ [name] ++ below) = none := by
    rw [List.append_assoc]
    exact empty.nothing _ (by simp)
  cases there : disk.isDir dir with
  | true =>
      rw [theme.prepareDir_of_isDir there]
      refine ⟨there, fun below nonempty => ?_⟩
      rw [place]
      exact nothing below nonempty
  | false =>
      obtain ⟨after, made, kept, isDir, others⟩ := Disk.createDirs_child empty.isDir named split
        spelled takes short (empty.nothing _ (by simp)) theme.settings.dirMode
      have prepares : theme.prepareDir dir disk = after := by
        have absent : Store.isDir disk dir = false := there
        have creates : attempt (Store.createDirs dir theme.settings.dirMode) disk = after := by
          change attempt (Disk.attempt (·.createDirs dir theme.settings.dirMode)) disk = after
          unfold attempt Disk.attempt
          simp only [made]
        have isDir' : Store.isDir after dir = true := isDir
        have isWritable : Store.isWritable after dir = true := isDir
        unfold prepareDir
        simp only [absent, creates, Bool.false_eq_true, if_false, isDir', isWritable, Bool.not_true,
          Bool.and_false]
      rw [prepares]
      refine ⟨isDir, fun below nonempty => ?_⟩
      rw [place, kept.base, others _ (by simpa using nonempty)]
      exact nothing below nonempty

variable {names : List (List Char)}

theorem prepared_emptyDir (empty : disk.EmptyDir theme.settings.tempRoot)
    (split : dir.components = theme.settings.tempRoot.components ++ names.map .name)
    (takes : TakesAll dir) {path : Path} (beneath : path.parent? = some dir) :
    (theme.prepared dir disk).EmptyDir dir := by
  -- from the temp root down, one name after another
  induction names using List.reverseRecOn generalizing dir path with
  | nil =>
      rw [List.map_nil, List.append_nil] at split
      have top : ∀ parent, dir.parent? = some parent →
          parent.startsWith theme.settings.tempRoot = false := by
        intro parent above
        have nonempty : dir.components ≠ [] := by
          rw [split, Ne, Path.components_eq_nil_iff]
          exact (Disk.isDir_iff.mp empty.isDir).2.1
        have positive := List.length_pos_iff.mpr nonempty
        rw [Bool.eq_false_iff, Ne, Path.startsWith_iff, ← split, Path.components_of_parent? above]
        intro front
        have length := front.length_le
        rw [List.length_dropLast] at length
        omega
      have there := Disk.isDir_congr empty.isDir split takes.toTakes
      rw [prepared_of_top (Path.startsWith_of_append (split.trans (List.append_nil _).symm)) top,
        theme.prepareDir_of_isDir there]
      refine ⟨there, fun below nonempty => ?_⟩
      rw [split]
      exact empty.nothing below nonempty
  | append_singleton names name ih =>
      rw [List.map_append, ← List.append_assoc] at split
      have member : .name name ∈ dir.components := by
        rw [split]
        simp
      obtain ⟨parent, above, shorter⟩ := Path.parent?_of_concat_name split
      have emptyAbove := ih shorter (takes.parent? above) above
      obtain ⟨front, spelled⟩ := Path.splitAt_parent? beneath split
      rw [prepared_of_parent? (Path.startsWith_of_append (by rw [split, List.append_assoc])) above
        (Path.startsWith_of_append shorter)]
      exact theme.prepareDir_emptyDir emptyAbove (Path.isName_of_mem_components member)
        (by rw [split, shorter]; rfl) spelled takes.toTakes (takes.names _ member)

theorem cacheTakes_of_emptyDir (empty : disk.EmptyDir theme.settings.tempRoot) {above : Path}
    (named : IsName name) (split : (above.join ⟨name⟩).components =
      theme.settings.tempRoot.components ++ names.map .name ++ [.name name])
    (takes : TakesAll (above.join ⟨name⟩)) : theme.CacheTakes disk (above.join ⟨name⟩) := by
  obtain ⟨dir, isParent, shorter⟩ := Path.parent?_of_concat_name split
  have emptyDir := theme.prepared_emptyDir empty shorter (takes.parent? isParent) isParent
  obtain ⟨front, spelled⟩ := Path.splitAt_join_name above named
  refine ⟨dir, { Workroom.ofStore disk with store := theme.prepared dir disk }, isParent, ?_, ?_⟩
  · rw [ensureWritable_apply]
    have isDir : Store.isDir (theme.prepared dir disk) dir = true := emptyDir.isDir
    have isWritable : Store.isWritable (theme.prepared dir disk) dir = true := emptyDir.isDir
    exact if_pos (by rw [Bool.and_eq_true]; exact ⟨isDir, isWritable⟩)
  · intro text
    exact Disk.write_child emptyDir.isDir named (by rw [split, shorter]) spelled takes.toTakes
      (takes.names (.name name) (by rw [split]; simp)) (emptyDir.nothing _ (by simp)) _

end Theme

end ThemeRender
