import ThemeRender.Proofs.Command.Checking
import ThemeRender.Proofs.Theme.DiskCompiling
/-!
Renders after a check that found nothing. All files are the ones that there were or artifacts, and
what is fetched is a file that passed or a well-formed artifact, so that no render ends by the form
of a template.
-/

namespace ThemeRender

open Location (along inside?)
open Outcome (finalState bind_ok bind_error finalState_bind_error)
open ThemeRender.Path (IsName)

theorem Compilers.standard_of_native {dialect : Dialect} (native : dialect.isCompiled = false) :
    standard.compiler? dialect = none := by
  cases dialect with
  | native => rfl
  | jade => cases native
  | haml => cases native

theorem Compilers.standard_known (dialect : Dialect) :
    dialect.isCompiled = (Compilers.standard.compiler? dialect).isSome := by
  cases dialect with
  | jade => rfl
  | haml => rfl
  | native => rfl

theorem Command.Checked.of_path {dialect : Dialect} {path : Path} {source text : String}
    (checked : Checked .standard dialect path source text) (other : Path) :
    Checked .standard dialect other source text := by
  cases checked with
  | executed none => exact .executed none
  | compiled registered compiles =>
      exact .compiled registered (Compilers.standard_of_path registered compiles other)

namespace Disk

/-- Whether every name on a disk is one that a path can spell. -/
def Named (disk : Disk) : Prop :=
  ∀ entry ∈ disk.entries, ∀ name ∈ entry.1, IsName name

instance Named.decidable (disk : Disk) : Decidable disk.Named :=
  inferInstanceAs (Decidable (∀ entry ∈ disk.entries, ∀ name ∈ entry.1, IsName name))

def NoFilesInside (disk : Disk) (place : Location) : Prop :=
  ∀ below contents time, below ≠ [] → disk.get? (place ++ below) ≠ some (.file contents time)

theorem EmptyDir.noFilesInside {disk : Disk} {dir : Path} (empty : disk.EmptyDir dir) :
    disk.NoFilesInside (along disk.base dir.components) := by
  intro below contents time nonempty found
  rw [empty.nothing below nonempty] at found
  cases found

end Disk

/-- Whether a name stands for files below the views root alone: it is relative, and what it is
spelled with does not lead out of the views root on the way. -/
def StaysBelow (viewsRoot : Path) (name : String) : Prop :=
  RelativeName name ∧ ∀ path ∈ TemplateFile.candidates viewsRoot name,
    (inside? (localPlace viewsRoot path)).isSome

/-! Where artifacts are -/

def executableName (name : List Char) : List Char :=
  name ++ '.' :: Dialect.native.extension.toList

section

variable {viewsRoot tempRoot path : Path} {dialect : Dialect} {rest : Location}

theorem place_of_template (spelled : Dialect.ofPath? path = some dialect)
    (inside : inside? (localPlace viewsRoot path) = some rest) :
    ∃ name, path.fileName? = some name ∧
      (localPlace viewsRoot path = [] ∧ rest = [] ∨
        ∃ dirs above, localPlace viewsRoot path = dirs ++ [.name name] ∧
          inside? dirs = some above ∧ rest = above ++ [name]) := by
  obtain ⟨extension, isExtension, -⟩ := Option.bind_eq_some_iff.mp spelled
  obtain ⟨name, named, -⟩ := Option.bind_eq_some_iff.mp isExtension
  refine ⟨name, named, ?_⟩
  rcases @localPlace_endsIn viewsRoot _ _ named with empty | ⟨dirs, split⟩
  · rw [empty] at inside
    exact .inl ⟨empty, (Option.some.inj inside).symm⟩
  · rw [split] at inside
    obtain ⟨above, leads, same⟩ := Location.inside?_concat_name inside
    exact .inr ⟨dirs, above, split, leads, same⟩

theorem place_of_artifact (views : viewsRoot.components ≠ [])
    (spelled : Dialect.ofPath? path = some dialect) (compiled : dialect.isCompiled = true)
    (inside : inside? (localPlace viewsRoot path) = some rest) (base : Location) :
    ∃ above name, along base (artifactPath viewsRoot tempRoot path).components =
      along base tempRoot.components ++ (above ++ [executableName name]) := by
  rw [components_artifactPath views spelled compiled, Location.along_append]
  obtain ⟨name, -, ⟨empty, -⟩ | ⟨dirs, above, split, leads, -⟩⟩ :=
    place_of_template spelled inside
  · rw [empty]
    exact ⟨[], [], rfl⟩
  · refine ⟨above, name, ?_⟩
    rw [split, Place.executable_append_name, Location.along_append,
      Location.along_of_inside? _ leads, ← List.append_assoc]
    rfl

end

namespace Theme

open Disk (DirsOnly)
open Command (Checked check)

def tempPlace (theme : Theme) (disk : Disk) : Location :=
  along disk.base theme.settings.tempRoot.components

/-- Whether a file is an artifact, by its place and name, and a well-formed executable. -/
def HoldsArtifact (theme : Theme) (disk : Disk) (place : Location) (contents : ByteArray) : Prop :=
  (∃ above name, place = theme.tempPlace disk ++ (above ++ [executableName name])) ∧
    ∃ text nodes, contents = text.toUTF8 ∧ Template.parse text = .ok nodes

/-- What may have become of a disk: all files are those that there were or artifacts. -/
structure Settled (theme : Theme) (origin disk : Disk) : Prop where
  base : disk.base = origin.base
  files : ∀ place contents time, disk.get? place = some (.file contents time) →
    origin.get? place = some (.file contents time) ∨ theme.HoldsArtifact origin place contents

variable {theme : Theme} {origin disk after : Disk}

theorem Settled.refl (theme : Theme) (disk : Disk) : theme.Settled disk disk where
  base := rfl
  files _ _ _ found := .inl found

theorem Settled.dirsOnly (settled : theme.Settled origin disk) (kept : DirsOnly disk after) :
    theme.Settled origin after where
  base := kept.base.trans settled.base
  files place contents time found :=
    settled.files place contents time ((kept.files place contents time).mp found)

theorem Settled.write (settled : theme.Settled origin disk) {artifact : Path} {text : String}
    {nodes : List Template.Node} {above : Location} {name : List Char}
    (inTemp : along origin.base artifact.components =
      theme.tempPlace origin ++ (above ++ [executableName name]))
    (parses : Template.parse text = .ok nodes)
    (written : disk.write artifact text.toUTF8 = .ok after) : theme.Settled origin after := by
  obtain ⟨place, located, -, -, base, entries⟩ := Disk.write_eq_ok written
  refine ⟨base.trans settled.base, fun other contents time found => ?_⟩
  rw [entries] at found
  split at found
  · rename_i same
    cases found
    refine .inr ⟨⟨above, name, ?_⟩, text, nodes, rfl, parses⟩
    rw [same, Disk.locate_along located, settled.base, inTemp]
  · exact settled.files other contents time found

theorem Settled.parse_artifact (settled : theme.Settled origin disk)
    (clean : origin.NoFilesInside (theme.tempPlace origin)) {artifact : Path} {above : Location}
    {name : List Char}
    (inTemp : along origin.base artifact.components =
      theme.tempPlace origin ++ (above ++ [executableName name]))
    {text : String} (reads : Store.read disk artifact = .ok text) :
    ∃ nodes, Template.parse text = .ok nodes := by
  obtain ⟨contents, time, found, decodes⟩ := Disk.read_eq_ok.mp reads
  obtain ⟨place, located, there⟩ := Disk.find_eq_ok.mp found
  have same := Disk.locate_along located
  rw [settled.base, inTemp] at same
  rcases settled.files place contents time there with old | ⟨-, spelled, nodes, rfl, parses⟩
  · rw [same] at old
    exact absurd old (clean _ contents time (by simp))
  · rw [Disk.fromUTF8?_toUTF8] at decodes
    cases decodes
    exact ⟨nodes, parses⟩

/-! Files that passed -/

section

variable {settings : Settings} {path : Path} {dialect : Dialect} {root rest : Location}
  {contents : ByteArray} {time : Nat}

def Executable (dialect : Dialect) (path : Path) (contents : ByteArray) : Prop :=
  ∃ source text nodes, String.fromUTF8? contents = some source ∧
    Checked .standard dialect path source text ∧ Template.parse text = .ok nodes

theorem ofPath?_joinNames {viewsRoot : Path} (spelled : Dialect.ofPath? path = some dialect)
    (below : path.startsWith viewsRoot = true)
    (inside : inside? (localPlace viewsRoot path) = some rest)
    (components : (viewsRoot.joinNames rest).components = viewsRoot.components ++ rest.map .name) :
    Dialect.ofPath? (viewsRoot.joinNames rest) = some dialect := by
  obtain ⟨name, named, places⟩ := place_of_template spelled inside
  have sameName : (viewsRoot.joinNames rest).fileName? = some name := by
    rcases places with ⟨empty, none⟩ | ⟨dirs, above, split, -, same⟩
    · rw [← named]
      unfold Path.fileName?
      rw [components, components_eq_localPlace below, empty, none]
      rfl
    · unfold Path.fileName?
      rw [components, same]
      simp
  unfold Dialect.ofPath? Path.extension? at spelled ⊢
  rw [sameName, ← named]
  exact spelled

theorem executable_of_check (passes : (check ⟨settings, .standard⟩ origin).code = 0)
    (walks : origin.locate settings.viewsRoot = .ok root)
    (spelled : Dialect.ofPath? path = some dialect)
    (below : path.startsWith settings.viewsRoot = true)
    (inside : inside? (localPlace settings.viewsRoot path) = some rest)
    (found : origin.get? (root ++ rest) = some (.file contents time)) :
    Executable dialect path contents := by
  have proper : ∀ name ∈ rest, IsName name := by
    intro name member
    apply @Path.isName_of_mem_components path
    rw [components_eq_localPlace below]
    exact List.mem_append_right _ (Location.mem_of_inside? inside member)
  have components := Path.components_joinNames proper settings.viewsRoot
  have looked : settings.viewsRoot.joinNames rest ∈ origin.filesBelow settings.viewsRoot :=
    Disk.mem_filesBelow.mpr ⟨root, rest, contents, time, walks,
      Disk.mem_of_get? found (Disk.ne_top_of_file found), rfl⟩
  obtain ⟨source, reads, isClean⟩ :=
    (Command.check_code_eq_zero_iff _ _).mp passes _ looked dialect
      (ofPath?_joinNames spelled below inside components)
  obtain ⟨text, nodes, checked, parses⟩ := (Command.Finding.ofTemplate_isClean _ _ _ _).mp isClean
  refine ⟨source, text, nodes, ?_, checked.of_path path, parses⟩
  obtain ⟨contents', time', found', decodes⟩ := Disk.read_eq_ok.mp reads
  obtain ⟨place, located, there⟩ := Disk.find_eq_ok.mp found'
  have same := Disk.locate_below walks rfl components (Location.inside?_names rest) located
  rw [same, found] at there
  cases there
  exact decodes

theorem not_executableName_of_compiled (spelled : Dialect.ofPath? path = some dialect)
    (compiled : dialect.isCompiled = true) {name : List Char} :
    path.fileName? ≠ some (executableName name) := by
  intro named
  obtain ⟨other, named', notNative⟩ := Dialect.fileName?_of_ofPath? spelled compiled
  rw [named] at named'
  cases named'
  unfold Text.dropTail? executableName at notNative
  rw [if_pos (List.isSuffixOf_iff_suffix.mpr (List.suffix_append _ _))] at notNative
  cases notNative

/-- A template that is found on a settled disk passed the check or is a well-formed artifact. -/
theorem Settled.executable {theme : Theme} (settled : theme.Settled origin disk)
    (standard : theme.compilers = .standard) (passes : (check theme origin).code = 0)
    (walks : origin.locate theme.settings.viewsRoot = .ok root)
    (spelled : Dialect.ofPath? path = some dialect)
    (within : path.Inside theme.settings.viewsRoot)
    (inside : inside? (localPlace theme.settings.viewsRoot path) = some rest)
    (found : disk.find path = .ok (.file contents time)) :
    Executable dialect path contents := by
  obtain ⟨settings, compilers⟩ := theme
  cases standard
  have below := within.startsWith
  obtain ⟨place, located, there⟩ := Disk.find_eq_ok.mp found
  have same := Disk.locate_below walks settled.base (components_eq_localPlace below) inside located
  rcases settled.files place contents time there with
    old | ⟨⟨above, name, inTemp⟩, text, nodes, rfl, parses⟩
  · rw [same] at old
    exact executable_of_check passes walks spelled below inside old
  · cases compiled : dialect.isCompiled with
    | false =>
        exact ⟨text, text, nodes, Disk.fromUTF8?_toUTF8 text,
          .executed (Compilers.standard_of_native compiled), parses⟩
    | true =>
        -- the name of an artifact is not one of a source
        obtain ⟨other, named, ⟨empty, -⟩ | ⟨dirs, above', -, -, ends⟩⟩ :=
          place_of_template spelled inside
        · have whole := components_eq_localPlace below
          rw [empty, List.append_nil] at whole
          exact absurd whole.symm within.2
        · rw [same, ends, ← List.append_assoc, ← List.append_assoc] at inTemp
          have last := List.append_inj_right' inTemp rfl
          have sameName : other = executableName name := by simpa using last
          rw [sameName] at named
          exact absurd named (not_executableName_of_compiled spelled compiled)

end

/-! Fetching templates -/

/-- Whether a computation leaves a settled disk behind, and does not fail by a template's form. -/
def EndsSettled {α : Type} (theme : Theme) (origin : Disk)
    (result : EStateM.Result RenderError (Workroom Disk) α) : Prop :=
  match result with
  | .ok _ after => theme.Settled origin after.store
  | .error error after => theme.Settled origin after.store ∧ error.isTemplateFault = false

namespace EndsSettled

variable {α β : Type} {room : Workroom Disk}

theorem bind {first : EStateM RenderError (Workroom Disk) α}
    {next : α → EStateM RenderError (Workroom Disk) β}
    (ends : theme.EndsSettled origin (first room))
    (further : ∀ a after, first room = .ok a after → theme.Settled origin after.store →
      theme.EndsSettled origin (next a after)) :
    theme.EndsSettled origin ((first >>= next) room) := by
  cases result : first room with
  | ok a after =>
      rw [result] at ends
      rw [bind_ok result]
      exact further a after result ends
  | error error after =>
      rw [result] at ends
      rw [bind_error result]
      exact ends

theorem keepsStore {action : EStateM RenderError (Workroom Disk) α}
    (ends : ∀ room, theme.Settled origin room.store → theme.EndsSettled origin (action room)) :
    KeepsStore (theme.Settled origin) action := by
  intro room settled
  have last := ends room settled
  unfold EndsSettled at last
  unfold finalState
  cases result : action room with
  | ok a after =>
      rw [result] at last
      exact ⟨last, by rintro _ _ ⟨⟩⟩
  | error error after =>
      rw [result] at last
      refine ⟨last.1, ?_⟩
      rintro _ _ ⟨⟩
      exact last.2

theorem load (settled : theme.Settled origin room.store) {path : Path}
    (parses : ∀ text, Store.read room.store path = .ok text →
      ∃ nodes, Template.parse text = .ok nodes) :
    theme.EndsSettled origin (Theme.load path room) := by
  rw [load_apply]
  cases reads : Store.read room.store path with
  | error fault => exact ⟨settled, rfl⟩
  | ok source =>
      obtain ⟨nodes, wellFormed⟩ := parses source reads
      simp only [wellFormed]
      exact settled

theorem ensureCompiled {file : TemplateFile} {contents : ByteArray} {time : Nat}
    {above : Location} {name : List Char} (settled : theme.Settled origin room.store)
    (standard : theme.compilers = .standard) (compiled : file.dialect.isCompiled = true)
    (found : room.store.find file.path = .ok (.file contents time))
    (executable : Executable file.dialect file.path contents)
    (inTemp : along origin.base (theme.artifactPath file.path).components =
      theme.tempPlace origin ++ (above ++ [executableName name])) :
    theme.EndsSettled origin (theme.ensureCompiled file room) := by
  obtain ⟨source, text, nodes, decodes, checked, parses⟩ := executable
  have reads {later : Disk} {source' : String} (kept : DirsOnly room.store later)
      (reads : Store.read later file.path = .ok source') : source' = source := by
    have same := kept.read (Disk.read_eq_ok.mpr ⟨contents, time, found, decodes⟩)
    rw [reads] at same
    exact Except.ok.inj same
  have compiles {compiler : Compiler}
      (registered : theme.compilers.compiler? file.dialect = some compiler) :
      compiler source file.path = .ok text := by
    rw [standard] at registered
    exact checked.compiles registered
  have outcome := theme.ensureCompiled_diskOutcome compiled room
  unfold EndsSettled
  generalize theme.ensureCompiled file room = result at outcome
  cases outcome with
  | fresh same =>
      dsimp only
      rw [same]
      exact settled
  | written registered kept readsSource compilesText writes =>
      obtain rfl := reads kept readsSource
      rw [compiles registered] at compilesText
      cases compilesText
      exact (settled.dirsOnly kept).write inTemp parses writes
  | refused registered kept readsSource fails =>
      obtain rfl := reads kept readsSource
      rw [compiles registered] at fails
      cases fails
  | failed kept other => exact ⟨settled.dirsOnly kept, other⟩

end EndsSettled

variable {root : Location}

theorem execution_settled {file : TemplateFile} {room : Workroom Disk} {rest : Location}
    {contents : ByteArray} {time : Nat} (standard : theme.compilers = .standard)
    (passes : (check theme origin).code = 0)
    (walks : origin.locate theme.settings.viewsRoot = .ok root)
    (clean : origin.NoFilesInside (theme.tempPlace origin))
    (spelled : Dialect.ofPath? file.path = some file.dialect)
    (within : file.path.Inside theme.settings.viewsRoot)
    (inside : inside? (localPlace theme.settings.viewsRoot file.path) = some rest)
    (settled : theme.Settled origin room.store)
    (found : room.store.find file.path = .ok (.file contents time)) :
    theme.EndsSettled origin ((do
      let executable ← theme.ensureCompiled file
      let (source, nodes) ← load executable
      return (executable, source, nodes)) room) := by
  have executable := settled.executable standard passes walks spelled within inside found
  cases compiled : file.dialect.isCompiled with
  | false =>
      -- the source itself is read
      rw [bind_ok (ensureCompiled_of_native compiled room)]
      refine EndsSettled.bind (.load settled fun text reads => ?_) fun _ _ _ kept => kept
      obtain ⟨source, text', nodes, decodes, checked, parses⟩ := executable
      have none : Compilers.standard.compiler? file.dialect = none :=
        Compilers.standard_of_native compiled
      rw [checked.eq_source none] at parses
      rw [Disk.read_eq_ok.mpr ⟨contents, time, found, decodes⟩] at reads
      cases reads
      exact ⟨nodes, parses⟩
  | true =>
      -- the artifact is read, whether it was fresh or has just been written
      have views : theme.settings.viewsRoot.components ≠ [] := by
        rw [Ne, Path.components_eq_nil_iff]
        exact (Disk.locate_eq_ok.mp walks).2.1
      obtain ⟨above, name, inTemp⟩ := @place_of_artifact _ theme.settings.tempRoot _ _ _ views
        spelled compiled inside origin.base
      apply EndsSettled.bind (.ensureCompiled settled standard compiled found executable inTemp)
      intro path after ends settled'
      rw [executable_of_ensureCompiled compiled ends]
      exact EndsSettled.bind
        (.load settled' fun text reads => settled'.parse_artifact clean inTemp reads)
        fun _ _ _ kept => kept

theorem fetch_settled (standard : theme.compilers = .standard)
    (passes : (check theme origin).code = 0)
    (walks : origin.locate theme.settings.viewsRoot = .ok root)
    (clean : origin.NoFilesInside (theme.tempPlace origin)) {name : String}
    (stays : StaysBelow theme.settings.viewsRoot name) :
    KeepsStore (theme.Settled origin) (theme.fetch name) := by
  have views : theme.settings.viewsRoot.components ≠ [] := by
    rw [Ne, Path.components_eq_nil_iff]
    exact (Disk.locate_eq_ok.mp walks).2.1
  apply EndsSettled.keepsStore
  intro room settled
  unfold fetch
  have finds := theme.findFile_apply name room
  cases named : TemplateFile.find? room.store theme.settings.viewsRoot name with
  | none =>
      rw [named] at finds
      rw [bind_error finds]
      exact ⟨settled, rfl⟩
  | some file =>
      rw [named] at finds
      rw [bind_ok finds]
      obtain ⟨candidate, isFile, spelled⟩ := TemplateFile.of_find? named
      obtain ⟨contents, time, found⟩ := Disk.isFile_iff.mp isFile
      obtain ⟨rest, inside⟩ := Option.isSome_iff_exists.mp (stays.2 _ candidate)
      exact execution_settled standard passes walks clean spelled
        (TemplateFile.candidates_inside views stays.1 candidate) inside settled found

theorem fetch_unwalked (nonempty : theme.settings.viewsRoot.isEmpty = false)
    (unwalked : ∀ place, origin.locate theme.settings.viewsRoot ≠ .ok place) {name : String}
    (relative : RelativeName name) :
    KeepsStore (fun disk => disk = origin) (theme.fetch name) := by
  intro room same
  have finds := theme.findFile_apply name room
  cases named : TemplateFile.find? room.store theme.settings.viewsRoot name with
  | some file =>
      obtain ⟨candidate, isFile, -⟩ := TemplateFile.of_find? named
      obtain ⟨suffix, tried, path⟩ := List.mem_map.mp candidate
      obtain ⟨contents, time, found⟩ := Disk.isFile_iff.mp isFile
      obtain ⟨place, located, -⟩ := Disk.find_eq_ok.mp found
      rw [← path, same] at located
      obtain ⟨root, walks⟩ := Disk.locate_of_join nonempty
        (TemplateFile.isAbsolute_suffixed relative tried) located
      exact absurd walks (unwalked root)
  | none =>
      rw [named] at finds
      unfold fetch
      rw [finalState_bind_error finds, bind_error finds]
      refine ⟨same, ?_⟩
      rintro _ _ ⟨⟩
      rfl

end Theme

end ThemeRender
