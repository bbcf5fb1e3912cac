import ThemeRender.Proofs.Command.Settled

namespace ThemeRender

namespace Theme

open Command (check)

variable {theme : Theme} {disk : Disk}

/-! Loading one template -/

theorem localPlace_of_walked {path : Path} (named : disk.Named)
    (walked : path ∈ disk.filesBelow theme.settings.viewsRoot) :
    theme.settings.viewsRoot.components ≠ [] ∧
      ∃ names : Location, localPlace theme.settings.viewsRoot path = names.map .name := by
  obtain ⟨root, rest, contents, time, walks, member, rfl⟩ := Disk.mem_filesBelow.mp walked
  constructor
  · rw [Ne, Path.components_eq_nil_iff]
    exact (Disk.locate_eq_ok.mp walks).2.1
  · have components := Path.components_joinNames
      (fun name within => named _ member name (List.mem_append_right _ within))
      theme.settings.viewsRoot
    have below := Path.startsWith_of_append components
    rw [components_eq_localPlace below, List.append_cancel_left_eq] at components
    exact ⟨rest, components⟩

theorem noArtifact {file : TemplateFile} (named : disk.Named)
    (walked : file.path ∈ disk.filesBelow theme.settings.viewsRoot)
    (spelled : Dialect.ofPath? file.path = some file.dialect)
    (compiled : file.dialect.isCompiled = true)
    (clean : disk.NoFilesInside (theme.tempPlace disk)) :
    disk.isFile (theme.artifactPath file.path) = false := by
  obtain ⟨views, names, place⟩ := theme.localPlace_of_walked named walked
  have inside := Location.inside?_names names
  rw [← place] at inside
  obtain ⟨above, name, inTemp⟩ := @place_of_artifact _ theme.settings.tempRoot _ _ _ views spelled
    compiled inside disk.base
  rw [Bool.eq_false_iff]
  intro isFile
  obtain ⟨contents, time, found⟩ := Disk.isFile_iff.mp isFile
  obtain ⟨place, located, there⟩ := Disk.find_eq_ok.mp found
  have same : place = theme.tempPlace disk ++ (above ++ [executableName name]) :=
    (Disk.locate_along located).trans inTemp
  rw [same] at there
  exact clean _ contents time (by simp) there

theorem cacheTakes_of_walked {file : TemplateFile} (named : disk.Named)
    (walked : file.path ∈ disk.filesBelow theme.settings.viewsRoot)
    (spelled : Dialect.ofPath? file.path = some file.dialect)
    (compiled : file.dialect.isCompiled = true) (empty : disk.EmptyDir theme.settings.tempRoot)
    (takes : Disk.TakesAll (theme.artifactPath file.path)) :
    theme.CacheTakes disk (theme.artifactPath file.path) := by
  obtain ⟨views, names, place⟩ := theme.localPlace_of_walked named walked
  have components := @components_artifactPath _ theme.settings.tempRoot _ _ views spelled compiled
  rw [place, Place.executable, ← List.map_dropLast, ← List.append_assoc] at components
  obtain ⟨above, name, isName, joined⟩ := artifactPath_eq_join theme.settings.viewsRoot
    theme.settings.tempRoot views spelled compiled
  have ends := @Path.components_join_name above _ isName.noSlash isName.busy isName.notParent
  rw [← joined, components] at ends
  have last := List.append_inj_right' ends rfl
  rw [last, joined] at components
  unfold artifactPath at takes ⊢
  rw [joined] at takes ⊢
  exact theme.cacheTakes_of_emptyDir empty isName components takes

theorem loads_iff_isClean {file : TemplateFile} {source : String} (named : disk.Named)
    (clean : disk.NoFilesInside (theme.tempPlace disk))
    (walked : file.path ∈ disk.filesBelow theme.settings.viewsRoot)
    (spelled : Dialect.ofPath? file.path = some file.dialect)
    (reads : Store.read disk file.path = .ok source)
    (known : file.dialect.isCompiled = (theme.compilers.compiler? file.dialect).isSome)
    (takes : file.dialect.isCompiled = true →
      theme.CacheTakes disk (theme.artifactPath file.path)) :
    (Command.Finding.ofTemplate theme.compilers file.dialect file.path source).isClean = false ↔
      ∃ error after, theme.compileAndLoad file (.ofStore disk) = .error error after ∧
        error.isTemplateFault = true := by
  rw [← Bool.not_eq_true, Command.Finding.ofTemplate_isClean]
  cases compiled : file.dialect.isCompiled with
  | false =>
      have none : theme.compilers.compiler? file.dialect = none := by
        rw [compiled] at known
        exact Option.isNone_iff_eq_none.mp (Option.isSome_eq_false_iff.mp known.symm)
      rw [compileAndLoad_of_native compiled reads]
      cases parses : Template.parse source with
      | ok nodes =>
          refine iff_of_false (fun dirty => dirty ⟨source, nodes, .executed none, parses⟩) ?_
          rintro ⟨_, _, ⟨⟩, -⟩
      | error errors =>
          refine iff_of_true ?_ ⟨_, _, rfl, rfl⟩
          rintro ⟨text, nodes, checked, parses'⟩
          rw [checked.eq_source none, parses] at parses'
          cases parses'
  | true =>
      obtain ⟨compiler, registered⟩ := Option.isSome_iff_exists.mp (known.symm.trans compiled)
      obtain ⟨after, outcome⟩ := compileAndLoad_of_compiled compiled registered reads
        (theme.noArtifact named walked spelled compiled clean) (takes compiled)
      rw [outcome]
      cases compiles : compiler source file.path with
      | error fault =>
          refine iff_of_true ?_ ⟨_, _, rfl, rfl⟩
          rintro ⟨text, nodes, checked, -⟩
          cases compiles.symm.trans (checked.compiles registered)
      | ok text =>
          cases parses : Template.parse text with
          | ok nodes =>
              refine iff_of_false
                (fun dirty => dirty ⟨text, nodes, .compiled registered compiles, parses⟩) ?_
              rintro ⟨_, _, loads, -⟩
              simp only [parses] at loads
              cases loads
          | error errors =>
              refine iff_of_true ?_ ⟨.malformed (theme.artifactPath file.path) errors, after, ?_, rfl⟩
              · rintro ⟨text', nodes, checked, parses'⟩
                cases compiles.symm.trans (checked.compiles registered)
                rw [parses] at parses'
                cases parses'
              · simp only [parses]

end Theme

namespace Command

open Theme

theorem pages_sound_of_check (settings : Settings) {disk : Disk}
    (nonempty : settings.viewsRoot.isEmpty = false)
    (clean : disk.NoFilesInside (Theme.tempPlace ⟨settings, .standard⟩ disk))
    (passes : (check ⟨settings, .standard⟩ disk).code = 0) (errorPage : ErrorPage)
    {calls : List PageCall}
    (stay : ∀ name ∈ PageCall.allEntered ⟨settings, .standard⟩ errorPage (.ofStore disk) calls,
      StaysBelow settings.viewsRoot name) :
    ∀ answer ∈ PageCall.pages ⟨settings, .standard⟩ errorPage (.ofStore disk) calls,
      ∀ title message, answer.1 = .error (.halted title message) →
        title ∉ RenderError.faultTitles := by
  by_cases walks : ∃ root, disk.locate settings.viewsRoot = .ok root
  · obtain ⟨root, walks⟩ := walks
    have fetches (name : String) (stays : StaysBelow settings.viewsRoot name) :
        KeepsStore (Theme.Settled ⟨settings, .standard⟩ disk)
          (Theme.fetch ⟨settings, .standard⟩ name) :=
      fetch_settled rfl passes walks clean stays
    exact PageCall.pages_guarded fetches (.refl _ disk) stay
  · have fetches (name : String) (stays : StaysBelow settings.viewsRoot name) :
        KeepsStore (fun later => later = disk) (Theme.fetch ⟨settings, .standard⟩ name) :=
      fetch_unwalked nonempty (fun place walks' => walks ⟨place, walks'⟩) stays.1
    exact PageCall.pages_guarded fetches rfl stay

/-- A check and renders agree. The check ends well just when all that is below the views root
passes. What is wrong with one template is what keeps it from being loaded, where there are no files
in the cache and it takes the artifact, as an empty one does. Where nothing is wrong, no page ends
by the form of a template, whatever its locals are, as long as the names of its templates stay below
the views root. -/
theorem check_agrees_with_renders (settings : Settings) (disk : Disk) :
    let theme : Theme := ⟨settings, .standard⟩
    ((check theme disk).code = 0 ↔
      ∀ path ∈ disk.filesBelow settings.viewsRoot, Passes theme disk path) ∧
    (disk.Named → ∀ path ∈ disk.filesBelow settings.viewsRoot, ∀ dialect,
      Dialect.ofPath? path = some dialect →
      (disk.EmptyDir settings.tempRoot → dialect.isCompiled = true →
        Disk.TakesAll (theme.artifactPath path) →
        theme.CacheTakes disk (theme.artifactPath path)) ∧
      (disk.NoFilesInside (theme.tempPlace disk) →
        ∀ source, Store.read disk path = .ok source →
        (dialect.isCompiled = true → theme.CacheTakes disk (theme.artifactPath path)) →
        ((Finding.ofTemplate theme.compilers dialect path source).isClean = false ↔
          ∃ error after, theme.compileAndLoad ⟨path, dialect⟩ (.ofStore disk) =
            .error error after ∧ error.isTemplateFault = true))) ∧
    (settings.viewsRoot.isEmpty = false → disk.NoFilesInside (theme.tempPlace disk) →
      (check theme disk).code = 0 → ∀ errorPage calls,
        (∀ name ∈ PageCall.allEntered theme errorPage (.ofStore disk) calls,
          StaysBelow settings.viewsRoot name) →
        ∀ answer ∈ PageCall.pages theme errorPage (.ofStore disk) calls, ∀ title message,
          answer.1 = .error (.halted title message) → title ∉ RenderError.faultTitles) := by
  intro theme
  refine ⟨check_code_eq_zero_iff theme disk, ?_, ?_⟩
  · intro named path walked dialect spelled
    refine ⟨fun empty compiled takes => ?_, fun clean source reads takes => ?_⟩
    · exact @cacheTakes_of_walked theme disk ⟨path, dialect⟩ named walked spelled compiled empty
        takes
    · exact @loads_iff_isClean theme disk ⟨path, dialect⟩ source named clean walked spelled reads
        (Compilers.standard_known dialect) takes
  · intro nonempty clean passes errorPage calls stay
    exact pages_sound_of_check settings nonempty clean passes errorPage stay

def cardDisk : Disk where
  entries := [(["views".toList], .dir 0o755),
    (["views".toList, "_card.haml".toList], .file "%p hi".toUTF8 1), (["tmp".toList], .dir 0o755)]
  base := []
  clock := 1

def cardPath : Path := .ofString "./views/_card.haml"

theorem cardDisk_emptyCache : cardDisk.EmptyDir Settings.default.tempRoot where
  isDir := by decide +kernel
  nothing below nonempty := by
    refine Disk.nothing_inside ?_ nonempty
    decide

theorem card_takes : Disk.TakesAll (Theme.artifactPath ⟨.default, .standard⟩ cardPath) where
  unmarked := by decide +kernel
  short := by decide +kernel
  names := by decide +kernel

theorem card_staysBelow : StaysBelow Settings.default.viewsRoot "_card" := by
  refine ⟨show (Path.ofString _).isAbsolute = false by decide +kernel, ?_⟩
  decide +kernel

theorem card_checked_and_rendered :
    let theme : Theme := ⟨.default, .standard⟩
    (∀ path ∈ cardDisk.filesBelow Settings.default.viewsRoot, Passes theme cardDisk path) ∧
    (∀ error after,
      theme.compileAndLoad ⟨cardPath, .haml⟩ (.ofStore cardDisk) = .error error after →
      error.isTemplateFault = false) ∧
    ∀ answer ∈ PageCall.pages theme htmlErrorPage (.ofStore cardDisk) [.fragment "card" .empty],
      ∀ title message, answer.1 = .error (.halted title message) →
        title ∉ RenderError.faultTitles := by
  intro theme
  obtain ⟨passes, files, pages⟩ := check_agrees_with_renders .default cardDisk
  have code : (check theme cardDisk).code = 0 := by decide +kernel
  have noFiles := cardDisk_emptyCache.noFilesInside
  obtain ⟨takes, loads⟩ := files (by decide) cardPath (by decide +kernel) .haml (by decide +kernel)
  have reads : Store.read cardDisk cardPath = .ok "%p hi" := by rfl
  have loads := loads noFiles "%p hi" reads
    fun compiled => takes cardDisk_emptyCache compiled card_takes
  refine ⟨passes.mp code, fun error after fails => ?_, ?_⟩
  · rw [Bool.eq_false_iff]
    intro fault
    have dirty := loads.mpr ⟨error, after, fails, fault⟩
    revert dirty
    decide +kernel
  · apply pages (by decide) noFiles code htmlErrorPage [.fragment "card" .empty]
    intro name member
    have entered : PageCall.allEntered theme htmlErrorPage (.ofStore cardDisk)
        [.fragment "card" .empty] = ["_card"] := by decide +kernel
    rw [entered] at member
    rw [List.mem_singleton.mp member]
    exact card_staysBelow

def rootless : Settings :=
  { Settings.default with root := ⟨[]⟩, viewsDir := ⟨[]⟩ }

def layoutDisk : Disk where
  entries := [(["layouts".toList], .dir 0o755),
    (["layouts".toList, "default.haml".toList], .file "%p #\x7b".toUTF8 1)]
  base := []
  clock := 1

deriving instance DecidableEq for PageError

/-- No walk starts from an empty path, from which templates are found all the same. -/
theorem rootless_layout_not_checked :
    let theme : Theme := ⟨rootless, .standard⟩
    let calls : List PageCall := [.view "a" (.withLayout "default")]
    (check theme layoutDisk).code = 0 ∧ layoutDisk.NoFilesInside (theme.tempPlace layoutDisk) ∧
      (∀ name ∈ PageCall.allEntered theme htmlErrorPage (.ofStore layoutDisk) calls,
        StaysBelow rootless.viewsRoot name) ∧
      ∃ answer ∈ PageCall.pages theme htmlErrorPage (.ofStore layoutDisk) calls,
        ∃ title message, answer.1 = .error (.halted title message) ∧
          title ∈ RenderError.faultTitles := by
  intro theme calls
  refine ⟨by decide +kernel, ?_, ?_, ?_⟩
  · intro below contents time nonempty
    rw [Disk.nothing_inside (by decide +kernel) nonempty]
    exact nofun
  · have entered : PageCall.allEntered theme htmlErrorPage (.ofStore layoutDisk) calls =
        ["layouts/default"] := by decide +kernel
    rw [entered]
    intro name member
    rw [List.mem_singleton.mp member]
    exact ⟨show (Path.ofString _).isAbsolute = false by decide +kernel, by decide +kernel⟩
  · exact ⟨_, List.mem_cons_self, "HamlSyntaxError",
      "layouts/default.haml:1: Unterminated interpolation '#\x7b'", by decide +kernel,
      by decide⟩

end Command

end ThemeRender
