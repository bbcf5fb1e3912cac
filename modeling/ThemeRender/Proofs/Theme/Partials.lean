import ThemeRender.Proofs.Theme.Precedence
import ThemeRender.Proofs.Theme.Vouching
/-!
Partials. Their names are marked once, in the last segment and nowhere else, and the files that are
tried for them have marked names too. A render that notes which files are executed shows that a
partial executes marked files only, apart from those of the view.
-/

namespace ThemeRender

open Outcome (Mirrors finalState mapState bind_ok bind_ok_iff finalState_bind_ok
  finalState_bind_error)

/-! Marked names -/

/-- Whether a name is made of its last segment and of what comes before that, with the slash. -/
structure Segmented (name : String) (front last : List Char) : Prop where
  whole : name.toList = front ++ last
  ends : front = [] ∨ front.getLast? = some '/'
  noSlash : '/' ∉ last

def marked (last : List Char) : List Char :=
  if last.head? = some partialMark then last else partialMark :: last

theorem marked_eq_cons (last : List Char) : ∃ rest, marked last = partialMark :: rest := by
  unfold marked
  split
  · rename_i starts
    exact List.head?_eq_some_iff.mp starts
  · exact ⟨last, rfl⟩

theorem head?_marked (last : List Char) : (marked last).head? = some partialMark := by
  obtain ⟨rest, starts⟩ := marked_eq_cons last
  rw [starts]
  rfl

theorem marked_of_head? {last : List Char} (starts : last.head? = some partialMark) :
    marked last = last :=
  if_pos starts

theorem marked_marked (last : List Char) : marked (marked last) = marked last :=
  marked_of_head? (head?_marked last)

theorem marked_eq_iff {last other : List Char} :
    marked last = marked other ↔ last = other ∨
      (last.head? ≠ some partialMark ∧ other = partialMark :: last) ∨
      (other.head? ≠ some partialMark ∧ last = partialMark :: other) := by
  grind [marked]

namespace Segmented

variable {name other : String} {front last front' last' : List Char}

theorem of_lastSegment (name : String) :
    Segmented name (lastSegment name.toList).1 (lastSegment name.toList).2 where
  whole := (lastSegment_append name.toList).symm
  ends := lastSegment_front name.toList
  noSlash := slash_not_mem_lastSegment name.toList

theorem unique (first : Segmented name front last) (second : Segmented name front' last') :
    front = front' ∧ last = last' := by
  -- what one front has more than the other is in a last segment, so that no slash can end it
  have none {base rest : List Char} (ends : base ++ rest = [] ∨ (base ++ rest).getLast? = some '/')
      (noSlash : '/' ∉ rest) : rest = [] := by
    cases final : rest.getLast? with
    | none => exact List.getLast?_eq_none_iff.mp final
    | some c =>
        rcases ends with empty | slash
        · exact (List.append_eq_nil_iff.mp empty).2
        · rw [List.getLast?_append, final] at slash
          cases slash
          exact absurd (List.mem_of_getLast? final) noSlash
  rcases List.append_eq_append_iff.mp (first.whole.symm.trans second.whole) with
    ⟨rest, rfl, split⟩ | ⟨rest, rfl, split⟩
  · have noSlash := first.noSlash
    rw [split, List.mem_append, not_or] at noSlash
    obtain rfl := none second.ends noSlash.1
    exact ⟨(List.append_nil _).symm, split⟩
  · have noSlash := second.noSlash
    rw [split, List.mem_append, not_or] at noSlash
    obtain rfl := none first.ends noSlash.1
    exact ⟨List.append_nil _, split.symm⟩

theorem eq (first : Segmented name front last) (second : Segmented other front last) :
    name = other :=
  String.toList_inj.mp (first.whole.trans second.whole.symm)

theorem partialName (segmented : Segmented name front last) :
    Segmented (partialName name) front (marked last) := by
  obtain ⟨rfl, rfl⟩ := segmented.unique (of_lastSegment name)
  unfold ThemeRender.partialName marked
  dsimp only
  split
  · exact segmented
  · refine ⟨String.toList_ofList, segmented.ends, ?_⟩
    rw [List.mem_cons, not_or]
    exact ⟨by decide, segmented.noSlash⟩

end Segmented

/-- Whether the other name is the name with a mark put before its last segment. -/
def AddsMark (name other : String) : Prop :=
  ∃ front last, Segmented name front last ∧ last.head? ≠ some partialMark ∧
    Segmented other front (partialMark :: last)

theorem partialName_partialName (name : String) :
    partialName (partialName name) = partialName name := by
  have once := (Segmented.of_lastSegment name).partialName
  have twice := once.partialName
  rw [marked_marked] at twice
  exact twice.eq once

theorem AddsMark.partialName_eq {name other : String} (adds : AddsMark name other) :
    partialName name = partialName other := by
  obtain ⟨front, last, segmented, unmarked, segmented'⟩ := adds
  have first := segmented.partialName
  have second := segmented'.partialName
  rw [marked, if_neg unmarked] at first
  rw [marked_of_head? rfl] at second
  exact first.eq second

theorem partialName_eq_iff (name other : String) :
    partialName name = partialName other ↔
      name = other ∨ AddsMark name other ∨ AddsMark other name := by
  constructor
  · intro same
    have segmented := Segmented.of_lastSegment name
    have segmented' := Segmented.of_lastSegment other
    obtain ⟨fronts, lasts⟩ := segmented.partialName.unique (same ▸ segmented'.partialName)
    rw [fronts] at segmented
    rcases marked_eq_iff.mp lasts with equal | ⟨unmarked, adds⟩ | ⟨unmarked, adds⟩
    · rw [equal] at segmented
      exact .inl (segmented.eq segmented')
    · rw [adds] at segmented'
      exact .inr (.inl ⟨_, _, segmented, unmarked, segmented'⟩)
    · rw [adds] at segmented
      exact .inr (.inr ⟨_, _, segmented', unmarked, segmented⟩)
  · rintro (rfl | adds | adds)
    · rfl
    · exact adds.partialName_eq
    · exact adds.partialName_eq.symm

/-! Files with marked names -/

def Path.Marked (path : Path) : Prop :=
  path.fileName?.bind List.head? = some partialMark

instance (path : Path) : Decidable path.Marked :=
  inferInstanceAs (Decidable (_ = _))

theorem TemplateFile.candidates_marked {viewsRoot path : Path} {name : String}
    (candidate : path ∈ candidates viewsRoot (partialName name)) : path.Marked := by
  obtain ⟨suffix, tried, rfl⟩ := List.mem_map.mp candidate
  obtain ⟨front, ends, joined⟩ := join_suffixed viewsRoot (partialName name) suffix
  obtain ⟨-, last⟩ := (Segmented.of_lastSegment (partialName name)).unique
    (Segmented.of_lastSegment name).partialName
  obtain ⟨rest, starts⟩ := marked_eq_cons (lastSegment name.toList).2
  have plain : ∀ suffix ∈ suffixes, '/' ∉ suffix.toList := by decide
  have noSlash : '/' ∉ (lastSegment (partialName name).toList).2 ++ suffix.toList := by
    rw [List.mem_append, not_or]
    exact ⟨slash_not_mem_lastSegment _, plain suffix tried⟩
  rw [last, starts] at joined noSlash
  have named := Path.fileName?_of_lastName ends noSlash (by simp [Path.isIdle, partialMark])
    (by simp [partialMark])
  rw [joined, Path.Marked, named]
  rfl

def Theme.executablePath (theme : Theme) (file : TemplateFile) : Path :=
  if file.dialect.isCompiled then theme.artifactPath file.path else file.path

/-- A marked file is executed under a marked name. The only exception is a source that is itself at
the views root, of whose name its artifact keeps nothing. -/
theorem Theme.executablePath_marked_iff {theme : Theme} {file : TemplateFile}
    (spelled : Dialect.ofPath? file.path = some file.dialect) (isMarked : file.path.Marked) :
    (theme.executablePath file).Marked ↔ ¬ (file.dialect.isCompiled = true ∧
      file.path.components = theme.settings.viewsRoot.components) := by
  obtain ⟨base, named, starts⟩ := Option.bind_eq_some_iff.mp isMarked
  obtain ⟨rest, rfl⟩ := List.head?_eq_some_iff.mp starts
  unfold executablePath
  cases compiled : file.dialect.isCompiled with
  | false => simpa using isMarked
  | true =>
      have kept : (theme.artifactPath file.path).fileName? = _ :=
        fileName?_artifactPath spelled compiled named
      rw [if_pos rfl, Path.Marked, kept]
      by_cases same : file.path.components = theme.settings.viewsRoot.components
      · simp [same, partialMark]
      · simp [same]

/-! Executed files -/

/-- A template that is executed: the name it is rendered by, its file, and the path of the
executable form of that. -/
structure Execution where
  name : String
  file : TemplateFile
  executable : Path
deriving DecidableEq, Repr

/-- Whether a template can be executed so: its file is tried for its name and executed in its
executable form. -/
structure Theme.CanExecute (theme : Theme) (execution : Execution) : Prop where
  tried : execution.file.path ∈
    TemplateFile.candidates theme.settings.viewsRoot execution.name
  spelled : Dialect.ofPath? execution.file.path = some execution.file.dialect
  executable : execution.executable = theme.executablePath execution.file

structure Executing (σ : Type) where
  room : Workroom σ
  executions : List Execution

namespace Executing

variable {σ α : Type}

def plain (stage : Stage (Executing σ)) : Stage (Workroom σ) :=
  ⟨stage.frames, stage.state.room⟩

def onRoom (action : EStateM RenderError (Workroom σ) α) : Render (Executing σ) α := fun stage =>
  mapState (fun room => { stage with state := { stage.state with room } }) (action stage.state.room)

def note (execution : Execution) : Render (Executing σ) Unit :=
  Staged.modifyState fun executing =>
    { executing with executions := executing.executions ++ [execution] }

end Executing

namespace Theme

variable {σ : Type} [Store σ]

def makeReady (theme : Theme) (name : String) : EStateM RenderError (Workroom σ) Execution := do
  let file ← theme.findFile name
  let executable ← theme.ensureCompiled file
  return ⟨name, file, executable⟩

/-- Renders the template of a name and notes the templates that are executed. -/
def renderExecuting (theme : Theme) (view? : Option ViewFrame) :
    Nat → String → Locals → Render (Executing σ) Unit
  | 0, name, _ => throw (.runtime name none (.nestedTooDeep theme.settings.maxDepth))
  | levels + 1, name, locals => do
      let execution ← Executing.onRoom (theme.makeReady name)
      Executing.note execution
      let (source, nodes) ← Executing.onRoom (load execution.executable)
      Template.run (hostOver view? (theme.renderExecuting view? levels))
        execution.executable.display source locals nodes

/-- The templates that are executed in the render of a name, from a stage on. -/
def executions (theme : Theme) (view? : Option ViewFrame) (levels : Nat) (name : String)
    (locals : Locals) (stage : Stage (Workroom σ)) : List Execution :=
  (finalState (theme.renderExecuting view? levels name locals)
    ⟨stage.frames, ⟨stage.state, []⟩⟩).state.executions

end Theme

namespace Executing

open Theme (hostOver)

variable {σ α : Type}

theorem mirrors_onRoom (action : EStateM RenderError (Workroom σ) α) :
    Mirrors plain (onRoom action) (Staged.onState action) := by
  intro stage
  unfold onRoom Staged.onState plain
  dsimp only
  cases action stage.state.room with
  | ok => rfl
  | error => rfl

theorem mirrors_note {execution : Execution} {next : Unit → Render (Executing σ) α}
    {next' : Render (Workroom σ) α} (mirrors : Mirrors plain (next ()) next') :
    Mirrors plain (note execution >>= next) next' := fun stage =>
  mirrors ⟨stage.frames, ⟨stage.state.room, stage.state.executions ++ [execution]⟩⟩

theorem mirrors_capture {body : Render (Executing σ) Unit} {body' : Render (Workroom σ) Unit}
    (mirrors : Mirrors plain body body') :
    Mirrors plain (Staged.capture body) (Staged.capture body') := by
  intro stage
  have same := mirrors { stage with frames := stage.frames.push }
  unfold Staged.capture
  dsimp only [plain] at same ⊢
  rw [same]
  cases body { stage with frames := stage.frames.push } with
  | ok => rfl
  | error => rfl

theorem mirrors_hostOver {view? : Option ViewFrame}
    {render : String → Locals → Render (Executing σ) Unit}
    {render' : String → Locals → Render (Workroom σ) Unit}
    (mirrors : ∀ name locals, Mirrors plain (render name locals) (render' name locals)) :
    Template.Host.Related
      (fun {α} (first : Render (Executing σ) α) second => Mirrors plain (α := α) first second)
      (hostOver view? render) (hostOver view? render') where
  yieldView := by
    cases view? with
    | none => exact .throw _
    | some view => exact mirrors view.name view.locals
  renderPartial name locals := mirrors (partialName name) locals
  partialContent name locals := mirrors_capture (mirrors (partialName name) locals)

def Adds (Fine : Execution → Prop) (before after : Executing σ) : Prop :=
  ∃ more, after.executions = before.executions ++ more ∧ ∀ execution ∈ more, Fine execution

variable {Fine : Execution → Prop}

theorem Adds.of_eq {before after : Executing σ} (same : after.executions = before.executions) :
    Adds Fine before after :=
  ⟨[], by rw [same, List.append_nil], by simp⟩

theorem inherited_adds : Inherited fun action (stage : Stage (Executing σ)) =>
    Adds Fine stage.state (finalState action stage).state := by
  apply inherited_finalState
  · exact fun state => .of_eq rfl
  · rintro first second third ⟨more, added, fine⟩ ⟨last, addedLast, fineLast⟩
    refine ⟨more ++ last, ?_, ?_⟩
    · rw [addedLast, added, List.append_assoc]
    · exact List.forall_mem_append.mpr ⟨fine, fineLast⟩

theorem onRoom_ok_iff {action : EStateM RenderError (Workroom σ) α} {a : α}
    {stage after : Stage (Executing σ)} :
    onRoom action stage = .ok a after ↔ ∃ room, action stage.state.room = .ok a room ∧
      after = ⟨stage.frames, ⟨room, stage.state.executions⟩⟩ := by
  unfold onRoom mapState
  cases action stage.state.room with
  | error => simp
  | ok b room =>
      constructor
      · rintro ⟨⟩
        exact ⟨room, rfl, rfl⟩
      · rintro ⟨_, ⟨⟩, rfl⟩
        rfl

theorem onRoom_error {action : EStateM RenderError (Workroom σ) α} {error : RenderError}
    {stage : Stage (Executing σ)} {room : Workroom σ}
    (fails : action stage.state.room = .error error room) :
    onRoom action stage = .error error ⟨stage.frames, ⟨room, stage.state.executions⟩⟩ := by
  unfold onRoom
  rw [fails]
  rfl

theorem onRoom_adds (action : EStateM RenderError (Workroom σ) α) (stage : Stage (Executing σ)) :
    Adds Fine stage.state (finalState (onRoom action) stage).state := by
  apply Adds.of_eq
  unfold finalState onRoom mapState
  cases action stage.state.room with
  | ok => rfl
  | error => rfl

theorem run_adds [Store σ] {view? : Option ViewFrame}
    {render : String → Locals → Render (Executing σ) Unit}
    (partials : ∀ called locals stage,
      Adds Fine stage.state (finalState (render (partialName called) locals) stage).state)
    (views : ∀ view ∈ view?, ∀ stage,
      Adds Fine stage.state (finalState (render view.name view.locals) stage).state)
    (path : Path) (locals : Locals) (stage : Stage (Executing σ)) :
    Adds Fine stage.state (finalState (do
      let (source, nodes) ← onRoom (Theme.load path)
      Template.run (hostOver view? render) path.display source locals nodes) stage).state := by
  apply inherited_adds.bind (onRoom_adds _ stage)
  rintro ⟨source, nodes⟩ after -
  exact inherited_adds.run partials views _ _ _ _ after

end Executing

namespace Theme

open Executing (Adds onRoom_ok_iff)

variable {σ : Type} [Store σ] {theme : Theme} {view? : Option ViewFrame} {name : String}

theorem makeReady_canExecute {room after : Workroom σ} {execution : Execution}
    (ready : theme.makeReady name room = .ok execution after) :
    execution.name = name ∧ theme.CanExecute execution := by
  obtain ⟨file, _, finds, rest⟩ := bind_ok_iff.mp ready
  obtain ⟨found, rfl⟩ := findFile_ok_iff.mp finds
  obtain ⟨executable, last, compiles, ends⟩ := bind_ok_iff.mp rest
  obtain ⟨tried, -, spelled⟩ := TemplateFile.of_find? found
  cases ends
  refine ⟨rfl, tried, spelled, ?_⟩
  dsimp only
  unfold executablePath
  cases compiled : file.dialect.isCompiled with
  | true => exact executable_of_ensureCompiled compiled compiles
  | false =>
      rw [ensureCompiled_of_native compiled] at compiles
      cases compiles
      rfl

theorem renderNested_ready (theme : Theme) (view? : Option ViewFrame) (levels : Nat)
    (name : String) (locals : Locals) :
    theme.renderNested (σ := σ) view? (levels + 1) name locals =
      Staged.onState (theme.makeReady name) >>= fun execution =>
        Staged.onState (load execution.executable) >>= fun loaded =>
          Template.run (hostOver view? (theme.renderNested view? levels))
            execution.executable.display loaded.1 locals loaded.2 := by
  unfold makeReady
  simp only [Staged.onState_bind, bind_assoc]
  rfl

theorem renderExecuting_mirrors (theme : Theme) (view? : Option ViewFrame) (levels : Nat) :
    ∀ name locals, Mirrors Executing.plain (theme.renderExecuting (σ := σ) view? levels name locals)
      (theme.renderNested view? levels name locals) := by
  induction levels with
  | zero => exact fun _ _ => .throw _
  | succ levels ih =>
      intro name locals
      rw [renderNested_ready]
      apply Mirrors.bind (Executing.mirrors_onRoom _)
      intro execution
      apply Executing.mirrors_note
      apply Mirrors.bind (Executing.mirrors_onRoom _)
      rintro ⟨source, nodes⟩
      exact Template.run_related (.mirrors fun _ _ => rfl) (Executing.mirrors_hostOver ih) _ _ _ _

/-- The templates that a render executes can be executed so, and their names are those of partials
or that of the view. The first is the one that is rendered. -/
theorem renderExecuting_adds (theme : Theme) (view? : Option ViewFrame) (Fine : String → Prop)
    (partials : ∀ called, Fine (partialName called)) (views : ∀ view ∈ view?, Fine view.name)
    (levels : Nat) : ∀ name locals, Fine name → ∀ stage : Stage (Executing σ), ∃ more,
      (finalState (theme.renderExecuting view? levels name locals) stage).state.executions =
        stage.state.executions ++ more ∧
      (∀ execution ∈ more, theme.CanExecute execution ∧ Fine execution.name) ∧
      ∀ first ∈ more.head?, first.name = name := by
  induction levels with
  | zero => exact fun name locals _ stage => ⟨[], (List.append_nil _).symm, by simp, by simp⟩
  | succ levels ih =>
      intro name locals fine stage
      unfold renderExecuting
      cases ready : theme.makeReady name stage.state.room with
      | error error room =>
          rw [finalState_bind_error (Executing.onRoom_error ready)]
          exact ⟨[], (List.append_nil _).symm, by simp, by simp⟩
      | ok execution room =>
          obtain ⟨named, possible⟩ := makeReady_canExecute ready
          have adds (name : String) (fine : Fine name) (locals : Locals)
              (stage : Stage (Executing σ)) :
              Adds (fun execution => theme.CanExecute execution ∧ Fine execution.name) stage.state
                (finalState (theme.renderExecuting view? levels name locals) stage).state := by
            obtain ⟨more, added, fineMore, -⟩ := ih name locals fine stage
            exact ⟨more, added, fineMore⟩
          obtain ⟨more, added, fineMore⟩ := Executing.run_adds
            (fun called locals => adds _ (partials called) locals)
            (fun view isView => adds _ (views view isView) view.locals)
            execution.executable locals
            ⟨stage.frames, ⟨room, stage.state.executions ++ [execution]⟩⟩
          rw [finalState_bind_ok (onRoom_ok_iff.mpr ⟨room, ready, rfl⟩)]
          refine ⟨execution :: more, added.trans (List.append_cons ..).symm, ?_, ?_⟩
          · exact List.forall_mem_cons.mpr ⟨⟨possible, named ▸ fine⟩, fineMore⟩
          · rintro _ ⟨⟩
            exact named

/-- Whether a partial is executed. Its file has a marked name, and so has what is executed of it,
unless the file is itself at the views root and compiled. -/
structure ExecutesPartial (theme : Theme) (execution : Execution) : Prop where
  named : ∃ called, execution.name = partialName called
  file : execution.file.path.Marked
  executable : execution.executable.Marked ↔ ¬ (execution.file.dialect.isCompiled = true ∧
    execution.file.path.components = theme.settings.viewsRoot.components)

theorem CanExecute.executesPartial {execution : Execution} (possible : theme.CanExecute execution)
    (named : ∃ called, execution.name = partialName called) :
    theme.ExecutesPartial execution := by
  obtain ⟨called, same⟩ := named
  have isMarked := TemplateFile.candidates_marked (same ▸ possible.tried)
  refine ⟨⟨called, same⟩, isMarked, ?_⟩
  rw [possible.executable]
  exact executablePath_marked_iff possible.spelled isMarked

def ExecutesView (view? : Option ViewFrame) (execution : Execution) : Prop :=
  (∃ view ∈ view?, execution.name = view.name) ∧ ∀ called, execution.name ≠ partialName called

theorem executions_of_partial (theme : Theme) (view? : Option ViewFrame) (levels : Nat)
    (name : String) (locals : Locals) (stage : Stage (Workroom σ)) :
    (∀ first ∈ (theme.executions view? levels (partialName name) locals stage).head?,
      first.name = partialName name) ∧
    ∀ execution ∈ theme.executions view? levels (partialName name) locals stage,
      theme.CanExecute execution ∧
      (theme.ExecutesPartial execution ∨ ExecutesView view? execution) := by
  let Named (name : String) : Prop :=
    (∃ called, name = partialName called) ∨ ∃ view ∈ view?, name = view.name
  obtain ⟨more, added, fine, first⟩ := theme.renderExecuting_adds view? Named
    (fun called => .inl ⟨called, rfl⟩) (fun view isView => .inr ⟨view, isView, rfl⟩) levels
    (partialName name) locals (.inl ⟨name, rfl⟩) ⟨stage.frames, ⟨stage.state, []⟩⟩
  have executed : theme.executions view? levels (partialName name) locals stage = more := added
  rw [executed]
  refine ⟨first, fun execution member => ?_⟩
  obtain ⟨possible, named⟩ := fine execution member
  refine ⟨possible, ?_⟩
  by_cases isPartial : ∃ called, execution.name = partialName called
  · exact .inl (possible.executesPartial isPartial)
  · exact .inr ⟨named.resolve_left isPartial, not_exists.mp isPartial⟩

/-- The name of a partial is the name it is called by with the last segment marked. Marking it again
changes nothing, and only a name and the same one with the mark belong to one partial. It makes no
difference by which of the two the partial is called. All files that are tried for it have marked
names, and so have those that are executed for it and for the partials inside it, but for the view,
and for the artifact of a source that is itself at the views root. -/
theorem partials_marked_in_place (name : String) :
    partialName (partialName name) = partialName name ∧
    (∃ front last, Segmented name front last ∧ Segmented (partialName name) front (marked last) ∧
      (marked last).head? = some partialMark) ∧
    (∀ other, partialName name = partialName other ↔
      name = other ∨ AddsMark name other ∨ AddsMark other name) ∧
    (∀ viewsRoot, ∀ path ∈ TemplateFile.candidates viewsRoot (partialName name), path.Marked) ∧
    ∀ (theme : Theme) (view? : Option ViewFrame) (levels : Nat) (locals : Locals),
      let host := hostOver view? (theme.renderNested (σ := σ) view? levels)
      host.renderPartial (partialName name) locals = host.renderPartial name locals ∧
      host.partialContent (partialName name) locals = host.partialContent name locals ∧
      (∀ errorPage sink (room : Workroom σ),
        theme.renderFragment errorPage (partialName name) locals sink room =
          theme.renderFragment errorPage name locals sink room) ∧
      Mirrors Executing.plain (theme.renderExecuting view? levels (partialName name) locals)
        (host.renderPartial name locals) ∧
      ∀ stage : Stage (Workroom σ),
        (∀ first ∈ (theme.executions view? levels (partialName name) locals stage).head?,
          first.name = partialName name) ∧
        ∀ execution ∈ theme.executions view? levels (partialName name) locals stage,
          theme.CanExecute execution ∧
          (theme.ExecutesPartial execution ∨ ExecutesView view? execution) := by
  have once := partialName_partialName name
  have segmented := Segmented.of_lastSegment name
  refine ⟨once, ⟨_, _, segmented, segmented.partialName, head?_marked _⟩, partialName_eq_iff name,
    fun _ _ => TemplateFile.candidates_marked, ?_⟩
  intro theme view? levels locals host
  refine ⟨?_, ?_, ?_, theme.renderExecuting_mirrors view? levels _ locals,
    theme.executions_of_partial view? levels name locals⟩
  · exact congrArg (theme.renderNested view? levels · locals) once
  · exact congrArg (fun called => Staged.capture (theme.renderNested view? levels called locals))
      once
  · intro errorPage sink room
    exact congrArg (fun called => deliverPage errorPage (theme.renderTemplate none called locals)
      sink room) once

/-! A partial with a lid around a view -/

def boxes : MemoryStore :=
  ((MemoryStore.empty.addFile (.ofString "./views/posts/_box.php")
    "<% partial(\"posts/_lid\") %><% yield() %>").addFile
    (.ofString "./views/posts/_lid.haml") "%p lid").addFile
    (.ofString "./views/home.php") "home"

def homeFrame : ViewFrame := ⟨"home", .empty⟩

def boxStage : Stage (Workroom MemoryStore) := ⟨.empty, .ofStore boxes⟩

/-- The box is executed first and the lid in it, and both have marked names. -/
theorem box_executes_lid :
    let box : Execution := ⟨"posts/_box", ⟨.ofString "./views/posts/_box.php", .native⟩,
      .ofString "./views/posts/_box.php"⟩
    let lid : Execution := ⟨"posts/_lid", ⟨.ofString "./views/posts/_lid.haml", .haml⟩,
      .ofString "./tmp/posts/_lid.haml.php"⟩
    let view : Execution := ⟨"home", ⟨.ofString "./views/home.php", .native⟩,
      .ofString "./views/home.php"⟩
    standard.executions (some homeFrame) 64 (partialName "posts/box") .empty boxStage =
        [box, lid, view] ∧
      box.file.path ∈
        TemplateFile.candidates standard.settings.viewsRoot (partialName "posts/box") ∧
      box.file.path.Marked ∧ box.name = partialName "posts/box" ∧
      standard.CanExecute lid ∧
      (standard.ExecutesPartial lid ∨ ExecutesView (some homeFrame) lid) ∧
      lid.executable.Marked := by
  intro box lid view
  have executed : standard.executions (some homeFrame) 64 (partialName "posts/box") .empty
      boxStage = [box, lid, view] := by
    decide +kernel
  have tried : box.file.path ∈
      TemplateFile.candidates standard.settings.viewsRoot (partialName "posts/box") := by
    decide +kernel
  obtain ⟨-, -, -, files, renders⟩ := @partials_marked_in_place MemoryStore _ "posts/box"
  obtain ⟨-, -, -, -, executes⟩ := renders standard (some homeFrame) 64 .empty
  obtain ⟨first, possible⟩ := executes boxStage
  rw [executed] at first possible
  obtain ⟨executable, isPartial⟩ := possible lid (by simp)
  exact ⟨executed, tried, files _ _ tried, first box rfl, executable, isPartial, by decide +kernel⟩

def fileTheme : Theme :=
  ⟨{ Settings.withRoot (.ofString "/site") with viewsDir := .ofString "_box.haml" }, .standard⟩

def fileStage : Stage (Workroom MemoryStore) :=
  ⟨.empty, .ofStore (MemoryStore.empty.addFile (.ofString "/site/_box.haml") "= f()")⟩

/-- Other files are executed too: the view that a partial draws in, and the artifact of a partial
that is itself at the views root. -/
theorem partials_execute_unmarked_files :
    (standard.executions (some homeFrame) 64 (partialName "posts/box") .empty boxStage).map
        (·.executable) =
      [.ofString "./views/posts/_box.php", .ofString "./tmp/posts/_lid.haml.php",
        .ofString "./views/home.php"] ∧
    (fileTheme.executions none 64 (partialName "/site/box") .empty fileStage).map
        (·.executable) = [.ofString "/site/tmp/.php"] ∧
    (¬ ∀ (theme : Theme) (view? : Option ViewFrame) (levels : Nat) (name : String)
        (locals : Locals) (stage : Stage (Workroom MemoryStore)),
      ∀ execution ∈ theme.executions view? levels (partialName name) locals stage,
        execution.executable.Marked) ∧
    ¬ ∀ (theme : Theme) (levels : Nat) (name : String) (locals : Locals)
        (stage : Stage (Workroom MemoryStore)),
      ∀ execution ∈ theme.executions none levels (partialName name) locals stage,
        execution.executable.Marked := by
  have withView : (standard.executions (some homeFrame) 64 (partialName "posts/box") .empty
      boxStage).map (·.executable) = [.ofString "./views/posts/_box.php",
        .ofString "./tmp/posts/_lid.haml.php", .ofString "./views/home.php"] := by
    decide +kernel
  have atRoot : (fileTheme.executions none 64 (partialName "/site/box") .empty fileStage).map
      (·.executable) = [.ofString "/site/tmp/.php"] := by
    decide +kernel
  refine ⟨withView, atRoot, fun holds => ?_, fun holds => ?_⟩
  · have allMarked := List.forall_mem_map.mpr
      (holds standard (some homeFrame) 64 "posts/box" .empty boxStage)
    rw [withView] at allMarked
    exact absurd (allMarked (.ofString "./views/home.php") (by simp)) (by decide)
  · have allMarked := List.forall_mem_map.mpr (holds fileTheme 64 "/site/box" .empty fileStage)
    rw [atRoot] at allMarked
    exact absurd (allMarked (.ofString "/site/tmp/.php") (by simp)) (by decide)

end Theme

end ThemeRender
