import ThemeRender.Proofs.Template.Related
/-!
Faults of a template itself and failures of its host. A marked host does what the host does, and
remembers whether it has failed; a run that fails beside one that has not has failed by itself.
`run_unmarked` says that a run is the same without the mark. `AlikeButLines` is for two computations
that come to the same but for the lines of such faults.
-/

namespace ThemeRender.Template

open Outcome (Mirrors bind_ok bind_error mapState)

structure Marked (σ : Type) where
  state : σ
  hostFailed : Bool

variable {σ α β : Type}

namespace Marked

def unmarked (stage : Stage (Marked σ)) : Stage σ :=
  ⟨stage.frames, stage.state.state⟩

def fresh (stage : Stage σ) : Stage (Marked σ) :=
  ⟨stage.frames, ⟨stage.state, false⟩⟩

def answering (answer : Render σ α) : Render (Marked σ) α := fun stage =>
  match answer (unmarked stage) with
  | .ok a after => .ok a ⟨after.frames, ⟨after.state, stage.state.hostFailed⟩⟩
  | .error error after => .error error ⟨after.frames, ⟨after.state, true⟩⟩

theorem mirrors_answering (answer : Render σ α) : Mirrors unmarked (answering answer) answer := by
  intro stage
  unfold answering
  cases answer (unmarked stage) with
  | ok => rfl
  | error => rfl

end Marked

open Marked (answering fresh unmarked)

def Host.marked (host : Host σ) : Host (Marked σ) where
  yieldView := answering host.yieldView
  renderPartial name locals := answering (host.renderPartial name locals)
  partialContent name locals := answering (host.partialContent name locals)

theorem Host.marked_related (host : Host σ) :
    Related (fun {α} (first : Render (Marked σ) α) second => Mirrors unmarked (α := α) first second)
      host.marked host where
  yieldView := Marked.mirrors_answering _
  renderPartial _ _ := Marked.mirrors_answering _
  partialContent _ _ := Marked.mirrors_answering _

/-- A computation beside a marked host and the same beside the host alone. -/
abbrev Unmarks (first : Render (Marked σ) α) (second : Render σ α) : Prop :=
  Mirrors unmarked first second

theorem unmarks_compatible :
    Compatible fun {α} (first : Render (Marked σ) α) second => Unmarks (α := α) first second :=
  .mirrors fun _ _ => rfl

section

variable (host : Host σ) (scope : Scope)

theorem evalSpanned_unmarked (code : Spanned Expr) :
    Unmarks (evalSpanned host.marked scope code) (evalSpanned host scope code) :=
  evalSpanned_related unmarks_compatible host.marked_related scope code

theorem Node.run_unmarked (node : Node) :
    Unmarks (node.run host.marked scope) (node.run host scope) :=
  Node.run_related unmarks_compatible host.marked_related scope node

theorem runAll_unmarked (nodes : List Node) :
    Unmarks (Node.runAll host.marked scope nodes) (Node.runAll host scope nodes) :=
  Node.runAll_related unmarks_compatible host.marked_related scope nodes

theorem run_unmarked (label source : String) (locals : Locals) (nodes : List Node) :
    Unmarks (run host.marked label source locals nodes) (run host label source locals nodes) :=
  run_related unmarks_compatible host.marked_related label source locals nodes

/-- Whether a run fails without its host having failed. -/
def failsItself (label source : String) (locals : Locals) (nodes : List Node) (stage : Stage σ) :
    Bool :=
  match run host.marked label source locals nodes (fresh stage) with
  | .ok _ _ => false
  | .error _ after => !after.state.hostFailed

end

/-! The same but for lines -/

/-- Two outcomes beside a host that had not failed. They are the same, except that a fault of the
template itself may be told on different lines. -/
inductive OutcomeButLines (label : String) (lines : Nat → Nat → Prop) :
    EStateM.Result RenderError (Stage (Marked σ)) α →
      EStateM.Result RenderError (Stage (Marked σ)) α → Prop
  | ok (a : α) {after : Stage (Marked σ)} (clean : after.state.hostFailed = false) :
      OutcomeButLines label lines (.ok a after) (.ok a after)
  | host (error : RenderError) {after : Stage (Marked σ)} (failed : after.state.hostFailed = true) :
      OutcomeButLines label lines (.error error after) (.error error after)
  | own {line line' : Nat} {fault : RuntimeFault} (ofTemplate : fault.ofTemplate = true)
      {after : Stage (Marked σ)} (clean : after.state.hostFailed = false)
      (related : lines line line') :
      OutcomeButLines label lines (.error (.runtime label (some line) fault) after)
        (.error (.runtime label (some line') fault) after)

def AlikeButLines (label : String) (lines : Nat → Nat → Prop) (first second : Render (Marked σ) α) :
    Prop :=
  ∀ stage : Stage (Marked σ), stage.state.hostFailed = false →
    OutcomeButLines label lines (first stage) (second stage)

namespace AlikeButLines

variable {label : String} {lines : Nat → Nat → Prop}

theorem pure (a : α) : AlikeButLines (σ := σ) label lines (pure a) (pure a) :=
  fun _ clean => .ok a clean

theorem bind {first first' : Render (Marked σ) α} {next next' : α → Render (Marked σ) β}
    (alike : AlikeButLines label lines first first')
    (nextAlike : ∀ a, AlikeButLines label lines (next a) (next' a)) :
    AlikeButLines label lines (first >>= next) (first' >>= next') := by
  intro stage clean
  have outcome := alike stage clean
  generalize runs : first stage = result, runs' : first' stage = result' at outcome
  cases outcome with
  | ok a cleanAfter =>
      rw [bind_ok runs, bind_ok runs']
      exact nextAlike a _ cleanAfter
  | host error failed =>
      rw [bind_error runs, bind_error runs']
      exact .host error failed
  | own ofTemplate cleanAfter related =>
      rw [bind_error runs, bind_error runs']
      exact .own ofTemplate cleanAfter related

theorem sequential : Sequential (σ := Marked σ) fun {α} first second =>
    AlikeButLines label lines (α := α) first second where
  pure := pure
  bind := bind

theorem write (text : String) :
    AlikeButLines (σ := σ) label lines (Staged.write text) (Staged.write text) :=
  fun _ clean => .ok () clean

theorem answering (answer : Render σ α) :
    AlikeButLines label lines (answering answer) (answering answer) := by
  intro stage clean
  unfold Marked.answering
  cases answer (unmarked stage) with
  | ok a after => exact .ok a clean
  | error error after => exact .host error rfl

theorem hosts (host : Host σ) :
    Host.Related (fun {α} first second => AlikeButLines label lines (α := α) first second)
      host.marked host.marked where
  yieldView := answering _
  renderPartial _ _ := answering _
  partialContent _ _ := answering _

theorem fault {line line' : Nat} (related : lines line line') (fault : RuntimeFault)
    (ofTemplate : fault.ofTemplate = true) :
    AlikeButLines (σ := σ) (α := α) label lines (throw (.runtime label (some line) fault))
      (throw (.runtime label (some line') fault)) :=
  fun _ clean => .own ofTemplate clean related

end AlikeButLines

end ThemeRender.Template
