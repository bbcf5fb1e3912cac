import ThemeRender.Proofs.Template.Related
import ThemeRender.Template.Recorder
/-!
What a template asks of its host, in order. A logged host does what the host does, and of each
request it keeps what was asked and the output at that moment. `run_unlogged` says that a run is the
same without the log.
-/

namespace ThemeRender.Template

open Outcome (Mirrors finalState mapState)

/-- Something a template asks of its host, and the output at the moment it asks. -/
structure Request where
  call : HostCall
  frames : Frames

structure Logged (σ : Type) where
  state : σ
  requests : List Request

variable {σ α : Type}

namespace Logged

def unlogged (stage : Stage (Logged σ)) : Stage σ :=
  ⟨stage.frames, stage.state.state⟩

def answering (call : HostCall) (answer : Render σ α) : Render (Logged σ) α := fun stage =>
  mapState (fun after => ⟨after.frames,
      ⟨after.state, stage.state.requests ++ [⟨call, stage.frames⟩]⟩⟩)
    (answer (unlogged stage))

theorem mirrors_answering (call : HostCall) (answer : Render σ α) :
    Mirrors unlogged (answering call answer) answer := by
  intro stage
  unfold answering
  rw [Outcome.mapState_mapState]
  cases answer (unlogged stage) with
  | ok => rfl
  | error => rfl

def behind (earlier : List Request) (stage : Stage (Logged σ)) : Stage (Logged σ) :=
  ⟨stage.frames, ⟨stage.state.state, earlier ++ stage.state.requests⟩⟩

theorem answering_behind (earlier : List Request) (call : HostCall) (answer : Render σ α) :
    Mirrors (behind earlier) (answering call answer) (answering call answer) := by
  intro stage
  have same : unlogged (behind earlier stage) = unlogged stage := rfl
  unfold answering
  rw [same, Outcome.mapState_mapState]
  unfold Function.comp behind
  simp only [List.append_assoc]

end Logged

open Logged (answering unlogged)

def Host.logged (host : Host σ) : Host (Logged σ) where
  yieldView := answering .yieldView host.yieldView
  renderPartial name locals :=
    answering (.renderPartial name locals) (host.renderPartial name locals)
  partialContent name locals :=
    answering (.partialContent name locals) (host.partialContent name locals)

theorem Host.logged_related (host : Host σ) :
    Related (fun {α} (first : Render (Logged σ) α) second => Mirrors unlogged (α := α) first second)
      host.logged host where
  yieldView := Logged.mirrors_answering _ _
  renderPartial _ _ := Logged.mirrors_answering _ _
  partialContent _ _ := Logged.mirrors_answering _ _

variable (host : Host σ) (label source : String) (locals : Locals) (nodes : List Node)

theorem run_unlogged (stage : Stage (Logged σ)) :
    run host label source locals nodes (unlogged stage) =
      mapState unlogged (run host.logged label source locals nodes stage) :=
  run_related (.mirrors fun _ _ => rfl) host.logged_related label source locals nodes stage

def requests (stage : Stage σ) : List Request :=
  (finalState (run host.logged label source locals nodes)
    ⟨stage.frames, ⟨stage.state, []⟩⟩).state.requests

theorem Host.logged_behind (earlier : List Request) :
    Related (fun {α} first second => Mirrors (Logged.behind earlier) (α := α) first second)
      host.logged host.logged where
  yieldView := Logged.answering_behind _ _ _
  renderPartial _ _ := Logged.answering_behind _ _ _
  partialContent _ _ := Logged.answering_behind _ _ _

theorem requests_behind (stage : Stage (Logged σ)) :
    (finalState (run host.logged label source locals nodes) stage).state.requests =
      stage.state.requests ++ requests host label source locals nodes (unlogged stage) := by
  have mirrors := run_related (.mirrors fun _ _ => rfl)
    (host.logged_behind stage.state.requests) label source locals nodes
    ⟨stage.frames, ⟨stage.state.state, []⟩⟩
  have start : Logged.behind stage.state.requests ⟨stage.frames, ⟨stage.state.state, []⟩⟩ =
      stage := by
    unfold Logged.behind
    rw [List.append_nil]
  rw [start] at mirrors
  rw [Outcome.finalState_of_mapState mirrors]
  rfl

end ThemeRender.Template
