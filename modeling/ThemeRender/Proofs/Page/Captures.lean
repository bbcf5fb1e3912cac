import ThemeRender.Page.Script
import ThemeRender.Proofs.Outcome
/-!
Programs of writes, captures and failures mean the same on any output frames: what they mean on
buffers that know nothing of each other.
-/

namespace ThemeRender

open Outcome (bind_ok ended finalState finalState_ok finalState_error)

/-! The base frame -/

namespace Frames

theorem getLast?_eq_base (frames : Frames) :
    (frames.top :: frames.below).getLast? = some frames.base :=
  List.getLast?_cons

theorem base_write (text : String) (frames : Frames) :
    (frames.write text).base = if frames.below = [] then frames.base ++ text else frames.base := by
  unfold base write
  cases frames.below with
  | nil => rfl
  | cons next below => simp [List.getLast?_cons]

@[simp] theorem base_write_empty (text : String) : (empty.write text).base = text :=
  (base_write text empty).trans String.empty_append

end Frames

/-! Programs and what they mean -/

variable {ε α : Type}

/-- What writes, captures and can fail. What comes after a capture is any program of the captured
text or of the failure of its body. -/
inductive CaptureProgram (ε α : Type) where
  | done
  | write (text : String) (next : CaptureProgram ε α)
  /-- Notes something, given the number of frames that are open. -/
  | note (event : Nat → α) (next : CaptureProgram ε α)
  | fail (error : ε)
  | capture (body : CaptureProgram ε α) (next : Except ε String → CaptureProgram ε α)

namespace CaptureProgram

def run : CaptureProgram ε α → Staged ε (List α) Unit
  | .done => pure ()
  | .write text next => do
      Staged.write text
      run next
  | .note event next => do
      let depth ← Staged.depth
      Staged.modifyState (· ++ [event depth])
      run next
  | .fail error => throw error
  | .capture body next => do
      let captured : Except ε String ←
        try .ok <$> Staged.capture (run body)
        catch error => pure (.error error)
      run (next captured)

/-- What a program writes to a buffer of its own, what it notes and how it ends. -/
structure Meaning (ε α : Type) where
  text : String
  notes : List α
  outcome : Except ε Unit

namespace Meaning

def silent (outcome : Except ε Unit) : Meaning ε α := ⟨"", [], outcome⟩

def after (text : String) (notes : List α) (rest : Meaning ε α) : Meaning ε α :=
  ⟨text ++ rest.text, notes ++ rest.notes, rest.outcome⟩

/-- What a capture gives. The text of a failed body vanishes. -/
def captured (body : Meaning ε α) : Except ε String :=
  body.outcome.map fun _ => body.text

end Meaning

/-- The meaning of a program with a number of frames open. There are no frames in it: a captured
body has a meaning by itself. -/
def meaning : CaptureProgram ε α → Nat → Meaning ε α
  | .done, _ => .silent (.ok ())
  | .write text next, depth => (next.meaning depth).after text []
  | .note event next, depth => (next.meaning depth).after "" [event depth]
  | .fail error, _ => .silent (.error error)
  | .capture body next, depth =>
      let inner := body.meaning (depth + 1)
      ((next inner.captured).meaning depth).after "" inner.notes

/-! What a meaning does to a stage -/

def Meaning.on (meaning : Meaning ε α) (stage : Stage (List α)) :
    EStateM.Result ε (Stage (List α)) Unit :=
  ended meaning.outcome
    ⟨stage.frames.write meaning.text, stage.state ++ meaning.notes⟩

namespace Meaning

@[simp] theorem on_silent (outcome : Except ε Unit) (stage : Stage (List α)) :
    (silent outcome).on stage = ended outcome stage := by
  simp [on, silent]

@[simp] theorem on_after (text : String) (notes : List α) (rest : Meaning ε α)
    (stage : Stage (List α)) :
    (rest.after text notes).on stage =
      rest.on ⟨stage.frames.write text, stage.state ++ notes⟩ := by
  simp [on, after]

theorem finalState_of_on {action : Staged ε (List α) Unit} {meaning : Meaning ε α}
    {stage : Stage (List α)} (runs : action stage = meaning.on stage) :
    finalState action stage =
      ⟨stage.frames.write meaning.text, stage.state ++ meaning.notes⟩ := by
  unfold on at runs
  cases outcome : meaning.outcome with
  | ok =>
      rw [outcome] at runs
      exact finalState_ok runs
  | error error =>
      rw [outcome] at runs
      exact finalState_error runs

end Meaning

theorem capture_of_on {body : Staged ε (List α) Unit} {inner : Meaning ε α}
    {stage : Stage (List α)}
    (runs : body ⟨stage.frames.push, stage.state⟩ = inner.on ⟨stage.frames.push, stage.state⟩) :
    Staged.capture body stage =
      ended inner.captured ⟨stage.frames, stage.state ++ inner.notes⟩ := by
  have text : (stage.frames.push.write inner.text).top = inner.text := by simp [Frames.write]
  unfold Meaning.on at runs
  unfold Staged.capture Meaning.captured
  rw [runs]
  cases inner.outcome with
  | ok => simp [ended, Except.map, text]
  | error error => simp [ended, Except.map]

theorem try_of_ended {σ β : Type} {action : EStateM ε σ β} {before after : σ}
    {result : Except ε β} (ends : action before = ended result after) :
    (try Except.ok <$> action catch error => pure (.error error) : EStateM ε σ (Except ε β)) before
      = .ok result after := by
  change EStateM.tryCatch (EStateM.map Except.ok action) _ before = _
  unfold EStateM.tryCatch EStateM.map
  cases result with
  | ok b =>
      rw [ends]
      rfl
  | error error =>
      rw [ends]
      rfl

theorem run_capture_of_on {body : CaptureProgram ε α} {inner : Meaning ε α}
    {stage : Stage (List α)}
    (runs : body.run ⟨stage.frames.push, stage.state⟩ =
      inner.on ⟨stage.frames.push, stage.state⟩)
    (next : Except ε String → CaptureProgram ε α) :
    (capture body next).run stage =
      (next inner.captured).run ⟨stage.frames, stage.state ++ inner.notes⟩ :=
  bind_ok (try_of_ended (capture_of_on runs))

/-- A program does to a stage what it means at the number of frames there. -/
theorem run_eq (program : CaptureProgram ε α) (stage : Stage (List α)) :
    program.run stage = (program.meaning stage.frames.depth).on stage := by
  induction program generalizing stage with
  | done => exact (Meaning.on_silent (.ok ()) stage).symm
  | fail error => exact (Meaning.on_silent (.error error) stage).symm
  | write text next ih =>
      calc
        (write text next).run stage = next.run ⟨stage.frames.write text, stage.state⟩ := rfl
        _ = (next.meaning stage.frames.depth).on ⟨stage.frames.write text, stage.state⟩ := ih _
        _ = ((write text next).meaning stage.frames.depth).on stage := by simp [meaning]
  | note event next ih =>
      let noted : Stage (List α) := ⟨stage.frames, stage.state ++ [event stage.frames.depth]⟩
      calc
        (note event next).run stage = next.run noted := rfl
        _ = (next.meaning stage.frames.depth).on noted := ih _
        _ = ((note event next).meaning stage.frames.depth).on stage := by simp [meaning, noted]
  | capture body next bodyIh ih =>
      let inner := body.meaning (stage.frames.depth + 1)
      let closed : Stage (List α) := ⟨stage.frames, stage.state ++ inner.notes⟩
      calc
        (capture body next).run stage = (next inner.captured).run closed :=
          run_capture_of_on (bodyIh _) next
        _ = ((next inner.captured).meaning stage.frames.depth).on closed := ih _ _
        _ = ((capture body next).meaning stage.frames.depth).on stage := by
          simp [meaning, inner, closed]

/-- What a program leaves of the stage it starts on, told from its meaning. -/
structure Composes (program : CaptureProgram ε α) (stage after : Stage (List α)) : Prop where
  outcome : program.run stage = ended (program.meaning stage.frames.depth).outcome after
  depth : after.frames.depth = stage.frames.depth
  below : after.frames.below = stage.frames.below
  top : after.frames.top = stage.frames.top ++ (program.meaning stage.frames.depth).text
  notes : after.state = stage.state ++ (program.meaning stage.frames.depth).notes
  /-- What is captured of the program goes to whatever comes after it, on the frames as before. -/
  captured : ∀ next : Except ε String → CaptureProgram ε α,
    let inner := program.meaning (stage.frames.depth + 1)
    (capture program next).run stage =
      (next inner.captured).run ⟨stage.frames, stage.state ++ inner.notes⟩
  /-- The base frame is the last one, and it is written to only where it is on top. -/
  base : (after.frames.top :: after.frames.below).getLast? = some after.frames.base ∧
    after.frames.base =
      if stage.frames.below = [] then
        stage.frames.base ++ (program.meaning stage.frames.depth).text
      else stage.frames.base

/-- Every program, however deep its captures are nested and wherever in them it fails, does to any
frames what it means. -/
theorem captures_compose (program : CaptureProgram ε α) (stage : Stage (List α)) :
    program.Composes stage (finalState program.run stage) := by
  have runs := program.run_eq stage
  rw [Meaning.finalState_of_on runs]
  exact
    { outcome := runs
      depth := rfl
      below := rfl
      top := rfl
      notes := rfl
      captured := run_capture_of_on (program.run_eq _)
      base := ⟨Frames.getLast?_eq_base _, Frames.base_write _ _⟩ }

end CaptureProgram

/-! Scripts are such programs -/

namespace ScriptStep

open CaptureProgram (Meaning)

mutual

def andThen : ScriptStep → CaptureProgram String ScriptEvent → CaptureProgram String ScriptEvent
  | .write text, next => .write text (.note .wrote next)
  | .capture body echo propagate, next =>
      .capture (.note .opened (program body)) fun
        | .ok text =>
            .note (.captured · text) (.write (String.join (List.replicate echo text)) next)
        | .error message =>
            .note (.failed · message) (if propagate then .fail message else next)
  | .fail message, _ => .fail message

def program : List ScriptStep → CaptureProgram String ScriptEvent
  | [] => .done
  | step :: rest => step.andThen (program rest)

end

theorem run_note (event : Nat → ScriptEvent) (next : CaptureProgram String ScriptEvent) :
    (CaptureProgram.note event next).run = (do note event; next.run) :=
  (bind_assoc Staged.depth _ fun _ => next.run).symm

theorem run_write (text : String) (next : CaptureProgram String ScriptEvent) :
    (CaptureProgram.write text next).run = (do Staged.write text; next.run) := rfl

mutual

theorem run_andThen (step : ScriptStep) (next : CaptureProgram String ScriptEvent) :
    (step.andThen next).run = (do step.run; next.run) := by
  cases step with
  | write text =>
      simp only [andThen, run, run_write, run_note, bind_assoc]
  | fail message => rfl
  | capture body echo propagate =>
      simp only [andThen, run, CaptureProgram.run, run_program body, bind_assoc]
      congr 1
      funext captured
      cases captured with
      | ok text => simp only [run_note, run_write, bind_assoc]
      | error message =>
          cases propagate with
          | false => simp [run_note]
          | true =>
              simp only [run_note, bind_assoc]
              rfl

theorem run_program (script : List ScriptStep) : (program script).run = runAll script := by
  cases script with
  | nil => rfl
  | cons step rest =>
      rw [program, run_andThen step, run_program rest, runAll]

end

theorem trace_eq (script : List ScriptStep) :
    trace script =
      let meaning := (program script).meaning 1
      let halted : List ScriptEvent :=
        match meaning.outcome with
        | .ok () => []
        | .error message => [.halted 1 message]
      (meaning.notes ++ halted, meaning.text) := by
  have runs : runAll script ⟨.empty, []⟩ = ((program script).meaning 1).on ⟨.empty, []⟩ := by
    rw [← run_program]
    exact (program script).run_eq ⟨.empty, []⟩
  unfold trace
  rw [runs]
  unfold Meaning.on
  cases (program script).meaning 1 with
  | mk text notes outcome =>
      have depth : Frames.empty.depth = 1 := rfl
      cases outcome with
      | ok => simp [ended]
      | error message => simp [ended, depth]

/-- A failure crosses two frames, and what was written in them is lost. -/
example :
    trace [.write "a", .capture [.capture [.write "b", .fail "no"] 1 true] 1 false, .write "c"] =
      ([.wrote 1, .opened 2, .opened 3, .wrote 3, .failed 2 "no", .failed 1 "no", .wrote 1],
        "ac") := by
  rfl

end ScriptStep

end ThemeRender
