import ThemeRender.Page.Stage

namespace ThemeRender

inductive ScriptStep where
  | write (text : String)
  /-- Captures what the body writes and writes it `echo` times; a failure of the body goes on if
  `propagate`. -/
  | capture (body : List ScriptStep) (echo : Nat) (propagate : Bool)
  | fail (message : String)
deriving Inhabited

/-- Something that happened in a script, with the number of frames at that time. -/
inductive ScriptEvent where
  | wrote (depth : Nat)
  | opened (depth : Nat)
  | captured (depth : Nat) (text : String)
  | failed (depth : Nat) (message : String)
  | halted (depth : Nat) (message : String)
deriving DecidableEq, Repr

namespace ScriptStep

abbrev Scripted := Staged String (List ScriptEvent)

def note (event : Nat → ScriptEvent) : Scripted Unit := do
  let depth ← Staged.depth
  Staged.modifyState (· ++ [event depth])

mutual

def run : ScriptStep → Scripted Unit
  | .write text => do
      Staged.write text
      note .wrote
  | .capture body echo propagate => do
      let captured : Except String String ←
        try .ok <$> Staged.capture (do note .opened; runAll body)
        catch message => pure (.error message)
      match captured with
      | .ok text =>
          note (.captured · text)
          Staged.write (String.join (List.replicate echo text))
      | .error message =>
          note (.failed · message)
          if propagate then throw message
  | .fail message => throw message

def runAll : List ScriptStep → Scripted Unit
  | [] => pure ()
  | step :: rest => do
      run step
      runAll rest

end

/-- Runs a script on empty frames; a failure ends it with a last event. -/
def trace (script : List ScriptStep) : List ScriptEvent × String :=
  let stage : Stage (List ScriptEvent) :=
    match runAll script ⟨.empty, []⟩ with
    | .ok () stage => stage
    | .error message stage =>
        { stage with state := stage.state ++ [.halted stage.frames.depth message] }
  (stage.state, stage.frames.base)

end ScriptStep

end ThemeRender
