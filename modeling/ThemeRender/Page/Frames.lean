/-!
The output of a render. Text goes to the top frame; a capture opens a fresh frame on top and takes
its text away again.
-/

namespace ThemeRender

/-- The top frame and the frames below it, the base frame last. -/
structure Frames where
  top : String
  below : List String
deriving DecidableEq, Repr

namespace Frames

def empty : Frames := ⟨"", []⟩

def write (text : String) (frames : Frames) : Frames :=
  { frames with top := frames.top ++ text }

def push (frames : Frames) : Frames :=
  ⟨"", frames.top :: frames.below⟩

/-- Drops the top frame. The base frame is emptied instead. -/
def pop (frames : Frames) : Frames :=
  match frames.below with
  | [] => empty
  | next :: below => ⟨next, below⟩

def depth (frames : Frames) : Nat :=
  frames.below.length + 1

def base (frames : Frames) : String :=
  frames.below.getLast?.getD frames.top

@[simp] theorem pop_push (frames : Frames) : frames.push.pop = frames := rfl

@[simp] theorem top_push (frames : Frames) : frames.push.top = "" := rfl

@[simp] theorem depth_push (frames : Frames) : frames.push.depth = frames.depth + 1 := rfl

@[simp] theorem depth_write (text : String) (frames : Frames) :
    (frames.write text).depth = frames.depth := rfl

@[simp] theorem pop_write (text : String) (frames : Frames) :
    (frames.write text).pop = frames.pop := rfl

@[simp] theorem write_empty (frames : Frames) : frames.write "" = frames := by
  simp [write]

@[simp] theorem write_write (first second : String) (frames : Frames) :
    (frames.write first).write second = frames.write (first ++ second) := by
  simp [write, String.append_assoc]

end Frames

end ThemeRender
