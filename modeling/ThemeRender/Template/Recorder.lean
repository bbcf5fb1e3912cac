import ThemeRender.Template.Host

namespace ThemeRender.Template

inductive HostCall where
  | yieldView
  | renderPartial (name : String) (locals : Locals)
  | partialContent (name : String) (locals : Locals)

namespace HostCall

def name : HostCall → String
  | .yieldView => "yield"
  | .renderPartial name _ => name
  | .partialContent name _ => name

def record (call : HostCall) : Render (List HostCall) Unit :=
  Staged.modifyState (· ++ [call])

def requireAllowed (refused : List String) (call : HostCall) : Render (List HostCall) Unit :=
  if call.name ∈ refused then throw (.runtime "host" none (.refused call.name)) else return

end HostCall

open HostCall in
/-- The recording host, which refuses the names in `refused` once it has recorded them. -/
def recorder (refused : List String) : Host (List HostCall) where
  yieldView := do
    record .yieldView
    requireAllowed refused .yieldView
    Staged.write "[view]"
  renderPartial name locals := do
    record (.renderPartial name locals)
    Staged.write s!"[{name}"
    requireAllowed refused (.renderPartial name locals)
    Staged.write "]"
  partialContent name locals := do
    record (.partialContent name locals)
    requireAllowed refused (.partialContent name locals)
    return s!"<{name}>"

end ThemeRender.Template
