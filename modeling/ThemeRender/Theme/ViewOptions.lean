import ThemeRender.Data.Locals
/-!
The options of a view. They are merged from maps: `layout` and `locals` replace what is there, every
other key is kept without a meaning of its own.
-/

namespace ThemeRender

structure ViewOptions where
  layout : String
  locals : Locals
  extra : Fields Value

inductive OptionsError where
  | notMap (found : String)
  | wrongType (key expected found : String)
deriving DecidableEq, Repr

def OptionsError.message : OptionsError → String
  | .notMap found => s!"view options must be a map, got {found}"
  | .wrongType key expected found => s!"option `{key}` must be a {expected}, got {found}"

namespace ViewOptions

def withLayout (layout : String) : ViewOptions :=
  ⟨layout, .empty, []⟩

def mergeEntry (options : ViewOptions) (key : String) (value : Value) :
    Except OptionsError ViewOptions :=
  if key = "layout" then
    match value with
    | .string layout => .ok { options with layout }
    | other => .error (.wrongType key "string" other.typeName)
  else if key = "locals" then
    match value with
    | .map fields => .ok { options with locals := ⟨fields⟩ }
    | .null => .ok { options with locals := .empty }
    | other => .error (.wrongType key "map" other.typeName)
  else .ok { options with extra := options.extra.insert key value }

def mergeEntries (options : ViewOptions) : List (String × Value) → Except OptionsError ViewOptions
  | [] => .ok options
  | (key, value) :: rest => do
      let options ← options.mergeEntry key value
      options.mergeEntries rest

def merge (options : ViewOptions) : Value → Except OptionsError ViewOptions
  | .map fields => options.mergeEntries fields
  | .null => .ok options
  | other => .error (.notMap other.typeName)

end ViewOptions

end ThemeRender
