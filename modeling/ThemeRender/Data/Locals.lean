import ThemeRender.Data.Value

namespace ThemeRender

structure Locals where
  fields : Fields Value

namespace Locals

def empty : Locals := ⟨[]⟩

instance : Inhabited Locals := ⟨empty⟩

def get? (locals : Locals) (name : String) : Option Value :=
  locals.fields.get? name

def contains (locals : Locals) (name : String) : Bool :=
  (locals.get? name).isSome

def insert (locals : Locals) (name : String) (value : Value) : Locals :=
  ⟨locals.fields.insert name value⟩

def size (locals : Locals) : Nat :=
  locals.fields.length

def isEmpty (locals : Locals) : Bool :=
  locals.fields.isEmpty

/-- The locals of both; `upper` wins where both give a name. -/
def merged (locals upper : Locals) : Locals :=
  ⟨locals.fields.overlay upper.fields⟩

def ofValue? : Value → Option Locals
  | .map fields => some ⟨fields⟩
  | _ => none

def toValue (locals : Locals) : Value :=
  .map locals.fields

@[simp] theorem get?_empty (name : String) : empty.get? name = none := rfl

theorem get?_insert (locals : Locals) (name other : String) (value : Value) :
    (locals.insert other value).get? name = if name = other then some value else locals.get? name :=
  Fields.get?_insert name other value locals.fields

@[simp] theorem merged_empty (locals : Locals) : locals.merged empty = locals := rfl

end Locals

end ThemeRender
