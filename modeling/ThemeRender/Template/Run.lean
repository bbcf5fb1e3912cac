import ThemeRender.Template.Expr
import ThemeRender.Template.Host
import ThemeRender.Text.Html
/-!
Running a template. It sees its locals and the variables of the loops around a place; names that
are not bound are null. Everything else is asked of the host.
-/

namespace ThemeRender.Template

structure Scope where
  label : String
  source : List Char
  locals : Locals
  /-- Innermost first. -/
  loopVars : List (String × Value)

namespace Scope

def bind (name : String) (value : Value) (scope : Scope) : Scope :=
  { scope with loopVars := (name, value) :: scope.loopVars }

def get? (scope : Scope) (name : String) : Option Value :=
  (scope.loopVars.lookup name).or (scope.locals.get? name)

/-- The value at a path, null where it leads nowhere. -/
def lookup (scope : Scope) : List String → Value
  | [] => .null
  | name :: segments =>
      ((segments.foldl (fun value? segment => value?.bind (·.field? segment)) (scope.get? name))).getD
        .null

def lineOf (scope : Scope) (span : Span) : Nat :=
  Text.lineAt scope.source span.start

def fault {σ α : Type} (scope : Scope) (line : Nat) (fault : RuntimeFault) : Render σ α :=
  throw (.runtime scope.label (some line) fault)

end Scope

structure Args where
  positional : List Value
  named : Locals

namespace Args

def empty : Args := ⟨[], .empty⟩

def isEmpty (args : Args) : Bool :=
  args.positional.isEmpty && args.named.isEmpty

/-- The name and the locals of a partial: `(name, [locals map], key: value...)`. Named arguments win
over the map. -/
def partialCall (args : Args) (function : String) : Except RuntimeFault (String × Locals) :=
  match args.positional with
  | [] => .error (.partialWithoutName function)
  | .string name :: rest =>
      let base : Except RuntimeFault (Locals × List Value) :=
        match rest with
        | [] => .ok (.empty, [])
        | .null :: rest => .ok (.empty, rest)
        | .map fields :: rest => .ok (⟨fields⟩, rest)
        | other :: _ => .error (.partialLocals function other.typeName)
      base.bind fun (locals, rest) =>
        if rest.isEmpty then .ok (name, locals.merged args.named)
        else .error (.partialArguments function)
  | other :: _ => .error (.partialName function other.typeName)

end Args

variable {σ : Type}

def callFunction (host : Host σ) (scope : Scope) (line : Nat) (name : String) (args : Args) :
    Render σ Value :=
  match name with
  | "yield" =>
      if args.isEmpty then do
        host.yieldView
        return .null
      else scope.fault line .yieldArguments
  | "partial" =>
      match args.partialCall name with
      | .ok (template, locals) => do
          host.renderPartial template locals
          return .null
      | .error fault => scope.fault line fault
  | "partial_content" =>
      match args.partialCall name with
      | .ok (template, locals) => .string <$> host.partialContent template locals
      | .error fault => scope.fault line fault
  | "escape" =>
      match args.positional with
      | [value] =>
          if args.named.isEmpty then return .string (Text.escapeHtml value.text)
          else scope.fault line .escapeArguments
      | _ => scope.fault line .escapeArguments
  | _ => scope.fault line (.unknownFunction name)

mutual

def Expr.eval (host : Host σ) (scope : Scope) (line : Nat) : Expr → Render σ Value
  | .literal value => return value
  | .path segments => return scope.lookup segments
  | .not operand => do
      let value ← operand.eval host scope line
      return .bool !value.isTruthy
  | .binary op left right => do
      let leftValue ← left.eval host scope line
      match op with
      | .and =>
          if leftValue.isTruthy then
            let rightValue ← right.eval host scope line
            return .bool rightValue.isTruthy
          else return .bool false
      | .or =>
          if leftValue.isTruthy then return .bool true
          else
            let rightValue ← right.eval host scope line
            return .bool rightValue.isTruthy
      | .equal =>
          let rightValue ← right.eval host scope line
          return .bool (leftValue.same rightValue)
      | .unequal =>
          let rightValue ← right.eval host scope line
          return .bool !leftValue.same rightValue
  | .call name args => do
      let args ← Arg.evalAll host scope line .empty args
      callFunction host scope line name args

def Arg.evalAll (host : Host σ) (scope : Scope) (line : Nat) (args : Args) :
    List Arg → Render σ Args
  | [] => return args
  | .positional value :: rest => do
      let value ← value.eval host scope line
      Arg.evalAll host scope line { args with positional := args.positional ++ [value] } rest
  | .named name value :: rest => do
      let value ← value.eval host scope line
      Arg.evalAll host scope line { args with named := args.named.insert name value } rest

end

def evalSpanned (host : Host σ) (scope : Scope) (code : Spanned Expr) : Render σ Value :=
  code.node.eval host scope (scope.lineOf code.span)

/-- What a loop over a value goes through: the items of a list, the values of a map in the order of
their names, nothing for null. -/
def itemsOf? : Value → Option (List Value)
  | .list items => some items
  | .map fields => some (fields.map (·.2))
  | .null => some []
  | _ => none

mutual

def Node.run (host : Host σ) (scope : Scope) : Node → Render σ Unit
  | .text contents => Staged.write contents
  | .output value => do
      let value ← evalSpanned host scope value
      Staged.write value.text
  | .eval code => do
      let _ ← evalSpanned host scope code
  | .branch condition yes no => do
      let value ← evalSpanned host scope condition
      if value.isTruthy then Node.runAll host scope yes else Node.runAll host scope no
  | .each name items body => do
      let value ← evalSpanned host scope items
      match itemsOf? value with
      | none => scope.fault (scope.lineOf items.span) (.notIterable value.typeName)
      | some values => values.forM fun item => Node.runAll host (scope.bind name item) body

def Node.runAll (host : Host σ) (scope : Scope) : List Node → Render σ Unit
  | [] => return
  | node :: rest => do
      node.run host scope
      Node.runAll host scope rest

end

def run (host : Host σ) (label source : String) (locals : Locals) (nodes : List Node) :
    Render σ Unit :=
  Node.runAll host ⟨label, source.toList, locals, []⟩ nodes

end ThemeRender.Template
