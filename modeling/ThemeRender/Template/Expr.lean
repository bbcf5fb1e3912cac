import ThemeRender.Data.Value
import ThemeRender.Text.Span

namespace ThemeRender.Template

inductive BinaryOp where
  | equal
  | unequal
  | and
  | or
deriving DecidableEq, Repr

mutual

inductive Expr where
  | literal (value : Value)
  | path (segments : List String)
  | not (operand : Expr)
  | binary (op : BinaryOp) (left right : Expr)
  | call (function : String) (args : List Arg)

inductive Arg where
  | positional (value : Expr)
  | named (name : String) (value : Expr)

end

instance : Inhabited Expr := ⟨.literal .null⟩

inductive Node where
  | text (contents : String)
  | output (value : Spanned Expr)
  | eval (code : Spanned Expr)
  | branch (condition : Spanned Expr) (yes no : List Node)
  | each (name : String) (items : Spanned Expr) (body : List Node)

/-- The code of one tag, output tags apart. -/
inductive Directive where
  | ifBegin (condition : Spanned Expr)
  | elseBegin
  | blockEnd
  | forBegin (name : String) (items : Spanned Expr)
  | eval (code : Spanned Expr)

def Directive.shift (offset : Nat) : Directive → Directive
  | .ifBegin condition => .ifBegin (condition.shift offset)
  | .elseBegin => .elseBegin
  | .blockEnd => .blockEnd
  | .forBegin name items => .forBegin name (items.shift offset)
  | .eval code => .eval (code.shift offset)

end ThemeRender.Template
