import ThemeRender.Template.Expr
import ThemeRender.Template.SyntaxError

namespace ThemeRender.Template

/-- What opened a block. An `if` keeps its first branch once its `else` has been met. -/
inductive Opening where
  | branch (condition : Spanned Expr) (yes? : Option (List Node))
  | each (name : String) (items : Spanned Expr)

def Opening.close (nodes : List Node) : Opening → Node
  | .branch condition none => .branch condition nodes []
  | .branch condition (some yes) => .branch condition yes nodes
  | .each name items => .each name items nodes

/-- A block that waits for its end, and the nodes before it in the block around it. -/
structure OpenBlock where
  opening : Opening
  openedAt : Span
  before : List Node

structure Assembly where
  blocks : List OpenBlock
  nodes : List Node

namespace Assembly

def empty : Assembly := ⟨[], []⟩

def push (node : Node) (assembly : Assembly) : Assembly :=
  { assembly with nodes := assembly.nodes ++ [node] }

def openBlock (opening : Opening) (span : Span) (assembly : Assembly) : Assembly :=
  ⟨⟨opening, span, assembly.nodes⟩ :: assembly.blocks, []⟩

def apply (directive : Directive) (span : Span) (assembly : Assembly) :
    Except SyntaxError Assembly :=
  match directive with
  | .eval code => .ok (assembly.push (.eval code))
  | .ifBegin condition => .ok (assembly.openBlock (.branch condition none) span)
  | .forBegin name items => .ok (assembly.openBlock (.each name items) span)
  | .elseBegin =>
      match assembly.blocks with
      | ⟨.branch condition none, openedAt, before⟩ :: blocks =>
          .ok ⟨⟨.branch condition (some assembly.nodes), openedAt, before⟩ :: blocks, []⟩
      | ⟨.branch _ (some _), _, _⟩ :: _ => .error ⟨span, .elseTwice⟩
      | _ => .error ⟨span, .elseOutsideIf⟩
  | .blockEnd =>
      match assembly.blocks with
      | [] => .error ⟨span, .endOutsideBlock⟩
      | block :: blocks => .ok ⟨blocks, block.before ++ [block.opening.close assembly.nodes]⟩

def finish (assembly : Assembly) : Except SyntaxError (List Node) :=
  match assembly.blocks with
  | [] => .ok assembly.nodes
  | block :: _ => .error ⟨block.openedAt, .blockNotClosed⟩

end Assembly

end ThemeRender.Template
