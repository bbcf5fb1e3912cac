import ThemeRender.Markup.Emission
import ThemeRender.Proofs.Outcome
import ThemeRender.Proofs.Template.TagCode
import ThemeRender.Template.Run
/-!
Running a page tree as it stands, without a template. Every piece writes whole lines, indented by
the depth of the elements around it; code and control lines write none. A line number is that of the
line an item has in the template, which is where its faults are said to be.
-/

namespace ThemeRender.Markup

open Template

/-! The pieces that an element writes -/

def quotedPieces (name : List Char) (value : List Piece) : List Piece :=
  .text (' ' :: name ++ "=\"".toList) :: value ++ [.text ['"']]

def Attr.pieces (attr : Attr) : List Piece :=
  match attr.value with
  | .literal pieces => quotedPieces attr.name pieces
  | .expr code => quotedPieces attr.name [.expr code]
  | .flag => [.text (' ' :: attr.name)]

def Element.idPieces (element : Element) : List Piece :=
  match element.attrs.find? (·.name = "id".toList) with
  | some attr => attr.pieces
  | none =>
      match element.shorthands.id? with
      | some id => quotedPieces "id".toList [.text id]
      | none => []

def AttrValue.classPieces? : AttrValue → Option (List Piece)
  | .literal pieces => some pieces
  | .expr code => some [.expr code]
  | .flag => none

def joinPieces : List (List Piece) → List Piece
  | [] => []
  | [word] => word
  | word :: rest => word ++ .text [' '] :: joinPieces rest

def Element.classPieces (element : Element) : List Piece :=
  let explicit := (element.attrs.filter (·.name = "class".toList)).filterMap
    (·.value.classPieces?)
  match element.shorthands.classes.map (fun name => [.text name]) ++ explicit with
  | [] => []
  | words => quotedPieces "class".toList (joinPieces words)

def Element.headPieces (element : Element) : List Piece :=
  let others := element.attrs.filter fun attr =>
    attr.name ≠ "id".toList ∧ attr.name ≠ "class".toList
  .text element.tag :: (element.idPieces ++ element.classPieces ++ others.flatMap Attr.pieces)

def Element.openPieces (element : Element) : List Piece :=
  .text ['<'] :: element.headPieces ++ [.text ['>']]

def Element.closePieces (element : Element) : List Piece :=
  [.text ("</".toList ++ element.tag ++ ['>'])]

def Inline.pieces : Inline → List Piece
  | .none => []
  | .text pieces => pieces
  | .output code => [.expr code]

def Element.linePieces (element : Element) : List Piece :=
  if element.isVoid then
    .text ['<'] :: element.headPieces ++
      [.text (if element.selfClosing then " />".toList else ['>'])]
  else element.openPieces ++ element.inline.pieces ++ element.closePieces

/-! The lines an item takes in the template -/

def Item.isIf (item : Item) : Bool :=
  match item.construct with
  | .control (.ifBegin _) => true
  | _ => false

def startsElse (items : List Item) : Bool :=
  (items.head?.map Item.isElse).getD false

theorem emitItems_cons_eq (depth : Nat) (openIf : Bool) (item : Item) (rest : List Item) :
    emitItems depth openIf (item :: rest) =
      if item.isElse && !openIf then .error (item.complain .elseWithoutIf)
      else do
        let first ← emitItem depth item
        let more ← emitItems depth (item.isIf && startsElse rest) rest
        return first ++ (if item.isIf && !startsElse rest then lineAt depth endTag else []) ++
          more := by
  rw [emitItems]
  split
  · rfl
  · apply bind_congr
    intro first
    unfold Item.isIf
    cases item.construct with
    | control control =>
        cases control with
        | ifBegin condition =>
            rw [Bool.true_and, Bool.true_and]
            apply bind_congr
            intro more
            change pure (first ++ (if startsElse rest then _ else _) ++ more) = _
            cases startsElse rest <;> rfl
        | _ => simp
    | _ => simp

theorem emitItems_cons {depth : Nat} {openIf : Bool} {item : Item} {rest : List Item}
    {text : List Char} (emitted : emitItems depth openIf (item :: rest) = .ok text) :
    (item.isElse = true → openIf = true) ∧ ∃ first more, emitItem depth item = .ok first ∧
      emitItems depth (item.isIf && startsElse rest) rest = .ok more ∧
      text = first ++ (if item.isIf && !startsElse rest then lineAt depth endTag else []) ++
        more := by
  rw [emitItems_cons_eq] at emitted
  split at emitted
  · cases emitted
  · rename_i guard
    obtain ⟨first, emittedItem, emitted⟩ := Outcome.except_bind_eq_ok.mp emitted
    obtain ⟨more, emittedRest, same⟩ := Outcome.except_bind_eq_ok.mp emitted
    cases same
    refine ⟨?_, first, more, emittedItem, emittedRest, rfl⟩
    intro isElse
    simpa [isElse] using guard

/-- The line that ends an `if` which no `else` follows. -/
def Item.endHeight (item : Item) (rest : List Item) : Nat :=
  if item.isIf && !startsElse rest then 1 else 0

mutual

/-- How many lines an item takes, without the end of an `if`. -/
def Item.height : Item → Nat
  | .mk construct _ _ nested =>
      match construct with
      | .element _ | .comment _ => if nested.isEmpty then 1 else heights nested + 2
      | .control (.ifBegin _) => heights nested + 1
      | .control .elseBegin | .control (.forBegin _) => heights nested + 2
      | .raw lines => lines.length
      | .text _ | .output _ | .code _ | .doctype _ => 1

def heights : List Item → Nat
  | [] => 0
  | item :: rest => item.height + item.endHeight rest + heights rest

end

/-! Running -/

section

variable {σ : Type} (host : Host σ) (scope : Scope)

def runCode (line : Nat) (code : List Char) : Render σ Value :=
  match readCode readOutput code with
  | .ok value => value.node.eval host scope line
  | .error _ => return .null

def Piece.run (line : Nat) : Piece → Render σ Unit
  | .text contents => Staged.write (String.ofList contents)
  | .expr code => do
      let value ← runCode host scope line code
      Staged.write value.text

def runPieces (line : Nat) : List Piece → Render σ Unit
  | [] => return
  | piece :: rest => do
      piece.run host scope line
      runPieces line rest

def runLine (depth line : Nat) (pieces : List Piece) : Render σ Unit :=
  runPieces host scope line
    (.text (List.replicate (2 * depth) ' ') :: pieces ++ [.text ['\n']])

def runBinding (line : Nat) (binding : List Char) : Render σ (String × List Value) :=
  match readCode readBinding binding with
  | .error _ => return ("", [])
  | .ok (name, items) => do
      let value ← items.node.eval host scope line
      match itemsOf? value with
      | none => scope.fault line (.notIterable value.typeName)
      | some values => return (name, values)

end

mutual

/-- Runs an item that starts on a line. `otherwise` is what an `if` runs when its condition does not
hold, so that an `else` runs nothing by itself. -/
def runItem {σ : Type} (host : Host σ) (scope : Scope) (depth line : Nat)
    (otherwise : Render σ Unit) : Item → Render σ Unit
  | .mk construct _ _ nested =>
      match construct with
      | .element element =>
          if nested.isEmpty then runLine host scope depth line element.linePieces
          else do
            runLine host scope depth line element.openPieces
            runItems host scope (depth + 1) (line + 1) nested
            runLine host scope depth (line + 1 + heights nested) element.closePieces
      | .text pieces => runLine host scope depth line pieces
      | .output code => runLine host scope depth line [.expr code]
      | .code code => do
          let _ ← runCode host scope line code
      | .control (.ifBegin condition) => do
          let value ← runCode host scope line condition
          if value.isTruthy then runItems host scope depth (line + 1) nested else otherwise
      | .control .elseBegin => return
      | .control (.forBegin binding) => do
          let (name, values) ← runBinding host scope line binding
          values.forM fun value =>
            runItems host (scope.bind name value) depth (line + 1) nested
      | .comment text =>
          if nested.isEmpty then
            runLine host scope depth line [.text ("<!-- ".toList ++ text ++ " -->".toList)]
          else do
            runLine host scope depth line [.text "<!--".toList]
            runItems host scope (depth + 1) (line + 1) nested
            runLine host scope depth (line + 1 + heights nested) [.text "-->".toList]
      | .doctype text =>
          runLine host scope depth line [.text ("<!DOCTYPE ".toList ++ text ++ ['>'])]
      | .raw lines => lines.forM fun text => runLine host scope depth line [.text text]

def runItems {σ : Type} (host : Host σ) (scope : Scope) (depth line : Nat) :
    List Item → Render σ Unit
  | [] => return
  | item :: rest => do
      let otherwise : Render σ Unit :=
        match rest with
        | .mk (.control .elseBegin) _ _ nested :: _ =>
            runItems host scope depth (line + item.height + 1) nested
        | _ => return
      runItem host scope depth line otherwise item
      runItems host scope depth (line + item.height + item.endHeight rest) rest

end

def runPage {σ : Type} (host : Host σ) (label : String) (locals : Locals) (items : List Item) :
    Render σ Unit :=
  runItems host ⟨label, [], locals, []⟩ 0 1 items

end ThemeRender.Markup
