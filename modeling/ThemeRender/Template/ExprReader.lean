import ThemeRender.Template.Expr
import ThemeRender.Template.Reader
/-!
Reading the code of a tag. From loosest to tightest an expression is built with `or`, `and`, one
comparison that does not chain, `not`, and the operands.
-/

namespace ThemeRender.Template

open Reader (keyword mark ident)

namespace Expr

def literalOf? : Token → Option Value
  | .string contents => some (.string contents)
  | .number x => some (.number x)
  | .keyword .trueKw => some (.bool true)
  | .keyword .falseKw => some (.bool false)
  | .keyword .nullKw => some .null
  | _ => none

def readLiteral : Reader Expr :=
  .literal <$> Reader.token [] literalOf?

/-- A name with a colon makes an argument named; it is tried before an expression, which may start
with the same name. -/
def readArg (inner : Reader Expr) : Reader Arg :=
  (do
    let name ← ident
    mark .colon
    let value ← inner
    return .named name value) <|> (.positional <$> inner)

def readCall (inner : Reader Expr) : Reader Expr := do
  let function ← ident
  let args ← Reader.parenthesized (Reader.commaSeparated (readArg inner))
  return .call function args

def readPath : Reader Expr :=
  .path <$> Reader.separated (mark .dot) ident

def readAtom (inner : Reader Expr) : Reader Expr :=
  readLiteral <|> readCall inner <|> readPath <|> Reader.parenthesized inner

def negate (count : Nat) (operand : Expr) : Expr :=
  count.repeat .not operand

def readUnary (inner : Reader Expr) : Reader Expr := do
  let nots ← Reader.many (keyword .notKw)
  let operand ← readAtom inner
  return negate nots.length operand

def readComparisonOp : Reader BinaryOp :=
  (do mark .equal; return .equal) <|> (do mark .unequal; return .unequal)

def readComparison (inner : Reader Expr) : Reader Expr := do
  let left ← readUnary inner
  let more? ← Reader.optional do
    let op ← readComparisonOp
    let right ← readUnary inner
    return (op, right)
  match more? with
  | some (op, right) => return .binary op left right
  | none => return left

def readChain (op : BinaryOp) (word : Keyword) (operand : Reader Expr) : Reader Expr := do
  let first ← operand
  let more ← Reader.many (do keyword word; operand)
  return more.foldl (.binary op) first

def readConjunction (inner : Reader Expr) : Reader Expr :=
  readChain .and .andKw (readComparison inner)

def readDisjunction (inner : Reader Expr) : Reader Expr :=
  readChain .or .orKw (readConjunction inner)

/-- An expression with at most `depth - 1` expressions inside one another in parentheses. -/
def readNested : Nat → Reader Expr
  | 0 => Reader.stuckAt []
  | depth + 1 => readDisjunction (readNested depth)

/-- An expression. Each expression inside another comes after a parenthesis, so the number of
tokens bounds the nesting. -/
def read : Reader Expr := fun tokens =>
  readNested (tokens.length + 1) tokens

end Expr

def readOutput : Reader (Spanned Expr) := do
  let value ← Reader.spanned Expr.read
  Reader.atEnd
  return value

def readDirective : Reader Directive := do
  let directive ←
    (do keyword .ifKw; .ifBegin <$> Reader.spanned Expr.read) <|>
    (do
      keyword .forKw
      let name ← ident
      keyword .inKw
      .forBegin name <$> Reader.spanned Expr.read) <|>
    (do keyword .elseKw; return .elseBegin) <|>
    (do keyword .endKw; return .blockEnd) <|>
    (.eval <$> Reader.spanned Expr.read)
  Reader.atEnd
  return directive

end ThemeRender.Template
