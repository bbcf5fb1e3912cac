import ThemeRender.Text.Digits
import ThemeRender.Toml.Scan

namespace ThemeRender.Toml.Scan

def isBasic (c : Char) : Bool :=
  isPrintable c && c ≠ '"' && c ≠ '\\'

def isLiteral (c : Char) : Bool :=
  isPrintable c && c ≠ '\''

def codePoint (digits : Nat) : Scan Char := do
  let n ← Text.numberOf 16 <$> exactly digits (Text.isDigitOf 16)
  if n.isValidChar then return Char.ofNat n else failure

def escape : Scan Char := do
  char '\\'
  match ← one fun _ => true with
  | 'b' => return '\x08'
  | 't' => return '\t'
  | 'n' => return '\n'
  | 'f' => return '\x0c'
  | 'r' => return '\r'
  | '"' => return '"'
  | '\\' => return '\\'
  | 'u' => codePoint 4
  | 'U' => codePoint 8
  | _ => failure

/-- A backslash at the end of a line: the line end and the blanks after it do not count. -/
def continuation : Scan Unit := do
  char '\\'
  blanks
  newline
  discard (many (newline <|> discard (one fun c => c == ' ' || c == '\t')))

def basicString : Scan (List Char) := do
  char '"'
  let contents ← many (one isBasic <|> escape)
  char '"'
  return contents

def literalString : Scan (List Char) := do
  char '\''
  let contents ← run isLiteral
  char '\''
  return contents

def innerQuotes (quote : Char) : Scan (List Char) := do
  let quotes ← run (· == quote)
  if quotes.length = 1 ∨ quotes.length = 2 then return quotes else failure

/-- Three quotes that end a string of several lines, after up to two that belong to it. -/
def closingQuotes (quote : Char) : Scan (List Char) := fun s =>
  let quotes := (s.takeWhile (· == quote)).take 5
  if 3 ≤ quotes.length then some (quotes.drop 3, s.drop quotes.length) else none

/-- A string of several lines made of pieces. A line end right after the opening does not count. -/
def longString (quote : Char) (piece : Scan (List Char)) : Scan (List Char) := do
  discard (exactly 3 (· == quote))
  discard (optional newline)
  let contents ← many (piece <|> innerQuotes quote)
  let last ← closingQuotes quote
  return contents.flatten ++ last

def lineFeed : Scan (List Char) := do
  newline
  return ['\n']

def longBasicString : Scan (List Char) :=
  longString '"' <|
    ((fun c => [c]) <$> (one isBasic <|> escape)) <|> ((fun _ => []) <$> continuation) <|> lineFeed

def longLiteralString : Scan (List Char) :=
  longString '\'' <| ((fun c => [c]) <$> one isLiteral) <|> lineFeed

def quoted : Scan String :=
  String.ofList <$> (longBasicString <|> basicString <|> longLiteralString <|> literalString)

end ThemeRender.Toml.Scan
