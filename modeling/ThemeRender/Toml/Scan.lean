import ThemeRender.Text.Cut
/-!
Scanners of characters. A scanner finds something at the front of a text and leaves what follows, or
it fails and takes nothing.
-/

namespace ThemeRender.Toml

abbrev Scan := StateT (List Char) Option

namespace Scan

variable {α : Type}

def one (p : Char → Bool) : Scan Char
  | [] => none
  | c :: rest => if p c then some (c, rest) else none

def char (c : Char) : Scan Unit :=
  discard (one (· == c))

def word (letters : String) : Scan Unit := fun s =>
  (Text.dropLead? letters.toList s).map ((), ·)

def run (p : Char → Bool) : Scan (List Char) := fun s =>
  some (s.takeWhile p, s.dropWhile p)

def exactly (count : Nat) (p : Char → Bool) : Scan (List Char) := fun s =>
  let taken := s.take count
  if taken.length = count && taken.all p then some (taken, s.drop count) else none

def atEnd : Scan Unit
  | [] => some ((), [])
  | _ => none

def optional (scan : Scan α) : Scan (Option α) :=
  (some <$> scan) <|> pure none

/-- As many in a row as there are. Stops after one that takes nothing. -/
def many (scan : Scan α) : Scan (List α) := fun s =>
  match scan s with
  | none => some ([], s)
  | some (a, rest) =>
      if rest.length < s.length then (many scan rest).map fun (more, rest) => (a :: more, rest)
      else some ([a], rest)
termination_by s => s.length

def separated (separator : Scan Unit) (scan : Scan α) : Scan (List α) := do
  let first ← scan
  let more ← many (do separator; scan)
  return first :: more

/-! Blanks and comments -/

/-- The characters of comments and literal strings: all but control characters other than a tab. -/
def isPrintable (c : Char) : Bool :=
  c == '\t' || (0x20 ≤ c.toNat && c.toNat ≠ 0x7F)

def blanks : Scan Unit :=
  discard (run fun c => c == ' ' || c == '\t')

def newline : Scan Unit :=
  char '\n' <|> word "\r\n"

def comment : Scan Unit := do
  char '#'
  discard (run isPrintable)

def lineEnd : Scan Unit := do
  blanks
  discard (optional comment)
  newline <|> atEnd

def gaps : Scan Unit := do
  discard (many (do blanks; discard (optional comment); newline))
  blanks

end Scan

end ThemeRender.Toml
