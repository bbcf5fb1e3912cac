import ThemeRender.Text.Blank
import ThemeRender.Text.Width
/-!
The lines of a source as a report shows them. A line ends at any of the line ends of Unicode, and
positions count characters.
-/

namespace ThemeRender.Diagnostic

def isLineEnd (c : Char) : Bool :=
  (0x0A ≤ c.toNat && c.toNat ≤ 0x0D) || c.toNat == 0x85 || c.toNat == 0x2028 || c.toNat == 0x2029

/-- The lines of a text with their ends. A carriage return and a line feed are one end. -/
def splitLines : List Char → List (List Char)
  | [] => []
  | '\r' :: '\n' :: rest => ['\r', '\n'] :: splitLines rest
  | c :: rest =>
      if isLineEnd c then [c] :: splitLines rest
      else
        match splitLines rest with
        | [] => [[c]]
        | line :: more => (c :: line) :: more

structure SourceLine where
  /-- Counted from one. -/
  number : Nat
  /-- The characters before the line. -/
  offset : Nat
  text : List Char

namespace SourceLine

def stop (line : SourceLine) : Nat :=
  line.offset + line.text.length

def numbered (number offset : Nat) : List (List Char) → List SourceLine
  | [] => []
  | text :: rest => ⟨number, offset, text⟩ :: numbered (number + 1) (offset + text.length) rest

/-- The lines of a source; an empty source is one empty line. -/
def ofSource (source : List Char) : List SourceLine :=
  match splitLines source with
  | [] => [⟨1, 0, []⟩]
  | lines => numbered 1 0 lines

/-- The line of a position, which may be just after the last character. -/
def at? (source : List Char) (position : Nat) : Option SourceLine :=
  if position ≤ source.length then (ofSource source).findRev? (·.offset ≤ position) else none

def shown (line : SourceLine) : List Char :=
  Text.trimEnd line.text

/-- How wide a character is in a column; a tab reaches to the next multiple of four. -/
def columnWidth (column : Nat) (c : Char) : Nat :=
  if c = '\t' then 4 - column % 4
  else if Text.isBlank c then 1
  else Text.width c

/-- How wide each of the first `count` columns below a line is. -/
def columnWidths (line : SourceLine) (count : Nat) : List Nat :=
  let known := line.shown.mapIdx columnWidth
  (known ++ List.replicate (count - known.length) 1).take count

end SourceLine

end ThemeRender.Diagnostic
