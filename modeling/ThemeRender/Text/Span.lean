/-!
Byte positions in a text. A span counts bytes of the UTF-8 form, and a line number counts the
line feeds before a position.
-/

namespace ThemeRender.Text

def byteLength : List Char → Nat
  | [] => 0
  | c :: rest => c.utf8Size + byteLength rest

@[simp] theorem byteLength_nil : byteLength [] = 0 := rfl

@[simp] theorem byteLength_cons (c : Char) (rest : List Char) :
    byteLength (c :: rest) = c.utf8Size + byteLength rest := rfl

@[simp] theorem byteLength_append (s t : List Char) :
    byteLength (s ++ t) = byteLength s + byteLength t := by
  induction s with
  | nil => simp
  | cons c rest ih => simp [ih, Nat.add_assoc]

/-- The text of the first `bytes` bytes; a character cut in two is left out. -/
def takeBytes : Nat → List Char → List Char
  | _, [] => []
  | bytes, c :: rest =>
      if c.utf8Size ≤ bytes then c :: takeBytes (bytes - c.utf8Size) rest else []

/-- The 1-based number of the line that holds the byte at `offset`. -/
def lineAt (source : List Char) (offset : Nat) : Nat :=
  (takeBytes offset source).count '\n' + 1

end ThemeRender.Text

namespace ThemeRender

/-- A range of bytes of a source text. `stop` may lie before `start`. -/
structure Span where
  start : Nat
  stop : Nat
deriving DecidableEq, Repr

def Span.shift (offset : Nat) (span : Span) : Span :=
  ⟨span.start + offset, span.stop + offset⟩

@[simp] theorem Span.shift_shift (a b : Nat) (span : Span) :
    (span.shift a).shift b = span.shift (a + b) := by
  simp [Span.shift, Nat.add_assoc]

structure Spanned (α : Type) where
  node : α
  span : Span
deriving Repr

def Spanned.shift {α : Type} (offset : Nat) (x : Spanned α) : Spanned α :=
  ⟨x.node, x.span.shift offset⟩

end ThemeRender
