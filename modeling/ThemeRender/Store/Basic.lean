import ThemeRender.Store.Path
/-!
Where templates are kept. A store answers questions about files and directories and can be written
to; a theme is rendered in the same way whatever the store is.
-/

namespace ThemeRender

inductive SystemFault where
  | noEntry
  | denied
  | exists
  | notDirectory
  | isDirectory
  | nameTooLong
  | nulInPath
  | notText
deriving DecidableEq, Repr

def SystemFault.message : SystemFault → String
  | .noEntry => "No such file or directory (os error 2)"
  | .denied => "Permission denied (os error 13)"
  | .exists => "File exists (os error 17)"
  | .notDirectory => "Not a directory (os error 20)"
  | .isDirectory => "Is a directory (os error 21)"
  | .nameTooLong => "File name too long (os error 36)"
  | .nulInPath => "file name contained an unexpected NUL byte"
  | .notText => "stream did not contain valid UTF-8"

inductive FileError where
  | notFound (path : Path)
  | permissionDenied (path : Path)
  | system (fault : SystemFault)
deriving DecidableEq, Repr

def FileError.message : FileError → String
  | .notFound path => s!"{path.display}: no such file or directory"
  | .permissionDenied path => s!"{path.display}: permission denied"
  | .system fault => fault.message

abbrev Mode := Nat

def Mode.allowsOwnerWrite (mode : Mode) : Bool :=
  mode.testBit 7

class Store (σ : Type) where
  isFile : σ → Path → Bool
  isDir : σ → Path → Bool
  isWritable : σ → Path → Bool
  /-- When a file was last written, on the clock of the store. -/
  modified : σ → Path → Except FileError Nat
  read : σ → Path → Except FileError String
  write : Path → String → EStateM FileError σ Unit
  createDirs : Path → Mode → EStateM FileError σ Unit
  setMode : Path → Mode → EStateM FileError σ Unit

end ThemeRender
