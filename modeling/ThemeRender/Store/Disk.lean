import ThemeRender.Store.Basic
import ThemeRender.Text.Span
/-!
A store as an operating system keeps it: a tree of directories and files of bytes. Paths are gone
through piece by piece, so `..` leads up from the directory it stands in, and what is on the way has
to be there. Every write moves the clock on.
-/

namespace ThemeRender

/-- The names that lead to a place from the top of the tree. -/
abbrev Location := List (List Char)

inductive DiskEntry where
  /-- `modified` is in nanoseconds. -/
  | file (contents : ByteArray) (modified : Nat)
  | dir (mode : Mode)

structure Disk where
  /-- Everything but the top directory, each with its location. -/
  entries : List (Location × DiskEntry)
  /-- Where paths start that are not absolute. -/
  base : Location
  clock : Nat

namespace Disk

def usualMode : Mode := 0o755

def withBase (base : Location) (clock : Nat) : Disk where
  entries := (List.range base.length).map fun above => (base.take (above + 1), .dir usualMode)
  base
  clock

def get? (disk : Disk) (place : Location) : Option DiskEntry :=
  if place.isEmpty then some (.dir usualMode) else disk.entries.lookup place

def put (disk : Disk) (place : Location) (entry : DiskEntry) : Disk :=
  { disk with entries := disk.entries.filter (·.1 ≠ place) ++ [(place, entry)] }

/-- The longest name, and the longest path with its end, in bytes. -/
def maxName : Nat := 255

def maxPath : Nat := 4096

/-- The place that is reached from a directory. The last piece may name nothing yet. -/
def follow (disk : Disk) : Location → List (List Char) → Except SystemFault Location
  | here, [] => .ok here
  | here, piece :: rest =>
      match disk.get? here with
      | none => .error .noEntry
      | some (.file _ _) => .error .notDirectory
      | some (.dir _) =>
          if Path.isIdle piece then disk.follow here rest
          else if piece = ['.', '.'] then disk.follow here.dropLast rest
          else if maxName < Text.byteLength piece then .error .nameTooLong
          else disk.follow (here ++ [piece]) rest

def locate (disk : Disk) (path : Path) : Except SystemFault Location :=
  if path.text.contains '\x00' then .error .nulInPath
  else if path.isEmpty then .error .noEntry
  else if maxPath ≤ Text.byteLength path.text then .error .nameTooLong
  else disk.follow (if path.isAbsolute then [] else disk.base) (Text.splitAt '/' path.text)

def find (disk : Disk) (path : Path) : Except SystemFault DiskEntry := do
  let place ← disk.locate path
  match disk.get? place with
  | some entry => .ok entry
  | none => .error .noEntry

def isFile (disk : Disk) (path : Path) : Bool :=
  match disk.find path with
  | .ok (.file _ _) => true
  | _ => false

def isDir (disk : Disk) (path : Path) : Bool :=
  match disk.find path with
  | .ok (.dir _) => true
  | _ => false

def readBytes (disk : Disk) (path : Path) : Except SystemFault ByteArray := do
  match ← disk.find path with
  | .file contents _ => .ok contents
  | .dir _ => .error .isDirectory

def readText (disk : Disk) (path : Path) : Except SystemFault String := do
  match String.fromUTF8? (← disk.readBytes path) with
  | some text => .ok text
  | none => .error .notText

def modified (disk : Disk) (path : Path) : Except SystemFault Nat := do
  match ← disk.find path with
  | .file _ time => .ok time
  | .dir _ => .ok 0

def write (disk : Disk) (path : Path) (contents : ByteArray) : Except SystemFault Disk := do
  let place ← disk.locate path
  match disk.get? place, disk.get? place.dropLast with
  | some (.dir _), _ => .error .isDirectory
  | _, none => .error .noEntry
  | _, some (.file _ _) => .error .notDirectory
  | _, some (.dir _) =>
      let clock := disk.clock + 1
      .ok { disk.put place (.file contents clock) with clock }

def setModified (disk : Disk) (path : Path) (time : Nat) : Disk :=
  match disk.locate path with
  | .error _ => disk
  | .ok place =>
      match disk.get? place with
      | some (.file contents _) => disk.put place (.file contents time)
      | _ => disk

def createDir (disk : Disk) (path : Path) (mode : Mode) : Except SystemFault Disk := do
  let place ← disk.locate ⟨(path.text.reverse.dropWhile (· == '/')).reverse⟩
  match disk.get? place with
  | some _ => .error .exists
  | none =>
      match disk.get? place.dropLast with
      | some (.dir _) => .ok (disk.put place (.dir mode))
      | some (.file _ _) => .error .notDirectory
      | none => .error .noEntry

def createDirsWithin : Nat → Path → Mode → Disk → Except SystemFault Disk
  | 0, _, _, _ => .error .noEntry
  | levels + 1, path, mode, disk =>
      if path.isEmpty then .ok disk
      else
        match disk.createDir path mode with
        | .ok disk => .ok disk
        | .error .noEntry =>
            match path.parent? with
            | none => .error .noEntry
            | some parent => do
                let disk ← createDirsWithin levels parent mode disk
                if disk.isDir path then .ok disk else disk.createDir path mode
        | .error fault => if disk.isDir path then .ok disk else .error fault

def createDirs (disk : Disk) (path : Path) (mode : Mode) : Except SystemFault Disk :=
  createDirsWithin (path.text.length + 1) path mode disk

def setMode (disk : Disk) (path : Path) (mode : Mode) : Except SystemFault Disk := do
  let place ← disk.locate path
  match disk.get? place with
  | none => .error .noEntry
  | some (.file _ _) => .ok disk
  | some (.dir _) => .ok (disk.put place (.dir mode))

/-- The files at and below a path, as paths that start with it. -/
def filesBelow (disk : Disk) (path : Path) : List Path :=
  match disk.locate path with
  | .error _ => []
  | .ok place =>
      disk.entries.filterMap fun (other, entry) =>
        match entry with
        | .dir _ => none
        | .file _ _ =>
            if place.isPrefixOf other then
              some ((other.drop place.length).foldl (fun path name => path.join ⟨name⟩) path)
            else none

def changesSince (disk earlier : Disk) : List (Location × DiskEntry) :=
  disk.entries.filter fun (place, entry) =>
    match entry with
    | .dir _ => (earlier.get? place).isNone
    | .file _ time => earlier.clock < time

def attempt (action : Disk → Except SystemFault Disk) : EStateM FileError Disk Unit := fun disk =>
  match action disk with
  | .ok disk => .ok () disk
  | .error fault => .error (.system fault) disk

/-- Every directory takes files. -/
instance : Store Disk where
  isFile := isFile
  isDir := isDir
  isWritable := isDir
  modified disk path := (disk.modified path).mapError .system
  read disk path := (disk.readText path).mapError .system
  write path contents := attempt (·.write path contents.toUTF8)
  createDirs path mode := attempt (·.createDirs path mode)
  setMode path mode := attempt (·.setMode path mode)

end Disk

end ThemeRender
