import ThemeRender.Store.Basic
import ThemeRender.Store.PathMap
/-!
A store in memory with a clock of its own. Every write moves the clock on by one second, so the
times of files are ordered as their writes are. Directories can be locked: neither they nor what is
below them can be made, written to or given another mode.
-/

namespace ThemeRender

structure MemoryFile where
  contents : String
  modified : Nat
deriving DecidableEq, Repr

structure MemoryStore where
  files : PathMap MemoryFile
  dirs : PathMap Mode
  locked : List Path
  /-- The bits that directories made by `createDirs` do not get. -/
  umask : Mode
  /-- The time of the last write, in seconds. -/
  clock : Nat

namespace MemoryStore

def empty : MemoryStore := ⟨.empty, .empty, [], 0, 0⟩

instance : Inhabited MemoryStore := ⟨empty⟩

def usualMode : Mode := 0o755

def isLocked (store : MemoryStore) (path : Path) : Bool :=
  store.locked.any path.startsWith

def insertDirs (store : MemoryStore) (path : Path) (mode : Mode) : MemoryStore :=
  { store with
    dirs := (path.ancestors.filter (!·.isEmpty)).foldl (·.insertNew · mode) store.dirs }

def nearestDir? (store : MemoryStore) (path : Path) : Option Path :=
  (path.ancestors.filter (!·.isEmpty)).find? store.dirs.contains

def isWritable (store : MemoryStore) (path : Path) : Bool :=
  !store.isLocked path && ((store.dirs.get? path).map Mode.allowsOwnerWrite).getD false

def putFile (store : MemoryStore) (path : Path) (contents : String) : MemoryStore :=
  { store with
    clock := store.clock + 1
    files := store.files.insert path ⟨contents, store.clock + 1⟩ }

def addFile (store : MemoryStore) (path : Path) (contents : String) : MemoryStore :=
  match path.parent? with
  | none => store.putFile path contents
  | some parent => (store.insertDirs parent usualMode).putFile path contents

/-- Adds a directory with a mode; those above it get the usual one. -/
def addDir (store : MemoryStore) (path : Path) (mode : Mode) : MemoryStore :=
  let store := store.insertDirs path usualMode
  { store with dirs := store.dirs.insert path mode }

/-- Marks a file as written now. The clock moves on even if there is none. -/
def touch (store : MemoryStore) (path : Path) : MemoryStore :=
  { store with
    clock := store.clock + 1
    files := store.files.update path fun file => { file with modified := store.clock + 1 } }

def setModified (store : MemoryStore) (path : Path) (time : Nat) : MemoryStore :=
  { store with files := store.files.update path fun file => { file with modified := time } }

def setUmask (store : MemoryStore) (umask : Mode) : MemoryStore :=
  { store with umask }

def lock (store : MemoryStore) (path : Path) : MemoryStore :=
  { store with locked := path :: store.locked }

def dirMode? (store : MemoryStore) (path : Path) : Option Mode :=
  store.dirs.get? path

def contents? (store : MemoryStore) (path : Path) : Option String :=
  (store.files.get? path).map MemoryFile.contents

def masked (store : MemoryStore) (mode : Mode) : Mode :=
  mode &&& (0xFFFFFFFF ^^^ store.umask)

def writeFile (path : Path) (contents : String) : EStateM FileError MemoryStore Unit := do
  let store ← get
  match path.parent? with
  | none => throw (.notFound path)
  | some parent =>
      if !store.dirs.contains parent then throw (.notFound parent)
      else if !store.isWritable parent then throw (.permissionDenied parent)
      else set (store.putFile path contents)

def createDirs (path : Path) (mode : Mode) : EStateM FileError MemoryStore Unit := do
  let store ← get
  if store.isLocked path then throw (.permissionDenied path)
  else
    match store.nearestDir? path with
    | none => set (store.insertDirs path (store.masked mode))
    | some existing =>
        if existing.same path then return
        else if store.isWritable existing then set (store.insertDirs path (store.masked mode))
        else throw (.permissionDenied existing)

def setMode (path : Path) (mode : Mode) : EStateM FileError MemoryStore Unit := do
  let store ← get
  if store.isLocked path then throw (.permissionDenied path)
  else if store.dirs.contains path then set { store with dirs := store.dirs.insert path mode }
  else throw (.notFound path)

instance : Store MemoryStore where
  isFile store path := store.files.contains path
  isDir store path := store.dirs.contains path
  isWritable := isWritable
  modified store path :=
    match store.files.get? path with
    | some file => .ok file.modified
    | none => .error (.notFound path)
  read store path :=
    match store.contents? path with
    | some contents => .ok contents
    | none => .error (.notFound path)
  write := writeFile
  createDirs := createDirs
  setMode := setMode

end MemoryStore

end ThemeRender
