import ThemeRender.Command.Run
/-!
The program. What a command line can ask about is copied from the operating system, the command
works on the copy, and what it made or wrote is put back.
-/

namespace ThemeRender.Main

def copyDepth : Nat := 64

def location (text : String) : Location :=
  (Text.splitAt '/' text.toList).filter (!·.isEmpty)

def absolute (place : Location) : String :=
  "/" ++ "/".intercalate (place.map String.ofList)

def copyEntry (disk : Disk) (path : Path) : IO Disk := do
  match disk.locate path with
  | .error _ => return disk
  | .ok place =>
      let here ← IO.currentDir
      match ← (here / absolute place).metadata.toBaseIO with
      | .error _ => return disk
      | .ok info =>
          let time := info.modified.sec.toNat * 1000000000 + info.modified.nsec.toNat
          match info.type with
          | .dir => return disk.put place (.dir Disk.usualMode)
          | .file =>
              match ← (IO.FS.readBinFile (absolute place)).toBaseIO with
              | .error _ => return disk
              | .ok contents =>
                  let disk := disk.put place (.file contents time)
                  return { disk with clock := max disk.clock time }
          | _ => return disk

/-- Copies what is at a path, with the directories it leads through. -/
def copyPath (disk : Disk) (path : Path) : IO Disk := do
  let pieces := Text.splitAt '/' path.text
  (List.range pieces.length).foldlM (fun disk last =>
    copyEntry disk ⟨Path.joinPieces (pieces.take (last + 1))⟩) disk

/-- Copies what is below a path that is copied. -/
def copyBelow : Nat → Disk → Path → IO Disk
  | 0, disk, _ => return disk
  | depth + 1, disk, path => do
      if !disk.isDir path then return disk
      match disk.locate path with
      | .error _ => return disk
      | .ok place =>
          let here ← IO.currentDir
          match ← (here / absolute place).readDir.toBaseIO with
          | .error _ => return disk
          | .ok found =>
              found.foldlM (fun disk entry => do
                let path := path.join (.ofString entry.fileName)
                copyBelow depth (← copyEntry disk path) path) disk

def copyTree (disk : Disk) (path : Path) : IO Disk := do
  copyBelow copyDepth (← copyPath disk path) path

def copyFor (request : Command.Request) (disk : Disk) : IO Disk := do
  let named := request.config?.toList ++
    match request.task with
    | .render _ _ locals? _ => locals?.toList
    | .check => []
  let disk ← named.foldlM copyPath disk
  match Command.settings disk request with
  | .error _ => return disk
  | .ok settings => copyTree (← copyTree disk settings.viewsRoot) settings.tempRoot

def accessRight (mode : Mode) : IO.AccessRight where
  read := mode.testBit 2
  write := mode.testBit 1
  execution := mode.testBit 0

def fileRight (mode : Mode) : IO.FileRight where
  user := accessRight (mode / 0o100)
  group := accessRight (mode / 0o10)
  other := accessRight mode

def putBack (earlier later : Disk) : IO Unit :=
  (later.changesSince earlier).forM fun (place, entry) =>
    match entry with
    | .dir mode => do
        IO.FS.createDirAll (absolute place)
        IO.setAccessRights (absolute place) (fileRight mode)
    | .file contents _ => IO.FS.writeBinFile (absolute place) contents

end ThemeRender.Main

def main (words : List String) : IO UInt32 := do
  let here ← IO.currentDir
  let empty := ThemeRender.Disk.withBase (ThemeRender.Main.location here.toString) 0
  let disk ←
    match ThemeRender.Command.Request.ofWords words with
    | .error _ => pure empty
    | .ok request => ThemeRender.Main.copyFor request empty
  let outcome := ThemeRender.Command.run words disk
  ThemeRender.Main.putBack disk outcome.disk
  (← IO.getStdout).write ⟨outcome.output.toArray⟩
  (← IO.getStderr).putStr outcome.errors
  return UInt32.ofNat outcome.code
