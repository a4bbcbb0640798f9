/-
ApiSurface.Main — the program.

What a run does is decided on a disk that is a value. So the program first puts
what the run may look at onto such a disk, lets the run happen there, and then
brings the changes to the host.
-/
import ApiSurface.CommandLine.Run
import Std.Time.Format

namespace ApiSurface.Main

/-! ## 1. From the host -/

/-- The text of a place. -/
def placeText (place : Place) : String := (Path.mk .root place).text

/-- The places around a place, from the root on. -/
def around (place : Place) : List Place := (List.range place.length).map place.take

/-- Puts a file or folder of the host on the disk, with what it holds if `isDeep`. A link is
what it leads to, but a folder is not entered through it. -/
partial def fetch (d : Disk) (place : Place) (isDeep : Bool) : IO Disk := do
  let here := (← IO.currentDir) / placeText place
  if ← here.isDir then
    let d := d.put place .folder
    if !isDeep then return d
    let fetchEntry (d : Disk) (entry : IO.FS.DirEntry) : IO Disk := do
      let isLink := (← entry.path.symlinkMetadata).type == .symlink
      fetch d (place ++ [entry.fileName]) (!isLink)
    (← here.readDir).foldlM fetchEntry d
  else if ← here.pathExists then
    return d.put place (.file (← IO.FS.readBinFile here))
  else return d

/-- Puts a place of the host and the folders around it on the disk. -/
def fetchWithFolders (isDeep : Bool) (d : Disk) (place : Place) : IO Disk := do
  let d ← (around place).foldlM (fun d folder => fetch d folder false) d
  fetch d place isDeep

/-- Puts the settings file that a path means on the disk. -/
def fetchSettings (h : Host) (d : Disk) (p : Path) : IO Disk := do
  let place := (Path.resolved h.home ((p.expanded? h.personal).getD p)).parts
  [place, place ++ [Settings.fileName]].foldlM (fetchWithFolders false) d

/-- Puts on the disk what a command line and the settings make a run look at. -/
def fetchAll (home : Place) (d : Disk) (a : CommandLine.Arguments) (s : Settings) : IO Disk := do
  let places (paths : List Path) : List Place := paths.map fun p => (Path.resolved home p).parts
  let written := s.sources.map s.outputPath ++ (CommandLine.logRequest a s).file.toList
  let d ← (places written).foldlM (fetchWithFolders false) d
  (places (s.sources ++ s.classpath)).foldlM (fetchWithFolders true) d

/-- The disk that a run needs. -/
def diskFor (h : Host) (texts : List String) : IO Disk := do
  let d ← fetchWithFolders false .empty h.home
  match CommandLine.parse texts with
  | .error _ => return d
  | .ok a =>
    let d ← fetchSettings h d (.ofString (a.config.value?.getD "."))
    match a.settings Settings.reader d h with
    | .error _ => return d
    | .ok s => fetchAll h.home d a s

/-! ## 2. To the host -/

/-- The nodes that a run has made or changed. -/
def changes (before after : Disk) : List (Place × Node) :=
  after.nodes.filter fun entry => before.node? entry.1 != some entry.2

/-- Brings one node to the host. A file is written beside its place first. -/
def bring (place : Place) : Node → IO Unit
  | .folder => IO.FS.createDirAll (placeText place)
  | .file bytes => do
    let beside := placeText (place.dropLast ++ ["." ++ place.getLast?.getD "" ++ ".new"])
    IO.FS.writeBinFile beside bytes
    try IO.FS.rename beside (placeText place)
    catch why =>
      IO.FS.removeFile beside
      throw why

/-! ## 3. The program -/

/-- The code of a run that ends without one. -/
def codeOf : CommandLine.Ending → UInt32
  | .exit code => UInt32.ofNat code
  | .escape _ => 1

/-- The place of a folder of the host. -/
def placeOf (folder : String) : Place := (Path.ofString folder).parts

/-- Where the program runs. -/
def host : IO Host := do
  let personal := ((← IO.getEnv "HOME").map placeOf).getD []
  return .willing (placeOf (← IO.currentDir).toString) personal

/-- The present date and time, to the millisecond. -/
def stamp : IO String :=
  return (← Std.Time.PlainDateTime.now).format "uuuu-MM-dd HH:mm:ss,SSS"

end ApiSurface.Main

/-- Carries out a command line. -/
def main (texts : List String) : IO UInt32 := do
  let host ← ApiSurface.Main.host
  let before ← ApiSurface.Main.diskFor host texts
  let result := ApiSurface.CommandLine.run ApiSurface.Settings.reader (← ApiSurface.Main.stamp)
    host before texts
  (ApiSurface.Main.changes before result.disk).forM fun (place, node) =>
    ApiSurface.Main.bring place node
  (← IO.getStdout).putStr result.output
  (← IO.getStderr).putStr result.errors
  return ApiSurface.Main.codeOf result.ending
