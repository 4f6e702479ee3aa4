import ServerTrial.CommandLine.Perform

/-!
# The program

Reads from disk what a command may look at, performs the command, prints its answer, and writes to disk what it has
changed.  Editors are not started from here: a run writes its workspace and then reports that.
-/

namespace ServerTrial.Program

/-- What stands at a path on disk. -/
def nodeOnDisk (path : String) : IO (Option Node) := do
  try
    let real ← IO.FS.realPath path
    if ← real.isDir then return some .directory
    return some (.file (← IO.FS.readBinFile real).toList false)
  catch _ => return none

def placeText (p : Place) : String := "/" ++ "/".intercalate p

/-- Takes a path and the directories above it into the world, as far as they are there. -/
def look (w : World) (path : Path) : IO World := do
  let place := (w.resolve path).parts
  let mut w := w
  for n in List.range (place.length + 1) do
    if let some node ← nodeOnDisk (placeText (place.take n)) then w := w.set (place.take n) node
  return w

/-- The environment variables that matter. -/
def variableNames : List String := ["HOME", "XDG_CONFIG_HOME", "PATH", "LSPRESSO_NVIM", "TMPDIR"]

/-- The world as far as a command with these arguments may look at it. -/
def worldOnDisk (arguments : List String) : IO World := do
  let mut environment := []
  for name in variableNames do
    if let some value ← IO.getEnv name then environment := environment ++ [(name, value)]
  let current := (Path.ofString (← IO.currentDir).toString).parts
  let temporary := Path.ofString ((Data.find? "TMPDIR" environment).getD "/tmp")
  let id ← IO.rand 0 (UInt64.size - 1)
  let mut w : World := ⟨[], environment, current, temporary, toString id⟩
  for path in [⟨.slash, current⟩, temporary, w.configPath] ++ arguments.map Path.ofString do
    w ← look w path
  return w

/-- Writes what is new or changed at a place. -/
def writeBack (old : World) (place : Place) (node : Node) : IO Unit := do
  if old.at? place = some node then return
  match node with
  | .directory => IO.FS.createDirAll (placeText place)
  | .file content _ => IO.FS.writeBinFile (placeText place) ⟨content.toArray⟩
  | .link _ => return

/-- An editor that does not start. -/
def noEditor : Editor := ⟨some "editors cannot be started from here", none, []⟩

/-- Performs the command that the arguments spell; the status is the answer. -/
def run (arguments : List String) : IO UInt32 := do
  let old ← worldOnDisk arguments
  let (answer, session) := CommandLine.perform arguments noEditor (Session.ofWorld old)
  for (place, node) in session.world.nodes do writeBack old place node
  let answer := if ← (← IO.getStdout).isTty then answer else answer.bare
  IO.print answer.output
  IO.eprint answer.errors
  if let some fault := answer.fault then IO.eprintln fault.message
  return answer.status.toUInt32

end ServerTrial.Program

def main (arguments : List String) : IO UInt32 := ServerTrial.Program.run arguments
