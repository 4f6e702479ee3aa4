import ServerTrial.Trial.Session
import ServerTrial.Case.Basic

/-!
# Workspaces

Before an editor starts, its script and the source files are written, and what an earlier run has reported is
removed.  Afterwards the workspace may be removed.
-/

namespace ServerTrial

namespace Workspace

/-- What ends a trial whose files cannot be written; a file system that refuses is reported. -/
def refused (c : Case) : Fault → Failure
  | .system _ => .setup ("Failed to write test " ++ c.testId ++ ": ")
  | f => .fault f

/-- Stops at a path that no file can have. -/
def demandSound (p : Path) : Trial Unit :=
  match World.flaw? p with
  | some f => throw (.fault f)
  | none => return ()

/-- Makes a directory with those above it. -/
def ensureDirectory (c : Case) (p : Path) : Trial Unit := do
  demandSound p
  Trial.change (fun e => refused c (.system e)) fun w => w.ensureDirectory p

/-- Writes a text. -/
def storeText (c : Case) (p : Path) (text : String) : Trial Unit := do
  demandSound p
  Trial.change (refused c) fun w => w.storeText p text

/-- Writes a source file.  Contents that are no text are found out here. -/
def writeSource (c : Case) (l : Layout) (f : SourceFile) : Trial Path := do
  let p ← Trial.ofExcept (l.source f.path)
  ensureDirectory c p.parent
  match f.contents with
  | .str text => storeText c p text
  | _ => throw (.fault .kind)
  return p

/-- Writes the script and the source files; the place of the file to open first. -/
def materialize (c : Case) (l : Layout) (script : String) : Trial Path := do
  ensureDirectory c l.sources
  for m in Marker.all do
    Trial.change (fun e => refused c (.system e)) fun w => w.removeFile (l.marker m)
  storeText c l.script script
  let source ← writeSource c l c.source
  for f in c.others do
    let _ ← writeSource c l f
  return source

/-- Removes a workspace as far as it can be removed. -/
def cleanup (l : Layout) : Trial Unit := do
  demandSound l.root
  modify fun s => { s with world := s.world.removeTree l.root }

/-- What the script has reported as an error, with plain line feeds; empty if nothing. -/
def reportedError (w : World) (l : Layout) : Except Fault String := do
  let p := l.marker .error
  if !(← (w.present p).mapError Fault.system) then return ""
  let bytes ← (w.fetch p).mapError Fault.system
  return String.ofList (Utf8.unixLines (Utf8.decodeReplacing (byteValues bytes)).toList)

end Workspace

end ServerTrial
