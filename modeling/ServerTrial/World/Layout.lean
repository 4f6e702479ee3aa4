import ServerTrial.World.Path
import ServerTrial.Failure

/-!
# The layout of a workspace

Every case has a workspace of its own below the directory for temporary files: the script for the editor, the
files by which the editor reports (markers), and the source files in a directory of their own.
-/

namespace ServerTrial

/-- The directory that holds all workspaces. -/
def harnessDirectory : String := "lspresso-shot"

structure Layout where
  testId : String
  base : Path
  deriving DecidableEq, Repr, Inhabited

/-- The files by which the editor reports. -/
inductive Marker where
  | results | empty | error | log | timeout
  deriving DecidableEq, Repr, Inhabited

namespace Marker

def all : List Marker := [results, empty, error, log, timeout]

def fileName : Marker → String
  | results => "results.json"
  | empty => "empty"
  | error => "error.txt"
  | log => "log.txt"
  | timeout => "timeout"

end Marker

namespace Layout

def root (l : Layout) : Path := (l.base.child harnessDirectory).child l.testId

def sources (l : Layout) : Path := l.root.child "src"

def script (l : Layout) : Path := l.root.child "init.lua"

def marker (l : Layout) (m : Marker) : Path := l.root.child m.fileName

/-- Where a source file goes.  Its path must be relative and must stay below the directory for source files. -/
def source (l : Layout) (relative : String) : Except Failure Path :=
  let rel := Path.ofString relative
  if relative.isEmpty || rel.isAbsolute then .error (.invalidPath relative)
  else
    let sources := l.sources.normalize
    let candidate := (sources.join rel).normalize
    if sources.isAbove candidate then .ok candidate else .error (.invalidPath relative)

end Layout

end ServerTrial
