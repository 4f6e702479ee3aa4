import ServerTrial.World.Tree
import ServerTrial.Protocol.Geometry
import ServerTrial.Failure
import ServerTrial.Text.Classes

/-!
# Cases

A case says which server to try on which source files, where the cursor stands, when the server is ready, how
long to wait, and which editor to use.
-/

namespace ServerTrial

/-- When a server answers requests: at once, or after progress on a token has ended a number of times. -/
inductive Startup where
  | immediate
  | progress (threshold : Int) (token : String)
  deriving DecidableEq, Repr, Inhabited

namespace Startup

def threshold : Startup → Int
  | immediate => 1
  | progress n _ => n

/-- Waits for the end of progress; it has to end at least once. -/
def progress? (threshold : Int) (token : String) : Except Fault Startup :=
  if threshold < 1 then .error (.value ("Progress threshold must be positive, got " ++ toString threshold))
  else .ok (.progress threshold token)

def inspect : Startup → String
  | immediate => "Immediate()"
  | progress n token => "Progress(threshold=" ++ toString n ++ ", token=" ++ Text.quote token ++ ")"

end Startup

/-- A file of the workspace.  Its contents should be a text; a case file may give something else, which shows
when the file is written. -/
structure SourceFile where
  path : String
  contents : Data
  deriving Inhabited

namespace SourceFile

def extension (f : SourceFile) : String := (Path.ofString f.path).extension

end SourceFile

structure Case where
  server : String
  source : SourceFile
  cursor : Option Position
  others : List SourceFile
  startup : Startup
  timeout : Float
  cleanup : Bool
  editor : String
  testId : String
  deriving Inhabited

namespace World

/-- The directories in which a name is looked for: those of the search path, none if that is empty, and those of the
system if there is none. -/
def searched (w : World) : List Path :=
  match w.environment? "PATH" with
  | some "" => []
  | some search => (splitText ':' search).map Path.ofString
  | none => [⟨.slash, ["bin"]⟩, ⟨.slash, ["usr", "bin"]⟩]

/-- Does a command name a file that can be run, given as a path or found in a directory of the search path?  A text
without a component, such as a dot, is the name of no file. -/
def canRun (w : World) (command : String) : Except Fault Bool :=
  if command.toList.contains '/' then
    match w.probe (Path.ofString command) with
    | .ok (some (.file _ executable)) => .ok executable
    | .ok _ => .ok false
    | .error e => .error (.system e)
  else .ok (!(Path.ofString command).parts.isEmpty && w.searched.any fun d => w.isRunnable (d.child command))

end World

namespace Case

def layout (c : Case) (w : World) : Layout := ⟨c.testId, w.temporary⟩

/-- A character that may stand in an extension. -/
def isExtensionChar (c : Char) : Bool := Text.isLetter c || Text.isDigit c || c == '_' || c == '+' || c == '-'

/-- May the text be an extension?  A line feed at its end is passed over. -/
def isExtension (text : String) : Bool :=
  let cs := text.toList
  let body := if cs.getLast? = some '\n' then cs.dropLast else cs
  !body.isEmpty && body.all isExtensionChar

/-- The extension of the source file, by which the editor tells its type. -/
def fileExtension (c : Case) : Except Failure String :=
  let extension := c.source.extension
  if extension.isEmpty then .error (.missingExtension c.source.path)
  else if isExtension extension then .ok extension
  else .error (.invalidExtension c.source.path)

/-- All source files, the one that is opened first. -/
def files (c : Case) : List SourceFile := c.source :: c.others

/-- Stops with a failure unless a command can be run. -/
def demand (w : World) (command : String) (failure : Failure) : Except Failure Unit :=
  match w.canRun command with
  | .ok true => .ok ()
  | .ok false => .error failure
  | .error f => .error (.fault f)

/-- Can the case be tried?  Editor and server can be run, every file has a place, the source an extension. -/
def validate (c : Case) (w : World) : Except Failure Unit := do
  demand w c.editor (.editorNotExecutable c.editor)
  demand w c.server (.serverNotExecutable c.server)
  c.files.forM fun f => ((c.layout w).source f.path).map fun _ => ()
  c.fileExtension.map fun _ => ()

end Case

end ServerTrial
