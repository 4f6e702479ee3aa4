import ServerTrial.CommandLine.Commands
import ServerTrial.Case.Skeleton
import ServerTrial.Trial.Run
import ServerTrial.Text.Capital
import ServerTrial.Report.Colour

/-!
# Performing commands

A command answers with what it prints and with a status: zero when all went well, one when a case failed or
something else did, two when the command was not understood.  A fault ends a command at once.
-/

namespace ServerTrial.CommandLine

structure Answer where
  output : String
  errors : String
  status : Nat
  fault : Option Failure
  deriving Inhabited

namespace Answer

def printed (text : String) : Answer := ⟨text, "", 0, none⟩

/-- Something went wrong and is reported. -/
def failed (text : String) : Answer := ⟨"", "Error: " ++ text ++ "\n", 1, none⟩

/-- Something went wrong that nobody foresaw. -/
def faulted (f : Failure) : Answer := ⟨"", "", 1, some f⟩

def misused (g : Grammar) (e : UsageError) : Answer := ⟨"", g.errorText e, 2, none⟩

/-- A report is printed, a fault is not. -/
def ofFailure (f : Failure) : Answer := if f.isReport then failed f.message else faulted f

/-- Without colours. -/
def bare (a : Answer) : Answer := { a with output := Colour.bare a.output, errors := Colour.bare a.errors }

end Answer

/-! ### Arguments -/

/-- Why the arguments of a command are not taken: the command was not understood, or no file can have the path that
stands for one. -/
inductive Obstacle where
  | misuse (e : UsageError)
  | fault (f : Fault)

/-- Does a path that was typed end in a name?  A slash or a dot behind it asks for a directory. -/
def endsInName (typed : String) : Bool :=
  match (splitText '/' typed).getLast? with
  | some part => part != "" && part != "."
  | none => false

/-- What stands at the end of a path that was typed. -/
def typedNode (w : World) (typed : String) : Option Node :=
  if typed.isEmpty || typed.utf8ByteSize > World.pathLimit then none
  else
    match w.find? (Path.ofString typed) with
    | some (.file content executable) => if endsInName typed then some (.file content executable) else none
    | other => other

/-- A file that is read must be there, and no directory may stand for a file. -/
def checkFile (w : World) (mustExist : Bool) (word typed : String) : Except Obstacle Unit :=
  match World.flaw? (Path.ofString typed) with
  | some f => .error (.fault f)
  | none =>
    match typedNode w typed with
    | some .directory => .error (.misuse (.invalid word ("File " ++ Text.quote typed ++ " is a directory.")))
    | some _ => .ok ()
    | none =>
      if mustExist then .error (.misuse (.invalid word ("File " ++ Text.quote typed ++ " does not exist.")))
      else .ok ()

/-- No further arguments. -/
def checkNoMore (arguments : List String) : Except Obstacle Unit :=
  if arguments.isEmpty then .ok () else .error (.misuse (.unexpected arguments))

/-- The one file that a command reads. -/
def oneFile (w : World) (mustExist : Bool) (word : String) (arguments : List String) : Except Obstacle String :=
  match arguments with
  | [] => .error (.misuse (.missingArgument word))
  | typed :: _ => (checkFile w mustExist word typed).map fun _ => typed

/-- The value of a switch that has to be given. -/
def required (s : Scan) (key : String) : Except Obstacle String :=
  match s.value? key with
  | some v => .ok v
  | none => .error (.misuse (.missingOption key))

/-! ### Running cases -/

/-- Runs case files one after the other, each with its outcome.  A fault ends the row, and so does a failure if
asked for. -/
def runFiles (exitFirst : Bool) (e : Editor) : List String → Session → List (String × Except Failure Unit) × Session
  | [], s => ([], s)
  | typed :: rest, s =>
    let (outcome, s) :=
      match CaseFile.load s.world (Path.ofString typed) with
      | .ok f => (f.run e).runIn s
      | .error f => (.error f, s)
    let goOn :=
      match outcome with
      | .ok _ => true
      | .error f => f.isReport && !exitFirst
    if goOn then
      let (others, s) := runFiles exitFirst e rest s
      ((typed, outcome) :: others, s)
    else ([(typed, outcome)], s)

/-- What is printed for a file. -/
def verdictText (verdict : String × Except Failure Unit) : String :=
  match verdict.2 with
  | .ok _ => Colour.green.paint "ok" ++ " " ++ verdict.1 ++ "\n"
  | .error f => if f.isReport then Colour.red.paint "FAIL" ++ " " ++ verdict.1 ++ "\n" ++ f.message ++ "\n" else ""

/-- The report that an outcome is, if it is one. -/
def isFailure : Except Failure Unit → Bool
  | .ok _ => false
  | .error f => f.isReport

/-- The fault that an outcome is, if it is one. -/
def fault? : Except Failure Unit → Option Failure
  | .ok _ => none
  | .error f => if f.isReport then none else some f

/-- The line below the verdicts on several files; a file that was not run counts as passed. -/
def tallyText (files : Nat) (failures : Nat) : String :=
  if files > 1 then "\n" ++ toString (files - failures) ++ " passed, " ++ toString failures ++ " failed\n" else ""

/-- The answer to running files, given their outcomes. -/
def runAnswer (files : Nat) (verdicts : List (String × Except Failure Unit)) : Answer :=
  let failures := verdicts.countP fun v => isFailure v.2
  let text := String.join (verdicts.map verdictText)
  match verdicts.findSome? fun v => fault? v.2 with
  | some f => ⟨text, "", 1, some f⟩
  | none => ⟨text ++ tallyText files failures, "", if failures = 0 then 0 else 1, none⟩

/-! ### The commands -/

/-- The answer where the arguments are not taken. -/
def hindered (g : Grammar) : Obstacle → Answer
  | .misuse e => .misused g e
  | .fault f => .faulted (.fault f)

/-- The answer of a command that only looks. -/
def answerOf (g : Grammar) (x : Except Obstacle Answer) : Answer :=
  match x with
  | .ok a => a
  | .error e => hindered g e

def run (g : Grammar) (scan : Scan) (e : Editor) (s : Session) : Answer × Session :=
  let word := "CASE_FILES..."
  let checked :=
    if scan.arguments.isEmpty then .error (.misuse (.missingArgument word))
    else scan.arguments.forM (checkFile s.world true word)
  match checked with
  | .error error => (hindered g error, s)
  | .ok _ =>
    let (verdicts, s) := runFiles (scan.has Command.exitFirst.key) e scan.arguments s
    (runAnswer scan.arguments.length verdicts, s)

def script (g : Grammar) (scan : Scan) (w : World) : Answer :=
  answerOf g do
    let typed ← oneFile w true "CASE_FILE" scan.arguments
    checkNoMore (scan.arguments.drop 1)
    match (CaseFile.load w (Path.ofString typed)).bind fun f => f.script w with
    | .ok text => return .printed text
    | .error f => return .ofFailure f

/-- What `new` writes, where, and whether over another file. -/
structure NewFile where
  request : Request
  target : Path
  text : String
  force : Bool

def newFile (scan : Scan) (w : World) : Except Obstacle NewFile := do
  let kind ← (scan.value? Command.kindSwitch.key).mapM fun name =>
    match Request.ofName? name with
    | some r => Except.ok r
    | none => .error (.misuse (.invalid Command.kindSwitch.key ("Unknown request kind: " ++ name)))
  let typed ← oneFile w false "PATH" scan.arguments
  match kind with
  | none => throw (.misuse (.missingOption Command.kindSwitch.key))
  | some r =>
    let server ← required scan Command.serverSwitch.key
    checkNoMore (scan.arguments.drop 1)
    let source := (scan.value? Command.sourceSwitch.key).getD Skeleton.defaultSource
    return ⟨r, Path.ofString typed, Skeleton.text r server source, scan.has Command.force.key⟩

/-- Writes a file with the directories above it. -/
def writeNew (n : NewFile) (w : World) : Except Fault Unit × World :=
  match w.ensureDirectory n.target.parent with
  | (.error e, w) => (.error (.system e), w)
  | (.ok _, w) => w.storeText n.target n.text

def new (g : Grammar) (scan : Scan) (s : Session) : Answer × Session :=
  match newFile scan s.world with
  | .error e => (hindered g e, s)
  | .ok n =>
    match s.world.present n.target with
    | .error e => (.faulted (.fault (.system e)), s)
    | .ok there =>
      if there && !n.force then
        (.failed (n.target.toString ++ " already exists (use --force to overwrite)"), s)
      else
        match writeNew n s.world with
        | (.ok _, w) =>
          (.printed ("Wrote " ++ n.request.slug ++ " case to " ++ n.target.toString ++ "\n"), { s with world := w })
        | (.error f, w) => (.faulted (.fault f), { s with world := w })

/-- The line for a request in the list of all. -/
def kindLine (width : Nat) (r : Request) : String :=
  Text.padRight width r.slug ++ "  " ++ r.method ++ (if r.needsCursor then "  (cursor)" else "") ++ "\n"

def kindsText : String :=
  String.join (Request.all.map (kindLine ((Request.all.map fun r => r.slug.length).foldl max 0)))

/-- What the configuration file holds, with plain line feeds. -/
def configText (w : World) : Except Fault String := do
  if !(← (w.present w.configPath).mapError Fault.system) then return "(file does not exist, using defaults)"
  let bytes ← (w.fetch w.configPath).mapError Fault.system
  let text ← (Utf8.decode (byteValues bytes)).mapError fun f => Fault.value f.message
  return String.ofList (Utf8.unixLines text.toList)

def config (w : World) : Answer :=
  let lead := "Config file: " ++ w.configPath.toString ++ "\n\n"
  match configText w with
  | .ok text => .printed (lead ++ text ++ "\n")
  | .error f => ⟨lead, "", 1, some (.fault f)⟩

/-- The levels that a log may have. -/
def logLevels : List String := ["CRITICAL", "FATAL", "ERROR", "WARN", "WARNING", "INFO", "DEBUG", "NOTSET"]

/-- Checks the level of the log, unless all is logged. -/
def checkLog (verbose : Bool) (w : World) : Except Answer Unit :=
  if verbose then .ok ()
  else
    match w.setting "log" "level" with
    | .error f => .error (.faulted (.fault f))
    | .ok level =>
      let name := Text.upper level.plain
      if logLevels.contains name then .ok () else .error (.failed ("Unknown log level in config: " ++ name))

/-- Performs a command with what stands behind its name. -/
def performCommand (c : Command) (arguments : List String) (e : Editor) (s : Session) : Answer × Session :=
  let g := c.grammar
  match g.scan arguments with
  | .error error => (.misused g error, s)
  | .ok scan =>
    if scan.has Switch.helpSwitch.key then (.printed g.helpPage, s)
    else
      match c with
      | .run => run g scan e s
      | .script => (script g scan s.world, s)
      | .new => new g scan s
      | .kinds => (answerOf g ((checkNoMore scan.arguments).map fun _ => .printed kindsText), s)
      | .config => (answerOf g ((checkNoMore scan.arguments).map fun _ => config s.world), s)

/-- Performs what stands behind the name of the program, in colour. -/
def perform (arguments : List String) (e : Editor) (s : Session) : Answer × Session :=
  let g := Command.programGrammar
  if arguments.isEmpty then (⟨"", g.helpPage, 2, none⟩, s)
  else
    match g.scan arguments with
    | .error error => (.misused g error, s)
    | .ok scan =>
      if scan.has Switch.helpSwitch.key then (.printed g.helpPage, s)
      else
        match scan.arguments with
        | [] => (.misused g .missingCommand, s)
        | name :: rest =>
          match Command.ofName? name with
          | none =>
            match g.scan (name :: rest) with
            | .error error => (.misused g error, s)
            | .ok again =>
              if again.has Switch.helpSwitch.key then (.printed g.helpPage, s)
              else (.misused g (.noSuchCommand name (Text.closest name (Command.all.map Command.name))), s)
          | some c =>
            match checkLog (scan.has Command.verbose.key) s.world with
            | .error a => (a, s)
            | .ok _ => performCommand c rest e s

end ServerTrial.CommandLine
