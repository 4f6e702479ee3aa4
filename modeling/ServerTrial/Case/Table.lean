import ServerTrial.Request.Inputs
import ServerTrial.Request.Expectation
import ServerTrial.Case.Basic
import ServerTrial.Config

/-!
# Parts of a case file

Readers for the parts of the table that a case file holds.  A part that makes no sense is reported with the name of
the file; data of a kind that nobody foresaw end in a fault.  A server or an editor given as a path is taken
relative to the file.
-/

namespace ServerTrial

namespace Data

/-- Is a text among the keys of an object, the items of an array, or inside a text? -/
def holds (key : String) : Data → Except Fault Bool
  | obj entries => .ok (find? key entries).isSome
  | arr items => .ok (items.any (str key).same)
  | str s => .ok (Text.occurs key.toList s.toList)
  | _ => .error .kind

mutual

/-- Has no integer in the data more digits than are written? -/
def isShort : Data → Bool
  | int n => n.natAbs < 10 ^ digitLimit
  | arr items => areShort items
  | obj entries => areShortEntries entries
  | _ => true

def areShort : List Data → Bool
  | [] => true
  | x :: xs => isShort x && areShort xs

def areShortEntries : List (String × Data) → Bool
  | [] => true
  | (_, x) :: xs => isShort x && areShortEntries xs

end

/-- The report on data that are not short where they are written. -/
def tooLong : Fault :=
  .value ("Exceeds the limit (" ++ toString digitLimit ++
    " digits) for integer string conversion; use sys.set_int_max_str_digits() to increase the limit")

/-- Writes data that are short. -/
def written (form : Data → String) (d : Data) : Except Fault String := if d.isShort then .ok (form d) else .error tooLong

end Data

namespace CaseTable

/-- Reports what is wrong with a file. -/
def wrong {α : Type} (path : Path) (detail : String) : Except Failure α := .error (.caseFile path.toString detail)

/-- Faults escape. -/
def orFault {α : Type} (x : Except Fault α) : Except Failure α := x.mapError Failure.fault

/-- What is wrong with a value of its kind is reported, a number out of range is a fault. -/
def orWrong {α : Type} (path : Path) (detail : String → String) (x : Except Fault α) : Except Failure α :=
  match x with
  | .ok a => .ok a
  | .error (.overflow text) => .error (.fault (.overflow text))
  | .error f => wrong path (detail f.message)

/-- Checks data against a shape. -/
def checked (path : Path) (what : String) (shape : Shape) (d : Data) : Except Failure Value :=
  match check d shape with
  | .ok m => .ok m.value
  | .error _ => wrong path ("invalid " ++ what ++ ": ")

/-- A path with the home directory for a tilde. -/
def expandHome (w : World) (p : Path) : Except Fault Path :=
  if p.isAbsolute then .ok p
  else
    match p.parts with
    | "~" :: rest => .ok (w.home.join ⟨.here, rest⟩)
    | part :: _ => if part.toList.head? = some '~' then .error .noHome else .ok p
    | [] => .ok p

/-- A command: a path is taken relative to `base`, a name stays as it is. -/
def command (w : World) (base : Path) (d : Data) : Except Fault String := do
  let hasSlash ← d.holds "/"
  match d with
  | .str s =>
    if hasSlash || s.toList.head? = some '.' then
      return (base.join (← expandHome w (Path.ofString s))).toString
    else return s
  | _ => throw (if hasSlash then .kind else .part)

def ofTable (path : Path) (heading : String) (d : Data) : Except Failure SourceFile :=
  match d.get? "path", d.get? "contents" with
  | some p, some contents => (orFault (p.written Data.plain)).map fun name => ⟨name, contents⟩
  | _, _ => wrong path (heading ++ " needs `path` and `contents`")

/-- The further source files.  Only a list of tables makes sense; what else can be gone through is so. -/
def others (path : Path) (d : Data) : Except Failure (List SourceFile) :=
  match d with
  | .arr items => items.mapM (ofTable path "[[files]]")
  | .obj [] | .str "" => .ok []
  | .obj _ | .str _ => wrong path "[[files]] needs `path` and `contents`"
  | _ => .error (.fault .kind)

/-- When the server is ready. -/
def startup (path : Path) (d : Data) : Except Failure Startup := do
  if !d.truthy then return .immediate
  if !(← orFault (d.holds "token")) then wrong path "[startup] needs a progress token"
  match d with
  | .obj entries =>
    let threshold ← orWrong path id ((Data.find? "threshold" entries).getD (.int 1)).toWhole
    let token ← orWrong path id (((Data.find? "token" entries).getD .null).written Data.plain)
    orWrong path id (Startup.progress? threshold token)
  | _ => throw (.fault .part)

/-- The cursor, as a table or as a list of two numbers. -/
def cursor (path : Path) (d : Data) : Except Failure Position := do
  let table :=
    match d with
    | .arr [line, character] => .obj [("line", line), ("character", character)]
    | d => d
  match Position.ofValue? (← checked path "cursor" (.model .position) table) with
  | some p => return p
  | none => wrong path "invalid cursor: "

def timeout (path : Path) (d : Data) : Except Failure Float :=
  match d with
  | .bool _ => wrong path (detail d.inspect)
  | d =>
    match d.toReal with
    | .ok x => .ok x
    | .error (.overflow text) => .error (.fault (.overflow text))
    | .error _ => (orFault (d.written Data.inspect)).bind fun text => wrong path (detail text)
where
  detail (text : String) : String := "invalid timeout: " ++ text

/-- The case that a table describes; what it leaves out comes from the configuration. -/
def caseOf (w : World) (path : Path) (entries : List (String × Data)) : Except Failure Case := do
  let get := fun key => Data.find? key entries
  let base := path.parent
  let server ← orFault (command w base ((get "server").getD .null))
  let source ← ofTable path "[source]" ((get "source").getD .null)
  let others ← others path ((get "files").getD (.arr []))
  let startup ← startup path ((get "startup").getD .null)
  let cursor ← (get "cursor").mapM (cursor path)
  let editor ← (get "editor").mapM fun d => orFault (command w base d)
  let timeout ← (get "timeout").mapM (timeout path)
  let testId ← (get "test_id").mapM fun d => orFault (d.written Data.plain)
  let timeout ← timeout.elim (orFault w.defaultTimeout) pure
  let cleanup ← ((get "cleanup").map Data.truthy).elim (orFault w.defaultCleanup) pure
  let editor ← editor.elim (orFault ((w.editorCommand none).bind (Data.written Data.plain))) pure
  return ⟨server, source, cursor, others, startup, timeout, cleanup, editor, testId.getD w.nextId⟩

/-- How an expectation may be meant. -/
inductive Mode where
  | exact | none | contains | endState | response
  deriving DecidableEq, Repr, Inhabited

namespace Mode

def all : List Mode := [exact, .none, contains, endState, response]

def name : Mode → String
  | exact => "exact"
  | none => "none"
  | contains => "contains"
  | endState => "end_state"
  | response => "response"

def ofName? (name : String) : Option Mode := all.find? fun m => m.name == name

end Mode

/-- The mode that a file names, or the one that goes with what it expects. -/
def mode (path : Path) (given : Data) (expected : Data) : Except Failure Mode :=
  let named :=
    match given with
    | .null =>
      match expected with
      | .null => some Mode.none
      | _ => some Mode.exact
    | .str s => Mode.ofName? s
    | _ => Option.none
  match named with
  | some m => .ok m
  | Option.none =>
    (orFault (given.written Data.plain)).bind fun text =>
      wrong path ("unknown expect mode `" ++ text ++ "`, use one of " ++ ", ".intercalate (Mode.all.map Mode.name))

/-- What is expected, given as a table or as a JSON text. -/
def expectedData (path : Path) (entries : List (String × Data)) : Except Failure Data :=
  match Data.find? "expected" entries, Data.find? "expected_json" entries with
  | some _, some _ => wrong path "use either `expected` or `expected_json`, not both"
  | expected, Option.none => .ok (expected.getD .null)
  | Option.none, some (.str text) =>
    match Data.ofJson text with
    | .ok d => .ok d
    | .error (.at cause left) =>
      wrong path ("invalid expected_json: " ++ (JsonError.at cause left).message text)
    | .error e => .error (.fault (.ofJson text e))
  | Option.none, some _ => .error (.fault .kind)

/-- The expectation of a file. -/
def expectation (path : Path) (r : Request) (given : Data) (entries : List (String × Data)) :
    Except Failure Expectation := do
  let d ← expectedData path entries
  let mode ← mode path given d
  if mode = .none then return .nothing
  if let .null := d then wrong path ("expect = \"" ++ mode.name ++ "\" needs an expectation")
  match mode with
  | .none => return .nothing
  | .contains =>
    if r ≠ .completion then wrong path "expect = \"contains\" only applies to completion"
    match ← checked path "completion items" (.list (.model .completionItem)) d with
    | .list items => return .containing items
    | v => return .containing [v]
  | .endState =>
    if !r.hasEndState then wrong path ("expect = \"end_state\" does not apply to " ++ r.slug)
    match d with
    | .str text => return .endState text
    | _ => wrong path "an end state expectation must be a string"
  | .exact | .response =>
    let v ← checked path "expectation" r.response d
    if r.hasEndState then return .response v
    if mode = .response then wrong path ("expect = \"response\" does not apply to " ++ r.slug)
    return if r = .completion then .exactly v else .value v

/-- The inputs of a table, checked where their names say what they are. -/
def inputs (path : Path) (r : Request) (d : Data) : Except Failure Inputs :=
  match d with
  | .obj entries =>
    entries.foldlM
      (fun given e => do
        match r.inputShape? e.1 with
        | some (slot, shape) => return Data.put slot (← checked path ("input `" ++ e.1 ++ "`") shape e.2) given
        | none => return Data.put e.1 (.plain e.2) given)
      []
  | _ => .error (.fault .part)

/-- The request that a file names. -/
def request (path : Path) (d : Data) : Except Failure Request :=
  match d with
  | .str name =>
    match Request.ofName? name with
    | some r => .ok r
    | none => wrong path ("Unknown request kind: " ++ name)
  | _ => .error (.fault .part)

end CaseTable

end ServerTrial
