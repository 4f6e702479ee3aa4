import ServerTrial.Request.Inputs
import ServerTrial.Request.Expectation
import ServerTrial.Lua.Injection
import ServerTrial.Case.Basic
import ServerTrial.Config

/-!
# Parameters of requests

What the editor sends along with a request, as injections: the open document and the cursor where the request
takes them (`Request.baseInjections`), and what becomes of its inputs (`Request.inputInjections`).  Inputs of a
case file have been checked; others may be data of any kind, which is then found out here or when the injections
are compiled.
-/

namespace ServerTrial

namespace Value

/-- Would a condition on the value hold? -/
def truthy : Value → Bool
  | plain d => d.truthy
  | list items => !items.isEmpty
  | table entries => !entries.isEmpty
  | _ => true

/-- The message form of a record. -/
def recordData : Value → Except Fault Data
  | record m fields extras => (record m fields extras).toMessage
  | _ => .error .part

/-- The values that a list, or data that can be gone through like one, consists of. -/
def elements : Value → Except Fault (List Value)
  | list items => .ok items
  | plain (.arr items) => .ok (items.map plain)
  | plain (.obj entries) => .ok (entries.map fun e => text e.1)
  | plain (.str s) => .ok (s.toList.map fun c => text (String.singleton c))
  | _ => .error .kind

/-- The keys of a message. -/
def keys (d : Data) : List String :=
  match d with
  | .obj entries => entries.map Prod.fst
  | _ => []

end Value

namespace Injection

/-- Data as a JSON text under a name. -/
def ofData (name : String) (d : Data) : Except Fault Injection :=
  if d.isJson then .ok (json name d.toJson) else .error .kind

/-- Fields of data, each under its own name. -/
def spreadData (name : String) (fields : List String) (d : Data) : Except Fault Injection :=
  if d.isJson then .ok (spread name fields d.toJson) else .error .kind

/-- A position; what is none is found out when it is compiled. -/
def ofPosition (v : Value) (name : String) : Injection :=
  match Position.ofValue? v with
  | some p => position p name
  | none => unfit ("PositionParam(position=" ++ v.inspect ++ ", name=" ++ Text.quote name ++ ")") .part

/-- A range; what is none is found out when it is compiled. -/
def ofRange (v : Value) (name : String) : Injection :=
  match Range.ofValue? v with
  | some r => range r name
  | none => unfit ("RangeParam(range=" ++ v.inspect ++ ", name=" ++ Text.quote name ++ ")") .part

end Injection

namespace SourceFile

/-- The range of the whole contents. -/
def wholeRange (f : SourceFile) : Except Fault Range :=
  match f.contents with
  | .str s => .ok (Range.whole s)
  | _ => .error .part

end SourceFile

namespace Request

/-- The document and the cursor, where the request takes them. -/
def baseInjections (r : Request) (c : Case) : List Injection :=
  (if r.sendsDocument then [.textDocument "textDocument"] else []) ++
    (match c.cursor with
      | some p => if r.sendsCursor then [.position p "position"] else []
      | none => [])

/-- Whether the editor performs the request, and by which function. -/
def modeInjections (r : Request) (e : Expectation) : List Injection :=
  match r.action? with
  | some action =>
    [.raw ⟨"INVOKE_ACTION", if e.isEndState then "true" else "false"⟩, .raw ⟨"INVOKE_FN", action⟩]
  | none => []

/-- An input; null if it is not given. -/
def input (given : Inputs) (name : String) : Value := (Data.find? name given).getD .null

/-- An input that is a record, all its fields spread. -/
def spreadRecord (name : String) (v : Value) : Except Fault (List Injection) := do
  let d ← v.recordData
  return [← Injection.spreadData name (Value.keys d) d]

/-- A literal for a command that the editor advertises. -/
def commandLiteral (v : Value) : Except Fault String :=
  match v with
  | .plain (.str s) => if Text.isWhole s then .ok (Lua.quoted s) else .error .unencodable
  | _ => .error .part

/-- The commands that the editor advertises. -/
def commandInjections (commands : Value) : Except Fault (List Injection) :=
  if commands.truthy then do
    let literals ← (← commands.elements).mapM commandLiteral
    return [.raw ⟨"COMMANDS", ", ".intercalate literals⟩]
  else .ok []

/-- An input under a name unless it is null. -/
def optionalInjection (name : String) (v : Value) : Except Fault (List Injection) :=
  if v.isNull then .ok [] else do return [← Injection.ofData name v.toData]

/-- What becomes of the inputs of a request, once they fill its slots. -/
def slotInjections (r : Request) (c : Case) (w : World) (e : Expectation) (given : Inputs) :
    Except Fault (List Injection) := do
  let get := input given
  match r with
  | formatting =>
    let options ← if (get "options").truthy then pure (get "options") else w.formattingOptions
    return (← Injection.ofData "options" (← options.recordData)) :: r.modeInjections e
  | executeCommand =>
    let command := ("command", (get "command").toData)
    let payload := if (get "arguments").isNull then [command] else [command, ("arguments", (get "arguments").toData)]
    let sent ← Injection.spreadData "execute_command" (payload.map Prod.fst) (.obj payload)
    return sent :: ((← commandInjections (get "commands")) ++ r.modeInjections e)
  | incomingCalls | outgoingCalls =>
    return [← Injection.spreadData "call_hierarchy" ["item"] (.obj [("item", ← (get "item").recordData)])]
  | typeHierarchySupertypes | typeHierarchySubtypes =>
    return [← Injection.spreadData "type_hierarchy" ["item"] (.obj [("item", ← (get "item").recordData)])]
  | references =>
    return [.nested "context" [← Injection.ofData "includeDeclaration" (get "include_declaration").toData]]
  | rename => return [← Injection.ofData "newName" (get "new_name").toData]
  | codeLensResolve => spreadRecord "code_lens" (get "code_lens")
  | documentLinkResolve => spreadRecord "document_link" (get "link")
  | codeActionResolve => spreadRecord "code_action" (get "code_action")
  | completionResolve => spreadRecord "completion_item" (get "completion_item")
  | selectionRange =>
    let positions ←
      if (get "positions").isNull then pure (c.cursor.toList.map Position.toValue) else (get "positions").elements
    return [← Injection.ofData "positions" (.arr (← positions.mapM Value.recordData))]
  | semanticTokensRange => return [.ofRange (get "range_") "range"]
  | signatureHelp =>
    if (get "context").isNull then return []
    else return [← Injection.ofData "context" (← (get "context").recordData)]
  | inlayHint =>
    if (get "range_").truthy then return [.ofRange (get "range_") "range"]
    else return [.range (← c.source.wholeRange) "range"]
  | workspaceSymbol => return [← Injection.ofData "query" (get "query").toData]
  | codeAction =>
    let context ← if (get "context").truthy then (get "context").recordData else pure (.obj [("diagnostics", .arr [])])
    return [.ofRange (get "range_") "range", ← Injection.ofData "context" context]
  | documentDiagnostic =>
    return (← optionalInjection "identifier" (get "identifier")) ++
      (← optionalInjection "previousResultId" (get "previous_result_id"))
  | workspaceDiagnostic =>
    let identifier ← optionalInjection "identifier" (get "identifier")
    let ids ← if (get "previous_result_ids").truthy then (get "previous_result_ids").elements else pure []
    return identifier ++ [← Injection.ofData "previousResultIds" (.arr (← ids.mapM Value.recordData))]
  | colorPresentation =>
    return [← Injection.ofData "color" (← (get "color").recordData), .ofRange (get "range_") "range"]
  | _ => return []

/-- The names of arguments that no input may have. -/
def reservedNames : List String := ["kind", "case", "expected"]

/-- What becomes of the inputs of a request. -/
def inputInjections (r : Request) (c : Case) (w : World) (e : Expectation) (given : Inputs) :
    Except Failure (List Injection) :=
  let names := given.map Prod.fst
  if names.any reservedNames.contains then .error (.fault .kind)
  else if r.slots.isEmpty then
    if names.isEmpty then .ok [] else .error (.fault (.takesNoInputs r.slug (names.mergeSort fun a b => decide (a ≤ b))))
  else
    match r.bind names with
    | .error _ => .error (.fault .kind)
    | .ok _ =>
      if r = documentHighlight then
        if (input given "position").truthy then .ok [.ofPosition (input given "position") "position"]
        else
          match c.cursor with
          | some p => .ok [.position p "position"]
          | none => .error (.noCursor r.slug)
      else (r.slotInjections c w e given).mapError Failure.fault

/-- All that is sent along. -/
def injections (r : Request) (c : Case) (w : World) (e : Expectation) (given : Inputs) :
    Except Failure (List Injection) :=
  (r.inputInjections c w e given).map (r.baseInjections c ++ ·)

end Request

end ServerTrial
