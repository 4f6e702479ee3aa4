import ServerTrial.Request.Basic
import ServerTrial.Protocol.Check
import ServerTrial.Data.Inspect

/-!
# Inputs of requests

Beside the case and the expectation some requests take inputs of their own.  `Request.slots` lists them, in the
order in which they are asked for; `Request.bind` says whether given names fill them.
-/

namespace ServerTrial

/-- An input that a request takes. -/
structure InputSlot where
  name : String
  required : Bool
  deriving DecidableEq, Repr, Inhabited

/-- The inputs that are given, by name. -/
abbrev Inputs := List (String × Value)

/-- Why given names do not fill the slots of a request. -/
inductive InputError where
  /-- The name stands for the case, which is given already. -/
  | caseTwice
  /-- The name stands for the expectation, which is given already. -/
  | expectationTwice
  | missing (name : String)
  | unexpected (name : String)
  deriving DecidableEq, Repr, Inhabited

namespace InputError

def message : InputError → String
  | caseTwice => "multiple values for argument 'case'"
  | expectationTwice => "inspect.Signature.bind() got multiple values for keyword argument 'expected'"
  | missing name => "missing a required argument: " ++ Text.quote name
  | unexpected name => "got an unexpected keyword argument " ++ Text.quote name

end InputError

namespace Request

/-- The inputs of a request. -/
def slots : Request → List InputSlot
  | formatting => [⟨"options", false⟩]
  | executeCommand => [⟨"command", true⟩, ⟨"arguments", false⟩, ⟨"commands", false⟩]
  | incomingCalls | outgoingCalls | typeHierarchySupertypes | typeHierarchySubtypes => [⟨"item", true⟩]
  | references => [⟨"include_declaration", true⟩]
  | rename => [⟨"new_name", true⟩]
  | codeLensResolve => [⟨"code_lens", true⟩]
  | documentLinkResolve => [⟨"link", true⟩]
  | documentHighlight => [⟨"position", false⟩]
  | selectionRange => [⟨"positions", false⟩]
  | semanticTokensRange => [⟨"range_", true⟩]
  | signatureHelp => [⟨"context", false⟩]
  | inlayHint => [⟨"range_", false⟩]
  | workspaceSymbol => [⟨"query", true⟩]
  | codeAction => [⟨"range_", true⟩, ⟨"context", false⟩]
  | codeActionResolve => [⟨"code_action", true⟩]
  | completionResolve => [⟨"completion_item", true⟩]
  | documentDiagnostic => [⟨"identifier", false⟩, ⟨"previous_result_id", false⟩]
  | workspaceDiagnostic => [⟨"identifier", false⟩, ⟨"previous_result_ids", false⟩]
  | colorPresentation => [⟨"color", true⟩, ⟨"range_", true⟩]
  | _ => []

/-- Does the request have a slot of this name? -/
def hasSlot (r : Request) (name : String) : Bool := r.slots.any fun s => s.name == name

/-- Do the names fill the slots?  Each required slot needs one, and each name needs a slot. -/
def bind (r : Request) (names : List String) : Except InputError Unit :=
  if names.contains "expected" then .error .expectationTwice
  else if names.contains "case" then .error .caseTwice
  else
    match r.slots.find? fun s => s.required && !names.contains s.name with
    | some s => .error (.missing s.name)
    | none =>
      match names.find? fun n => !r.hasSlot n with
      | some n => .error (.unexpected n)
      | none => .ok ()

/-- The slot that a name in a case file fills, and the shape of what it gives; other names fill the slot called
like them, and give data of any shape. -/
def inputShape? (r : Request) (key : String) : Option (String × Shape) :=
  match key with
  | "item" =>
    some ("item",
      if r = typeHierarchySupertypes ∨ r = typeHierarchySubtypes then .model .typeHierarchyItem
      else .model .callHierarchyItem)
  | "code_lens" => some ("code_lens", .model .codeLens)
  | "link" => some ("link", .model .documentLink)
  | "options" => some ("options", .model .formattingOptions)
  | "position" => some ("position", .model .position)
  | "positions" => some ("positions", .list (.model .position))
  | "range" => some ("range_", .model .range)
  | "context" =>
    some ("context", if r = codeAction then .model .codeActionContext else .model .signatureHelpContext)
  | "code_action" => some ("code_action", .model .codeAction)
  | "completion_item" => some ("completion_item", .model .completionItem)
  | "color" => some ("color", .model .color)
  | "previous_result_ids" => some ("previous_result_ids", .list (.model .previousResultId))
  | _ => none

end Request

end ServerTrial
