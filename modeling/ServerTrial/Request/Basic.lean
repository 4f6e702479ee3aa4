import ServerTrial.Protocol.Models
import ServerTrial.Text.Classes

/-!
# Requests

The requests that can be tried against a server: their names, what a reply to them looks like, and what the
editor has to send along.
-/

namespace ServerTrial

/-- The requests. -/
inductive Request where
  | prepareCallHierarchy | incomingCalls | outgoingCalls | codeAction | codeActionResolve | codeLens
  | codeLensResolve | documentColor | colorPresentation | completion | completionResolve | diagnostics
  | documentDiagnostic | workspaceDiagnostic | documentHighlight | documentLink | documentLinkResolve
  | documentSymbol | executeCommand | foldingRange | formatting | declaration | definition | implementation
  | typeDefinition | hover | inlayHint | linkedEditingRange | moniker | references | rename | selectionRange
  | semanticTokensFull | semanticTokensFullDelta | semanticTokensRange | signatureHelp | prepareTypeHierarchy
  | typeHierarchySupertypes | typeHierarchySubtypes | workspaceSymbol
  deriving DecidableEq, Repr, Inhabited

/-- The scripts by which an editor gets hold of a reply. -/
inductive Fragment where
  /-- Sends the request and records the reply. -/
  | ask
  /-- Either sends the request or lets the editor act on it and records the buffer. -/
  | askOrAct
  /-- Asks for all semantic tokens first and for the changes since then. -/
  | askTwice
  /-- Waits for the diagnostics that the server publishes. -/
  | collect
  deriving DecidableEq, Repr, Inhabited

namespace Request

/-- All requests in the order in which they are listed. -/
def all : List Request :=
  [.prepareCallHierarchy, .incomingCalls, .outgoingCalls, .codeAction, .codeActionResolve, .codeLens,
    .codeLensResolve, .documentColor, .colorPresentation, .completion, .completionResolve, .diagnostics,
    .documentDiagnostic, .workspaceDiagnostic, .documentHighlight, .documentLink, .documentLinkResolve,
    .documentSymbol, .executeCommand, .foldingRange, .formatting, .declaration, .definition,
    .implementation, .typeDefinition, .hover, .inlayHint, .linkedEditingRange, .moniker, .references,
    .rename, .selectionRange, .semanticTokensFull, .semanticTokensFullDelta, .semanticTokensRange,
    .signatureHelp, .prepareTypeHierarchy, .typeHierarchySupertypes, .typeHierarchySubtypes,
    .workspaceSymbol]

/-- The name in case files. -/
def slug : Request → String
  | prepareCallHierarchy => "prepare_call_hierarchy"
  | incomingCalls => "incoming_calls"
  | outgoingCalls => "outgoing_calls"
  | codeAction => "code_action"
  | codeActionResolve => "code_action_resolve"
  | codeLens => "code_lens"
  | codeLensResolve => "code_lens_resolve"
  | documentColor => "document_color"
  | colorPresentation => "color_presentation"
  | completion => "completion"
  | completionResolve => "completion_resolve"
  | diagnostics => "diagnostics"
  | documentDiagnostic => "document_diagnostic"
  | workspaceDiagnostic => "workspace_diagnostic"
  | documentHighlight => "document_highlight"
  | documentLink => "document_link"
  | documentLinkResolve => "document_link_resolve"
  | documentSymbol => "document_symbol"
  | executeCommand => "execute_command"
  | foldingRange => "folding_range"
  | formatting => "formatting"
  | declaration => "declaration"
  | definition => "definition"
  | implementation => "implementation"
  | typeDefinition => "type_definition"
  | hover => "hover"
  | inlayHint => "inlay_hint"
  | linkedEditingRange => "linked_editing_range"
  | moniker => "moniker"
  | references => "references"
  | rename => "rename"
  | selectionRange => "selection_range"
  | semanticTokensFull => "semantic_tokens_full"
  | semanticTokensFullDelta => "semantic_tokens_full_delta"
  | semanticTokensRange => "semantic_tokens_range"
  | signatureHelp => "signature_help"
  | prepareTypeHierarchy => "prepare_type_hierarchy"
  | typeHierarchySupertypes => "type_hierarchy_supertypes"
  | typeHierarchySubtypes => "type_hierarchy_subtypes"
  | workspaceSymbol => "workspace_symbol"

/-- The method of the protocol. -/
def method : Request → String
  | prepareCallHierarchy => "textDocument/prepareCallHierarchy"
  | incomingCalls => "callHierarchy/incomingCalls"
  | outgoingCalls => "callHierarchy/outgoingCalls"
  | codeAction => "textDocument/codeAction"
  | codeActionResolve => "codeAction/resolve"
  | codeLens => "textDocument/codeLens"
  | codeLensResolve => "codeLens/resolve"
  | documentColor => "textDocument/documentColor"
  | colorPresentation => "textDocument/colorPresentation"
  | completion => "textDocument/completion"
  | completionResolve => "completionItem/resolve"
  | diagnostics => "textDocument/publishDiagnostics"
  | documentDiagnostic => "textDocument/diagnostic"
  | workspaceDiagnostic => "workspace/diagnostic"
  | documentHighlight => "textDocument/documentHighlight"
  | documentLink => "textDocument/documentLink"
  | documentLinkResolve => "documentLink/resolve"
  | documentSymbol => "textDocument/documentSymbol"
  | executeCommand => "workspace/executeCommand"
  | foldingRange => "textDocument/foldingRange"
  | formatting => "textDocument/formatting"
  | declaration => "textDocument/declaration"
  | definition => "textDocument/definition"
  | implementation => "textDocument/implementation"
  | typeDefinition => "textDocument/typeDefinition"
  | hover => "textDocument/hover"
  | inlayHint => "textDocument/inlayHint"
  | linkedEditingRange => "textDocument/linkedEditingRange"
  | moniker => "textDocument/moniker"
  | references => "textDocument/references"
  | rename => "textDocument/rename"
  | selectionRange => "textDocument/selectionRange"
  | semanticTokensFull => "textDocument/semanticTokens/full"
  | semanticTokensFullDelta => "textDocument/semanticTokens/full/delta"
  | semanticTokensRange => "textDocument/semanticTokens/range"
  | signatureHelp => "textDocument/signatureHelp"
  | prepareTypeHierarchy => "textDocument/prepareTypeHierarchy"
  | typeHierarchySupertypes => "typeHierarchy/supertypes"
  | typeHierarchySubtypes => "typeHierarchy/subtypes"
  | workspaceSymbol => "workspace/symbol"

/-- The name in reports. -/
def label : Request → String
  | prepareCallHierarchy => "Prepare Call Hierarchy"
  | incomingCalls => "Incoming Calls"
  | outgoingCalls => "Outgoing Calls"
  | codeAction => "Code Action"
  | codeActionResolve => "Code Action Resolve"
  | codeLens => "Code Lens"
  | codeLensResolve => "Code Lens Resolve"
  | documentColor => "Document Color"
  | colorPresentation => "Color Presentation"
  | completion => "Completion"
  | completionResolve => "Completion Resolve"
  | diagnostics => "Diagnostics"
  | documentDiagnostic => "Document Diagnostic"
  | workspaceDiagnostic => "Workspace Diagnostic"
  | documentHighlight => "Document Highlight"
  | documentLink => "Document Link"
  | documentLinkResolve => "Document Link Resolve"
  | documentSymbol => "Document Symbol"
  | executeCommand => "Execute Command"
  | foldingRange => "Folding Range"
  | formatting => "Formatting"
  | declaration => "Declaration"
  | definition => "Definition"
  | implementation => "Implementation"
  | typeDefinition => "Type Definition"
  | hover => "Hover"
  | inlayHint => "Inlay Hint"
  | linkedEditingRange => "Linked Editing Range"
  | moniker => "Moniker"
  | references => "References"
  | rename => "Rename"
  | selectionRange => "Selection Range"
  | semanticTokensFull => "Semantic Tokens Full"
  | semanticTokensFullDelta => "Semantic Tokens Full Delta"
  | semanticTokensRange => "Semantic Tokens Range"
  | signatureHelp => "Signature Help"
  | prepareTypeHierarchy => "Prepare Type Hierarchy"
  | typeHierarchySupertypes => "Type Hierarchy Supertypes"
  | typeHierarchySubtypes => "Type Hierarchy Subtypes"
  | workspaceSymbol => "Workspace Symbol"

/-- The request with a name: its slug in any case and with hyphens for underscores, or its method. -/
def ofName? (name : String) : Option Request :=
  let trimmed := Text.trim name
  let key := String.ofList ((Text.lower trimmed).toList.map fun c => if c = '-' then '_' else c)
  all.find? fun r => r.slug == key || r.method == trimmed

def listOf (m : Model) : Shape := .list (.model m)

/-- The shape of a reply. -/
def response : Request → Shape
  | prepareCallHierarchy => listOf .callHierarchyItem
  | incomingCalls => listOf .callHierarchyIncomingCall
  | outgoingCalls => listOf .callHierarchyOutgoingCall
  | codeAction => .list (.union [.model .command, .model .codeAction])
  | codeActionResolve => .model .codeAction
  | codeLens => listOf .codeLens
  | codeLensResolve => .model .codeLens
  | documentColor => listOf .colorInformation
  | colorPresentation => listOf .colorPresentation
  | completion => .union [listOf .completionItem, .model .completionList]
  | completionResolve => .model .completionItem
  | diagnostics => listOf .diagnostic
  | documentDiagnostic =>
    .union [.model .relatedFullDocumentDiagnosticReport, .model .relatedUnchangedDocumentDiagnosticReport]
  | workspaceDiagnostic => .model .workspaceDiagnosticReport
  | documentHighlight => listOf .documentHighlight
  | documentLink => listOf .documentLink
  | documentLinkResolve => .model .documentLink
  | documentSymbol => .union [listOf .documentSymbol, listOf .symbolInformation]
  | executeCommand => .any
  | foldingRange => listOf .foldingRange
  | formatting => listOf .textEdit
  | declaration | definition | implementation | typeDefinition =>
    .union [.model .location, listOf .location, listOf .locationLink]
  | hover => .model .hover
  | inlayHint => listOf .inlayHint
  | linkedEditingRange => .model .linkedEditingRanges
  | moniker => listOf .moniker
  | references => listOf .location
  | rename => .model .workspaceEdit
  | selectionRange => listOf .selectionRange
  | semanticTokensFull => .model .semanticTokens
  | semanticTokensFullDelta => .union [.model .semanticTokens, .model .semanticTokensDelta]
  | semanticTokensRange => .model .semanticTokens
  | signatureHelp => .model .signatureHelp
  | prepareTypeHierarchy | typeHierarchySupertypes | typeHierarchySubtypes => listOf .typeHierarchyItem
  | workspaceSymbol => .union [listOf .symbolInformation, listOf .workspaceSymbol]

/-- Does the request need a cursor? -/
def needsCursor : Request → Bool
  | prepareCallHierarchy | completion | declaration | definition | implementation | typeDefinition | hover
  | linkedEditingRange | moniker | references | rename | selectionRange | signatureHelp | prepareTypeHierarchy => true
  | _ => false

/-- Is the cursor sent along as the position?  Selection ranges take a list of positions instead. -/
def sendsCursor : Request → Bool
  | selectionRange => false
  | r => r.needsCursor

/-- Does the request name the open document? -/
def sendsDocument : Request → Bool
  | incomingCalls | outgoingCalls | codeActionResolve | codeLensResolve | completionResolve | diagnostics
  | workspaceDiagnostic | documentLinkResolve | executeCommand | typeHierarchySupertypes | typeHierarchySubtypes
  | workspaceSymbol => false
  | _ => true

/-- How the editor gets hold of a reply. -/
def fragment : Request → Fragment
  | diagnostics => .collect
  | executeCommand | formatting => .askOrAct
  | semanticTokensFullDelta => .askTwice
  | _ => .ask

/-- For requests that may be judged by what they do to the buffer: the function by which the editor performs
them. -/
def action? : Request → Option String
  | executeCommand =>
    some "function(p) vim.lsp.buf_request_sync(0, 'workspace/executeCommand', p, TIMEOUT_MS) end"
  | formatting =>
    some "function(p) vim.lsp.buf.format(\x7b async = false, formatting_options = p.options \x7d) end"
  | _ => none

/-- May the request be judged by what it does to the buffer? -/
def hasEndState (r : Request) : Bool := r.action?.isSome

/-- May empty containers in a reply be exchanged?  They may for every request. -/
def isLenient : Request → Bool
  | _ => true

end Request

/-- The file a fragment stands in. -/
def Fragment.fileName : Fragment → String
  | ask => "request_action.lua"
  | askOrAct => "state_or_response_action.lua"
  | askTwice => "semantic_tokens_full_delta_action.lua"
  | collect => "diagnostic_autocmd.lua"

end ServerTrial
