import ServerTrial.Protocol.Models

/-!
# Shapes by name

Every model and every enumeration is a shape under its own name.  The primitive shapes, lists of a shape, and some
unions that occur in several places have names as well.
-/

namespace ServerTrial

def Model.all : List Model :=
  [.position, .range, .location, .locationLink, .textDocumentIdentifier,
    .optionalVersionedTextDocumentIdentifier, .textEdit, .textDocumentEdit, .createFileOptions, .createFile,
    .renameFileOptions, .renameFile, .deleteFileOptions, .deleteFile, .changeNote, .workspaceEdit,
    .command, .symbolInformation, .documentSymbol, .workspaceSymbolLocation, .workspaceSymbol,
    .diagnosticRelatedInformation, .codeDescription, .diagnostic, .markupContent, .languageString, .hover,
    .completionItemLabelDetails, .insertReplaceEdit, .completionItem, .completionList, .parameterInformation,
    .signatureInformation, .signatureHelp, .signatureHelpContext, .formattingOptions, .callHierarchyItem,
    .callHierarchyIncomingCall, .callHierarchyOutgoingCall, .typeHierarchyItem, .codeLens, .documentHighlight,
    .documentLink, .foldingRange, .selectionRange, .semanticTokens, .semanticTokensEdit, .semanticTokensDelta,
    .inlayHintLabelPart, .inlayHint, .codeActionContext, .codeActionDisabled, .codeAction,
    .fullDocumentDiagnosticReport, .unchangedDocumentDiagnosticReport, .relatedFullDocumentDiagnosticReport,
    .relatedUnchangedDocumentDiagnosticReport, .workspaceFullDocumentDiagnosticReport,
    .workspaceUnchangedDocumentDiagnosticReport, .workspaceDiagnosticReport, .previousResultId, .color,
    .colorInformation, .colorPresentation, .linkedEditingRanges, .moniker]

def Enumeration.all : List Enumeration :=
  [.symbolKind, .diagnosticSeverity, .markupKind, .completionItemKind, .signatureHelpTriggerKind,
    .documentHighlightKind, .inlayHintKind, .codeActionTriggerKind, .uniquenessLevel, .monikerKind]

namespace Shape

/-- Shapes without a name of their own in `Model` or `Enumeration`. -/
def named : List (String × Shape) :=
  [("str", .text), ("int", .whole), ("float", .real), ("bool", .flag), ("Any", .any),
    ("DocumentChange", Model.documentChange), ("MarkedString", Model.markedString),
    ("RelatedDocuments", Model.relatedDocuments),
    ("GotoResponse", .union [.model .location, .list (.model .location), .list (.model .locationLink)]),
    ("CompletionResponse", .union [.list (.model .completionItem), .model .completionList]),
    ("DocumentSymbolResponse", .union [.list (.model .documentSymbol), .list (.model .symbolInformation)]),
    ("WorkspaceSymbolResponse", .union [.list (.model .symbolInformation), .list (.model .workspaceSymbol)]),
    ("SemanticTokensFullDeltaResponse", .union [.model .semanticTokens, .model .semanticTokensDelta]),
    ("CodeActionResponse", .list (.union [.model .command, .model .codeAction])),
    ("DocumentDiagnosticReport",
      .union [.model .relatedFullDocumentDiagnosticReport, .model .relatedUnchangedDocumentDiagnosticReport])]

/-- The shape with a name that is no list. -/
def simple? (name : String) : Option Shape :=
  match Model.all.find? fun m => m.name == name with
  | some m => some (.model m)
  | none =>
    match Enumeration.all.find? fun e => e.name == name with
    | some e => some (.member e)
    | none => (named.find? fun n => n.1 == name).map Prod.snd

/-- The shape with a name of characters; `fuel` bounds the depth of lists. -/
def ofChars? : Nat → List Char → Option Shape
  | 0, _ => none
  | fuel + 1, 'l' :: 'i' :: 's' :: 't' :: '[' :: rest =>
    if rest.getLast? = some ']' then (ofChars? fuel rest.dropLast).map .list else none
  | _, name => simple? (String.ofList name)

/-- The shape with a name. -/
def ofName? (name : String) : Option Shape := ofChars? (name.length + 1) name.toList

end Shape

end ServerTrial
