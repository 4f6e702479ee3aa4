import ServerTrial.Protocol.Shape

/-!
# The models of the protocol

Members of the enumerations and fields of the models.  A field that may be left out and then is null takes null
as well.  A model built on another one lists the fields of that one first.
-/

namespace ServerTrial

namespace Enumeration

/-- The name in reports. -/
def name : Enumeration → String
  | symbolKind => "SymbolKind"
  | diagnosticSeverity => "DiagnosticSeverity"
  | markupKind => "MarkupKind"
  | completionItemKind => "CompletionItemKind"
  | signatureHelpTriggerKind => "SignatureHelpTriggerKind"
  | documentHighlightKind => "DocumentHighlightKind"
  | inlayHintKind => "InlayHintKind"
  | codeActionTriggerKind => "CodeActionTriggerKind"
  | uniquenessLevel => "UniquenessLevel"
  | monikerKind => "MonikerKind"

/-- Members with the numbers from `n` on. -/
def numberedFrom (n : Nat) : List String → List (String × Data)
  | [] => []
  | name :: rest => (name, .int n) :: numberedFrom (n + 1) rest

/-- Members with words. -/
def worded (pairs : List (String × String)) : List (String × Data) := pairs.map fun p => (p.1, .str p.2)

/-- The members, each with the data it stands for. -/
def members : Enumeration → List (String × Data)
  | symbolKind => numberedFrom 1
    ["File", "Module", "Namespace", "Package", "Class", "Method", "Property", "Field", "Constructor", "Enum",
      "Interface", "Function", "Variable", "Constant", "String", "Number", "Boolean", "Array", "Object", "Key",
      "Null", "EnumMember", "Struct", "Event", "Operator", "TypeParameter"]
  | diagnosticSeverity => numberedFrom 1 ["Error", "Warning", "Information", "Hint"]
  | markupKind => worded [("PlainText", "plaintext"), ("Markdown", "markdown")]
  | completionItemKind => numberedFrom 1
    ["Text", "Method", "Function", "Constructor", "Field", "Variable", "Class", "Interface", "Module", "Property",
      "Unit", "Value", "Enum", "Keyword", "Snippet", "Color", "File", "Reference", "Folder", "EnumMember",
      "Constant", "Struct", "Event", "Operator", "TypeParameter"]
  | signatureHelpTriggerKind => numberedFrom 1 ["Invoked", "TriggerCharacter", "ContentChange"]
  | documentHighlightKind => numberedFrom 1 ["Text", "Read", "Write"]
  | inlayHintKind => numberedFrom 1 ["Type", "Parameter"]
  | codeActionTriggerKind => numberedFrom 1 ["Invoked", "Automatic"]
  | uniquenessLevel => worded
    [("Document", "document"), ("Project", "project"), ("Group", "group"), ("Scheme", "scheme"),
      ("Global", "global")]
  | monikerKind => worded [("Import", "import"), ("Export", "export"), ("Local", "local")]

/-- Are the members numbers? -/
def isNumbered : Enumeration → Bool
  | markupKind | uniquenessLevel | monikerKind => false
  | _ => true

end Enumeration

namespace Model

/-- The name in reports. -/
def name : Model → String
  | position => "Position"
  | range => "Range"
  | location => "Location"
  | locationLink => "LocationLink"
  | textDocumentIdentifier => "TextDocumentIdentifier"
  | optionalVersionedTextDocumentIdentifier => "OptionalVersionedTextDocumentIdentifier"
  | textEdit => "TextEdit"
  | textDocumentEdit => "TextDocumentEdit"
  | createFileOptions => "CreateFileOptions"
  | createFile => "CreateFile"
  | renameFileOptions => "RenameFileOptions"
  | renameFile => "RenameFile"
  | deleteFileOptions => "DeleteFileOptions"
  | deleteFile => "DeleteFile"
  | changeNote => "ChangeAnnotation"
  | workspaceEdit => "WorkspaceEdit"
  | command => "Command"
  | symbolInformation => "SymbolInformation"
  | documentSymbol => "DocumentSymbol"
  | workspaceSymbolLocation => "WorkspaceSymbolLocation"
  | workspaceSymbol => "WorkspaceSymbol"
  | diagnosticRelatedInformation => "DiagnosticRelatedInformation"
  | codeDescription => "CodeDescription"
  | diagnostic => "Diagnostic"
  | markupContent => "MarkupContent"
  | languageString => "LanguageString"
  | hover => "Hover"
  | completionItemLabelDetails => "CompletionItemLabelDetails"
  | insertReplaceEdit => "InsertReplaceEdit"
  | completionItem => "CompletionItem"
  | completionList => "CompletionList"
  | parameterInformation => "ParameterInformation"
  | signatureInformation => "SignatureInformation"
  | signatureHelp => "SignatureHelp"
  | signatureHelpContext => "SignatureHelpContext"
  | formattingOptions => "FormattingOptions"
  | callHierarchyItem => "CallHierarchyItem"
  | callHierarchyIncomingCall => "CallHierarchyIncomingCall"
  | callHierarchyOutgoingCall => "CallHierarchyOutgoingCall"
  | typeHierarchyItem => "TypeHierarchyItem"
  | codeLens => "CodeLens"
  | documentHighlight => "DocumentHighlight"
  | documentLink => "DocumentLink"
  | foldingRange => "FoldingRange"
  | selectionRange => "SelectionRange"
  | semanticTokens => "SemanticTokens"
  | semanticTokensEdit => "SemanticTokensEdit"
  | semanticTokensDelta => "SemanticTokensDelta"
  | inlayHintLabelPart => "InlayHintLabelPart"
  | inlayHint => "InlayHint"
  | codeActionContext => "CodeActionContext"
  | codeActionDisabled => "CodeActionDisabled"
  | codeAction => "CodeAction"
  | fullDocumentDiagnosticReport => "FullDocumentDiagnosticReport"
  | unchangedDocumentDiagnosticReport => "UnchangedDocumentDiagnosticReport"
  | relatedFullDocumentDiagnosticReport => "RelatedFullDocumentDiagnosticReport"
  | relatedUnchangedDocumentDiagnosticReport => "RelatedUnchangedDocumentDiagnosticReport"
  | workspaceFullDocumentDiagnosticReport => "WorkspaceFullDocumentDiagnosticReport"
  | workspaceUnchangedDocumentDiagnosticReport => "WorkspaceUnchangedDocumentDiagnosticReport"
  | workspaceDiagnosticReport => "WorkspaceDiagnosticReport"
  | previousResultId => "PreviousResultId"
  | color => "Color"
  | colorInformation => "ColorInformation"
  | colorPresentation => "ColorPresentation"
  | linkedEditingRanges => "LinkedEditingRanges"
  | moniker => "Moniker"

/-- A field that has to be given. -/
def need (name key : String) (shape : Shape) : Field := ⟨⟨name, key⟩, shape, none⟩

/-- A field that may be null and is null when left out. -/
def may (name key : String) (shape : Shape) : Field := ⟨⟨name, key⟩, .optional shape, some .null⟩

/-- A field that holds a fixed word, also when left out. -/
def tag (w : String) : Field := ⟨⟨"kind", "kind"⟩, .word w, some (.text w)⟩

/-- Text, or text with markup. -/
def documentation : Shape := .union [.model markupContent, .text]

def markedString : Shape := .union [.text, .model languageString]

def documentChange : Shape :=
  .union [.model textDocumentEdit, .model createFile, .model renameFile, .model deleteFile]

def relatedDocuments : Shape :=
  .table (.union [.model fullDocumentDiagnosticReport, .model unchangedDocumentDiagnosticReport])

def hierarchyItem : List Field :=
  [need "name" "name" .text, need "kind" "kind" (.member .symbolKind), may "tags" "tags" (.list .whole),
    may "detail" "detail" .text, need "uri" "uri" .text, need "range" "range" (.model range),
    need "selection_range" "selectionRange" (.model range), may "data" "data" .any]

def fullReport : List Field :=
  [tag "full", may "result_id" "resultId" .text, need "items" "items" (.list (.model diagnostic))]

def unchangedReport : List Field := [tag "unchanged", need "result_id" "resultId" .text]

/-- The fields of a model in their order. -/
def fields : Model → List Field
  | position => [need "line" "line" .whole, need "character" "character" .whole]
  | range => [need "start" "start" (.model position), need "end" "end" (.model position)]
  | location => [need "uri" "uri" .text, need "range" "range" (.model range)]
  | locationLink =>
    [may "origin_selection_range" "originSelectionRange" (.model range), need "target_uri" "targetUri" .text,
      need "target_range" "targetRange" (.model range),
      need "target_selection_range" "targetSelectionRange" (.model range)]
  | textDocumentIdentifier => [need "uri" "uri" .text]
  | optionalVersionedTextDocumentIdentifier => [need "uri" "uri" .text, may "version" "version" .whole]
  | textEdit =>
    [need "range" "range" (.model range), need "new_text" "newText" .text, may "annotation_id" "annotationId" .text]
  | textDocumentEdit =>
    [need "text_document" "textDocument" (.model optionalVersionedTextDocumentIdentifier),
      need "edits" "edits" (.list (.model textEdit))]
  | createFileOptions => [may "overwrite" "overwrite" .flag, may "ignore_if_exists" "ignoreIfExists" .flag]
  | createFile =>
    [tag "create", need "uri" "uri" .text, may "options" "options" (.model createFileOptions),
      may "annotation_id" "annotationId" .text]
  | renameFileOptions => [may "overwrite" "overwrite" .flag, may "ignore_if_exists" "ignoreIfExists" .flag]
  | renameFile =>
    [tag "rename", need "old_uri" "oldUri" .text, need "new_uri" "newUri" .text,
      may "options" "options" (.model renameFileOptions), may "annotation_id" "annotationId" .text]
  | deleteFileOptions => [may "recursive" "recursive" .flag, may "ignore_if_not_exists" "ignoreIfNotExists" .flag]
  | deleteFile =>
    [tag "delete", need "uri" "uri" .text, may "options" "options" (.model deleteFileOptions),
      may "annotation_id" "annotationId" .text]
  | changeNote =>
    [need "label" "label" .text, may "needs_confirmation" "needsConfirmation" .flag,
      may "description" "description" .text]
  | workspaceEdit =>
    [may "changes" "changes" (.table (.list (.model textEdit))),
      may "document_changes" "documentChanges" (.list documentChange),
      may "change_annotations" "changeAnnotations" (.table (.model changeNote))]
  | command =>
    [need "title" "title" .text, need "command" "command" .text, may "arguments" "arguments" (.list .any)]
  | symbolInformation =>
    [need "name" "name" .text, need "kind" "kind" (.member .symbolKind), may "tags" "tags" (.list .whole),
      may "deprecated" "deprecated" .flag, need "location" "location" (.model location),
      may "container_name" "containerName" .text]
  | documentSymbol =>
    [need "name" "name" .text, may "detail" "detail" .text, need "kind" "kind" (.member .symbolKind),
      may "tags" "tags" (.list .whole), may "deprecated" "deprecated" .flag, need "range" "range" (.model range),
      need "selection_range" "selectionRange" (.model range),
      may "children" "children" (.list (.model documentSymbol))]
  | workspaceSymbolLocation => [need "uri" "uri" .text]
  | workspaceSymbol =>
    [need "name" "name" .text, need "kind" "kind" (.member .symbolKind), may "tags" "tags" (.list .whole),
      may "container_name" "containerName" .text,
      need "location" "location" (.union [.model location, .model workspaceSymbolLocation]), may "data" "data" .any]
  | diagnosticRelatedInformation => [need "location" "location" (.model location), need "message" "message" .text]
  | codeDescription => [need "href" "href" .text]
  | diagnostic =>
    [need "range" "range" (.model range), may "severity" "severity" (.member .diagnosticSeverity),
      may "code" "code" (.union [.whole, .text]),
      may "code_description" "codeDescription" (.model codeDescription), may "source" "source" .text,
      need "message" "message" .text, may "tags" "tags" (.list .whole),
      may "related_information" "relatedInformation" (.list (.model diagnosticRelatedInformation)),
      may "data" "data" .any]
  | markupContent => [need "kind" "kind" (.member .markupKind), need "value" "value" .text]
  | languageString => [need "language" "language" .text, need "value" "value" .text]
  | hover =>
    [need "contents" "contents"
        (.union [.model markupContent, .text, .model languageString, .list markedString]),
      may "range" "range" (.model range)]
  | completionItemLabelDetails => [may "detail" "detail" .text, may "description" "description" .text]
  | insertReplaceEdit =>
    [need "new_text" "newText" .text, need "insert" "insert" (.model range), need "replace" "replace" (.model range)]
  | completionItem =>
    [need "label" "label" .text, may "label_details" "labelDetails" (.model completionItemLabelDetails),
      may "kind" "kind" (.member .completionItemKind), may "tags" "tags" (.list .whole),
      may "detail" "detail" .text, may "documentation" "documentation" documentation,
      may "deprecated" "deprecated" .flag, may "preselect" "preselect" .flag, may "sort_text" "sortText" .text,
      may "filter_text" "filterText" .text, may "insert_text" "insertText" .text,
      may "insert_text_format" "insertTextFormat" .whole, may "insert_text_mode" "insertTextMode" .whole,
      may "text_edit" "textEdit" (.union [.model textEdit, .model insertReplaceEdit]),
      may "text_edit_text" "textEditText" .text,
      may "additional_text_edits" "additionalTextEdits" (.list (.model textEdit)),
      may "commit_characters" "commitCharacters" (.list .text), may "command" "command" (.model command),
      may "data" "data" .any]
  | completionList =>
    [need "is_incomplete" "isIncomplete" .flag, may "item_defaults" "itemDefaults" (.table .any),
      need "items" "items" (.list (.model completionItem))]
  | parameterInformation =>
    [need "label" "label" (.union [.text, .pair .whole .whole]), may "documentation" "documentation" documentation]
  | signatureInformation =>
    [need "label" "label" .text, may "documentation" "documentation" documentation,
      may "parameters" "parameters" (.list (.model parameterInformation)),
      may "active_parameter" "activeParameter" .whole]
  | signatureHelp =>
    [need "signatures" "signatures" (.list (.model signatureInformation)),
      may "active_signature" "activeSignature" .whole, may "active_parameter" "activeParameter" .whole]
  | signatureHelpContext =>
    [need "trigger_kind" "triggerKind" (.member .signatureHelpTriggerKind),
      may "trigger_character" "triggerCharacter" .text, need "is_retrigger" "isRetrigger" .flag,
      may "active_signature_help" "activeSignatureHelp" (.model signatureHelp)]
  | formattingOptions =>
    [need "tab_size" "tabSize" .whole, need "insert_spaces" "insertSpaces" .flag,
      may "trim_trailing_whitespace" "trimTrailingWhitespace" .flag,
      may "insert_final_newline" "insertFinalNewline" .flag, may "trim_final_newlines" "trimFinalNewlines" .flag]
  | callHierarchyItem => hierarchyItem
  | callHierarchyIncomingCall =>
    [need "from_" "from" (.model callHierarchyItem), need "from_ranges" "fromRanges" (.list (.model range))]
  | callHierarchyOutgoingCall =>
    [need "to" "to" (.model callHierarchyItem), need "from_ranges" "fromRanges" (.list (.model range))]
  | typeHierarchyItem => hierarchyItem
  | codeLens => [need "range" "range" (.model range), may "command" "command" (.model command), may "data" "data" .any]
  | documentHighlight => [need "range" "range" (.model range), may "kind" "kind" (.member .documentHighlightKind)]
  | documentLink =>
    [need "range" "range" (.model range), may "target" "target" .text, may "tooltip" "tooltip" .text,
      may "data" "data" .any]
  | foldingRange =>
    [need "start_line" "startLine" .whole, may "start_character" "startCharacter" .whole,
      need "end_line" "endLine" .whole, may "end_character" "endCharacter" .whole, may "kind" "kind" .text,
      may "collapsed_text" "collapsedText" .text]
  | selectionRange => [need "range" "range" (.model range), may "parent" "parent" (.model selectionRange)]
  | semanticTokens => [may "result_id" "resultId" .text, need "data" "data" (.list .whole)]
  | semanticTokensEdit =>
    [need "start" "start" .whole, need "delete_count" "deleteCount" .whole, may "data" "data" (.list .whole)]
  | semanticTokensDelta =>
    [may "result_id" "resultId" .text, need "edits" "edits" (.list (.model semanticTokensEdit))]
  | inlayHintLabelPart =>
    [need "value" "value" .text, may "tooltip" "tooltip" documentation, may "location" "location" (.model location),
      may "command" "command" (.model command)]
  | inlayHint =>
    [need "position" "position" (.model position),
      need "label" "label" (.union [.text, .list (.model inlayHintLabelPart)]),
      may "kind" "kind" (.member .inlayHintKind), may "text_edits" "textEdits" (.list (.model textEdit)),
      may "tooltip" "tooltip" documentation, may "padding_left" "paddingLeft" .flag,
      may "padding_right" "paddingRight" .flag, may "data" "data" .any]
  | codeActionContext =>
    [⟨⟨"diagnostics", "diagnostics"⟩, .list (.model diagnostic), some (.list [])⟩, may "only" "only" (.list .text),
      may "trigger_kind" "triggerKind" (.member .codeActionTriggerKind)]
  | codeActionDisabled => [need "reason" "reason" .text]
  | codeAction =>
    [need "title" "title" .text, may "kind" "kind" .text,
      may "diagnostics" "diagnostics" (.list (.model diagnostic)), may "is_preferred" "isPreferred" .flag,
      may "disabled" "disabled" (.model codeActionDisabled), may "edit" "edit" (.model workspaceEdit),
      may "command" "command" (.model command), may "data" "data" .any]
  | fullDocumentDiagnosticReport => fullReport
  | unchangedDocumentDiagnosticReport => unchangedReport
  | relatedFullDocumentDiagnosticReport =>
    fullReport ++ [may "related_documents" "relatedDocuments" relatedDocuments]
  | relatedUnchangedDocumentDiagnosticReport =>
    unchangedReport ++ [may "related_documents" "relatedDocuments" relatedDocuments]
  | workspaceFullDocumentDiagnosticReport =>
    fullReport ++ [need "uri" "uri" .text, may "version" "version" .whole]
  | workspaceUnchangedDocumentDiagnosticReport =>
    unchangedReport ++ [need "uri" "uri" .text, may "version" "version" .whole]
  | workspaceDiagnosticReport =>
    [need "items" "items" (.list (.union
      [.model workspaceFullDocumentDiagnosticReport, .model workspaceUnchangedDocumentDiagnosticReport]))]
  | previousResultId => [need "uri" "uri" .text, need "value" "value" .text]
  | color =>
    [need "red" "red" .real, need "green" "green" .real, need "blue" "blue" .real, need "alpha" "alpha" .real]
  | colorInformation => [need "range" "range" (.model range), need "color" "color" (.model color)]
  | colorPresentation =>
    [need "label" "label" .text, may "text_edit" "textEdit" (.model textEdit),
      may "additional_text_edits" "additionalTextEdits" (.list (.model textEdit))]
  | linkedEditingRanges =>
    [need "ranges" "ranges" (.list (.model range)), may "word_pattern" "wordPattern" .text]
  | moniker =>
    [need "scheme" "scheme" .text, need "identifier" "identifier" .text,
      need "unique" "unique" (.member .uniquenessLevel), may "kind" "kind" (.member .monikerKind)]

/-- Does the model keep entries that are no fields of it? -/
def isOpen : Model → Bool
  | formattingOptions => true
  | _ => false

end Model

end ServerTrial
