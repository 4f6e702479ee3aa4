import ServerTrial.Data.Basic

/-!
# Shapes and values

A shape describes which data a place of a protocol message takes; a value is what data become once they have a
shape.  Messages with named fields are models, words or numbers with names are enumerations; both are listed by
name here and described in `Protocol.Models`, so that a shape may mention itself.
-/

namespace ServerTrial

/-- The named sets of numbers and words. -/
inductive Enumeration where
  | symbolKind | diagnosticSeverity | markupKind | completionItemKind | signatureHelpTriggerKind
  | documentHighlightKind | inlayHintKind | codeActionTriggerKind | uniquenessLevel | monikerKind
  deriving DecidableEq, Repr, Inhabited

/-- The messages, and parts of messages, with named fields. -/
inductive Model where
  | position | range | location | locationLink
  | textDocumentIdentifier | optionalVersionedTextDocumentIdentifier
  | textEdit | textDocumentEdit
  | createFileOptions | createFile | renameFileOptions | renameFile | deleteFileOptions | deleteFile
  | changeNote | workspaceEdit | command
  | symbolInformation | documentSymbol | workspaceSymbolLocation | workspaceSymbol
  | diagnosticRelatedInformation | codeDescription | diagnostic
  | markupContent | languageString | hover
  | completionItemLabelDetails | insertReplaceEdit | completionItem | completionList
  | parameterInformation | signatureInformation | signatureHelp | signatureHelpContext
  | formattingOptions
  | callHierarchyItem | callHierarchyIncomingCall | callHierarchyOutgoingCall | typeHierarchyItem
  | codeLens | documentHighlight | documentLink | foldingRange | selectionRange
  | semanticTokens | semanticTokensEdit | semanticTokensDelta
  | inlayHintLabelPart | inlayHint
  | codeActionContext | codeActionDisabled | codeAction
  | fullDocumentDiagnosticReport | unchangedDocumentDiagnosticReport
  | relatedFullDocumentDiagnosticReport | relatedUnchangedDocumentDiagnosticReport
  | workspaceFullDocumentDiagnosticReport | workspaceUnchangedDocumentDiagnosticReport
  | workspaceDiagnosticReport | previousResultId
  | color | colorInformation | colorPresentation
  | linkedEditingRanges | moniker
  deriving DecidableEq, Repr, Inhabited

/-- What a place takes: a text, an integer, a float, a boolean, anything; a fixed word; a member of an
enumeration; a model; a list; a pair; a table from texts; also null; one of several shapes. -/
inductive Shape where
  | text
  | whole
  | real
  | flag
  | any
  | word (w : String)
  | member (e : Enumeration)
  | model (m : Model)
  | list (item : Shape)
  | pair (first second : Shape)
  | table (entry : Shape)
  | optional (inner : Shape)
  | union (branches : List Shape)
  deriving Inhabited, Repr

/-- The two names of a field: `name` in reports, `key` in messages. -/
structure Label where
  name : String
  key : String
  deriving DecidableEq, Repr, Inhabited

/-- Data with a shape.  `free` are data at a place that takes anything.  A record lists its fields in the order of
its model, those left out with their defaults; `extras` are the entries that an open model keeps beside its
fields. -/
inductive Value where
  | plain (d : Data)
  | free (d : Data)
  | member (e : Enumeration) (name : String) (data : Data)
  | list (items : List Value)
  | pair (first second : Value)
  | table (entries : List (String × Value))
  | record (m : Model) (fields : List (Label × Value)) (extras : List (String × Data))
  deriving Inhabited

/-- A field of a model; without a default it has to be given. -/
structure Field where
  label : Label
  shape : Shape
  default : Option Value
  deriving Inhabited

namespace Value

def null : Value := .plain .null

def text (s : String) : Value := .plain (.str s)

def whole (n : Int) : Value := .plain (.int n)

def isNull : Value → Bool
  | .plain .null => true
  | .free .null => true
  | _ => false

/-- The field with a name, in a list of fields. -/
def fieldOf? (name : String) : List (Label × Value) → Option Value
  | [] => none
  | (l, v) :: rest => if l.name = name then some v else fieldOf? name rest

/-- The field of a record. -/
def field? (name : String) : Value → Option Value
  | .record _ fields _ => fieldOf? name fields
  | _ => none

/-- The text a value is. -/
def text? : Value → Option String
  | .plain (.str s) => some s
  | _ => none

/-- The integer a value is. -/
def whole? : Value → Option Int
  | .plain (.int n) => some n
  | _ => none

end Value

end ServerTrial
