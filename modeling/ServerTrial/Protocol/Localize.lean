import ServerTrial.Protocol.Models

/-!
# URIs in values

Which fields of the models hold URIs, and which hold tables whose keys are URIs.  `Value.uris` lists the URIs
of a value, at every depth, and `Value.localize` maps them and nothing else.
-/

namespace ServerTrial

namespace Model

/-- Does the field hold a URI that may point into the workspace? -/
def holdsUri : Model → String → Bool
  | location, f | optionalVersionedTextDocumentIdentifier, f | createFile, f | deleteFile, f
  | workspaceSymbolLocation, f | callHierarchyItem, f | typeHierarchyItem, f
  | workspaceFullDocumentDiagnosticReport, f | workspaceUnchangedDocumentDiagnosticReport, f => f == "uri"
  | locationLink, f => f == "target_uri"
  | renameFile, f => f == "old_uri" || f == "new_uri"
  | documentLink, f => f == "target"
  | _, _ => false

/-- Does the field hold a table by URIs? -/
def holdsUriKeys : Model → String → Bool
  | workspaceEdit, f => f == "changes"
  | relatedFullDocumentDiagnosticReport, f | relatedUnchangedDocumentDiagnosticReport, f => f == "related_documents"
  | _, _ => false

end Model

namespace Value

/-- The text that a value is. -/
def textIn : Value → List String
  | plain (.str s) => [s]
  | _ => []

/-- The keys of a table. -/
def keysIn : Value → List String
  | table entries => entries.map Prod.fst
  | _ => []

mutual

/-- The URIs of a value. -/
def uris : Value → List String
  | list items => urisOfItems items
  | pair a b => uris a ++ uris b
  | table entries => urisOfEntries entries
  | record m fields _ => urisOfFields m fields
  | _ => []

def urisOfItems : List Value → List String
  | [] => []
  | v :: vs => uris v ++ urisOfItems vs

def urisOfEntries : List (String × Value) → List String
  | [] => []
  | (_, v) :: vs => uris v ++ urisOfEntries vs

def urisOfFields (m : Model) : List (Label × Value) → List String
  | [] => []
  | (l, v) :: vs =>
    (if m.holdsUri l.name then textIn v else if m.holdsUriKeys l.name then keysIn v else []) ++
      uris v ++ urisOfFields m vs

end

/-- Maps a text; other values stay. -/
def mapText (f : String → String) : Value → Value
  | plain (.str s) => plain (.str (f s))
  | v => v

/-- Maps the keys of a table; of two entries whose keys become one the last wins at the first place. -/
def mapKeys (f : String → String) : Value → Value
  | table entries => table (Data.collect (entries.map fun e => (f e.1, e.2)))
  | v => v

mutual

/-- Maps the URIs of a value. -/
def localize (clean : String → String) : Value → Value
  | plain d => plain d
  | free d => free d
  | member e name d => member e name d
  | list items => list (localizeItems clean items)
  | pair a b => pair (localize clean a) (localize clean b)
  | table entries => table (localizeEntries clean entries)
  | record m fields extras => record m (localizeFields clean m fields) extras

def localizeItems (clean : String → String) : List Value → List Value
  | [] => []
  | v :: vs => localize clean v :: localizeItems clean vs

def localizeEntries (clean : String → String) : List (String × Value) → List (String × Value)
  | [] => []
  | (k, v) :: vs => (k, localize clean v) :: localizeEntries clean vs

def localizeFields (clean : String → String) (m : Model) : List (Label × Value) → List (Label × Value)
  | [] => []
  | (l, v) :: vs =>
    (l,
      if m.holdsUri l.name then (localize clean v).mapText clean
      else if m.holdsUriKeys l.name then (localize clean v).mapKeys clean
      else localize clean v) :: localizeFields clean m vs

end

end Value

end ServerTrial
