import ServerTrial.Request.Basic
import ServerTrial.Toml.Writer

/-!
# Skeletons of case files

A case file to start from: the request and the server are given, the rest holds places to fill in.
-/

namespace ServerTrial

namespace Skeleton

def origin : Data := .obj [("line", .int 0), ("character", .int 0)]

def emptyRange : Data := .obj [("start", origin), ("end", origin)]

def item : Data :=
  .obj [("name", .str ""), ("kind", .int 12), ("uri", .str "main.txt"), ("range", emptyRange),
    ("selectionRange", emptyRange)]

def black : Data := .obj [("red", .float 0), ("green", .float 0), ("blue", .float 0), ("alpha", .float 1)]

/-- Inputs to fill in, where a request cannot do without. -/
def inputs : Request → List (String × Data)
  | .references => [("include_declaration", .bool false)]
  | .rename => [("new_name", .str "renamed")]
  | .workspaceSymbol => [("query", .str "")]
  | .executeCommand => [("command", .str ""), ("arguments", .arr [])]
  | .semanticTokensRange | .codeAction => [("range", emptyRange)]
  | .incomingCalls | .outgoingCalls | .typeHierarchySupertypes | .typeHierarchySubtypes => [("item", item)]
  | .codeLensResolve => [("code_lens", .obj [("range", emptyRange)])]
  | .documentLinkResolve => [("link", .obj [("range", emptyRange)])]
  | .codeActionResolve => [("code_action", .obj [("title", .str "")])]
  | .completionResolve => [("completion_item", .obj [("label", .str "")])]
  | .colorPresentation => [("color", black), ("range", emptyRange)]
  | _ => []

/-- The source file that a skeleton names by default. -/
def defaultSource : String := "main.txt"

/-- The table of a skeleton. -/
def table (r : Request) (server source : String) : List (String × Data) :=
  [("kind", .str r.slug), ("server", .str server)] ++
    (if r.needsCursor || r = .documentHighlight then [("cursor", origin)] else []) ++
    (if r.hasEndState then [("expect", .str "end_state"), ("expected", .str "")] else [("expect", .str "none")]) ++
    [("source", .obj [("path", .str source), ("contents", .str "")])] ++
    (if (inputs r).isEmpty then [] else [("inputs", .obj (inputs r))])

/-- The text of a skeleton; a skeleton holds nothing that TOML cannot. -/
def text (r : Request) (server source : String) : String := (Data.toToml (table r server source)).getD ""

end Skeleton

end ServerTrial
