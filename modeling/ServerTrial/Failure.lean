import ServerTrial.Report.Difference
import ServerTrial.Protocol.Decode
import ServerTrial.Data.Inspect
import ServerTrial.Number.Text
import ServerTrial.Toml.Scalars

/-!
# Failures

What a trial can end with instead of passing.  A case is set up wrongly, or the editor brings nothing that can be
compared, or the reply differs from the expectation, or a case file says something that makes no case.  A fault is
what no report foresees: data of a kind that an operation cannot take, or a file system that refuses.
-/

namespace ServerTrial

/-- Why the file system or the operating system refuses. -/
inductive SystemError where
  | notFound | exists | notDirectory | isDirectory | nameTooLong
  | refused (text : String)
  deriving DecidableEq, Repr, Inhabited

/-- What no report foresees. -/
inductive Fault where
  /-- An operation got data of a kind it does not take. -/
  | kind
  /-- A part was asked of data that do not have it. -/
  | part
  /-- A key was asked of a table that does not have it. -/
  | key
  /-- An injection that is none. -/
  | unknownInjection (text : String)
  /-- Inputs for a request that takes none. -/
  | takesNoInputs (request : String) (names : List String)
  /-- Text or number without a sense. -/
  | value (text : String)
  /-- A number out of range. -/
  | overflow (text : String)
  | json (source : String) (e : JsonError)
  | toml
  /-- Data nest deeper than a reader goes. -/
  | nesting
  | invalid (data : Data) (refusals : List Refusal)
  | noHome
  /-- Text that has no bytes. -/
  | unencodable
  | system (e : SystemError)

/-- What a trial can end with instead of passing. -/
inductive Failure where
  | missingExtension (path : String)
  | invalidExtension (path : String)
  | invalidPath (path : String)
  | noCursor (request : String)
  | serverNotExecutable (command : String)
  | editorNotExecutable (command : String)
  | setup (detail : String)
  | editor (testId detail : String)
  | timeout (testId : String) (seconds : Float)
  | noResults (testId : String)
  | expectedNone (testId label actual : String)
  | expectedSome (testId label : String)
  | unreadable (testId detail : String)
  | notUtf8 (testId detail : String)
  | undecodable (testId detail : String)
  | mismatch (testId label : String) (expected actual : Data)
  | itemsMissing (testId : String) (missing provided : List Data)
  | caseFile (path detail : String)
  | bothMarkers (testId : String)
  | fault (f : Fault)

namespace Fault

/-- Why a TOML text is not read. -/
def ofToml : Toml.Error → Fault
  | .syntactic => .toml
  | .digits count => .value (tooManyDigits count)
  | .nesting => .nesting

/-- Why a JSON text is not read. -/
def ofJson (source : String) : JsonError → Fault
  | .at cause left => .json source (.at cause left)
  | .digits count => .value (tooManyDigits count)
  | .nesting => .nesting

/-- The text of a fault, where it has one of its own. -/
def message : Fault → String
  | unknownInjection text => "Unknown parameter injection: " ++ text
  | takesNoInputs request names => request ++ " takes no inputs, got " ++ (Data.arr (names.map .str)).inspect
  | value text => text
  | overflow text => text
  | json source e => e.message source
  | system (.refused text) => text
  | _ => ""

end Fault

namespace Failure

/-- What happened during a test. -/
def inTest (testId text : String) : String := "Test " ++ testId ++ ": " ++ text

def incorrect (label text : String) : String := "Incorrect " ++ label ++ " response:\n" ++ text

/-- The report. -/
def message : Failure → String
  | missingExtension path => "Source file \"" ++ path ++ "\" must have an extension"
  | invalidExtension path => "The extension of source file \"" ++ path ++ "\" is invalid"
  | invalidPath path => "Source file path \"" ++ path ++ "\" is invalid"
  | noCursor request => "A cursor position is required for " ++ request ++ " tests"
  | serverNotExecutable command => "The server command/path \"" ++ command ++ "\" is not executable"
  | editorNotExecutable command => "The neovim command \"" ++ command ++ "\" is not executable"
  | setup detail => detail
  | editor testId detail => inTest testId ("Neovim Error\n" ++ detail)
  | timeout testId seconds => inTest testId ("Test timeout of " ++ Real64.fixed 3 seconds ++ "s exceeded")
  | noResults testId => inTest testId "No results were written"
  | expectedNone testId label actual =>
    inTest testId (incorrect label ("Expected `None`, got:\n" ++ actual))
  | expectedSome testId label =>
    inTest testId (incorrect label "Expected `Some`, got `None`")
  | unreadable testId detail => inTest testId ("IO Error\n" ++ detail)
  | notUtf8 testId detail => inTest testId ("UTF8 Error\n" ++ detail)
  | undecodable testId detail => inTest testId ("Serialization Error\n" ++ detail)
  | mismatch testId label expected actual => inTest testId (incorrect label (differenceText expected actual))
  | itemsMissing testId missing provided =>
    inTest testId (incorrect "Completion"
      ("Unprovided item(s):\n" ++ itemsText .red missing ++ "Provided item(s):\n" ++ itemsText .green provided))
  | caseFile path detail => path ++ ": " ++ detail
  | bothMarkers testId => inTest testId "both a results file and an empty marker were written"
  | fault f => f.message

/-- Is the failure a report, and no fault or broken promise of the harness itself? -/
def isReport : Failure → Bool
  | bothMarkers _ => false
  | fault _ => false
  | _ => true

end Failure

namespace DecodeError

/-- The fault that a failed decoding is where it is not reported. -/
def fault : DecodeError → Fault
  | .json source e => .ofJson source e
  | .nesting => .nesting
  | .refused data refusals => .invalid data refusals

/-- The report of a failed decoding; what a shape refuses is not spelled out. -/
def message : DecodeError → String
  | .json source e => e.message source
  | _ => ""

end DecodeError

end ServerTrial
