import ServerTrial.Case.Table

/-!
# Case files

A case file is a TOML table with a whole trial in it: the request, the case, the inputs and the expectation.
-/

namespace ServerTrial

structure CaseFile where
  path : Path
  request : Request
  case : Case
  expectation : Expectation
  inputs : Inputs
  deriving Inhabited

namespace CaseFile

open CaseTable (wrong orFault)

/-- The keys that every file has. -/
def requiredKeys : List String := ["kind", "server", "source"]

/-- Reads the table of a file. -/
def ofEntries (w : World) (path : Path) (entries : List (String × Data)) : Except Failure CaseFile := do
  match requiredKeys.find? fun key => (Data.find? key entries).isNone with
  | some key => wrong path ("missing `" ++ key ++ "`")
  | none =>
    let r ← CaseTable.request path ((Data.find? "kind" entries).getD .null)
    let case ← CaseTable.caseOf w path entries
    let expectation ← CaseTable.expectation path r ((Data.find? "expect" entries).getD .null) entries
    let inputs ← CaseTable.inputs path r ((Data.find? "inputs" entries).getD (.obj []))
    match r.bind (inputs.map Prod.fst) with
    | .error e => wrong path ("bad [inputs] for " ++ r.slug ++ ": " ++ e.message)
    | .ok _ => return ⟨path, r, case, expectation, inputs⟩

/-- Reads data that should be the table of a file. -/
def ofData (w : World) (path : Path) (d : Data) : Except Failure CaseFile :=
  match d with
  | .obj entries => ofEntries w path entries
  | d => do
    for key in requiredKeys do
      if !(← orFault (d.holds key)) then wrong path ("missing `" ++ key ++ "`")
    throw (.fault .kind)

/-- Reads a file. -/
def load (w : World) (path : Path) : Except Failure CaseFile :=
  match w.fetch path with
  | .error _ => wrong path ""
  | .ok bytes =>
    match Utf8.decode (byteValues bytes) with
    | .error f => .error (.fault (.value f.message))
    | .ok text =>
      match Data.ofToml text with
      | .ok entries => ofEntries w path entries
      | .error .syntactic => wrong path "invalid TOML: "
      | .error e => .error (.fault (.ofToml e))

end CaseFile

end ServerTrial
