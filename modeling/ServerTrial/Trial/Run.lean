import ServerTrial.Case.File
import ServerTrial.Lua.Script
import ServerTrial.Request.Parameters
import ServerTrial.Trial.Outcome
import ServerTrial.Trial.Supervise

/-!
# Runs

A run of a case: what can be told beforehand is checked, the workspace is written, the editor is started and
looked after, and the outcome is judged.  A case that asks for it has its workspace removed however the run goes.
-/

namespace ServerTrial

namespace Request

/-- The inputs that the entry point of a request hands on: all that it knows, null where one is not given. -/
def handOn (r : Request) (given : Inputs) : Inputs := r.slots.map fun s => (s.name, input given s.name)

/-- A request that needs a cursor must have one. -/
def demandCursor (r : Request) (c : Case) : Except Failure Unit :=
  if r.needsCursor && c.cursor.isNone then .error (.noCursor r.slug) else .ok ()

end Request

namespace Trial

/-- Does something afterwards, however the first has gone; a failure of the last is the one that counts. -/
def followedBy {α : Type} (t : Trial α) (last : Trial Unit) : Trial α := do
  let result ← (ExceptT.lift (ExceptT.run t) : Trial (Except Failure α))
  last
  ofExcept result

/-- The part of a run that leaves traces. -/
def perform (c : Case) (l : Layout) (r : Request) (e : Expectation) (injections : List Injection) (editor : Editor) :
    Trial Unit := do
  let script ← ofExcept (c.script l r injections)
  let source ← Workspace.materialize c l script
  let interval ← ofFault (← world).pollInterval
  supervise c l source interval editor
  ofExcept (Outcome.resolve c r (← world) l e)

/-- Tries a request on a case. -/
def run (c : Case) (r : Request) (e : Expectation) (given : Inputs) (editor : Editor) : Trial Unit := do
  let w ← world
  let injections ← ofExcept (r.injections c w e given)
  ofExcept (r.demandCursor c)
  ofExcept (c.validate w)
  let l := c.layout w
  let body := perform c l r e injections editor
  if c.cleanup then body.followedBy (Workspace.cleanup l) else body

end Trial

namespace CaseFile

/-- The script that a run would write. -/
def script (f : CaseFile) (w : World) : Except Failure String := do
  f.case.script (f.case.layout w) f.request (← f.request.injections f.case w f.expectation f.inputs)

/-- Tries the request by its entry point, which takes the inputs that it knows by name. -/
def run (f : CaseFile) (editor : Editor) : Trial Unit :=
  match f.request.bind (f.inputs.map Prod.fst) with
  | .error _ => throw (.fault .kind)
  | .ok _ => Trial.run f.case f.request f.expectation (f.request.handOn f.inputs) editor

end CaseFile

end ServerTrial
