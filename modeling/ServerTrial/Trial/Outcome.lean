import ServerTrial.Request.Expectation
import ServerTrial.Protocol.Localize
import ServerTrial.Trial.Workspace

/-!
# Outcomes

How a trial has gone is read from the markers in its workspace.  Two markers speak of a reply: one that there was
none, and one with the reply.  If there is neither, a timeout, an error that was reported, or the lack of both
explains why.
-/

namespace ServerTrial

namespace Value

/-- The value with URIs of workspace files as relative paths; the spellings of the directory are needed only if there
is a URI. -/
def localizeBy (spellings : Except Fault (List String)) (v : Value) : Except Fault Value :=
  if v.uris.isEmpty then .ok v else spellings.map fun s => v.localize (Uri.clean s)

end Value

namespace Request

/-- The reply with URIs of workspace files as relative paths.  A reply that is absent stays so; the requests whose
reply is one record that may name files cannot do without it. -/
def localize (r : Request) (spellings : Except Fault (List String)) (reply : Option Value) :
    Except Fault (Option Value) :=
  match reply with
  | some v => (v.localizeBy spellings).map some
  | none =>
    match r with
    | documentLinkResolve | rename | documentDiagnostic | workspaceDiagnostic => .error .part
    | _ => .ok none

end Request

namespace Outcome

/-- Is the reply null, or a list or an object without content?  The editor writes both alike. -/
def isEmptyReply (raw : String) : Except Fault Bool :=
  match Data.ofJson raw with
  | .ok .null => .ok true
  | .ok d => .ok d.isEmptyContainer
  | .error .nesting => .error .nesting
  | .error _ => .ok false

/-- The text of the reply. -/
def readReply (c : Case) (w : World) (l : Layout) : Except Failure String :=
  match w.fetch (l.marker .results) with
  | .error _ => .error (.unreadable c.testId "")
  | .ok bytes => (Utf8.decode (byteValues bytes)).mapError fun f => .notUtf8 c.testId f.message

/-- Is a marker there? -/
def marked (w : World) (l : Layout) (m : Marker) : Except Failure Bool :=
  (w.present (l.marker m)).mapError fun e => .fault (.system e)

/-- The reply of a trial that expects none, as reports show it: its value, or its text if it has no value. -/
def unexpectedText (r : Request) (spellings : Except Fault (List String)) (raw : String) : Except Fault String :=
  match (decode r.response r.isLenient raw).mapError DecodeError.fault with
  | .ok v => .ok ((v.localizeBy spellings).toOption.elim (Text.quote raw) Value.inspect)
  | .error .nesting => .error .nesting
  | .error _ => .ok (Text.quote raw)

/-- Judges a reply that the editor has recorded. -/
def judgeReply (c : Case) (r : Request) (spellings : Except Fault (List String)) (e : Expectation) (raw : String) :
    Except Failure Unit := do
  if e.isNothing then
    if ← (isEmptyReply raw).mapError Failure.fault then return ()
    throw (.expectedNone c.testId r.label (← (unexpectedText r spellings raw).mapError Failure.fault))
  match decode (e.shape r) (e.isLenient r) raw with
  | .ok v => e.judge r c.testId (← (v.localizeBy spellings).mapError Failure.fault)
  | .error d =>
    match d.fault with
    | .nesting => throw (.fault .nesting)
    | _ => throw (.undecodable c.testId ("Results file -- " ++ d.message))

/-- Why there is no word of a reply. -/
def silence (c : Case) (w : World) (l : Layout) : Except Failure Unit := do
  if ← marked w l .timeout then throw (.timeout c.testId c.timeout)
  let error ← (Workspace.reportedError w l).mapError Failure.fault
  if Text.hasInk error then throw (.editor c.testId error)
  throw (.noResults c.testId)

/-- Has the trial gone as expected? -/
def resolve (c : Case) (r : Request) (w : World) (l : Layout) (e : Expectation) : Except Failure Unit := do
  match ← marked w l .empty, ← marked w l .results with
  | true, true => throw (.bothMarkers c.testId)
  | true, false => if !e.isNothing then throw (.expectedSome c.testId r.label)
  | false, false => silence c w l
  | false, true => judgeReply c r (w.spellings l.sources) e (← readReply c w l)

end Outcome

end ServerTrial
