import ServerTrial.Request.Basic
import ServerTrial.Protocol.Value
import ServerTrial.Failure

/-!
# Expectations

What a trial expects of a reply: none, a value, all or some of the items of a completion, or the buffer after
the editor has acted on the reply.  Values are equal when their message forms are.
-/

namespace ServerTrial

inductive Expectation where
  /-- No reply, or an empty one. -/
  | nothing
  | value (v : Value)
  /-- The whole reply to a completion. -/
  | exactly (v : Value)
  /-- Items that must be among those of a completion. -/
  | containing (items : List Value)
  /-- The text of the buffer in the end. -/
  | endState (text : String)
  /-- The reply itself, where the buffer might be judged as well. -/
  | response (v : Value)
  deriving Inhabited

namespace Value

/-- How deep free data outside records nest. -/
def freeDepth : Value → Nat
  | plain d | free d => d.depth
  | _ => 0

/-- The message form.  Free data in records may nest up to `depthLimit`; of free data outside of them each level takes
two of `nestingLimit`. -/
def toMessage (v : Value) : Except Fault Data :=
  if !v.isShallow then .error (.value "Maximum serialization depth exceeded")
  else if 2 * v.freeDepth ≤ nestingLimit then .ok v.toData
  else .error .nesting

/-- Equality of message forms. -/
def same (v w : Value) : Except Fault Bool := do return (← v.toMessage).same (← w.toMessage)

end Value

namespace Completion

/-- The items of a reply to a completion: a list, or the list in a record. -/
def items : Value → List Value
  | .list vs => vs
  | v =>
    match v.field? "items" with
    | some (.list vs) => vs
    | _ => []

/-- Takes the first value equal to `wanted` out. -/
def takeOut (wanted : Data) : List Data → Option (List Data)
  | [] => none
  | d :: rest => if d.same wanted then some rest else (takeOut wanted rest).map (d :: ·)

/-- The wanted items that find no equal one left among those available. -/
def missing : List Value → List Data → Except Fault (List Value)
  | [], _ => .ok []
  | v :: vs, available =>
    v.toMessage.bind fun d =>
      match takeOut d available with
      | some rest => missing vs rest
      | none => (missing vs available).map (v :: ·)

/-- The wanted items that a reply lacks. -/
def missingFrom (wanted : List Value) (reply : Option Value) : Except Fault (List Value) := do
  missing wanted (← (reply.elim [] items).mapM Value.toMessage)

end Completion

namespace Expectation

/-- The text of an expectation in reports. -/
def inspect : Expectation → String
  | nothing => "None"
  | value v => v.inspect
  | exactly v => "Exact(response=" ++ v.inspect ++ ")"
  | containing items => "Contains(items=" ++ tupleText (items.map Value.inspect) ++ ")"
  | endState text => "EndState(text=" ++ Text.quote text ++ ")"
  | response v => "Response(value=" ++ v.inspect ++ ")"

def isNothing : Expectation → Bool
  | nothing => true
  | _ => false

/-- Is the buffer judged and not the reply? -/
def isEndState : Expectation → Bool
  | endState _ => true
  | _ => false

/-- The shape of what the editor records for a request. -/
def shape (r : Request) (e : Expectation) : Shape := if r.hasEndState && e.isEndState then .text else r.response

/-- May empty containers in what the editor records be exchanged?  Text stays as it is. -/
def isLenient (r : Request) (e : Expectation) : Bool := if r.hasEndState && e.isEndState then false else r.isLenient

/-- The value that a reply must equal. -/
def wanted : Expectation → Value
  | nothing => .null
  | value v | exactly v | response v => v
  | containing items => .list items
  | endState text => .text text

/-- Compares a reply with the expectation. -/
def judge (r : Request) (testId : String) (e : Expectation) (reply : Value) : Except Failure Unit :=
  match e with
  | containing items => do
    let missing ← (Completion.missingFrom items (some reply)).mapError Failure.fault
    if missing.isEmpty then return ()
    else throw (.itemsMissing testId (missing.map Value.toData) ((Completion.items reply).map Value.toData))
  | _ => do
    let expected ← e.wanted.toMessage.mapError Failure.fault
    let actual ← reply.toMessage.mapError Failure.fault
    if expected.same actual then return ()
    else if expected.isJson then throw (.mismatch testId r.label expected actual)
    else throw (.fault .kind)

end Expectation

end ServerTrial
