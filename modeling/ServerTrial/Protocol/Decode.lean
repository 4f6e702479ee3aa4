import ServerTrial.Protocol.Check
import ServerTrial.Data.JsonReader

/-!
# Decoding replies

A reply is a JSON text that is checked against a shape.  An editor may write an empty array for an empty object
and the other way round; a lenient decoder exchanges empty containers that are refused, each place at most once,
and checks again, at most `maxRepairs` times.
-/

namespace ServerTrial

/-- Why a reply has no value. -/
inductive DecodeError where
  | json (source : String) (e : JsonError)
  /-- The data nest deeper than they can be repaired. -/
  | nesting
  | refused (data : Data) (refusals : List Refusal)

namespace Data

/-- Are the two of one kind? -/
def sameKind : Data → Data → Bool
  | null, null => true
  | bool _, bool _ => true
  | int _, int _ => true
  | float _, float _ => true
  | str _, str _ => true
  | moment _, moment _ => true
  | arr _, arr _ => true
  | obj _, obj _ => true
  | _, _ => false

/-- One step into the data: a key of an object or an index of an array. -/
def step? (d : Data) : Step → Option Data
  | .key k => d.get? k
  | .index i =>
    match d with
    | arr xs => if i < 0 then none else xs[i.toNat]?
    | _ => none

/-- Follows a place into the data; steps that lead nowhere are passed over.  Yields the steps taken and where
they end. -/
def walk : Data → List Step → List Step × Data
  | d, [] => ([], d)
  | d, s :: rest =>
    match d.step? s with
    | some d' => let (taken, last) := walk d' rest; (s :: taken, last)
    | none => walk d rest

/-- The steps of a place that lead to a value equal to `target`, if they do. -/
def resolve? (d : Data) (place : List Step) (target : Data) : Option (List Step) :=
  let (taken, last) := d.walk place
  if last.sameKind target && last.same target then some taken else none

/-- Replaces the item at an index. -/
def setItem (x : Data) : List Data → Nat → List Data
  | [], _ => []
  | _ :: ys, 0 => x :: ys
  | y :: ys, i + 1 => y :: setItem x ys i

/-- Replaces what stands at the end of a path by `x`; a path that leads nowhere changes nothing. -/
def replaceAt (x : Data) : List Step → Data → Data
  | [], _ => x
  | .key k :: rest, obj entries =>
    match find? k entries with
    | some d => obj (put k (replaceAt x rest d) entries)
    | none => obj entries
  | .index i :: rest, arr items =>
    match items[i.toNat]? with
    | some d => if i < 0 then arr items else arr (setItem (replaceAt x rest d) items i.toNat)
    | none => arr items
  | _ :: _, d => d

/-- The empty container of the other kind. -/
def exchanged : Data → Data
  | arr _ => obj []
  | _ => arr []

end Data

namespace Decode

/-- How often empty containers are exchanged at most. -/
def maxRepairs : Nat := 64

/-- Data under repair: the data, the places exchanged so far, and whether this round has changed anything. -/
structure Repair where
  data : Data
  seen : List (List Step)
  changed : Bool

/-- Exchanges the refused data if they are an empty container at a place not seen before. -/
def Repair.step (r : Repair) (refusal : Refusal) : Repair :=
  if refusal.data.isEmptyContainer then
    match r.data.resolve? refusal.place refusal.data with
    | some path =>
      if r.seen.contains path then r
      else ⟨Data.replaceAt refusal.data.exchanged path r.data, path :: r.seen, true⟩
    | none => r
  else r

/-- One round over all refusals. -/
def repair (data : Data) (seen : List (List Step)) (refusals : List Refusal) : Repair :=
  refusals.foldl Repair.step ⟨data, seen, false⟩

/-- Can data be repaired?  They are copied first, which takes two levels of nesting for each of theirs. -/
def isRepairable (data : Data) : Bool := 2 * data.depth ≤ nestingLimit

/-- Checks data as they are. -/
def checkPlainly (shape : Shape) (data : Data) : Except DecodeError Value :=
  match check data shape with
  | .ok m => .ok m.value
  | .error refusals => .error (.refused data refusals)

/-- Checks, and if `lenient` exchanges what is refused and checks again, for at most `fuel` rounds. -/
def checkRepairing (shape : Shape) (lenient : Bool) : Nat → List (List Step) → Data → Except DecodeError Value
  | 0, _, data => checkPlainly shape data
  | fuel + 1, seen, data =>
    match check data shape with
    | .ok m => .ok m.value
    | .error refusals =>
      if !lenient then .error (.refused data refusals)
      else if !isRepairable data then .error .nesting
      else
        let r := repair data seen refusals
        if r.changed then checkRepairing shape lenient fuel r.seen r.data else .error (.refused data refusals)

end Decode

/-- The value of a reply. -/
def decode (shape : Shape) (lenient : Bool) (source : String) : Except DecodeError Value :=
  match Data.ofJson source with
  | .error e => .error (.json source e)
  | .ok data => Decode.checkRepairing shape lenient Decode.maxRepairs [] data

/-- Order of steps: indices before keys. -/
def Step.le : Step → Step → Bool
  | .index i, .index j => i ≤ j
  | .index _, .key _ => true
  | .key _, .index _ => false
  | .key a, .key b => Text.le a b

/-- Order of places, step by step; the start of a place comes before it. -/
def Step.placeLe : List Step → List Step → Bool
  | [], _ => true
  | _ :: _, [] => false
  | s :: rest, t :: others => if s = t then placeLe rest others else s.le t

/-- The place in the data that was refused, without the steps that lead nowhere. -/
def Refusal.path? (data : Data) (r : Refusal) : Option (List Step) := data.resolve? r.place r.data

/-- All places that were refused, each once and in order. -/
def Refusal.places (data : Data) (refusals : List Refusal) : List (List Step) :=
  let found := refusals.filterMap fun r => r.path? data
  (found.foldl (fun acc p => if acc.contains p then acc else p :: acc) []).mergeSort Step.placeLe

end ServerTrial
