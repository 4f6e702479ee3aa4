import ServerTrial.Protocol.Models
import ServerTrial.Data.Inspect

/-!
# Message form and report form of values

`Value.toData` is the form a value has in messages: fields under their keys, those that are null left out.
`Value.inspect` is its text in reports.
-/

namespace ServerTrial

namespace Data

mutual

/-- Free data inside a message: dates and times as texts, floats that are no numbers as null, keys without lone
surrogates. -/
def messageForm : Data → Data
  | moment (.zoned d c 0) => str (Moment.text "T" (.civil d c) ++ "Z")
  | moment m => str (m.text "T")
  | float x => if x.isFinite then float x else null
  | arr xs => arr (messageFormItems xs)
  | obj xs => obj (collect (messageFormEntries xs))
  | d => d

def messageFormItems : List Data → List Data
  | [] => []
  | x :: xs => messageForm x :: messageFormItems xs

def messageFormEntries : List (String × Data) → List (String × Data)
  | [] => []
  | (k, x) :: xs => (Text.replaced k, messageForm x) :: messageFormEntries xs

end

end Data

namespace Value

/-- The greatest depth of free data in a message. -/
def depthLimit : Nat := 255

mutual

/-- Message form; free data inside records are put into the form of messages, those outside are kept. -/
def toDataIn (inRecord : Bool) : Value → Data
  | plain d => d
  | free d => if inRecord then d.messageForm else d
  | member _ _ d => d
  | list items => .arr (toDataItems inRecord items)
  | pair a b => .arr [toDataIn inRecord a, toDataIn inRecord b]
  | table entries =>
    let entries := toDataEntries inRecord entries
    .obj (if inRecord then Data.collect (entries.map fun e => (Text.replaced e.1, e.2)) else entries)
  | record _ fields extras => .obj (toDataFields fields ++ extrasForm extras)

def toDataItems (inRecord : Bool) : List Value → List Data
  | [] => []
  | v :: vs => toDataIn inRecord v :: toDataItems inRecord vs

def toDataEntries (inRecord : Bool) : List (String × Value) → List (String × Data)
  | [] => []
  | (k, v) :: vs => (k, toDataIn inRecord v) :: toDataEntries inRecord vs

/-- The fields that are not null, under their keys. -/
def toDataFields : List (Label × Value) → List (String × Data)
  | [] => []
  | (l, v) :: vs => if v.isNull then toDataFields vs else (l.key, toDataIn true v) :: toDataFields vs

/-- The further entries that are not null. -/
def extrasForm : List (String × Data) → List (String × Data)
  | [] => []
  | (_, .null) :: xs => extrasForm xs
  | (k, d) :: xs => (k, d.messageForm) :: extrasForm xs

end

mutual

/-- Do all free data in records keep to the limit? -/
def isShallowIn (inRecord : Bool) : Value → Bool
  | free d => !inRecord || d.depth ≤ depthLimit
  | list items => areShallow inRecord items
  | pair a b => isShallowIn inRecord a && isShallowIn inRecord b
  | table entries => areShallowEntries inRecord entries
  | record _ fields extras => areShallowFields fields && extras.all fun e => e.2.depth ≤ depthLimit
  | _ => true

def areShallow (inRecord : Bool) : List Value → Bool
  | [] => true
  | v :: vs => isShallowIn inRecord v && areShallow inRecord vs

def areShallowEntries (inRecord : Bool) : List (String × Value) → Bool
  | [] => true
  | (_, v) :: vs => isShallowIn inRecord v && areShallowEntries inRecord vs

def areShallowFields : List (Label × Value) → Bool
  | [] => true
  | (_, v) :: vs => isShallowIn true v && areShallowFields vs

end

/-- The form of a value in messages. -/
def toData (v : Value) : Data := toDataIn false v

/-- Can the value be put into messages? -/
def isShallow (v : Value) : Bool := isShallowIn false v

mutual

/-- The text of a value in reports. -/
def inspect : Value → String
  | plain d => d.inspect
  | free d => d.inspect
  | member e name d => "<" ++ e.name ++ "." ++ name ++ ": " ++ d.inspect ++ ">"
  | list items => bracketed "[" "]" (inspectItems items)
  | pair a b => bracketed "(" ")" [inspect a, inspect b]
  | table entries => bracketed "\x7b" "\x7d" (inspectEntries entries)
  | record m fields extras =>
    bracketed (m.name ++ "(") ")" (inspectFields fields ++ extras.map fun e => e.1 ++ "=" ++ e.2.inspect)

def inspectItems : List Value → List String
  | [] => []
  | v :: vs => inspect v :: inspectItems vs

def inspectEntries : List (String × Value) → List String
  | [] => []
  | (k, v) :: vs => (Text.quote k ++ ": " ++ inspect v) :: inspectEntries vs

def inspectFields : List (Label × Value) → List String
  | [] => []
  | (l, v) :: vs => (l.name ++ "=" ++ inspect v) :: inspectFields vs

end

end Value

end ServerTrial
