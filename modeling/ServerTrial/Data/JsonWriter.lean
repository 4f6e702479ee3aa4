import ServerTrial.Data.Basic
import ServerTrial.Number.Text
import ServerTrial.Text.Quoted

/-!
# Writing JSON

`Data.toJson` writes on one line, in ASCII, with a space behind commas and colons.  `Data.toJsonSorted` sorts the
keys, and `Data.toJsonIndented` sorts them and gives every item and entry a line of its own.
-/

namespace ServerTrial

namespace Json

/-- One code point in a string, escaped unless it is printable ASCII. -/
def escapePoint (n : Nat) : String :=
  if n = 0x22 then "\\\""
  else if n = 0x5C then "\\\\"
  else if n = 0x0A then "\\n"
  else if n = 0x0D then "\\r"
  else if n = 0x09 then "\\t"
  else if n = 0x0C then "\\f"
  else if n = 0x08 then "\\b"
  else if 0x20 ≤ n ∧ n < 0x7F then String.singleton (Char.ofNat n)
  else if n < 0x10000 then "\\u" ++ Text.hex 4 n
  else "\\u" ++ Text.hex 4 (0xD800 + (n - 0x10000) / 0x400) ++ "\\u" ++ Text.hex 4 (0xDC00 + (n - 0x10000) % 0x400)

def string (s : String) : String := "\"" ++ String.join ((Text.points s).map escapePoint) ++ "\""

/-- Entries in the order of their keys. -/
def sortEntries {α : Type} (entries : List (String × α)) : List (String × α) :=
  entries.mergeSort fun a b => Text.le a.1 b.1

end Json

namespace Data

mutual

/-- The value with the keys of all its objects in order. -/
def sortKeys : Data → Data
  | arr items => arr (sortKeysItems items)
  | obj entries => obj (Json.sortEntries (sortKeysEntries entries))
  | d => d

def sortKeysItems : List Data → List Data
  | [] => []
  | x :: xs => sortKeys x :: sortKeysItems xs

def sortKeysEntries : List (String × Data) → List (String × Data)
  | [] => []
  | (k, x) :: xs => (k, sortKeys x) :: sortKeysEntries xs

end

mutual

/-- Holds no date or time, which JSON cannot write. -/
def isJson : Data → Bool
  | moment _ => false
  | arr items => isJsonItems items
  | obj entries => isJsonEntries entries
  | _ => true

def isJsonItems : List Data → Bool
  | [] => true
  | x :: xs => isJson x && isJsonItems xs

def isJsonEntries : List (String × Data) → Bool
  | [] => true
  | (_, x) :: xs => isJson x && isJsonEntries xs

end

mutual

/-- JSON text on one line; a date or time, which has no JSON form, is written as `null`. -/
def toJson : Data → String
  | null => "null"
  | bool b => if b then "true" else "false"
  | int n => toString n
  | float x => Real64.text .json x
  | str s => Json.string s
  | moment _ => "null"
  | arr items => "[" ++ ", ".intercalate (toJsonItems items) ++ "]"
  | obj entries => "\x7b" ++ ", ".intercalate (toJsonEntries entries) ++ "\x7d"

def toJsonItems : List Data → List String
  | [] => []
  | x :: xs => toJson x :: toJsonItems xs

def toJsonEntries : List (String × Data) → List String
  | [] => []
  | (k, x) :: xs => (Json.string k ++ ": " ++ toJson x) :: toJsonEntries xs

end

/-- Two spaces a step. -/
def indent (depth : Nat) : String := String.ofList (List.replicate (2 * depth) ' ')

mutual

/-- JSON text over several lines, from a place indented by `depth` steps of two spaces. -/
def layOut (depth : Nat) : Data → String
  | arr [] => "[]"
  | obj [] => "\x7b\x7d"
  | arr items =>
    "[\n" ++ ",\n".intercalate (layOutItems (depth + 1) items) ++ "\n" ++ indent depth ++ "]"
  | obj entries =>
    "\x7b\n" ++ ",\n".intercalate (layOutEntries (depth + 1) entries) ++ "\n" ++ indent depth ++ "\x7d"
  | d => toJson d

def layOutItems (depth : Nat) : List Data → List String
  | [] => []
  | x :: xs => (indent depth ++ layOut depth x) :: layOutItems depth xs

def layOutEntries (depth : Nat) : List (String × Data) → List String
  | [] => []
  | (k, x) :: xs => (indent depth ++ Json.string k ++ ": " ++ layOut depth x) :: layOutEntries depth xs

end

/-- JSON text on one line with sorted keys. -/
def toJsonSorted (d : Data) : String := d.sortKeys.toJson

/-- JSON text over several lines with sorted keys. -/
def toJsonIndented (d : Data) : String := layOut 0 d.sortKeys

end Data

end ServerTrial
