import ServerTrial.Data.Basic
import ServerTrial.Number.Limit
import ServerTrial.Text.Surrogate

/-!
# Reading JSON

`Data.ofJson` reads one JSON value and nothing else.  A number with a fraction or an exponent is a float, others
are integers of any size up to `digitLimit` digits, the words `NaN`, `Infinity` and `-Infinity` are floats, and control characters may not stand
in strings.  A failure says what was expected and how many characters were left at that place
(`JsonError.message` turns this into line and column).
-/

namespace ServerTrial

/-- What is no JSON at a place. -/
inductive JsonError.Cause where
  | byteOrderMark | value | key | colon | comma
  | unterminated | control | escape | unicodeEscape
  | extra
  deriving DecidableEq, Repr

/-- Why a text is not read: it is no JSON at a place, given by the number of characters from there to the end, or it
goes beyond what is read. -/
inductive JsonError where
  | at (cause : JsonError.Cause) (left : Nat)
  | digits (count : Nat)
  | nesting
  deriving DecidableEq, Repr

namespace JsonError

def Cause.text : Cause → String
  | .byteOrderMark => "Unexpected UTF-8 BOM (decode using utf-8-sig)"
  | .value => "Expecting value"
  | .key => "Expecting property name enclosed in double quotes"
  | .colon => "Expecting ':' delimiter"
  | .comma => "Expecting ',' delimiter"
  | .unterminated => "Unterminated string starting at"
  | .control => "Invalid control character at"
  | .escape => "Invalid \\escape"
  | .unicodeEscape => "Invalid \\uXXXX escape"
  | .extra => "Extra data"

/-- Line and column, from one, behind a stretch of text. -/
def lineColumn (before : List Char) : Nat × Nat :=
  before.foldl (fun p c => if c = '\n' then (p.1 + 1, 1) else (p.1, p.2 + 1)) (1, 1)

/-- The report on a failure in `source`. -/
def message (source : String) : JsonError → String
  | .at cause left =>
    let cs := source.toList
    let position := cs.length - left
    let (line, column) := lineColumn (cs.take position)
    cause.text ++ ": line " ++ toString line ++ " column " ++ toString column ++ " (char " ++ toString position ++ ")"
  | digits count => tooManyDigits count
  | nesting => ""

end JsonError

namespace Json

/-- A reader takes characters from the front. -/
abbrev Read (α : Type) := Except JsonError (α × List Char)

def fail {α : Type} (cause : JsonError.Cause) (rest : List Char) : Except JsonError α := .error (.at cause rest.length)

def isSpace (c : Char) : Bool := c == ' ' || c == '\t' || c == '\n' || c == '\r'

def skip (cs : List Char) : List Char := cs.dropWhile isSpace

def isDigit (c : Char) : Bool := '0' ≤ c && c ≤ '9'

/-- The value of a run of digits. -/
def natural (digits : List Char) : Nat := digits.foldl (fun n c => 10 * n + (c.toNat - 48)) 0

/-- The fraction behind a point, if a digit follows it. -/
def fraction : List Char → Option (List Char × List Char)
  | '.' :: c :: rest => if isDigit c then some ((c :: rest).span isDigit) else none
  | _ => none

/-- The exponent behind the letter `e`, if a digit follows it and its sign. -/
def exponent : List Char → Option (Int × List Char)
  | e :: rest =>
    if e = 'e' ∨ e = 'E' then
      let (negative, rest) := match rest with
        | '+' :: r => (false, r)
        | '-' :: r => (true, r)
        | r => (false, r)
      let (digits, rest) := rest.span isDigit
      if digits.isEmpty then none
      else some (if negative then -(natural digits : Int) else natural digits, rest)
    else none
  | [] => none

/-- The integer digits of a number: a lone zero, or digits that start with another one. -/
def wholeDigits : List Char → Option (List Char × List Char)
  | '0' :: rest => some (['0'], rest)
  | c :: rest => if isDigit c then some ((c :: rest).span isDigit) else none
  | [] => none

/-- Reads a number, if one starts here. -/
def number? (cs : List Char) : Option (Read Data) :=
  let (negative, body) := match cs with
    | '-' :: r => (true, r)
    | r => (false, r)
  match wholeDigits body with
  | none => none
  | some (whole, rest) =>
    let (part, rest, isFloat) := match fraction rest with
      | some (digits, r) => (digits, r, true)
      | none => ([], rest, false)
    let (power, rest, isFloat) := match exponent rest with
      | some (e, r) => (e, r, true)
      | none => (0, rest, isFloat)
    let digits := natural (whole ++ part)
    if isFloat then some (.ok (.float (Binary.ofDecimal negative digits (power - part.length)), rest))
    else if whole.length > digitLimit then some (.error (.digits whole.length))
    else some (.ok (.int (if negative then -(digits : Int) else digits), rest))

def hexValue? (c : Char) : Option Nat :=
  if '0' ≤ c ∧ c ≤ '9' then some (c.toNat - 48)
  else if 'a' ≤ c ∧ c ≤ 'f' then some (c.toNat - 87)
  else if 'A' ≤ c ∧ c ≤ 'F' then some (c.toNat - 55)
  else none

/-- Four hexadecimal digits. -/
def unit? (a b c d : Char) : Option Nat := do
  let w ← hexValue? a
  let x ← hexValue? b
  let y ← hexValue? c
  let z ← hexValue? d
  return ((w * 16 + x) * 16 + y) * 16 + z

def isHigh (n : Nat) : Bool := 0xD800 ≤ n && n ≤ 0xDBFF

def isLow (n : Nat) : Bool := 0xDC00 ≤ n && n ≤ 0xDFFF

/-- The character a one-letter escape stands for. -/
def letterEscape? : Char → Option Nat
  | '"' => some 0x22
  | '\\' => some 0x5C
  | '/' => some 0x2F
  | 'b' => some 0x08
  | 'f' => some 0x0C
  | 'n' => some 0x0A
  | 'r' => some 0x0D
  | 't' => some 0x09
  | _ => none

/-- Puts a code point in front of what is read. -/
def pushPoint (n : Nat) : Read (List Nat) → Read (List Nat)
  | .ok (ns, rest) => .ok (n :: ns, rest)
  | .error e => .error e

/-- Reads the code points up to the closing quote; `start` is what was left at the opening one. -/
def stringBody (start : Nat) : List Char → Read (List Nat)
  | [] => .error (.at .unterminated start)
  | '"' :: rest => .ok ([], rest)
  | '\\' :: [] => .error (.at .unterminated start)
  | '\\' :: 'u' :: a :: b :: c :: d :: q :: rest =>
    match unit? a b c d with
    | none => fail .unicodeEscape ('u' :: a :: b :: c :: d :: q :: rest)
    | some n => pushPoint n (stringBody start (q :: rest))
  | '\\' :: 'u' :: rest => fail .unicodeEscape ('u' :: rest)
  | '\\' :: c :: rest =>
    match letterEscape? c with
    | some n => pushPoint n (stringBody start rest)
    | none => fail .escape ('\\' :: c :: rest)
  | c :: rest => if c.toNat < 0x20 then fail .control (c :: rest) else pushPoint c.toNat (stringBody start rest)

/-- Joins each high surrogate with the low one right behind it. -/
def joinPairs : List Nat → List Nat
  | high :: low :: rest =>
    if isHigh high && isLow low then (0x10000 + (high - 0xD800) * 0x400 + (low - 0xDC00)) :: joinPairs rest
    else high :: joinPairs (low :: rest)
  | ns => ns

/-- The text of code points. -/
def textOf (points : List Nat) : String := String.ofList ((joinPairs points).map Text.ofPoint)

/-- The rest behind a word that the text starts with. -/
def word? (w : List Char) (cs : List Char) : Option (List Char) :=
  if w.isPrefixOf cs then some (cs.drop w.length) else none

/-- A word or a number. -/
def scalar (cs : List Char) : Read Data :=
  match word? "null".toList cs with
  | some rest => .ok (.null, rest)
  | none =>
  match word? "true".toList cs with
  | some rest => .ok (.bool true, rest)
  | none =>
  match word? "false".toList cs with
  | some rest => .ok (.bool false, rest)
  | none =>
  match word? "NaN".toList cs with
  | some rest => .ok (.float Real64.nan, rest)
  | none =>
  match word? "Infinity".toList cs with
  | some rest => .ok (.float Real64.infinity, rest)
  | none =>
  match word? "-Infinity".toList cs with
  | some rest => .ok (.float (-Real64.infinity), rest)
  | none =>
  match number? cs with
  | some r => r
  | none => fail .value cs

mutual

/-- Reads a value inside of `depth` brackets.  A character takes two units of fuel at most: a bracket leads to a value
by way of its items. -/
def value : Nat → Nat → List Char → Read Data
  | 0, _, cs => fail .value cs
  | fuel + 1, depth, cs =>
    match cs with
    | '"' :: rest =>
      match stringBody cs.length rest with
      | .ok (points, rest) => .ok (.str (textOf points), rest)
      | .error e => .error e
    | '[' :: rest =>
      if depth ≥ nestingLimit then .error .nesting
      else
        match skip rest with
        | ']' :: rest => .ok (.arr [], rest)
        | rest =>
          match items fuel (depth + 1) rest with
          | .ok (xs, rest) => .ok (.arr xs, rest)
          | .error e => .error e
    | '{' :: rest =>
      if depth ≥ nestingLimit then .error .nesting
      else
        match skip rest with
        | '}' :: rest => .ok (.obj [], rest)
        | rest =>
          match members fuel (depth + 1) rest with
          | .ok (entries, rest) => .ok (.obj (Data.collect entries), rest)
          | .error e => .error e
    | _ => scalar cs

/-- The items of an array from the first one to the closing bracket. -/
def items : Nat → Nat → List Char → Read (List Data)
  | 0, _, cs => fail .value cs
  | fuel + 1, depth, cs =>
    match value fuel depth cs with
    | .error e => .error e
    | .ok (x, rest) =>
      match skip rest with
      | ']' :: rest => .ok ([x], rest)
      | ',' :: rest =>
        match items fuel depth (skip rest) with
        | .ok (xs, rest) => .ok (x :: xs, rest)
        | .error e => .error e
      | rest => fail .comma rest

/-- The members of an object from the first key to the closing brace. -/
def members : Nat → Nat → List Char → Read (List (String × Data))
  | 0, _, cs => fail .value cs
  | fuel + 1, depth, cs =>
    match cs with
    | '"' :: rest =>
      match stringBody cs.length rest with
      | .error e => .error e
      | .ok (key, rest) =>
        match skip rest with
        | ':' :: rest =>
          match value fuel depth (skip rest) with
          | .error e => .error e
          | .ok (x, rest) =>
            match skip rest with
            | '}' :: rest => .ok ([(textOf key, x)], rest)
            | ',' :: rest =>
              match members fuel depth (skip rest) with
              | .ok (entries, rest) => .ok ((textOf key, x) :: entries, rest)
              | .error e => .error e
            | rest => fail .comma rest
        | rest => fail .colon rest
    | _ => fail .key cs

end

/-- Reads a document: one value between spaces. -/
def document (cs : List Char) : Except JsonError Data :=
  if cs.head? = some (Char.ofNat 0xFEFF) then fail .byteOrderMark cs
  else
    match value (2 * cs.length + 2) 0 (skip cs) with
    | .error e => .error e
    | .ok (x, rest) =>
      match skip rest with
      | [] => .ok x
      | rest => fail .extra rest

end Json

/-- The value a JSON text stands for. -/
def Data.ofJson (text : String) : Except JsonError Data := Json.document text.toList

theorem Data.ofJson_ofList (cs : List Char) : Data.ofJson (String.ofList cs) = Json.document cs := by
  rw [Data.ofJson, String.toList_ofList]

end ServerTrial
