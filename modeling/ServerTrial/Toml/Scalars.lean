import ServerTrial.Toml.Strings
import ServerTrial.Data.Basic
import ServerTrial.Protocol.Scalar
import ServerTrial.Number.Limit

/-!
# Numbers, dates and times of TOML

Each reader takes the longest prefix that is a scalar of its kind.
-/

namespace ServerTrial.Toml

/-- Why a text is not read: it is no TOML, or it goes beyond what is read. -/
inductive Error where
  | syntactic
  | digits (count : Nat)
  | nesting
  deriving DecidableEq, Repr, Inhabited

/-- A reader that says why it fails. -/
abbrev Parse (α : Type) := Except Error (α × List Char)

/-- A reader that fails on what is no TOML. -/
def Parse.ofRead {α : Type} : Read α → Parse α
  | some r => .ok r
  | none => .error .syntactic

/-- Digits of a class with single underscores between them. -/
def digitRun (isDigit : Char → Bool) : List Char → List Char × List Char
  | [] => ([], [])
  | [c] => if isDigit c then ([c], []) else ([], [c])
  | '_' :: rest => ([], '_' :: rest)
  | c :: '_' :: d :: rest =>
    if isDigit c then
      if isDigit d then
        let (ds, rest) := digitRun isDigit (d :: rest)
        (c :: ds, rest)
      else ([c], '_' :: d :: rest)
    else ([], c :: '_' :: d :: rest)
  | c :: rest =>
    if isDigit c then
      let (ds, rest) := digitRun isDigit rest
      (c :: ds, rest)
    else ([], c :: rest)

/-- A number behind a prefix that says its base. -/
def based (base : Nat) (isDigit : Char → Bool) (cs : List Char) : Read Data :=
  let (ds, rest) := digitRun isDigit cs
  if ds.isEmpty then none else some (.int (ds.foldl (fun n c => base * n + hexDigit c) 0 : Nat), rest)

/-- The whole digits of a decimal: a zero alone, or digits that do not start with one. -/
def wholeDigits : List Char → Read (List Char)
  | '0' :: rest => some (['0'], rest)
  | cs =>
    let (ds, rest) := digitRun Text.isDigit cs
    if ds.isEmpty then none else some (ds, rest)

/-- A point with digits behind it. -/
def fraction : List Char → Read (List Char)
  | '.' :: rest =>
    let (ds, rest) := digitRun Text.isDigit rest
    if ds.isEmpty then none else some (ds, rest)
  | _ => none

/-- The letter `e`, a sign if any, and digits. -/
def exponent : List Char → Read Int
  | e :: rest =>
    if e = 'e' ∨ e = 'E' then
      let (negative, rest) := Scalar.sign rest
      let (ds, rest) := digitRun Text.isDigit rest
      if ds.isEmpty then none else some (if negative then -(Scalar.value ds : Int) else Scalar.value ds, rest)
    else none
  | [] => none

/-- A decimal number, whole or with a fraction or an exponent. -/
def decimal (cs : List Char) : Parse Data :=
  let (negative, rest) := Scalar.sign cs
  match wholeDigits rest with
  | none => .error .syntactic
  | some (whole, rest) =>
    let (part, rest, isFloat) := match fraction rest with
      | some (ds, rest) => (ds, rest, true)
      | none => ([], rest, false)
    let (power, rest, isFloat) := match exponent rest with
      | some (e, rest) => (e, rest, true)
      | none => ((0 : Int), rest, isFloat)
    let digits := Scalar.value (whole ++ part)
    if isFloat then .ok (.float (Binary.ofDecimal negative digits (power - part.length)), rest)
    else if whole.length > digitLimit then .error (.digits whole.length)
    else .ok (.int (if negative then -(digits : Int) else digits), rest)

/-- A word for a float that is no number. -/
def specialFloat : List Char → Read Data
  | 'i' :: 'n' :: 'f' :: rest | '+' :: 'i' :: 'n' :: 'f' :: rest => some (.float Real64.infinity, rest)
  | '-' :: 'i' :: 'n' :: 'f' :: rest => some (.float (-Real64.infinity), rest)
  | 'n' :: 'a' :: 'n' :: rest | '+' :: 'n' :: 'a' :: 'n' :: rest | '-' :: 'n' :: 'a' :: 'n' :: rest =>
    some (.float Real64.nan, rest)
  | _ => none

/-- A number. -/
def number (cs : List Char) : Parse Data :=
  let other := match cs with
    | '0' :: 'x' :: rest => based 16 isHex rest
    | '0' :: 'b' :: rest => based 2 (fun c => c == '0' || c == '1') rest
    | '0' :: 'o' :: rest => based 8 (fun c => '0' ≤ c && c ≤ '7') rest
    | _ => none
  match other with
  | some r => .ok r
  | none =>
    match decimal cs with
    | .error .syntactic => .ofRead (specialFloat cs)
    | r => r

/-- Exactly so many digits, as a number. -/
def digitsOf (count : Nat) (cs : List Char) : Read Nat :=
  let ds := cs.take count
  if ds.length = count ∧ ds.all Text.isDigit then some (Scalar.value ds, cs.drop count) else none

/-- Two digits between bounds. -/
def twoDigits (low high : Nat) (cs : List Char) : Read Nat :=
  match digitsOf 2 cs with
  | some (n, rest) => if low ≤ n ∧ n ≤ high then some (n, rest) else none
  | none => none

def expect (c : Char) : List Char → Option (List Char)
  | d :: rest => if c = d then some rest else none
  | [] => none

/-- A fraction of a second in microseconds; further digits are dropped. -/
def micros : List Char → Nat × List Char
  | '.' :: rest =>
    let (ds, after) := rest.span Text.isDigit
    if ds.isEmpty then (0, '.' :: rest)
    else (Scalar.value ((ds ++ List.replicate 6 '0').take 6), after)
  | cs => (0, cs)

/-- Seconds behind a colon. -/
def seconds : List Char → Read Nat
  | ':' :: rest => twoDigits 0 59 rest
  | _ => none

/-- A time of day; the seconds may be left out. -/
def clock (cs : List Char) : Option (Clock × List Char) := do
  let (hour, cs) ← twoDigits 0 23 cs
  let cs ← expect ':' cs
  let (minute, cs) ← twoDigits 0 59 cs
  match seconds cs with
  | none => return (⟨hour, minute, 0, 0⟩, cs)
  | some (second, cs) =>
    let (micro, cs) := micros cs
    return (⟨hour, minute, second, micro⟩, cs)

/-- Year, month and day, not yet checked against the calendar. -/
def day (cs : List Char) : Option (Day × List Char) := do
  let (year, cs) ← digitsOf 4 cs
  let cs ← expect '-' cs
  let (month, cs) ← twoDigits 1 12 cs
  let cs ← expect '-' cs
  let (d, cs) ← twoDigits 1 31 cs
  return (⟨year, month, d⟩, cs)

/-- The offset of a time from universal time in minutes. -/
def offset : List Char → Option (Int × List Char)
  | 'Z' :: rest | 'z' :: rest => some (0, rest)
  | s :: rest =>
    if s = '+' ∨ s = '-' then do
      let (hour, cs) ← twoDigits 0 23 rest
      let cs ← expect ':' cs
      let (minute, cs) ← twoDigits 0 59 cs
      let n : Int := hour * 60 + minute
      return (if s = '-' then -n else n, cs)
    else none
  | [] => none

def isLeap (year : Nat) : Bool := year % 4 == 0 && (year % 100 != 0 || year % 400 == 0)

/-- Is there such a day? -/
def isDay (d : Day) : Bool :=
  let length :=
    if d.month = 2 then (if isLeap d.year then 29 else 28)
    else if d.month = 4 ∨ d.month = 6 ∨ d.month = 9 ∨ d.month = 11 then 30
    else 31
  1 ≤ d.year && d.day ≤ length

/-- The time behind a day, if a separator and a time follow. -/
def clockBehindDay : List Char → Read Clock
  | c :: rest => if c = 'T' ∨ c = 't' ∨ c = ' ' then clock rest else none
  | [] => none

/-- A date or a time: none if no such scalar starts here, and within that none if there is no such day. -/
def moment (cs : List Char) : Option (Read Data) :=
  match day cs with
  | some (d, rest) =>
    if !isDay d then some none
    else
      match clockBehindDay rest with
      | none => some (some (.moment (.day d), rest))
      | some (c, rest) =>
        match offset rest with
        | some (o, rest) => some (some (.moment (.zoned d c o), rest))
        | none => some (some (.moment (.civil d c), rest))
  | none =>
    match clock cs with
    | some (c, rest) => some (some (.moment (.clock c), rest))
    | none => none

end ServerTrial.Toml
